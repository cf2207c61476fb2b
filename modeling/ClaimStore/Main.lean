import ClaimStore.Cli.Usage
import ClaimStore.Cli.Commands
import ClaimStore.Script.Clock
/-!
# The command line

`crepo [OPTIONS] <COMMAND>` run on the library's model of a machine. The model's disk starts
with the files the command line names, as read from this machine: the settings file, and the
file an import reads or an export appends to. The command runs there, so nothing on this
machine changes. What the command prints goes to standard output; a failure is printed to
standard error after `Error: `, and the run ends with the command's status.
-/

/-- The bytes of a file of this machine, when it can be read. -/
def readLocalFile (path : String) : IO (Option ByteArray) := do
  try pure (some (← IO.FS.readBinFile path)) catch _ => pure none

/-- Runs one command line. -/
def main (args : List String) : IO UInt32 := do
  match ClaimStore.Cli.parseArgs args with
  | .error r =>
    if r.toStdout then IO.print r.message else IO.eprint r.message
    pure r.exitCode
  | .ok inv =>
    let files ← inv.namedFiles.filterMapM fun path => do
      pure ((← readLocalFile path).map fun bytes => (path, bytes))
    let start := ClaimStore.Script.startMillis
    let host := ClaimStore.Host.create (ClaimStore.Cli.machineWith start files) start
    let (outcome, _) := ClaimStore.Cli.runInvocation inv host
    IO.print outcome.stdout
    if let some e := outcome.error then IO.eprintln ("Error: " ++ e)
    pure outcome.exitCode
