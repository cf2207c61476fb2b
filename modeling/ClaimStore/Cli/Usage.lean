import ClaimStore.Cli.Args
/-!
# What a refused command line prints

Help and the version are printed to standard output and end the run with status 0. Help asked
for by giving nothing is printed to standard error, as is every other refusal, and those end the
run with status 2. A refusal's message names its kind, then shows the command line's form and
points to `--help`.
-/

namespace ClaimStore.Cli

/-- The program's name and version. -/
def versionText : String := "crepo 0.1.0\n"

/-- The form of a command line. -/
def usageLine : String := "Usage: crepo [OPTIONS] <COMMAND>\n"

/-- The program's help: what it is, its commands and its options. -/
def helpText : String :=
  "crepo -- file system content repository\n\n" ++ usageLine ++ "\n" ++
  "Commands:\n" ++
  "  init     Create the container and section directories\n" ++
  "  stats    Show capacity, free space and archived files per container\n" ++
  "  import   Store a file as a new content claim\n" ++
  "  export   Copy the bytes of a content claim to a file\n" ++
  "  cleanup  Archive or remove resource claim files nothing references\n" ++
  "  expire   Delete expired archived files in every container\n" ++
  "  purge    Delete every live and archived file\n" ++
  "  help     Print this message or the help of the given subcommand(s)\n\n" ++
  "Options:\n" ++
  "  -c, --config <CONFIG>  Repository configuration (TOML) [default: crepo.toml]\n" ++
  "  -v, --verbose\n" ++
  "      --format <FORMAT>  [default: text] [possible values: text, json]\n" ++
  "  -h, --help             Print help\n" ++
  "  -V, --version          Print version\n"

namespace Refusal

/-- The sentence that names what is wrong with a command line. -/
def sentence : Refusal → String
  | .displayHelp | .displayVersion | .helpOnMissing => ""
  | .missingSubcommand => "a command is required but none was given"
  | .invalidSubcommand => "unrecognized command"
  | .unknownArgument => "unexpected argument found"
  | .invalidValue => "invalid value for an option"
  | .valueValidation => "invalid value for a command argument"
  | .missingRequired => "the following required arguments were not provided"
  | .argumentConflict => "an argument was given more than once"
  | .tooManyValues => "unexpected value for a flag"

/-- Whether a refusal is printed to standard output: only asked-for help and the version are. -/
def toStdout : Refusal → Bool
  | .displayHelp | .displayVersion => true
  | _ => false

/-- The status a refused run ends with. -/
def exitCode (r : Refusal) : UInt32 := if r.toStdout then 0 else 2

/-- What a refused run prints. -/
def message : Refusal → String
  | .displayHelp | .helpOnMissing => helpText
  | .displayVersion => versionText
  | r => "error: " ++ r.sentence ++ "\n\n" ++ usageLine ++ "\n" ++
      "For more information, try \x27--help\x27.\n"

end Refusal

end ClaimStore.Cli
