import ClaimStore.Prelude
/-!
# The command line

After the program's name, the operator's command line is `[OPTIONS] <COMMAND> [ARGS]`. The
options `-c, --config <PATH>` (default `crepo.toml`), `-v, --verbose` and `--format <text|json>`
(default `text`) may stand before or after the command; `-h, --help` asks for help anywhere and
`-V, --version` for the version before the command. The commands are `init`, `stats`, `import <FILE>
[--loss-tolerant]`, `export <CONTAINER> <SECTION> <ID> <OFFSET> <LENGTH> <DEST> [--append]`,
`cleanup`, `expire`, `purge [--yes]`, and `help [COMMAND]`.

Words are read from left to right. A word that names a command is the command, unless an option
waits for its value. `--` makes every later word a value. A long option takes its value after `=`
or as the next word, a short one as the rest of its word (after an optional `=`) or the next
word; short flags can share one word. An option given twice on one level is a conflict. A word
starting with a hyphen is a value where the next value may start with one (the length of
`export`) and the word is no option there.

A value is checked when the next option or value is read, or once the level's words are read:
paths must not be empty, the offset is an unsigned and the length a signed 64-bit number, the
format `text` or `json`. A word that cannot be read at all is refused before that check. Once
a level's words are read, its last value is checked, then a missing value of the command; the
command's level is settled before the level above it, which then refuses a missing command.
-/

namespace ClaimStore.Cli

/-- How results are printed. -/
inductive Format where
  | text
  | json
  deriving DecidableEq, Repr

/-- What the operator asks for. -/
inductive Command where
  /-- Lay out the containers. -/
  | init
  /-- Show each container's space and claim counts. -/
  | stats
  /-- Store a file as a new content claim. -/
  | importFile (file : String) (lossTolerant : Bool)
  /-- Copy a content claim's bytes to a file. -/
  | exportClaim (container sectionName id : String) (offset : Nat) (length : Int) (dest : String)
      (append : Bool)
  /-- Archive or remove the files no claim refers to. -/
  | cleanup
  /-- Delete expired archived files. -/
  | expire
  /-- Delete everything, when confirmed. -/
  | purge (confirmed : Bool)
  deriving DecidableEq, Repr

/-- A command with the options it runs under. -/
structure Invocation where
  command : Command
  config : String
  verbose : Bool
  format : Format
  deriving DecidableEq, Repr

/-- Why a command line is not run; asking for help or for the version is one such outcome. -/
inductive Refusal where
  | displayHelp
  | displayVersion
  | helpOnMissing
  | missingSubcommand
  | invalidSubcommand
  | unknownArgument
  | invalidValue
  | valueValidation
  | missingRequired
  | argumentConflict
  | tooManyValues
  deriving DecidableEq, Repr

/-- The name of a refusal's kind. -/
def Refusal.name : Refusal → String
  | .displayHelp => "DisplayHelp"
  | .displayVersion => "DisplayVersion"
  | .helpOnMissing => "DisplayHelpOnMissingArgumentOrSubcommand"
  | .missingSubcommand => "MissingSubcommand"
  | .invalidSubcommand => "InvalidSubcommand"
  | .unknownArgument => "UnknownArgument"
  | .invalidValue => "InvalidValue"
  | .valueValidation => "ValueValidation"
  | .missingRequired => "MissingRequiredArgument"
  | .argumentConflict => "ArgumentConflict"
  | .tooManyValues => "TooManyValues"

/-- The commands by name. -/
inductive Verb where
  | init
  | stats
  | importFile
  | exportClaim
  | cleanup
  | expire
  | purge
  deriving DecidableEq, Repr

/-- A command by its name. -/
def Verb.ofName? : String → Option Verb
  | "init" => some .init
  | "stats" => some .stats
  | "import" => some .importFile
  | "export" => some .exportClaim
  | "cleanup" => some .cleanup
  | "expire" => some .expire
  | "purge" => some .purge
  | _ => none

/-- Whether a word names a command, `help` included. -/
def namesCommand (w : String) : Bool := w == "help" || (Verb.ofName? w).isSome

/-- The options. -/
inductive Opt where
  | config
  | verbose
  | format
  | help
  | version
  | lossTolerant
  | append
  | yes
  deriving DecidableEq, Repr

/-- Whether an option takes a value. -/
def Opt.takesValue : Opt → Bool
  | .config | .format => true
  | _ => false

/-- The kinds of a command's values. -/
inductive Slot where
  /-- Any text. -/
  | text
  /-- A path, which must not be empty. -/
  | path
  /-- An unsigned 64-bit number. -/
  | unsigned
  /-- A signed 64-bit number; it may start with a hyphen. -/
  | signed
  deriving DecidableEq, Repr

/-- The values a command takes, in order; all are required. -/
def Verb.slots : Verb → List Slot
  | .importFile => [.path]
  | .exportClaim => [.text, .text, .text, .unsigned, .signed, .path]
  | _ => []

/-- The level a word is read on: before the command, or the command's own. -/
inductive Level where
  | top
  | verb (v : Verb)
  deriving DecidableEq, Repr

/-- The option a long name stands for on a level. -/
def longOpt : Level → String → Option Opt
  | _, "config" => some .config
  | _, "verbose" => some .verbose
  | _, "format" => some .format
  | _, "help" => some .help
  | .top, "version" => some .version
  | .verb .importFile, "loss-tolerant" => some .lossTolerant
  | .verb .exportClaim, "append" => some .append
  | .verb .purge, "yes" => some .yes
  | _, _ => none

/-- The option a short letter stands for on a level. -/
def shortOpt : Level → Char → Option Opt
  | _, 'c' => some .config
  | _, 'v' => some .verbose
  | _, 'h' => some .help
  | .top, 'V' => some .version
  | _, _ => none

/-- The value kinds of a level. -/
def Level.slots : Level → List Slot
  | .top => []
  | .verb v => v.slots

/-- Digits only, at least one. -/
def allDigits (s : String) : Bool := !s.isEmpty && s.all Char.isDigit

/-- The value of a run of decimal digits. -/
def digitsValue (s : String) : Nat := s.foldl (fun n d => 10 * n + (d.toNat - 48)) 0

/-- An unsigned 64-bit number: digits after an optional plus sign. -/
def parseUnsigned? (s : String) : Option Nat :=
  let body := if s.startsWith "+" then s.drop 1 else s.toSlice
  if allDigits body.copy && digitsValue body.copy < 2 ^ 64 then some (digitsValue body.copy)
  else none

/-- A signed 64-bit number: digits after an optional sign. -/
def parseSigned? (s : String) : Option Int :=
  if s.startsWith "-" then
    let body := (s.drop 1).copy
    if allDigits body && digitsValue body ≤ 2 ^ 63 then some (-(digitsValue body : Int)) else none
  else
    let body := (if s.startsWith "+" then s.drop 1 else s.toSlice).copy
    if allDigits body && digitsValue body < 2 ^ 63 then some (digitsValue body) else none

/-- Checks a command's value. -/
def checkSlot (slot : Slot) (w : String) : Except Refusal Unit :=
  match slot with
  | .text => pure ()
  | .path => if w.isEmpty then throw .invalidValue else pure ()
  | .unsigned => if (parseUnsigned? w).isSome then pure () else throw .valueValidation
  | .signed => if (parseSigned? w).isSome then pure () else throw .valueValidation

/-- Checks an option's value. -/
def checkOptValue (o : Opt) (w : String) : Except Refusal Unit :=
  match o with
  | .format => if w == "text" || w == "json" then pure () else throw .invalidValue
  | _ => if w.isEmpty then throw .invalidValue else pure ()

/-- A word read but not yet checked: an option with its value once read, or a command's value
with the kind of its slot. -/
inductive Held where
  | opt (o : Opt) (value : Option String)
  | slot (kind : Slot) (value : String)
  deriving Repr

/-- What one level has read so far. -/
structure Scan where
  /-- Option values, in the order given. -/
  values : List (Opt × String) := []
  flags : List Opt := []
  /-- The command's values, in order; the last may still be held. -/
  positionals : List String := []
  /-- The word read last, until the next option or value checks it. -/
  held : Option Held := none
  /-- A `--` was read: every later word is a value. -/
  escaped : Bool := false
  deriving Repr

namespace Scan

/-- Whether an option waits for its value. -/
def awaiting (s : Scan) : Bool :=
  match s.held with
  | some (.opt _ none) => true
  | _ => false

/-- Takes an option with the values read for it. An option that takes a value needs one and is
given once, and its value must pass the option's check; a flag is given once, and help or the
version end the reading. -/
def takeOption (s : Scan) (o : Opt) (vals : List String) : Except Refusal Scan :=
  if o.takesValue then
    match vals with
    | [] => throw .invalidValue
    | v :: _ => do
      if s.values.any (·.1 == o) then throw .argumentConflict
      checkOptValue o v
      pure { s with values := s.values ++ [(o, v)] }
  else do
    if o == .help then throw .displayHelp
    if o == .version then throw .displayVersion
    if s.flags.contains o then throw .argumentConflict
    pure { s with flags := s.flags ++ [o] }

/-- Checks the held word, if any. -/
def resolve (s : Scan) : Except Refusal Scan :=
  match s.held with
  | none => pure s
  | some (.opt o v) => { s with held := none }.takeOption o v.toList
  | some (.slot k w) => do
    checkSlot k w
    pure { s with held := none }

/-- Reads a value that belongs to no option: the level's next value. Before the command there
are none, so the word is an unknown command (or, after `--`, a misplaced one). The word read
before is checked first, unless this one is refused. -/
def positional (lvl : Level) (s : Scan) (w : String) : Except Refusal Scan :=
  match lvl.slots[s.positionals.length]? with
  | none =>
    throw (match lvl with
      | .top => if s.escaped && namesCommand w then .unknownArgument else .invalidSubcommand
      | .verb _ => .unknownArgument)
  | some slot => do
    let s ← s.resolve
    pure { s with positionals := s.positionals ++ [w], held := some (.slot slot w) }

/-- Reads a value: the waiting option's, or the level's next one. -/
def value (lvl : Level) (s : Scan) (w : String) : Except Refusal Scan :=
  match s.held with
  | some (.opt o none) => pure { s with held := some (.opt o (some w)) }
  | _ => s.positional lvl w

/-- Reads an option met on the command line, with the value written in its word, if any; the
word read before is checked first. A flag with a value is refused as it stands. -/
def option (s : Scan) (o : Opt) (attached : Option String) : Except Refusal Scan := do
  if !o.takesValue && attached.isSome then throw .tooManyValues
  let s ← s.resolve
  match o.takesValue, attached with
  | true, some w => s.takeOption o [w]
  | true, none => pure { s with held := some (.opt o none) }
  | false, _ => s.takeOption o []

/-- Reads the letters of a short word after its hyphen. -/
def shorts (lvl : Level) : Scan → List Char → Except Refusal Scan
  | s, [] => pure s
  | s, c :: rest =>
    match shortOpt lvl c with
    | none => throw .unknownArgument
    | some o =>
      if o.takesValue then
        s.option o (match rest with
          | [] => none
          | '=' :: more => some (String.ofList more)
          | more => some (String.ofList more))
      else do
        let s ← s.option o none
        shorts lvl s rest

/-- The option name of a long word, before any `=`. -/
def longName (w : String) : String := (((w.drop 2).copy).splitOn "=").headD ""

/-- Whether a hyphen word is the level's next value: that value may start with a hyphen (the
length of `export`), and the word is no option: a long word names none, a short word has a
letter that is none. -/
def hyphenValue (lvl : Level) (s : Scan) (w : String) : Bool :=
  lvl.slots[s.positionals.length]? == some .signed &&
    if w.startsWith "--" then (longOpt lvl (longName w)).isNone
    else ((w.drop 1).copy.toList.any fun c => (shortOpt lvl c).isNone)

/-- Reads one word that is neither a command's name nor `--`. -/
def word (lvl : Level) (s : Scan) (w : String) : Except Refusal Scan :=
  if w.startsWith "-" && w.length > 1 && !s.hyphenValue lvl w then
    if w.startsWith "--" then
      let name := longName w
      let body := (w.drop 2).copy
      let attached := if body.contains '=' then some ((body.drop (name.length + 1)).copy) else none
      match longOpt lvl name with
      | some o => s.option o attached
      | none => throw .unknownArgument
    else s.shorts lvl (w.drop 1).copy.toList
  else s.value lvl w

end Scan

/-- Reads the words of a level. Before the command, a word naming a command ends the level,
unless an option waits for its value: the answer then holds that name and the words after
it. -/
def scanLevel (lvl : Level) : Scan → List String → Except Refusal (Scan × Option (String × List String))
  | s, [] => pure (s, none)
  | s, w :: rest =>
    if s.escaped then do scanLevel lvl (← s.positional lvl w) rest
    else if lvl == .top && !s.awaiting && namesCommand w then pure (s, some (w, rest))
    else if w == "--" then scanLevel lvl { s with escaped := true } rest
    else do scanLevel lvl (← s.word lvl w) rest

/-- `help` followed by a command's name: help, when the name exists. Commands have no
commands of their own, so a second name is never found. -/
def helpFor : List String → Refusal
  | [] => .displayHelp
  | [w] => if namesCommand w then .displayHelp else .invalidSubcommand
  | _ :: _ :: _ => .invalidSubcommand

/-- An option's value on a level. -/
def Scan.valueOf (s : Scan) (o : Opt) : Option String := (s.values.find? (·.1 == o)).map (·.2)

/-- The command a command's name and values stand for. -/
def commandOf (v : Verb) (s : Scan) : Command :=
  let p := fun n => s.positionals.getD n ""
  match v with
  | .init => .init
  | .stats => .stats
  | .importFile => .importFile (p 0) (s.flags.contains .lossTolerant)
  | .exportClaim =>
    .exportClaim (p 0) (p 1) (p 2) ((parseUnsigned? (p 3)).getD 0) ((parseSigned? (p 4)).getD 0)
      (p 5) (s.flags.contains .append)
  | .cleanup => .cleanup
  | .expire => .expire
  | .purge => .purge (s.flags.contains .yes)

/-- Reads a command line (without the program's name). -/
def parseArgs (args : List String) : Except Refusal Invocation := do
  let (top, found) ← scanLevel .top {} args
  match found with
  | none =>
    let top ← top.resolve
    if top.values.isEmpty && top.flags.isEmpty then throw .helpOnMissing
    throw .missingSubcommand
  | some (name, rest) =>
    let some v := Verb.ofName? name | throw (helpFor rest)
    let (sub, _) ← scanLevel (.verb v) {} rest
    let sub ← sub.resolve
    if sub.positionals.length < v.slots.length then throw .missingRequired
    let top ← top.resolve
    let pick := fun o => (sub.valueOf o).orElse fun _ => top.valueOf o
    pure { command := commandOf v sub
           config := (pick .config).getD "crepo.toml"
           verbose := sub.flags.contains .verbose || top.flags.contains .verbose
           format := if pick .format == some "json" then .json else .text }

end ClaimStore.Cli
