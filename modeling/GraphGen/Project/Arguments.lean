/-
The arguments of the command line.

- `Command`: what is asked for; `Invocation` adds how much is told about it.
- `UsageError`: why arguments ask for nothing. Asking for help or for the version is among the reasons.
- `Invocation.parse`: what arguments ask for.

Switches may stand before the name of the command and behind it. They are read from left to right in `Seen`. The value
of `--config` may follow in an argument of its own; it is entered only when the next known switch is met or the
arguments end, so that an unknown switch is refused before a missing value.
-/
import GraphGen.Text.Pieces

namespace GraphGen

/-- what the program is asked to do -/
inductive Command where
  /-- generate every output of a project file -/
  | generate (config : String)
  /-- check a project without writing -/
  | check (config : String)
  /-- list the plugins -/
  | plugins
  | version
  deriving DecidableEq, Inhabited

/-- how much is told on standard output -/
structure Verbosity where
  verbose : Bool
  quiet : Bool
  deriving DecidableEq, Inhabited

/-- a command and how much is told about it -/
structure Invocation where
  command : Command
  verbosity : Verbosity
  deriving DecidableEq, Inhabited

/-- why arguments ask for nothing that can be done -/
inductive UsageError where
  | displayHelp
  | displayVersion
  /-- there are no arguments -/
  | helpOnMissing
  | missingCommand
  | invalidCommand
  | unknownArgument
  | invalidValue
  | tooManyValues
  | argumentConflict
  deriving DecidableEq, Inhabited

/-- the project file when none is named -/
def defaultConfig : String := "codegen.json"

/-! ## Switches -/

/-- what starts with a hyphen -/
inductive Switch where
  | verbose
  | quiet
  | help
  | version
  | config
  deriving DecidableEq, Inhabited

namespace Switch

/-- the word of the long form -/
def word : Switch → String
  | verbose => "verbose"
  | quiet => "quiet"
  | help => "help"
  | version => "version"
  | config => "config"

/-- the letter of the short form -/
def letter : Switch → Char
  | verbose => 'v'
  | quiet => 'q'
  | help => 'h'
  | version => 'V'
  | config => 'c'

end Switch

/-- a long switch cut into its word and the value attached to it -/
def cutLong (arg : String) : String × Option String :=
  let body := String.ofList (arg.toList.drop 2)
  match Text.splitOnce? "=" body with
  | some (word, value) => (word, some value)
  | none => (body, none)

/-- whether an argument is a long switch -/
def isLong (arg : String) : Bool :=
  Text.startsWith "--" arg

/-- whether an argument is a group of short switches -/
def isShort (arg : String) : Bool :=
  Text.startsWith "-" arg && arg != "-"

/-! ## Reading switches -/

/-- the value of an option: whether one is awaited, and the one that follows -/
inductive Pending where
  | nothing
  | awaited
  | held (value : String)
  deriving DecidableEq, Inhabited

/-- the switches that were read at one level -/
structure Seen where
  verbose : Bool := false
  quiet : Bool := false
  config : Option String := none
  pending : Pending := .nothing
  deriving DecidableEq, Inhabited

namespace Seen

/-- enters the project file, which may be named once -/
def enterConfig (seen : Seen) (value : String) : Except UsageError Seen :=
  if seen.config.isSome then .error .argumentConflict
  else if value.isEmpty then .error .invalidValue
  else .ok { seen with config := some value }

/-- enters the value that is held; one that is still awaited is missing -/
def settle (seen : Seen) : Except UsageError Seen :=
  match seen.pending with
  | .nothing => .ok seen
  | .awaited => .error .invalidValue
  | .held value => enterConfig { seen with pending := .nothing } value

/-- a switch without a value -/
def flip (seen : Seen) (switch : Switch) : Except UsageError Seen := do
  let seen ← seen.settle
  match switch with
  | .verbose => if seen.verbose then throw .argumentConflict else pure { seen with verbose := true }
  | .quiet => if seen.quiet then throw .argumentConflict else pure { seen with quiet := true }
  | .help => throw .displayHelp
  | .version => throw .displayVersion
  | .config => pure { seen with pending := .awaited }

/-- the project file with its value attached -/
def attach (seen : Seen) (value : String) : Except UsageError Seen := do
  let seen ← seen.settle
  seen.enterConfig value

/-- a long switch -/
def long (switches : List Switch) (seen : Seen) (arg : String) : Except UsageError Seen :=
  let (word, value?) := cutLong arg
  match switches.find? (·.word = word), value? with
  | none, _ => .error .unknownArgument
  | some .config, some value => seen.attach value
  | some _, some _ => .error .tooManyValues
  | some switch, none => seen.flip switch

/-- short switches that stand together; an option takes what is left as its value -/
def short (switches : List Switch) (seen : Seen) : List Char → Except UsageError Seen
  | [] => .ok seen
  | c :: rest =>
    match switches.find? (·.letter = c), rest with
    | none, _ => .error .unknownArgument
    | some .config, '=' :: value => seen.attach (String.ofList value)
    | some .config, d :: value => seen.attach (String.ofList (d :: value))
    | some switch, rest =>
      match seen.flip switch with
      | .error error => .error error
      | .ok seen => short switches seen rest

/-- an argument that starts with a hyphen -/
def switch (switches : List Switch) (seen : Seen) (arg : String) : Except UsageError Seen :=
  if isLong arg then seen.long switches arg else seen.short switches (arg.toList.drop 1)

end Seen

/-! ## Commands -/

/-- the commands without what they are asked with -/
inductive CommandName where
  | generate
  | check
  | plugins
  | version
  | help
  deriving DecidableEq, Inhabited

/-- the command of a word -/
def commandName? : String → Option CommandName
  | "generate" => some .generate
  | "gen" => some .generate
  | "check" => some .check
  | "plugins" => some .plugins
  | "version" => some .version
  | "help" => some .help
  | _ => none

/-- the switches behind the name of a command -/
def CommandName.switches : CommandName → List Switch
  | generate => [.verbose, .quiet, .help, .config]
  | check => [.verbose, .quiet, .help, .config]
  | plugins => [.verbose, .quiet, .help]
  | version => [.verbose, .quiet, .help]
  | help => []

/-- the switches before the name of a command -/
def topSwitches : List Switch := [.verbose, .quiet, .help, .version]

namespace Seen

/-- the arguments behind the name of a command, which are all switches or values of them -/
def arguments (switches : List Switch) (seen : Seen) : List String → Except UsageError Seen
  | [] => seen.settle
  | arg :: rest =>
    if arg = "--" then
      if rest.isEmpty then seen.settle else .error .unknownArgument
    else if isShort arg then
      match seen.switch switches arg with
      | .error error => .error error
      | .ok seen => arguments switches seen rest
    else if seen.pending = .awaited then arguments switches { seen with pending := .held arg } rest
    else .error .unknownArgument

/-- the switches of both levels, those behind the name of the command in `inner` -/
def verbosity (outer inner : Seen) : Verbosity :=
  ⟨outer.verbose || inner.verbose, outer.quiet || inner.quiet⟩

end Seen

/-- what is asked of the help command: help on nothing or on one command -/
def helpAnswer : List String → UsageError
  | [] => .displayHelp
  | [word] => if (commandName? word).isSome then .displayHelp else .invalidCommand
  | _ => .invalidCommand

/-- a command with the arguments behind its name -/
def commandOf (name : CommandName) (outer : Seen) (args : List String) : Except UsageError Invocation :=
  match name with
  | .help => .error (helpAnswer args)
  | name => do
    let inner ← ({} : Seen).arguments name.switches args
    let config := inner.config.getD defaultConfig
    let command : Command := match name with
      | .generate => .generate config
      | .check => .check config
      | .plugins => .plugins
      | _ => .version
    pure ⟨command, outer.verbosity inner⟩

/-- what is missing when no command is named -/
def noCommand (seen : Seen) : UsageError :=
  if seen.verbose || seen.quiet then .missingCommand else .helpOnMissing

/-- why an argument behind two hyphens names no command -/
def behindHyphens (seen : Seen) : List String → UsageError
  | [] => noCommand seen
  | arg :: _ => if (commandName? arg).isSome then .unknownArgument else .invalidCommand

/-- reads switches up to the name of a command -/
def parseFrom (seen : Seen) : List String → Except UsageError Invocation
  | [] => .error (noCommand seen)
  | arg :: rest =>
    if arg = "--" then .error (behindHyphens seen rest)
    else if isShort arg then
      match seen.switch topSwitches arg with
      | .error error => .error error
      | .ok seen => parseFrom seen rest
    else
      match commandName? arg with
      | some name => commandOf name seen rest
      | none => .error .invalidCommand

/-- what arguments ask for -/
def Invocation.parse (args : List String) : Except UsageError Invocation :=
  parseFrom {} args

end GraphGen
