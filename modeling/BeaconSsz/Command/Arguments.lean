import BeaconSsz.Fork
import BeaconSsz.Preset
import BeaconSsz.Text.Decimal
import BeaconSsz.Trap

/-!
# Command line arguments

A command line names a command and says, by options and one operand, on which record at which
fork it works. The fork is given by name, or looked up in a chain configuration at an epoch.

Arguments are read from left to right. An option that takes a value takes it from behind an
equals sign or from the next argument; in the latter case the value is examined only when the
next option or operand, or the end, is reached. The options for the preset and for verbosity may
stand in front of the command as well as behind it; what stands behind it counts.
-/

namespace BeaconSsz.Command

/-- Why a command line is not run. -/
inductive UsageError where
  | missingRequiredArgument
  | missingSubcommand
  /-- Two arguments that exclude each other, or one given twice. -/
  | argumentConflict
  /-- A value that is not one of those that the option takes. -/
  | valueValidation
  /-- A value that is missing or empty. -/
  | invalidValue
  /-- A value for an option that takes none. -/
  | tooManyValues
  | unknownArgument
  | invalidSubcommand
  | displayHelp
  | displayVersion
  | displayHelpOnMissingArgumentOrSubcommand
  deriving DecidableEq

namespace UsageError

/-- What is shown instead of running a command. -/
def message : UsageError → String
  | missingRequiredArgument => "a required argument is missing"
  | missingSubcommand | displayHelpOnMissingArgumentOrSubcommand =>
    "a command is missing: decode, encode, root or types"
  | argumentConflict => "an argument is repeated or excludes another one"
  | valueValidation => "a value is not one of those that its option takes"
  | invalidValue => "a value is missing"
  | tooManyValues => "a value is given to an option that takes none"
  | unknownArgument => "an argument is not known"
  | invalidSubcommand => "the command is not known"
  | displayHelp => "commands: decode, encode, root, types"
  | displayVersion => "beacon-ssz"

/-- The exit code of a program that shows it. -/
def exitCode : UsageError → UInt32
  | displayHelp | displayVersion => 0
  | _ => 2

end UsageError

/-- What an option or operand is about. -/
inductive Topic where
  | preset
  | verbose
  | fork
  | config
  | epoch
  | record
  | json
  | file
  | help
  | version
  deriving DecidableEq

namespace Topic

/-- The word of an option; the file is an operand. -/
def word : Topic → String
  | preset => "preset"
  | verbose => "verbose"
  | fork => "fork"
  | config => "config"
  | epoch => "epoch"
  | record => "type"
  | json => "json"
  | file => ""
  | help => "help"
  | version => "version"

/-- The letter of an option. -/
def letter? : Topic → Option Char
  | verbose => some 'v'
  | help => some 'h'
  | version => some 'V'
  | _ => none

/-- Whether an option takes a value. -/
def takesValue : Topic → Bool
  | preset | fork | config | epoch | record | file => true
  | verbose | json | help | version => false

end Topic

/-- What has been given. -/
structure Settings where
  preset : Option Preset
  verbose : Bool
  fork : Option Fork
  config : Option String
  epoch : Option UInt64
  record : Option String
  json : Bool
  file : Option String

namespace Settings

/-- Nothing has been given. -/
def empty : Settings := ⟨none, false, none, none, none, none, false, none⟩

/-- Whether something has been given. -/
def has (settings : Settings) : Topic → Bool
  | .preset => settings.preset.isSome
  | .verbose => settings.verbose
  | .fork => settings.fork.isSome
  | .config => settings.config.isSome
  | .epoch => settings.epoch.isSome
  | .record => settings.record.isSome
  | .json => settings.json
  | .file => settings.file.isSome
  | .help | .version => false

/-- The number that digits spell, with or without a plus sign in front, if it is a word. -/
def parseWord? (text : String) : Option UInt64 :=
  let digits := match text.toList with
    | '+' :: rest => rest
    | chars => chars
  let value := Decimal.valueFrom 0 digits
  if !digits.isEmpty && digits.all Decimal.isDigit && value < wordLimit then
    some (UInt64.ofNat value)
  else none

/-- A value that must be one of those that the option takes. -/
def require {α : Type} (value : Option α) : Except UsageError α :=
  match value with
  | some value => .ok value
  | none => .error .valueValidation

/-- A path, which must not be empty. -/
def requirePath (text : String) : Except UsageError String :=
  if text.isEmpty then .error .invalidValue else .ok text

/-- Sets something that takes a value. -/
def put (settings : Settings) (text : String) : Topic → Except UsageError Settings
  | .preset => do return { settings with preset := ← require (Preset.parse? text) }
  | .fork => do return { settings with fork := ← require (Fork.parse? text) }
  | .config => do return { settings with config := ← requirePath text }
  | .epoch => do return { settings with epoch := ← require (parseWord? text) }
  | .record => .ok { settings with record := text }
  | .file => do return { settings with file := ← requirePath text }
  | .verbose | .json | .help | .version => .error .tooManyValues

/-- Turns on something that takes no value. -/
def turnOn (settings : Settings) : Topic → Except UsageError Settings
  | .verbose => .ok { settings with verbose := true }
  | .json => .ok { settings with json := true }
  | .help => .error .displayHelp
  | .version => .error .displayVersion
  | .preset | .fork | .config | .epoch | .record | .file => .error .invalidValue

end Settings

/-- The commands. -/
inductive Verb where
  | decode
  | encode
  | root
  | types
  deriving DecidableEq

namespace Verb

/-- The word for a command. -/
def word : Verb → String
  | decode => "decode"
  | encode => "encode"
  | root => "root"
  | types => "types"

/-- Every command. -/
def all : List Verb := [decode, encode, root, types]

/-- The command of a word. -/
def parse? (text : String) : Option Verb :=
  all.find? fun verb => verb.word == text

/-- Whether a command works on the record in a file. -/
def takesRecord : Verb → Bool
  | types => false
  | decode | encode | root => true

end Verb

/-- Whether a word is a command or asks for help on one. -/
def isCommand (text : String) : Bool :=
  text == "help" || (Verb.parse? text).isSome

/-- What may stand in one stretch of the command line. -/
structure Stretch where
  options : List Topic
  takesFile : Bool
  takesVerb : Bool

/-- What may stand in front of the command. -/
def leading : Stretch := ⟨[.preset, .verbose, .help, .version], false, true⟩

/-- What may stand behind a command. -/
def Verb.stretch (verb : Verb) : Stretch where
  options := [.preset, .verbose, .help, .fork, .config, .epoch] ++
    (if verb.takesRecord then [.record] else []) ++ (if verb = .root then [.json] else [])
  takesFile := verb.takesRecord
  takesVerb := false

/-- The state of reading a stretch. -/
structure Progress where
  settings : Settings
  /-- What was named last and takes a value, with the value once it has been seen. -/
  pending : Option (Topic × Option String)
  /-- Whether everything that follows is an operand. -/
  operandsOnly : Bool
  /-- Whether the operand has been seen. -/
  sawFile : Bool

namespace Progress

/-- Nothing has been read. -/
def start : Progress := ⟨.empty, none, false, false⟩

/-- Gives a value to something, which must not have been given before. -/
def assign (progress : Progress) (topic : Topic) (text : String) : Except UsageError Progress :=
  if progress.settings.has topic then .error .argumentConflict
  else do return { progress with settings := ← progress.settings.put text topic }

/-- Examines the value of what was named last. -/
def settle (progress : Progress) : Except UsageError Progress :=
  match progress.pending with
  | none => .ok progress
  | some (topic, some text) => assign { progress with pending := none } topic text
  | some (_, none) => .error .invalidValue

/-- Whether the next argument may be the value of what was named last. -/
def awaitsValue (progress : Progress) : Bool :=
  match progress.pending with
  | some (_, none) => true
  | _ => false

/-- Turns on an option that takes no value. -/
def flag (progress : Progress) (topic : Topic) : Except UsageError Progress := do
  let progress ← progress.settle
  if progress.settings.has topic then throw .argumentConflict
  return { progress with settings := ← progress.settings.turnOn topic }

/-- Reads the word of an option, with the value behind its equals sign if there is one. -/
def readWord (stretch : Stretch) (progress : Progress) (word : String)
    (attached : Option String) : Except UsageError Progress :=
  match stretch.options.find? (·.word == word) with
  | none => .error .unknownArgument
  | some topic =>
    if topic.takesValue then do
      let progress ← progress.settle
      match attached with
      | some text => progress.assign topic text
      | none => return { progress with pending := some (topic, none) }
    else if attached.isSome then .error .tooManyValues
    else progress.flag topic

/-- Reads the letters of options that take no values. -/
def readLetters (stretch : Stretch) (progress : Progress) :
    List Char → Except UsageError Progress
  | [] => .ok progress
  | c :: rest =>
    match stretch.options.find? (·.letter? == some c) with
    | none => .error .unknownArgument
    | some topic => do
      let progress ← progress.flag topic
      readLetters stretch progress rest

/-- Reads an operand. -/
def readOperand (stretch : Stretch) (progress : Progress) (text : String) :
    Except UsageError Progress :=
  if stretch.takesFile && !progress.sawFile then do
    let progress ← progress.settle
    return { progress with pending := some (.file, some text), sawFile := true }
  else if stretch.takesVerb && !(progress.operandsOnly && isCommand text) then
    .error .invalidSubcommand
  else .error .unknownArgument

/-- The characters up to an equals sign, and those behind it if there is one. -/
def splitAtEquals (text : List Char) : String × Option String :=
  match text.span (· ≠ '=') with
  | (word, []) => (String.ofList word, none)
  | (word, _ :: value) => (String.ofList word, some (String.ofList value))

/-- Reads an argument that is not a command. -/
def readArgument (stretch : Stretch) (progress : Progress) (text : String) :
    Except UsageError Progress :=
  if progress.operandsOnly then progress.readOperand stretch text
  else
    match text.toList with
    | ['-', '-'] => .ok { progress with operandsOnly := true }
    | '-' :: '-' :: rest =>
      let (word, attached) := splitAtEquals rest
      progress.readWord stretch word attached
    | '-' :: c :: rest => progress.readLetters stretch (c :: rest)
    | _ =>
      match progress.pending with
      | some (topic, none) => .ok { progress with pending := some (topic, some text) }
      | _ => progress.readOperand stretch text

end Progress

/-- Reads arguments up to a word that may be a command, if the stretch ends with one. -/
def readStretch (stretch : Stretch) (progress : Progress) :
    List String → Except UsageError (Progress × Option (String × List String))
  | [] => .ok (progress, none)
  | text :: rest =>
    if stretch.takesVerb && !progress.operandsOnly && !progress.awaitsValue && isCommand text then
      .ok (progress, some (text, rest))
    else do
      let progress ← progress.readArgument stretch text
      readStretch stretch progress rest

/-- Where the fork comes from. -/
inductive ForkChoice where
  | named (fork : Fork)
  /-- The fork of an epoch, by the chain configuration in a file. -/
  | scheduled (config : String) (epoch : UInt64)
  deriving DecidableEq

/-- What is to be done. -/
inductive Task where
  | decode (choice : ForkChoice) (record file : String)
  | encode (choice : ForkChoice) (record file : String)
  | root (choice : ForkChoice) (record : String) (json : Bool) (file : String)
  | types (choice : ForkChoice)
  deriving DecidableEq

/-- A command line that has been read. -/
structure Invocation where
  preset : Preset
  verbose : Bool
  task : Task
  deriving DecidableEq

/-- Something that must be given. -/
def required {α : Type} (value : Option α) : Except UsageError α :=
  match value with
  | some value => .ok value
  | none => .error .missingRequiredArgument

/-- Where the fork comes from. A name and a configuration exclude each other, and a configuration
and an epoch belong together, but beside a name an epoch is not used. -/
def Settings.choice (settings : Settings) : Except UsageError ForkChoice :=
  match settings.fork, settings.config, settings.epoch with
  | some _, some _, _ => .error .argumentConflict
  | some fork, none, _ => .ok (.named fork)
  | none, some config, some epoch => .ok (.scheduled config epoch)
  | none, _, _ => .error .missingRequiredArgument

/-- What is to be done for a command. -/
def Settings.task (settings : Settings) (verb : Verb) : Except UsageError Task := do
  let choice ← settings.choice
  match verb with
  | .types => return .types choice
  | .decode => return .decode choice (← required settings.record) (← required settings.file)
  | .encode => return .encode choice (← required settings.record) (← required settings.file)
  | .root =>
    return .root choice (← required settings.record) settings.json (← required settings.file)

/-- Reads what stands behind a command. -/
def readTask (verb : Verb) (arguments : List String) : Except UsageError (Settings × Task) := do
  let (progress, _) ← readStretch verb.stretch .start arguments
  let progress ← progress.settle
  return (progress.settings, ← progress.settings.task verb)

/-- What asking for help on words shows: each word must be a command of the one before. -/
def helpOn : List String → UsageError
  | [] | ["help"] => .displayHelp
  | [word] => if (Verb.parse? word).isSome then .displayHelp else .invalidSubcommand
  | _ => .invalidSubcommand

/-- Reads a command line. -/
def parseArguments (arguments : List String) : Except UsageError Invocation := do
  let (progress, command) ← readStretch leading .start arguments
  match command with
  | none =>
    let progress ← progress.settle
    if progress.settings.preset.isNone && !progress.settings.verbose then
      throw .displayHelpOnMissingArgumentOrSubcommand
    throw .missingSubcommand
  | some (word, rest) =>
    match Verb.parse? word with
    | none => throw (helpOn rest)
    | some verb =>
      let (settings, task) ← readTask verb rest
      let progress ← progress.settle
      return {
        preset := (settings.preset.orElse fun _ => progress.settings.preset).getD .mainnet
        verbose := settings.verbose || progress.settings.verbose
        task }

end BeaconSsz.Command
