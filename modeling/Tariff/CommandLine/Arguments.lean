/-
# Arguments

The program has two commands, each with options of its own; a few options belong to the
program and may stand before or after the command. An option's value may stand behind it or be
attached to it. An option's value is taken in when the next option comes or the arguments end,
unless it is attached, so that of two faults the first one that is noticed counts.
-/
import Tariff.Calendar.Text

namespace Tariff

/-! ## Options -/

/-- An option of the program or of a command. -/
inductive OptionName where
  | rules
  | parameters
  | country
  | date
  | metrics
  | logLevel
  | jsonLogs
  | help
  | version
  deriving DecidableEq

namespace OptionName

/-- The long form, which follows two dashes. -/
def long : OptionName → String
  | .rules => "rules"
  | .parameters => "params"
  | .country => "country"
  | .date => "date"
  | .metrics => "metrics"
  | .logLevel => "log-level"
  | .jsonLogs => "json-logs"
  | .help => "help"
  | .version => "version"

/-- The short form, which follows one dash. -/
def short? : OptionName → Option Char
  | .rules => some 'r'
  | .parameters => some 'p'
  | .country => some 'c'
  | .date => some 'd'
  | .metrics => none
  | .logLevel => some 'l'
  | .jsonLogs => none
  | .help => some 'h'
  | .version => some 'V'

/-- Whether the option has a value. -/
def takesValue : OptionName → Bool
  | .rules | .parameters | .country | .date | .logLevel => true
  | .metrics | .jsonLogs | .help | .version => false

end OptionName

/-- What arguments are about: the program before its command, or a command. -/
inductive ArgumentLevel where
  | program
  | estimate
  | validate
  deriving DecidableEq

namespace ArgumentLevel

/-- The options that are known at a level. -/
def options : ArgumentLevel → List OptionName
  | .program => [.logLevel, .jsonLogs, .help, .version]
  | .estimate =>
    [.rules, .parameters, .country, .date, .metrics, .logLevel, .jsonLogs, .help, .version]
  | .validate => [.rules, .logLevel, .jsonLogs, .help, .version]

/-- The command of a name. -/
def ofName? : String → Option ArgumentLevel
  | "estimate" => some .estimate
  | "validate" => some .validate
  | _ => none

end ArgumentLevel

/-! ## What stops the reading of arguments -/

/-- What a reader can ask help about. -/
inductive HelpTopic where
  | level (level : ArgumentLevel)
  | help
  deriving DecidableEq

/-- Why arguments do not amount to a command that can be carried out. -/
inductive ArgumentStop where
  | help (topic : HelpTopic)
  | version (level : ArgumentLevel)
  | noArguments
  | noCommand
  | unknownCommand
  | unknownArgument
  | optionMissing
  | valueMissing
  | superfluousValue
  | badDate
  | repeatedOption
  deriving DecidableEq

/-! ## Values of options -/

/-- The options that were given. -/
structure Given where
  rules : Option String := none
  parameters : Option String := none
  countries : List String := []
  date : Option Date := none
  metrics : Bool := false
  logLevel : Option String := none
  jsonLogs : Bool := false

namespace Given

/-- The path of a file, which must not be empty and is given once. -/
def path (before : Option String) (text : String) : Except ArgumentStop (Option String) :=
  if before.isSome then .error .repeatedOption
  else if text.isEmpty then .error .valueMissing
  else .ok (some text)

/-- Takes in an option with its value. -/
def assign (given : Given) (option : OptionName) (text : String) : Except ArgumentStop Given :=
  match option with
  | .rules => (path given.rules text).map fun value => { given with rules := value }
  | .parameters => (path given.parameters text).map fun value => { given with parameters := value }
  | .country => .ok { given with countries := given.countries ++ [text] }
  | .date =>
    if given.date.isSome then .error .repeatedOption
    else
      match Date.ofText text with
      | .ok date => .ok { given with date := some date }
      | .error _ => .error .badDate
  | .logLevel =>
    if given.logLevel.isSome then .error .repeatedOption
    else .ok { given with logLevel := some text }
  | .metrics | .jsonLogs | .help | .version => .error .superfluousValue

/-- Takes in an option without a value. -/
def raise (given : Given) (level : ArgumentLevel) (option : OptionName) : Except ArgumentStop Given :=
  match option with
  | .metrics =>
    if given.metrics then .error .repeatedOption else .ok { given with metrics := true }
  | .jsonLogs =>
    if given.jsonLogs then .error .repeatedOption else .ok { given with jsonLogs := true }
  | .help => .error (.help (.level level))
  | .version => .error (.version level)
  | .rules | .parameters | .country | .date | .logLevel => .error .valueMissing

end Given

/-! ## Reading from left to right -/

/-- The options that were taken in, and the one whose value may still be to come. -/
structure Progress where
  given : Given
  pending : Option (OptionName × Option String)

namespace Progress

/-- The progress before any argument. -/
def start : Progress := ⟨{}, none⟩

/-- Whether the next argument may be the value of an option. -/
def awaitsValue (progress : Progress) : Bool := progress.pending.any fun (_, value) => value.isNone

/-- Takes in the option that is pending. -/
def settle (progress : Progress) : Except ArgumentStop Given :=
  match progress.pending with
  | none => .ok progress.given
  | some (option, some text) => progress.given.assign option text
  | some (_, none) => .error .valueMissing

/-- Takes in an option, with the value that is attached to it if there is one. -/
def takeOption (progress : Progress) (level : ArgumentLevel) (option : OptionName)
    (attached : Option String) : Except ArgumentStop Progress :=
  if option.takesValue then do
    let given ← progress.settle
    match attached with
    | some text => (given.assign option text).map fun given => ⟨given, none⟩
    | none => return ⟨given, some (option, none)⟩
  else
    match attached with
    | some _ => .error .superfluousValue
    | none => do
      let given ← progress.settle
      (given.raise level option).map fun given => ⟨given, none⟩

/-- Takes in an option of the long form, written without its dashes. -/
def takeLong (progress : Progress) (level : ArgumentLevel) (written : List Char) :
    Except ArgumentStop Progress :=
  let name := String.ofList (written.takeWhile (· != '='))
  let attached := match written.dropWhile (· != '=') with
    | [] => none
    | _ :: value => some (String.ofList value)
  match level.options.find? fun option => option.long == name with
  | some option => progress.takeOption level option attached
  | none => .error .unknownArgument

/-- Takes in options of the short form, written together without their dash. What stands behind
an option with a value is attached to it, and so is what stands behind an equals sign. -/
def takeShort (progress : Progress) (level : ArgumentLevel) :
    List Char → Except ArgumentStop Progress
  | [] => .ok progress
  | c :: cs =>
    match level.options.find? fun option => option.short? == some c with
    | none => .error .unknownArgument
    | some option =>
      if option.takesValue then
        let attached := match cs with
          | [] => none
          | '=' :: value => some (String.ofList value)
          | value => some (String.ofList value)
        progress.takeOption level option attached
      else do takeShort (← progress.takeOption level option none) level cs

/-- Takes in an argument that is no option: the value that is awaited, if there is one. -/
def takeValue (progress : Progress) (level : ArgumentLevel) (text : String) :
    Except ArgumentStop Progress :=
  match progress.pending with
  | some (option, none) => .ok { progress with pending := some (option, some text) }
  | _ => .error (if level = .program then .unknownCommand else .unknownArgument)

end Progress

/-- What the words behind `help` ask about. -/
def helpTopic : List String → ArgumentStop
  | [] => .help (.level .program)
  | ["help"] => .help .help
  | [name] =>
    match ArgumentLevel.ofName? name with
    | some level => .help (.level level)
    | none => .unknownCommand
  | _ => .unknownCommand

/-- The fault of an argument behind two dashes, where options end: no command and no value can
stand there. -/
def strayArgument (level : ArgumentLevel) (argument : String) : ArgumentStop :=
  if level = .program ∧ (ArgumentLevel.ofName? argument).isNone ∧ argument ≠ "help" then .unknownCommand
  else .unknownArgument

/-- Reads arguments up to their end, or up to the command if they are those of the program; a
command comes together with the arguments behind it. -/
def readArguments (level : ArgumentLevel) (progress : Progress) :
    List String → Except ArgumentStop (Progress × Option (ArgumentLevel × List String))
  | [] => .ok (progress, none)
  | argument :: arguments =>
    let isCommand := level == .program && !progress.awaitsValue
    if isCommand && argument == "help" then .error (helpTopic arguments)
    else
      match if isCommand then ArgumentLevel.ofName? argument else none with
      | some command => .ok (progress, some (command, arguments))
      | none =>
        match argument.toList with
        | ['-', '-'] =>
          match arguments with
          | [] => .ok (progress, none)
          | stray :: _ => .error (strayArgument level stray)
        | '-' :: '-' :: written => do
          readArguments level (← progress.takeLong level written) arguments
        | '-' :: c :: written => do
          readArguments level (← progress.takeShort level (c :: written)) arguments
        | _ => do readArguments level (← progress.takeValue level argument) arguments

/-! ## Commands -/

/-- What the program is told to do. -/
inductive Command where
  | estimate (rules parameters : String) (countries : List String) (date : Option Date)
      (metrics : Bool)
  | validate (rules : String)
  deriving DecidableEq

/-- A command, and how to write logs. -/
structure Invocation where
  command : Command
  logLevel : Option String
  jsonLogs : Bool
  deriving DecidableEq

/-- The command that options amount to. -/
def Given.command (given : Given) : ArgumentLevel → Except ArgumentStop Command
  | .program => .error .noCommand
  | .estimate =>
    match given.rules, given.parameters, given.countries with
    | some rules, some parameters, country :: countries =>
      .ok (.estimate rules parameters (country :: countries) given.date given.metrics)
    | _, _, _ => .error .optionMissing
  | .validate =>
    match given.rules with
    | some rules => .ok (.validate rules)
    | none => .error .optionMissing

/-- Reads the arguments of the program. Options of the program count from behind the command
if they stand on both sides of it. -/
def Invocation.ofArguments (arguments : List String) : Except ArgumentStop Invocation := do
  let (progress, rest) ← readArguments .program .start arguments
  match rest with
  | some (level, arguments) =>
    let (behind, _) ← readArguments level .start arguments
    let inner ← behind.settle
    let command ← inner.command level
    let outer ← progress.settle
    return ⟨command, inner.logLevel.or outer.logLevel, inner.jsonLogs || outer.jsonLogs⟩
  | none =>
    let outer ← progress.settle
    throw (if outer.logLevel.isNone && !outer.jsonLogs then .noArguments else .noCommand)

end Tariff
