/-
# The program

What the program answers to its arguments, given the files, the environment variables and the
day: an exit code, its output, and notes for the one who called it.
-/
import Tariff.CommandLine.Files
import Tariff.CommandLine.Help
import Tariff.Estimate.Json
import Tariff.Metrics.Series
import Tariff.Settings.Layers

namespace Tariff

/-- What a run of the program leaves behind. -/
structure ProgramResult where
  exitCode : Nat
  output : String
  notes : String

namespace ProgramResult

/-- A run that ends well. -/
def success (output : String) : ProgramResult := ⟨0, output, ""⟩

/-- A run whose arguments are wrong. -/
def misuse (topic : HelpTopic) : ProgramResult := ⟨2, "", topic.text⟩

/-- A run that fails. -/
def failure (fault : CommandFault) : ProgramResult :=
  let cause := match fault with
    | .calculation _ => ""
    | fault => (fault.cause?.map fun cause => ": " ++ cause.message).getD ""
  ⟨1, "", fault.message ++ cause ++ "\n"⟩

end ProgramResult

/-- The answer where arguments do not amount to a command. -/
def ArgumentStop.result : ArgumentStop → ProgramResult
  | .help topic => .success topic.text
  | .version level => .success level.versionText
  | _ => .misuse (.level .program)

/-- The name of the service whose settings the program takes. -/
def programService : String := "vat-rule-engine"

/-- The directory of the files with settings. -/
def settingsDirectory (vars : List (String × String)) : String :=
  (vars.lookup "CONFIG_DIR").getD "config"

/-- The settings of the program; settings that cannot be loaded are replaced by defaults. -/
def programSettings (files : Files) (vars : List (String × String)) : ServiceSettings :=
  let inDirectory := fun name => files (settingsDirectory vars ++ "/" ++ name)
  match ServiceSettings.loadNamed inDirectory vars programService with
  | .ok settings => settings
  | .error _ => {}

/-- The counters that events raise, a line for each. -/
def countersText (events : List Event) : String :=
  String.join ((increases events).map fun (series, amount) => s!"{series.toText} {amount}\n")

/-- Carries out a command. -/
def Command.run (settings : ServiceSettings) (files : Files) (today : Date) :
    Command → ProgramResult
  | .estimate rules parameters countries date metrics =>
    let (outcome, events) :=
      estimateFiles files settings.engine rules parameters countries (date.getD today)
    match outcome with
    | .ok costs =>
      let counters :=
        if !metrics then ""
        else if settings.observability.metricsEnabled then countersText events
        else "metrics are disabled in configuration\n"
      ⟨0, costs.toJson.pretty ++ "\n", counters⟩
    | .error fault => .failure fault
  | .validate rules =>
    match validateFile files rules with
    | .ok report => ⟨if report.isValid then 0 else 1, report.toJson.pretty ++ "\n", ""⟩
    | .error fault => .failure fault

/-- Runs the program. -/
def runProgram (arguments : List String) (files : Files) (vars : List (String × String))
    (today : Date) : ProgramResult :=
  match Invocation.ofArguments arguments with
  | .ok invocation => invocation.command.run (programSettings files vars) files today
  | .error stop => stop.result

end Tariff
