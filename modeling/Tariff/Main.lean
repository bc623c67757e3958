/-
# Command line

The program as it is called: it takes its arguments, the files, the environment variables and
the day from the system, and hands back what the library answers.
-/
import Std.Time.Zoned
import Tariff.CommandLine.Program

namespace Tariff

/-- The environment variables of the process. -/
def environmentVariables : IO (List (String × String)) := do
  let text ← try IO.FS.readFile "/proc/self/environ" catch _ => pure ""
  return (text.splitOn "\x00").filterMap fun entry =>
    match entry.splitOn "=" with
    | name :: first :: others => some (name, "=".intercalate (first :: others))
    | _ => none

/-- The contents of a file, unless it cannot be read. -/
def contentsOf? (path : String) : IO (Option String) := do
  try return some (← IO.FS.readFile path) catch _ => return none

/-- The paths of all files that a run may read. -/
def pathsOf (arguments : List String) (vars : List (String × String)) : List String :=
  let settings := (layerNames programService (ServiceSettings.environmentOf vars)).map
    fun name => settingsDirectory vars ++ "/" ++ name ++ ".toml"
  match Invocation.ofArguments arguments with
  | .ok ⟨.estimate rules parameters _ _ _, _, _⟩ => rules :: parameters :: settings
  | .ok ⟨.validate rules, _, _⟩ => rules :: settings
  | .error _ => []

/-- The day by the clock of the system. -/
def today : IO Date := do
  let date ← Std.Time.PlainDate.now
  match Date.ofParts? date.year.toInt date.month.val.toNat date.day.val.toNat with
  | some day => return day
  | none => throw (IO.userError "no such day")

end Tariff

open Tariff in
/-- Runs the program. -/
def main (arguments : List String) : IO UInt32 := do
  let vars ← environmentVariables
  let contents ← (pathsOf arguments vars).mapM fun path => do
    return (path, ← contentsOf? path)
  let result := runProgram arguments (fun path => (contents.lookup path).join) vars (← today)
  IO.print result.output
  IO.eprint result.notes
  return result.exitCode.toUInt32
