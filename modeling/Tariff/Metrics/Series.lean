/-
# Series

The counters that events raise. A series is a counter's name with its labels; the values of a
label stand between quotes, so that quotes, line feeds and backslashes in it are escaped.
-/
import Tariff.Metrics.Event

namespace Tariff

/-- A counter of one kind of event. -/
structure Series where
  name : String
  labels : List (String × String)
  deriving DecidableEq

/-! ## Text -/

/-- The text of a label's value. A backslash that stands before a quote or another backslash is
taken as the one that escapes it; `held` tells whether such a backslash came before. -/
def labelText (held : Bool) : List Char → List Char
  | [] => if held then ['\\', '\\'] else []
  | '\n' :: cs => '\\' :: 'n' :: labelText held cs
  | '\"' :: cs => '\\' :: '\"' :: labelText false cs
  | '\\' :: cs => if held then '\\' :: '\\' :: labelText false cs else labelText true cs
  | c :: cs => if held then '\\' :: '\\' :: c :: labelText false cs else c :: labelText false cs

/-- The text of a series. -/
def Series.toText (series : Series) : String :=
  let label := fun (name, value) =>
    name ++ "=\"" ++ String.ofList (labelText false value.toList) ++ "\""
  series.name ++ "\x7b" ++ ",".intercalate (series.labels.map label) ++ "\x7d"

/-! ## Counting -/

/-- The label of a phase. -/
def Phase.name : Phase → String
  | .parse => "parse"
  | .condition => "condition"
  | .expression => "expression"

/-- The series that count the evaluations of a phase by their success. -/
def evaluationSeries (phase : Phase) (succeeded : Bool) : Series :=
  ⟨"rule_evaluations_total",
    [("phase", phase.name), ("outcome", if succeeded then "ok" else "error")]⟩

/-- The series that count the calculations for a country by their success. -/
def calculationSeries (country : String) (succeeded : Bool) : Series :=
  ⟨"country_cost_calculations_total",
    [("country", country), ("status", if succeeded then "success" else "error")]⟩

/-- The series that an event raises, and by how much. -/
def Event.increments : Event → List (Series × Nat)
  | .evaluation phase succeeded =>
    [(evaluationSeries phase succeeded, 1),
      (⟨"rule_evaluation_duration_seconds_count", [("phase", phase.name)]⟩, 1)]
  | .calculation country succeeded appliedRules =>
    [(calculationSeries country succeeded, 1),
      (⟨"country_cost_applied_rules_count", [("country", country)]⟩, 1),
      (⟨"country_cost_applied_rules_sum", [("country", country)]⟩, appliedRules)]

/-- By how much events raise a series. An event raises none twice. -/
def increase (series : Series) : List Event → Nat
  | [] => 0
  | event :: events => (event.increments.lookup series).getD 0 + increase series events

/-- The series that events raise, each once, and by how much. -/
def increases (events : List Event) : List (Series × Nat) :=
  let touched := ((events.flatMap Event.increments).map Prod.fst).eraseDups
  (touched.map fun series => (series, increase series events)).filter fun (_, amount) => amount ≠ 0

end Tariff
