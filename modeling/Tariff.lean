import Tariff.Catalog.Change
import Tariff.Formula.Json
import Tariff.Main
import Tariff.Proofs.Formula.Grammar
import Tariff.Proofs.Formula.Spelling
import Tariff.Proofs.Formula.Reading
import Tariff.Proofs.Formula.Precedence
import Tariff.Proofs.Formula.Completeness
import Tariff.Proofs.Formula.Parsing
import Tariff.Proofs.Formula.Splitting
import Tariff.Proofs.Formula.Expectation
import Tariff.Proofs.Formula.Positions
import Tariff.Proofs.Formula.Evaluation
import Tariff.Proofs.Formula.Validity
import Tariff.Proofs.Formula.Parameters
import Tariff.Proofs.Rule.Compilation
import Tariff.Proofs.Rule.Acceptance
import Tariff.Proofs.Catalog.Effect
import Tariff.Proofs.Catalog.Batch
import Tariff.Proofs.Catalog.Invariant
import Tariff.Proofs.Catalog.Applicable
import Tariff.Proofs.Decimal.Value
import Tariff.Proofs.Decimal.Operations
import Tariff.Proofs.Decimal.Numeral
import Tariff.Proofs.Text.Digits
import Tariff.Proofs.Money
import Tariff.Proofs.Execution
import Tariff.Proofs.Execution.Parameters
import Tariff.Proofs.Execution.Trace
import Tariff.Proofs.Rule.Names
import Tariff.Proofs.Estimate.Breakdown
import Tariff.Proofs.Estimate.Countries
import Tariff.Proofs.Estimate.Order
import Tariff.Proofs.Estimate.Failure
import Tariff.Proofs.Estimate.Given
import Tariff.Proofs.Catalog.Locality
import Tariff.Proofs.Catalog.Failure
import Tariff.Proofs.Catalog.Succession
import Tariff.Proofs.Estimate.Locality
import Tariff.Proofs.Estimate.Counters
import Tariff.Proofs.Estimate.Spelling
import Tariff.Proofs.Formula.Exactness
import Tariff.Proofs.Money.Runs
import Tariff.Proofs.CommandLine.Validation
import Tariff.Proofs.Decimal.Scientific
import Tariff.Proofs.Binary.Layout
import Tariff.Proofs.Binary.Shortest
import Tariff.Proofs.Binary.Rounding
import Tariff.Proofs.Binary.Arithmetic
import Tariff.Proofs.Json.Number
import Tariff.Proofs.Parameter.Numbers
import Tariff.Proofs.Json.Spelling
import Tariff.Proofs.Json.Reading
import Tariff.Proofs.Formula.Json
import Tariff.Proofs.Json.Readers
import Tariff.Proofs.Decimal.Rounded
import Tariff.Proofs.Decimal.Text
import Tariff.Proofs.Decimal.Canonical
import Tariff.Proofs.Parameter.Text
import Tariff.Proofs.Parameter.Json
import Tariff.Proofs.Calendar.Text
import Tariff.Proofs.Rule.Json
import Tariff.Proofs.Rule.Meaning
import Tariff.Proofs.Settings.Overlay
import Tariff.Proofs.Settings.Keys
