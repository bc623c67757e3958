/-
# Rules in JSON

Rules and the declarations of their parameters, as they are read and written.
-/
import Tariff.Parameter.Json
import Tariff.Rule.Basic

namespace Tariff

namespace JsonReader

/-- Reads a date. -/
def date : JsonReader Date := fun room draft => do
  let text ← textAs "a formatted date string" room draft
  (Date.ofText text).mapError fun fault => .mismatch (.calendar fault)

/-- Reads a point in time. -/
def timestamp : JsonReader Timestamp := fun room draft => do
  let text ← textAs "an RFC 3339 formatted date and time string" room draft
  (Timestamp.ofText text).mapError fun fault => .mismatch (.calendar fault)

end JsonReader

namespace RuleType

/-- Reads a category. -/
def read : JsonReader RuleType := JsonReader.variant (all.map fun t => (t.name, t))

/-- The category of a name. -/
def ofName (name : String) : Except RuleError RuleType :=
  (JsonReader.lookupVariant (all.map fun t => (t.name, t)) name).mapError .unreadable

end RuleType

namespace ParameterType

/-- Reads the type of a parameter. -/
def read : JsonReader ParameterType := JsonReader.variant (all.map fun t => (t.name, t))

/-- The type of a name. -/
def ofName (name : String) : Except RuleError ParameterType :=
  (JsonReader.lookupVariant (all.map fun t => (t.name, t)) name).mapError .unreadable

end ParameterType

namespace ParameterDeclaration

/-- What has been read of a declaration. -/
structure Parts where
  name : Option String
  type : Option ParameterType
  default : Option (Option ParameterValue)
  description : Option (Option String)

/-- Takes in a field of a declaration. -/
def setField (room : Nat) (parts : Parts) (field : String) (draft : JsonDraft) :
    Except JsonFault Parts :=
  match field with
  | "name" =>
    (JsonReader.once field parts.name (JsonReader.text room draft)).map
      fun value => { parts with name := value }
  | "type" =>
    (JsonReader.once field parts.type (ParameterType.read room draft)).map
      fun value => { parts with type := value }
  | "default" =>
    (JsonReader.once field parts.default
      (JsonReader.optional ParameterValue.read room draft)).map
      fun value => { parts with default := value }
  | "description" =>
    (JsonReader.once field parts.description (JsonReader.optional JsonReader.text room draft)).map
      fun value => { parts with description := value }
  | _ => draft.skip.map fun _ => parts

/-- The fields of a declaration. -/
def fields : JsonReader.RecordFields Parts :=
  ⟨"ParameterDeclaration",
    [("name", true), ("type", true), ("default", false), ("description", false)], setField⟩

/-- Reads a declaration. -/
def read : JsonReader ParameterDeclaration := fun room draft => do
  let parts ← fields.read ⟨none, none, none, none⟩ room draft
  let name ← JsonReader.required "name" parts.name
  let type ← JsonReader.required "type" parts.type
  return ⟨name, type, parts.default.join, parts.description.join⟩

/-- The JSON object that a declaration is written as. -/
def toJson (declaration : ParameterDeclaration) : Json :=
  .object [("name", .text declaration.name), ("type", .text declaration.type.name),
    ("default", .ofOption (declaration.default.map ParameterValue.toJson)),
    ("description", .ofOption (declaration.description.map .text))]

end ParameterDeclaration

namespace Rule

/-- What has been read of a rule. -/
structure Parts where
  id : Option String := none
  name : Option String := none
  country : Option String := none
  type : Option RuleType := none
  expression : Option String := none
  condition : Option (Option String) := none
  priority : Option Int32 := none
  effectiveFrom : Option Date := none
  effectiveTo : Option (Option Date) := none
  parameters : Option (List ParameterDeclaration) := none
  description : Option (Option String) := none
  createdAt : Option Timestamp := none
  updatedAt : Option Timestamp := none

/-- Takes in a field of a rule. -/
def setField (room : Nat) (parts : Parts) (field : String) (draft : JsonDraft) :
    Except JsonFault Parts :=
  match field with
  | "id" =>
    (JsonReader.once field parts.id (JsonReader.text room draft)).map
      fun value => { parts with id := value }
  | "name" =>
    (JsonReader.once field parts.name (JsonReader.text room draft)).map
      fun value => { parts with name := value }
  | "country_code" =>
    (JsonReader.once field parts.country (JsonReader.text room draft)).map
      fun value => { parts with country := value }
  | "rule_type" =>
    (JsonReader.once field parts.type (RuleType.read room draft)).map
      fun value => { parts with type := value }
  | "expression" =>
    (JsonReader.once field parts.expression (JsonReader.text room draft)).map
      fun value => { parts with expression := value }
  | "condition" =>
    (JsonReader.once field parts.condition (JsonReader.optional JsonReader.text room draft)).map
      fun value => { parts with condition := value }
  | "priority" =>
    (JsonReader.once field parts.priority (JsonReader.int32 room draft)).map
      fun value => { parts with priority := value }
  | "effective_from" =>
    (JsonReader.once field parts.effectiveFrom (JsonReader.date room draft)).map
      fun value => { parts with effectiveFrom := value }
  | "effective_to" =>
    (JsonReader.once field parts.effectiveTo (JsonReader.optional JsonReader.date room draft)).map
      fun value => { parts with effectiveTo := value }
  | "parameters" =>
    (JsonReader.once field parts.parameters
      (JsonReader.list ParameterDeclaration.read room draft)).map
      fun value => { parts with parameters := value }
  | "description" =>
    (JsonReader.once field parts.description (JsonReader.optional JsonReader.text room draft)).map
      fun value => { parts with description := value }
  | "created_at" =>
    (JsonReader.once field parts.createdAt (JsonReader.timestamp room draft)).map
      fun value => { parts with createdAt := value }
  | "updated_at" =>
    (JsonReader.once field parts.updatedAt (JsonReader.timestamp room draft)).map
      fun value => { parts with updatedAt := value }
  | _ => draft.skip.map fun _ => parts

/-- The fields of a rule. -/
def fields : JsonReader.RecordFields Parts :=
  ⟨"Rule",
    [("id", true), ("name", false), ("country_code", true), ("rule_type", true),
      ("expression", true), ("condition", false), ("priority", false), ("effective_from", true),
      ("effective_to", false), ("parameters", false), ("description", false),
      ("created_at", false), ("updated_at", false)], setField⟩

/-- Reads a rule. -/
def read : JsonReader Rule := fun room draft => do
  let parts ← fields.read {} room draft
  let id ← JsonReader.required "id" parts.id
  let country ← JsonReader.required "country_code" parts.country
  let type ← JsonReader.required "rule_type" parts.type
  let expression ← JsonReader.required "expression" parts.expression
  let effectiveFrom ← JsonReader.required "effective_from" parts.effectiveFrom
  return {
    id, country, type, expression, effectiveFrom
    name := parts.name.getD ""
    condition := parts.condition.join
    priority := parts.priority.getD 0
    effectiveTo := parts.effectiveTo.join
    parameters := parts.parameters.getD []
    description := parts.description.join
    createdAt := parts.createdAt
    updatedAt := parts.updatedAt }

/-- Reads a rule from a text. -/
def ofText (text : String) : Except RuleError Rule := (readJson read text).mapError .unreadable

/-- Reads a list of rules from a text. -/
def listOfText (text : String) : Except RuleError (List Rule) :=
  (readJson (JsonReader.list read) text).mapError .unreadable

/-- The JSON object that a rule is written as. Points in time that are not known are left out. -/
def toJson (rule : Rule) : Json :=
  let stamp := fun name (time : Option Timestamp) =>
    (time.map fun t => (name, Json.text t.toText)).toList
  .object (
    [("id", .text rule.id), ("name", .text rule.name), ("country_code", .text rule.country),
      ("rule_type", .text rule.type.name), ("expression", .text rule.expression),
      ("condition", .ofOption (rule.condition.map .text)),
      ("priority", .integer rule.priority.toInt),
      ("effective_from", .text rule.effectiveFrom.toText),
      ("effective_to", .ofOption (rule.effectiveTo.map fun date => .text date.toText)),
      ("parameters", .array (rule.parameters.map ParameterDeclaration.toJson)),
      ("description", .ofOption (rule.description.map .text))]
    ++ stamp "created_at" rule.createdAt ++ stamp "updated_at" rule.updatedAt)

end Rule

end Tariff
