/-
# Tokens in JSON

A token is an object with its kind and its value, in either order, or an array of the two. If
the value comes first, it is kept as it is until the kind is known.
-/
import Tariff.Error
import Tariff.Formula.Token
import Tariff.Json.Reader

namespace Tariff

namespace Token

/-- The kinds of tokens. -/
inductive Kind where
  | number
  | parameter
  | operator
  | function
  deriving DecidableEq

/-- The kinds and their names. -/
def kinds : List (String × Kind) :=
  [("number", .number), ("variable", .parameter), ("operator", .operator), ("function", .function)]

/-- The operators and their names. -/
def operators : List (String × Operator) := Operator.all.map fun op => (op.name, op)

/-- The functions and their names. -/
def functions : List (String × Builtin) := Builtin.all.map fun f => (f.name, f)

/-! ## Reading -/

/-- Reads the value of a token of a known kind. -/
def readValue (kind : Kind) : JsonReader Token := fun room draft =>
  match kind with
  | .number => (JsonReader.text room draft).map .number
  | .parameter => (JsonReader.text room draft).map .parameter
  | .operator => (JsonReader.variant operators room draft).map .operator
  | .function => (JsonReader.variant functions room draft).map .function

/-- The text that a kept value is. -/
def keptText : Json → Except JsonFault String
  | .text value => .ok value
  | value => .error (.mismatch (.wrongType value.found "a string"))

/-- The named value that a kept value is: a name, or an object with the name as its only member
and nothing as its value. -/
def keptVariant {α : Type} (variants : List (String × α)) (value : Json) : Except JsonFault α :=
  match value with
  | .text name => JsonReader.lookupVariant variants name
  | .object [(name, content)] => do
    let result ← JsonReader.lookupVariant variants name
    match content with
    | .null => return result
    | .object [] => return result
    | content => throw (.mismatch (.wrongType content.found "unit"))
  | .object _ => .error (.mismatch (.wrongValue .map "map with a single key"))
  | value => .error (.mismatch (.wrongType value.found "string or map"))

/-- The token of a known kind that a kept value is. -/
def ofKept (kind : Kind) (value : Json) : Except JsonFault Token :=
  match kind with
  | .number => (keptText value).map .number
  | .parameter => (keptText value).map .parameter
  | .operator => (keptVariant operators value).map .operator
  | .function => (keptVariant functions value).map .function

/-- What has been read of a token. -/
inductive Progress where
  | nothing
  | kind (kind : Kind)
  | value (value : Json)
  | done (token : Token)

/-- Takes in a member of a token's object. -/
def setField (room : Nat) (progress : Progress) (name : String) (draft : JsonDraft) :
    Except JsonFault Progress :=
  match name, progress with
  | "kind", .nothing => (JsonReader.variant kinds room draft).map .kind
  | "kind", .value value => do
    let kind ← JsonReader.variant kinds room draft
    let token ← ofKept kind value
    return .done token
  | "kind", _ => .error (.mismatch (.repeatedField "kind"))
  | "value", .nothing => (draft.toJson room).map .value
  | "value", .kind kind => (readValue kind room draft).map .done
  | "value", _ => .error (.mismatch (.repeatedField "value"))
  | _, progress => draft.skip.map fun _ => progress

/-- What messages call a token. -/
def expectedToken : String := "adjacently tagged enum ExpressionToken"

/-- Reads a token. -/
def read : JsonReader Token := fun room draft =>
  match draft with
  | .object members ending =>
    match room with
    | 0 => .error .malformed
    | room + 1 => do
      let progress ← JsonReader.foldMembers (setField room) .nothing members
      failWith ending.fault?
      match progress with
      | .done token => return token
      | .kind _ => throw (.mismatch (.missingField "value"))
      | _ => throw (.mismatch (.missingField "kind"))
  | .array items ending =>
    match room with
    | 0 => .error .malformed
    | room + 1 =>
      match items with
      | [] => do
        failWith ending
        throw (.mismatch (.wrongLength 0 expectedToken))
      | [kind] => do
        let _ ← JsonReader.variant kinds room kind
        failWith ending
        throw (.mismatch (.wrongLength 1 expectedToken))
      | kind :: value :: more => do
        let kind ← JsonReader.variant kinds room kind
        let token ← readValue kind room value
        if !more.isEmpty then throw .malformed
        failWith ending
        return token
  | draft => .error (draft.unexpected expectedToken)

/-- Reads a list of tokens from a text. -/
def listOfText (text : String) : Except RuleError (List Token) :=
  (readJson (JsonReader.list read) text).mapError .unreadable

/-! ## Writing -/

/-- The JSON object that a token is written as. -/
def toJson (token : Token) : Json :=
  let tagged := fun kind value => Json.object [("kind", .text kind), ("value", .text value)]
  match token with
  | .number text => tagged "number" text
  | .parameter name => tagged "variable" name
  | .operator op => tagged "operator" op.name
  | .function f => tagged "function" f.name

/-- The JSON array that a list of tokens is written as. -/
def listToJson (tokens : List Token) : Json := .array (tokens.map toJson)

end Token

end Tariff
