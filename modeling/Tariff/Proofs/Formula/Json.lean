/-
# Written tokens

A token is written as an object with its kind and its text. The kind says how the text is to be
read, so a parameter is not taken for a function of the same name, nor for a number of the same
letters.

* `Token.readValue_content` : the text of a token is read as its kind says;
* `Token.read_draft_toJson` : a token is read as it was written;
* `Token.listOfText_listToJson` : a list of tokens, and what it evaluates to.
-/
import Tariff.Formula.Evaluation
import Tariff.Formula.Json
import Tariff.Proofs.Json.Readers

namespace Tariff

namespace Token

/-! ## Kinds and texts -/

/-- The kind of a token. -/
def kindOf : Token → Kind
  | .number _ => .number
  | .parameter _ => .parameter
  | .operator _ => .operator
  | .function _ => .function

/-- The name that a kind is written with. -/
def Kind.name : Kind → String
  | .number => "number"
  | .parameter => "variable"
  | .operator => "operator"
  | .function => "function"

/-- The text that is written beside a token's kind. -/
def content : Token → String
  | .number text => text
  | .parameter name => name
  | .operator op => op.name
  | .function f => f.name

/-- A token is written as an object of its kind and its content. -/
theorem toJson_eq (token : Token) :
    token.toJson =
      .object [("kind", .text token.kindOf.name), ("value", .text token.content)] := by
  cases token <;> rfl

/-- A kind is found again by its name. -/
theorem lookupVariant_kinds (kind : Kind) :
    JsonReader.lookupVariant kinds kind.name = .ok kind := by
  cases kind <;> rfl

/-- An operator is found again by its name. -/
theorem lookupVariant_operators (op : Operator) :
    JsonReader.lookupVariant operators op.name = .ok op := by
  rcases op with (_ | _ | _ | _ | _) | _ <;> rfl

/-- A function is found again by its name. -/
theorem lookupVariant_functions (f : Builtin) :
    JsonReader.lookupVariant functions f.name = .ok f := by
  cases f <;> rfl

/-- What stands beside the kind is read as the kind says. -/
theorem readValue_content (room : Nat) (token : Token) :
    readValue token.kindOf room (Json.text token.content).draft = .ok token := by
  cases token with
  | number text => exact congrArg (Except.map _) (JsonReader.text_draft room text)
  | parameter name => exact congrArg (Except.map _) (JsonReader.text_draft room name)
  | operator op =>
    have hname := JsonReader.variant_draft operators room op.name
    rw [lookupVariant_operators] at hname
    exact congrArg (Except.map _) hname
  | function f =>
    have hname := JsonReader.variant_draft functions room f.name
    rw [lookupVariant_functions] at hname
    exact congrArg (Except.map _) hname

/-! ## Tokens and lists of them -/

/-- A token is written exactly: it has no doubles. -/
theorem isExact_toJson (token : Token) : token.toJson.IsExact := by
  rw [toJson_eq]
  exact .object (by simp [Json.IsExact.text])

/-- A token is read as it was written. -/
theorem read_draft_toJson (room : Nat) (token : Token) :
    read (room + 1) token.toJson.draft = .ok token := by
  have hkind : setField room .nothing "kind" (Json.text token.kindOf.name).draft =
      .ok (.kind token.kindOf) := by
    rw [setField, JsonReader.variant_draft, lookupVariant_kinds]
    rfl
  have hvalue : setField room (.kind token.kindOf) "value" (Json.text token.content).draft =
      .ok (.done token) := by
    rw [setField, readValue_content]
    rfl
  rw [toJson_eq, Json.draft, Json.memberDrafts, Json.memberDrafts, Json.memberDrafts, read,
    JsonReader.foldMembers_cons hkind, JsonReader.foldMembers_cons hvalue]
  rfl

/-- So is a list of tokens. -/
theorem isExact_listToJson (tokens : List Token) : (listToJson tokens).IsExact := by
  refine .array fun item hitem => ?_
  obtain ⟨token, -, rfl⟩ := List.mem_map.mp hitem
  exact token.isExact_toJson

/-- What a written list of tokens means is read as the list. -/
theorem list_read_draft (tokens : List Token) :
    JsonReader.list read maxNesting (listToJson tokens).draft = .ok tokens := by
  have hlist := JsonReader.list_draft toJson id fun token (_ : token ∈ tokens) =>
    read_draft_toJson 125 token
  rwa [List.map_id] at hlist

/-- **A list of tokens is read back from its text as it was**, on one line or indented and
whatever texts its literals and names are, so it evaluates to the same value or error for every
source of parameters. -/
theorem listOfText_listToJson (tokens : List Token) (indented : Bool) :
    ∃ reread, listOfText ((listToJson tokens).laidOut indented) = .ok reread ∧ reread = tokens ∧
      ∀ source, evaluateTokens source reread = evaluateTokens source tokens := by
  refine ⟨tokens, ?_, rfl, fun _ => rfl⟩
  rw [listOfText, (isExact_listToJson tokens).readJson_laidOut, list_read_draft]
  rfl

end Token

end Tariff
