/-
# Reading from drafts

Readers of the basic kinds of values. A reader is given how many more levels of arrays and
objects it may enter, and a draft; it reports the first fault in the order of the text.
-/
import Tariff.Json.Draft

namespace Tariff

/-- The number of levels of arrays and objects that a text may nest. -/
def maxNesting : Nat := 127

/-- A reader: from the levels that may still be entered and a draft to a value. -/
abbrev JsonReader (α : Type) := Nat → JsonDraft → Except JsonFault α

/-! ## Strings -/

/-- The characters of a string literal's pieces. A leading half of a character has to be
followed by its trailing half, and a trailing one must not come first. The text's own fault,
if it has one, comes after those of its pieces. -/
def decodePieces (fault : Option JsonFault) : List TextPiece → Except JsonFault (List Char)
  | [] =>
    match fault with
    | some fault => .error fault
    | none => .ok []
  | .char c :: rest => do
    let others ← decodePieces fault rest
    return c :: others
  | .unit high :: rest =>
    if 0xDC00 ≤ high ∧ high ≤ 0xDFFF then .error .malformed
    else if 0xD800 ≤ high ∧ high ≤ 0xDBFF then
      match rest with
      | .unit low :: rest =>
        if 0xDC00 ≤ low ∧ low ≤ 0xDFFF then do
          let others ← decodePieces fault rest
          return Char.ofNat ((high - 0xD800) * 0x400 + (low - 0xDC00) + 0x10000) :: others
        else .error .malformed
      | .char _ :: _ => .error .malformed
      | [] => .error (fault.getD .malformed)
    else do
      let others ← decodePieces fault rest
      return Char.ofNat high :: others

/-- The text that a string literal stands for. -/
def TextLiteral.decode (literal : TextLiteral) : Except JsonFault String := do
  let characters ← decodePieces literal.fault literal.pieces
  return String.ofList characters

/-! ## Faults -/

namespace JsonDraft

/-- The fault of a value that is not what was expected. -/
def unexpected (expected : String) (draft : JsonDraft) : JsonFault :=
  match draft with
  | .null => .mismatch (.wrongType .null expected)
  | .boolean value => .mismatch (.wrongType (.boolean value) expected)
  | .number literal =>
    match literal.value? with
    | some value => .mismatch (.wrongType value.found expected)
    | none => .malformed
  | .text literal =>
    match literal.decode with
    | .ok value => .mismatch (.wrongType (.text value) expected)
    | .error fault => fault
  | .array _ _ => .mismatch (.wrongType .sequence expected)
  | .object _ _ => .mismatch (.wrongType .map expected)
  | .absent => .unfinished
  | .broken read _ => read

end JsonDraft

/-- Turns an optional fault into a result. -/
def failWith : Option JsonFault → Except JsonFault Unit
  | some fault => .error fault
  | none => .ok ()

/-- The fault at the end of an object. -/
def ObjectEnding.fault? : ObjectEnding → Option JsonFault
  | .closed => none
  | .unclosed fault => some fault
  | .nameless fault _ => some fault

/-! ## Skipping -/

namespace JsonDraft

mutual

/-- Skips a value, which only has to be well formed. -/
def skip : JsonDraft → Except JsonFault Unit
  | .text literal => failWith literal.fault
  | .array items ending => do
    skipItems items
    failWith ending
  | .object members ending => do
    skipMembers members
    failWith ending.fault?
  | .absent => .error .unfinished
  | .broken _ skipped => .error skipped
  | _ => .ok ()

/-- Skips the items of an array. -/
def skipItems : List JsonDraft → Except JsonFault Unit
  | [] => .ok ()
  | item :: items => do
    item.skip
    skipItems items

/-- Skips the members of an object. -/
def skipMembers : List (TextLiteral × JsonDraft) → Except JsonFault Unit
  | [] => .ok ()
  | (name, value) :: members => do
    failWith name.fault
    value.skip
    skipMembers members

end

/-! ## Whole values -/

mutual

/-- Reads a value of whatever kind. -/
def toJson (room : Nat) : JsonDraft → Except JsonFault Json
  | .null => .ok .null
  | .boolean value => .ok (.boolean value)
  | .number literal =>
    match literal.value? with
    | some value => .ok (.number value)
    | none => .error .malformed
  | .text literal => do
    let value ← literal.decode
    return .text value
  | .array items ending =>
    match room with
    | 0 => .error .malformed
    | room + 1 => do
      let items ← itemsToJson room items
      failWith ending
      return .array items
  | .object members ending =>
    match room with
    | 0 => .error .malformed
    | room + 1 => do
      let members ← membersToJson room members
      failWith ending.fault?
      return .object members
  | .absent => .error .unfinished
  | .broken read _ => .error read

/-- Reads the items of an array. -/
def itemsToJson (room : Nat) : List JsonDraft → Except JsonFault (List Json)
  | [] => .ok []
  | item :: items => do
    let first ← item.toJson room
    let others ← itemsToJson room items
    return first :: others

/-- Reads the members of an object. -/
def membersToJson (room : Nat) :
    List (TextLiteral × JsonDraft) → Except JsonFault (List (String × Json))
  | [] => .ok []
  | (name, value) :: members => do
    let name ← name.decode
    let value ← value.toJson room
    let others ← membersToJson room members
    return (name, value) :: others

end

end JsonDraft

namespace JsonReader

/-! ## Scalars -/

/-- Reads a string, which messages call `expected`. -/
def textAs (expected : String) : JsonReader String := fun _ draft =>
  match draft with
  | .text literal => literal.decode
  | draft => .error (draft.unexpected expected)

/-- Reads a string. -/
def text : JsonReader String := textAs "a string"

/-- Reads an integer of 32 bits. -/
def int32 : JsonReader Int32 := fun _ draft =>
  match draft with
  | .number literal =>
    match literal.value? with
    | some (.integer value) =>
      if fitsSigned 32 value then .ok (Int32.ofInt value)
      else .error (.mismatch (.wrongValue (.integer value) "i32"))
    | _ => .error (draft.unexpected "i32")
  | draft => .error (draft.unexpected "i32")

/-- Reads null as no value, and anything else with the given reader. -/
def optional {α : Type} (read : JsonReader α) : JsonReader (Option α) := fun room draft =>
  match draft with
  | .null => .ok none
  | draft => (read room draft).map some

/-! ## Enumerations -/

/-- The value that a name stands for. -/
def lookupVariant {α : Type} (variants : List (String × α)) (name : String) :
    Except JsonFault α :=
  match variants.lookup name with
  | some value => .ok value
  | none => .error (.mismatch (.unknownVariant name (variants.map Prod.fst)))

/-- Reads one of several named values: its name, or an object with the name as its only member
and null as its value. -/
def variant {α : Type} (variants : List (String × α)) : JsonReader α := fun room draft =>
  match draft with
  | .text literal => do
    let name ← literal.decode
    lookupVariant variants name
  | .object members ending =>
    match room with
    | 0 => .error .malformed
    | _ + 1 =>
      match members, ending with
      | [], .nameless _ found => .error (found.unexpected "variant identifier")
      | [], _ => .error .malformed
      | (name, value) :: others, ending => do
        let name ← name.decode
        let result ← lookupVariant variants name
        match value with
        | .null => pure ()
        | value => throw (value.unexpected "unit")
        match others, ending with
        | [], .closed => return result
        | [], .unclosed fault => throw fault
        | _, _ => throw .malformed
  | .absent => .error .unfinished
  | _ => .error .malformed

/-! ## Arrays and objects -/

/-- Reads the items of an array one after the other. -/
def items {α : Type} (read : JsonDraft → Except JsonFault α) :
    List JsonDraft → Except JsonFault (List α)
  | [] => .ok []
  | item :: rest => do
    let first ← read item
    let others ← items read rest
    return first :: others

/-- Reads an array. -/
def list {α : Type} (read : JsonReader α) : JsonReader (List α) := fun room draft =>
  match draft with
  | .array drafts ending =>
    match room with
    | 0 => .error .malformed
    | room + 1 => do
      let values ← items (read room) drafts
      failWith ending
      return values
  | draft => .error (draft.unexpected "a sequence")

/-- Goes through the members of an object, each of which may change a state. -/
def foldMembers {σ : Type} (step : σ → String → JsonDraft → Except JsonFault σ) :
    σ → List (TextLiteral × JsonDraft) → Except JsonFault σ
  | state, [] => .ok state
  | state, (name, value) :: members => do
    let name ← name.decode
    let state ← step state name value
    foldMembers step state members

/-- Reads an object whose members all are of one kind, in the order of the text. -/
def map {α : Type} (read : JsonReader α) : JsonReader (List (String × α)) := fun room draft =>
  match draft with
  | .object members ending =>
    match room with
    | 0 => .error .malformed
    | room + 1 => do
      let step := fun (entries : List (String × α)) name value => do
        let value ← read room value
        return (name, value) :: entries
      let entries ← foldMembers step [] members
      failWith ending.fault?
      return entries.reverse
  | draft => .error (draft.unexpected "a map")

/-! ## Records -/

/-- The fields of a record: their names in the order of declaration, and whether each of them
has to be given. What has been read of a record is a state of type `σ`. -/
structure RecordFields (σ : Type) where
  name : String
  fields : List (String × Bool)
  /-- Takes in the value of a field; one of an unknown name is skipped. -/
  set : Nat → σ → String → JsonDraft → Except JsonFault σ

namespace RecordFields

/-- The fault of an array that ends before a field that has to be given. -/
def tooShort {σ : Type} (record : RecordFields σ) (index : Nat) : JsonFault :=
  .mismatch (.wrongLength index s!"struct {record.name} with {record.fields.length} elements")

/-- Takes the items of an array as the fields in the order of their declaration. -/
def setItems {σ : Type} (record : RecordFields σ) (room : Nat) (ending : Option JsonFault) :
    (index : Nat) → List (String × Bool) → List JsonDraft → σ → Except JsonFault σ
  | _, [], [], state => do
    failWith ending
    return state
  | _, [], _ :: _, _ => .error .malformed
  | index, (name, _) :: fields, item :: items, state => do
    let state ← record.set room state name item
    setItems record room ending (index + 1) fields items state
  | index, (_, required) :: fields, [], state => do
    failWith ending
    if required then throw (record.tooShort index)
    setItems record room ending (index + 1) fields [] state

/-- Reads a record: an object, or an array of the fields in the order of their declaration. -/
def read {σ : Type} (record : RecordFields σ) (start : σ) : JsonReader σ := fun room draft =>
  match draft with
  | .object members ending =>
    match room with
    | 0 => .error .malformed
    | room + 1 => do
      let state ← foldMembers (record.set room) start members
      failWith ending.fault?
      return state
  | .array items ending =>
    match room with
    | 0 => .error .malformed
    | room + 1 => record.setItems room ending 0 record.fields items start
  | draft => .error (draft.unexpected s!"struct {record.name}")

end RecordFields

/-- Takes in a field that must not have been given before. -/
def once {α : Type} (name : String) (before : Option α) (value : Except JsonFault α) :
    Except JsonFault (Option α) :=
  if before.isSome then .error (.mismatch (.repeatedField name)) else value.map some

/-- The value of a field that has to be given. -/
def required {α : Type} (name : String) : Option α → Except JsonFault α
  | some value => .ok value
  | none => .error (.mismatch (.missingField name))

end JsonReader

/-- Reads a whole text. -/
def readJson {α : Type} (read : JsonReader α) (text : String) : Except JsonFault α := do
  let (draft, more) := JsonDraft.ofText text
  let value ← read maxNesting draft
  if more then throw .malformed
  return value

end Tariff
