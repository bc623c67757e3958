/-
# Drafts: JSON texts as far as they are well formed

A draft is the tree of a JSON text up to the first place where the text breaks. Whoever reads
something from it goes through it in the order of the text, and so meets faults of form and
faults of content in that order: the first one counts, whatever its kind.
-/
import Tariff.Json.Basic

namespace Tariff

mutual

/-- The tree of a JSON text. -/
inductive JsonDraft where
  | null
  | boolean (value : Bool)
  | number (literal : NumberLiteral)
  | text (literal : TextLiteral)
  /-- The items, and what is wrong behind the last one. -/
  | array (items : List JsonDraft) (ending : Option JsonFault)
  | object (members : List (TextLiteral × JsonDraft)) (ending : ObjectEnding)
  /-- The text ends where a value is due. -/
  | absent
  /-- No value can be made out; skipping over this place meets a fault as well. -/
  | broken (read skipped : JsonFault)

/-- How the members of an object end. -/
inductive ObjectEnding where
  | closed
  /-- Neither a comma nor the closing brace follows the last member. -/
  | unclosed (fault : JsonFault)
  /-- The name of a member is due; something else was found. -/
  | nameless (fault : JsonFault) (found : JsonDraft)

end

namespace JsonDraft

/-! ## From lexemes to trees -/

/-- An array or object that has been opened, with its items or members so far, the last one
first. -/
inductive Frame where
  | array (items : List JsonDraft)
  | object (members : List (TextLiteral × JsonDraft)) (name : TextLiteral)

/-- Puts a value into a frame that gets nothing more. -/
def Frame.finish (frame : Frame) (value : JsonDraft) : JsonDraft :=
  match frame with
  | .array items => .array (value :: items).reverse (some .malformed)
  | .object members name => .object ((name, value) :: members).reverse (.unclosed .malformed)

/-- Gives up on a text at `value`, inside the given frames. What is said about the ends of the
frames is never reached. -/
def abandon : List Frame → JsonDraft → JsonDraft
  | [], value => value
  | frame :: frames, value => abandon frames (frame.finish value)

/-- The value that begins with a lexeme, as far as that lexeme tells. -/
def ofLexeme : JsonLexeme → JsonDraft
  | .null => .null
  | .boolean value => .boolean value
  | .number literal => .number literal
  | .text literal => .text literal
  | .openArray => .array [] none
  | .openObject => .object [] .closed
  | .broken read skipped => .broken read skipped
  | _ => .broken .malformed .malformed

/-- What follows where a comma or a closing bracket is due. -/
def missingFault : List JsonLexeme → JsonFault
  | [] => .unfinished
  | _ :: _ => .malformed

/-- The end of an object in which a member's name is due. -/
def namelessEnding : List JsonLexeme → ObjectEnding
  | [] => .nameless .unfinished .absent
  | lexeme :: _ => .nameless .malformed (ofLexeme lexeme)

/-- The value of a member behind whose name no colon stands. -/
def colonMissing (name : TextLiteral) (rest : List JsonLexeme) : JsonDraft :=
  let fault := name.fault.getD (missingFault rest)
  .broken fault fault

/-- Ends a value behind which neither a comma nor the closing bracket of its frame stands.
Outside of all frames that is no fault: the value is complete. -/
def stop (frames : List Frame) (value : JsonDraft) (rest : List JsonLexeme) :
    JsonDraft × List JsonLexeme :=
  match frames with
  | [] => (value, rest)
  | .array items :: outer =>
    (abandon outer (.array (value :: items).reverse (some (missingFault rest))), [])
  | .object members name :: outer =>
    (abandon outer (.object ((name, value) :: members).reverse (.unclosed (missingFault rest))), [])

mutual

/-- Reads a value inside the given frames. The result is the tree and what follows it; nothing
follows a tree that breaks off. -/
def readValue (frames : List Frame) : List JsonLexeme → JsonDraft × List JsonLexeme
  | [] => (abandon frames .absent, [])
  | .openArray :: .closeArray :: rest => readOn frames (.array [] none) rest
  | .openArray :: rest => readValue (.array [] :: frames) rest
  | .openObject :: .closeObject :: rest => readOn frames (.object [] .closed) rest
  | .openObject :: rest => readName frames [] rest
  | .null :: rest => readOn frames .null rest
  | .boolean value :: rest => readOn frames (.boolean value) rest
  | .number literal :: rest => readOn frames (.number literal) rest
  | .text literal :: rest =>
    if literal.fault.isSome then (abandon frames (.text literal), [])
    else readOn frames (.text literal) rest
  | lexeme :: _ => (abandon frames (ofLexeme lexeme), [])

/-- Reads the name of a member, of an object with the given members before it. -/
def readName (frames : List Frame) (members : List (TextLiteral × JsonDraft)) :
    List JsonLexeme → JsonDraft × List JsonLexeme
  | .text name :: .colon :: rest => readValue (.object members name :: frames) rest
  | .text name :: rest =>
    (abandon frames (.object ((name, colonMissing name rest) :: members).reverse .closed), [])
  | rest => (abandon frames (.object members.reverse (namelessEnding rest)), [])

/-- Reads on after a value inside the given frames. -/
def readOn (frames : List Frame) (value : JsonDraft) :
    List JsonLexeme → JsonDraft × List JsonLexeme
  | .comma :: rest =>
    match frames with
    | [] => (value, .comma :: rest)
    | .array items :: outer => readValue (.array (value :: items) :: outer) rest
    | .object members name :: outer => readName outer ((name, value) :: members) rest
  | .closeArray :: rest =>
    match frames with
    | .array items :: outer => readOn outer (.array (value :: items).reverse none) rest
    | frames => stop frames value (.closeArray :: rest)
  | .closeObject :: rest =>
    match frames with
    | .object members name :: outer =>
      readOn outer (.object ((name, value) :: members).reverse .closed) rest
    | frames => stop frames value (.closeObject :: rest)
  | rest => stop frames value rest

end

/-- The tree of a text, and whether anything but blanks follows it. -/
def ofText (text : String) : JsonDraft × Bool :=
  let result := readValue [] (JsonLexeme.scan text.toList)
  (result.1, !result.2.isEmpty)

end JsonDraft

end Tariff
