import Backpatch.Json.Token

/-!
# Documents

A document is a tree of arrays and objects over numbers, strings and words.  It is built from tokens
one at a time, with the arrays and objects that are still open kept in a list, so that documents may
be nested to any depth.

A string that spells no text is a tree that cannot be read, and so is an object with such a string
for a key.  They may stand where nobody looks.
-/

namespace Backpatch

/-- A document, with the fields of objects in the order in which they are written. -/
inductive Json
  | null
  | bool (value : Bool)
  | number (value : Json.Number)
  | string (value : String)
  | array (items : List Json)
  | object (fields : List (String × Json))
  /-- Well formed, but without a value. -/
  | unreadable
  deriving Inhabited

namespace Json

/-- An array or object that is still open, with its contents, the last one first. -/
inductive Frame
  | array (items : List Json)
  /-- An object; without contents if one of its keys spells no text. -/
  | object (fields : Option (List (String × Json)))
  /-- An object and the key of the field whose value comes next. -/
  | field (fields : Option (List (String × Json))) (key : Option String)
  deriving Inhabited

/-- What may come next, with what is open, innermost first. -/
inductive Expect
  /-- A value. -/
  | value (frames : List Frame)
  /-- A value or the end of an array that has just been opened. -/
  | firstItem (frames : List Frame)
  /-- A key. -/
  | key (frames : List Frame)
  /-- A key or the end of an object that has just been opened. -/
  | firstKey (frames : List Frame)
  /-- The colon after a key. -/
  | colon (frames : List Frame)
  /-- A comma or the end of the innermost array or object. -/
  | separator (frames : List Frame)
  /-- Nothing. -/
  | nothing (document : Json)
  deriving Inhabited

namespace Expect

/-- A value has ended: it belongs to what is open around it. -/
def afterValue (tree : Json) : List Frame → Option Expect
  | [] => some (.nothing tree)
  | .array items :: rest => some (.separator (.array (tree :: items) :: rest))
  | .field fields name :: rest =>
      let fields := do return (← name, tree) :: (← fields)
      some (.separator (.object fields :: rest))
  | .object _ :: _ => none

/-- The end of the innermost array or object. -/
def close? : Token → List Frame → Option Expect
  | .closeArray, .array items :: rest => afterValue (.array items.reverse) rest
  | .closeObject, .object (some fields) :: rest => afterValue (.object fields.reverse) rest
  | .closeObject, .object none :: rest => afterValue .unreadable rest
  | _, _ => none

/-- The beginning of a value. -/
def value? (frames : List Frame) : Token → Option Expect
  | .null => afterValue .null frames
  | .bool truth => afterValue (.bool truth) frames
  | .number literal => afterValue (.number literal) frames
  | .string (some text) => afterValue (.string text) frames
  | .string none => afterValue .unreadable frames
  | .openArray => some (.firstItem (.array [] :: frames))
  | .openObject => some (.firstKey (.object (some []) :: frames))
  | _ => none

/-- The key of a field. -/
def key? : List Frame → Token → Option Expect
  | .object fields :: rest, .string name => some (.colon (.field fields name :: rest))
  | _, _ => none

/-- Take the next token. -/
def step? (expect : Expect) (token : Token) : Option Expect :=
  match expect with
  | .value frames => value? frames token
  | .firstItem frames => (close? token frames).or (value? frames token)
  | .key frames => key? frames token
  | .firstKey frames => (close? token frames).or (key? frames token)
  | .colon frames => if token = .colon then some (.value frames) else none
  | .separator frames =>
      match token, frames with
      | .comma, .array _ :: _ => some (.value frames)
      | .comma, .object _ :: _ => some (.key frames)
      | token, frames => close? token frames
  | .nothing _ => none

end Expect

/-- The document that a sequence of tokens spells. -/
def ofTokens? (tokens : List Token) : Option Json := do
  match ← tokens.foldlM Expect.step? (.value []) with
  | .nothing document => some document
  | _ => none

/-- The document that a sequence of bytes spells. -/
def parse? (bytes : List UInt8) : Option Json := do
  ofTokens? (← Token.scan? bytes)

end Json

end Backpatch
