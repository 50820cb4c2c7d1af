import Backpatch.Json.Basic
import Backpatch.NameMap

/-!
# Reading values from documents

A reader takes a value of some type out of a document, or refuses.  At most so many arrays and
objects may be open at once, so a reader is told how many it may still open; what nobody reads may
be nested to any depth.

Records are objects with a field for each of their parts.  The fields may come in any order, a field
that belongs to no part is not looked at, and a part may not be given twice.  A record may also be
an array of its parts in their order.  A choice with contents is an object with one field, whose key
names the alternative; a choice without contents is its name, or such an object with `null` in it.
-/

namespace Backpatch.Json

variable {α : Type}

/-- Takes a value out of a document in which so many more arrays and objects may be opened. -/
abbrev Reader (α : Type) := (depth : Nat) → Json → Option α

/-- The number of arrays and objects that may be open at once. -/
def maxDepth : Nat := 127

def readString : Reader String
  | _, string text => some text
  | _, _ => none

def readBool : Reader Bool
  | _, bool value => some value
  | _, _ => none

/-- An integer between two bounds, both included. -/
def readInt (low high : Int) : Reader Int
  | _, number literal => do
      let value ← literal.toInt?
      if low ≤ value ∧ value ≤ high then return value else none
  | _, _ => none

/-- A natural number below a bound. -/
def readNat (bound : Nat) : Reader Nat := fun depth json => do
  return (← readInt 0 (bound - 1) depth json).toNat

def readUInt8 : Reader UInt8 := fun depth json => do
  return UInt8.ofNat (← readNat UInt8.size depth json)

def readUInt16 : Reader UInt16 := fun depth json => do
  return UInt16.ofNat (← readNat UInt16.size depth json)

def readUInt32 : Reader UInt32 := fun depth json => do
  return UInt32.ofNat (← readNat UInt32.size depth json)

def readUInt64 : Reader UInt64 := fun depth json => do
  return UInt64.ofNat (← readNat UInt64.size depth json)

def readInt64 : Reader Int64 := fun depth json => do
  return Int64.ofInt (← readInt Int64.minValue.toInt Int64.maxValue.toInt depth json)

/-- A value that may be absent, which is written as `null`. -/
def readOption (read : Reader α) : Reader (Option α)
  | _, null => some none
  | depth, json => (read depth json).map some

def readList (read : Reader α) : Reader (List α)
  | depth + 1, array items => items.mapM (read depth)
  | _, _ => none

/-- A map from names; of a repeated key the last value counts. -/
def readMap (read : Reader α) : Reader (NameMap α)
  | depth + 1, object fields =>
      fields.foldlM (fun map (key, value) => do return map.insert key (← read depth value)) ∅
  | _, _ => none

/-- A choice without contents. -/
def readTag (ofTag? : String → Option α) : Reader α
  | _, string tag => ofTag? tag
  | _ + 1, object [(tag, null)] => ofTag? tag
  | _, _ => none

/-- The parts of a record as a document gives them. -/
structure Record where
  /-- The parts by name. -/
  parts : List (String × Json)
  /-- They were given by their order and not by their names. -/
  positional : Bool

namespace Record

/-- Take a record with parts of the given names out of a document. -/
def ofJson? (names : List String) : Json → Option Record
  | object fields =>
      let parts := fields.filter fun field => names.contains field.1
      if (parts.map (·.1)).Nodup then some ⟨parts, false⟩ else none
  | array items =>
      if items.length ≤ names.length then some ⟨names.zip items, true⟩ else none
  | _ => none

/-- A part that must be given. -/
def required (record : Record) (name : String) (read : Json → Option α) : Option α :=
  (record.parts.lookup name).bind read

/-- A part that has a value also if it is not given. -/
def withDefault (record : Record) (name : String) (default : α) (read : Json → Option α) :
    Option α :=
  match record.parts.lookup name with
  | none => some default
  | some json => read json

/-- A part that may be absent: it may be left out, but not from a record given by order. -/
def optional (record : Record) (name : String) (read : Json → Option (Option α)) :
    Option (Option α) :=
  match record.parts.lookup name with
  | none => if record.positional then none else some none
  | some json => read json

end Record

/-- Read a whole document from its bytes. -/
def readDocument (read : Reader α) (bytes : List UInt8) : Option α := do
  read maxDepth (← parse? bytes)

end Backpatch.Json
