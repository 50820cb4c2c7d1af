import Backpatch.Json.Printer
import Backpatch.NameMap

/-!
# Values as documents

How numbers, lists, maps, absent values and choices are put into a document.
-/

namespace Backpatch.Json

variable {α : Type}

def ofNat (value : Nat) : Json :=
  .number (.ofNat value)

def ofUInt16 (value : UInt16) : Json :=
  .ofNat value.toNat

/-- A list as an array. -/
def ofList (toJson : α → Json) (items : List α) : Json :=
  .array (items.map toJson)

/-- A map as an object, with its keys in order. -/
def ofMap (toJson : α → Json) (map : NameMap α) : Json :=
  .object (map.toList.map fun (name, value) => (name, toJson value))

/-- A value that may be absent, which is written as `null`. -/
def ofOption (toJson : α → Json) : Option α → Json
  | none => .null
  | some value => toJson value

/-- A choice with contents. -/
def choice (tag : String) (contents : Json) : Json :=
  .object [(tag, contents)]

end Backpatch.Json
