import Backpatch.Ty

/-!
# Frames

A function keeps its variables in three arrays, one for each storable type.  A frame says how many
slots of each a function has; the next free slot of a type is the one whose index is the count.
-/

namespace Backpatch

/-- The number of variable slots of each storable type. -/
structure Frame where
  ints : UInt16
  doubles : UInt16
  strings : UInt16
  deriving DecidableEq, Repr, Inhabited

namespace Frame

/-- A frame without slots. -/
def empty : Frame :=
  ⟨0, 0, 0⟩

/-- The number of slots of a type. -/
def count (frame : Frame) : Ty → UInt16
  | .int => frame.ints
  | .double => frame.doubles
  | .string => frame.strings
  | _ => 0

/-- Replace the number of slots of a storable type. -/
def setCount (frame : Frame) (count : UInt16) : Ty → Frame
  | .int => { frame with ints := count }
  | .double => { frame with doubles := count }
  | .string => { frame with strings := count }
  | _ => frame

/-- Take the next free slot of a type.  There is none for a type that no variable can have, nor when
the count could not grow any more. -/
def allocate? (frame : Frame) (ty : Ty) : Option (UInt16 × Frame) :=
  let slot := frame.count ty
  if ty.isStorable ∧ slot.toNat < 65535 then
    some (slot, frame.setCount (slot + 1) ty)
  else
    none

/-- The number of slots of all types. -/
def total (frame : Frame) : Nat :=
  frame.ints.toNat + frame.doubles.toNat + frame.strings.toNat

theorem count_setCount {frame : Frame} {ty : Ty} (isStorable : ty.isStorable) (count : UInt16)
    (other : Ty) :
    (frame.setCount count ty).count other = if other = ty then count else frame.count other := by
  cases ty <;> cases other <;> first | rfl | cases isStorable

end Frame

end Backpatch
