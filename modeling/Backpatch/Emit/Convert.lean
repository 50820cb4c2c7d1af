import Backpatch.Emit.Basic

/-!
# Conversions

How the value or condition that an expression has left is brought into the form in which it is
wanted: a value of another type, a condition as a number, or a number as a condition.
-/

namespace Backpatch

/-- What the code of an expression leaves behind. -/
inductive Compiled
  /-- A value of this type on the stack, or nothing for `void`. -/
  | value (ty : Ty)
  /-- A condition whose outcomes still have to be led somewhere. -/
  | branch (pending : PendingBranch)
  deriving DecidableEq, Repr, Inhabited

/-- The types as which a condition can be made a value. -/
inductive Numeric
  | int
  | double
  deriving DecidableEq, Repr, Inhabited

namespace Numeric

def ty : Numeric → Ty
  | int => .int
  | double => .double

def ofTy? : Ty → Option Numeric
  | .int => some int
  | .double => some double
  | _ => none

def zeroOp : Numeric → Op
  | int => .iLoad0
  | double => .dLoad0

def oneOp : Numeric → Op
  | int => .iLoad1
  | double => .dLoad1

def minusOneOp : Numeric → Op
  | int => .iLoadM1
  | double => .dLoadM1

def addOp : Numeric → Op
  | int => .iAdd
  | double => .dAdd

def mulOp : Numeric → Op
  | int => .iMul
  | double => .dMul

def compareOp : Numeric → Op
  | int => .iCmp
  | double => .dCmp

end Numeric

namespace Emitter

/-- Convert a value: the one on top of the stack, or the one at whose end a byte was reserved. -/
def convert (source target : Ty) (site : Option Site) (position : Position) : EmitM Unit :=
  if source = target ∨ target = .void then
    pure ()
  else
    match Op.convert? source target with
    | none => throw (.invalidConversion source target position)
    | some op =>
        match site with
        | some site => onBuffer (Buffer.patchOpSite site op)
        | none => emit op

/-- Make a condition the number one or zero. -/
def materialize (pending : PendingBranch) (numeric : Numeric) : EmitM Unit := do
  let trueStart ← offset
  emit numeric.oneOp
  let join ← emitJump
  let falseStart ← offset
  emit numeric.zeroOp
  let done ← offset
  patch [join] done
  patch pending.trueSites trueStart
  patch pending.falseSites falseStart

/-- Make sure that there is a value, and tell its type; a condition becomes an int. -/
def materializeValue : Compiled → EmitM Ty
  | .value ty => pure ty
  | .branch pending => do
      materialize pending .int
      return .int

/-- Make what an expression has left a value of the given type.  For `void` there need be no value,
but the outcomes of a condition are brought together. -/
def coerce (compiled : Compiled) (target : Ty) (position : Position) : EmitM Unit :=
  match compiled with
  | .value source => convert source target none position
  | .branch pending =>
      match target with
      | .int => materialize pending .int
      | .double => materialize pending .double
      | .void => do
          let next ← offset
          onBuffer (pending.resolve next)
      | target => throw (.invalidConversion .logic target position)

/-- Make what an expression has left a condition; a number is compared with zero. -/
def branchOnValue (compiled : Compiled) (position : Position) : EmitM PendingBranch :=
  match compiled with
  | .branch pending => pure pending
  | .value .int => do
      emit .iLoad0
      emitBranch .ifICmpNe
  | .value .double => do
      emit .dLoad0
      emit .dCmp
      emit .iLoad0
      emitBranch .ifICmpNe
  | .value source => throw (.invalidConversion source .logic position)

end Emitter

end Backpatch
