import Backpatch.Emit.Convert
import Backpatch.Typing

/-!
# Code of expressions

Operands are evaluated from left to right.  When an int on the left meets a double on the right, the
conversion has to stand right after the left operand, before the code of the right one; that is
decided by the static type of the right operand, and a byte is reserved for it.  The operands of a
connective are conditions, and the right one is reached only by the jumps of the left one.
-/

namespace Backpatch

/-- The instruction of an operator on values of a type. -/
def ArithOp.instr? : ArithOp → Ty → Option Op
  | add, .int => some .iAdd
  | add, .double => some .dAdd
  | sub, .int => some .iSub
  | sub, .double => some .dSub
  | mul, .int => some .iMul
  | mul, .double => some .dMul
  | div, .int => some .iDiv
  | div, .double => some .dDiv
  | mod, .int => some .iMod
  | bitAnd, .int => some .iAAnd
  | bitOr, .int => some .iAOr
  | bitXor, .int => some .iAXor
  | _, _ => none

/-- The branch on how the result of comparing two values relates to zero. -/
def Comparison.branchOp : Comparison → Op
  | eq => .ifICmpE
  | neq => .ifICmpNe
  | lt => .ifICmpL
  | lte => .ifICmpLe
  | gt => .ifICmpG
  | gte => .ifICmpGe

namespace Emitter

/-- The type that an operand is expected to have as a value, before any code for it is written. -/
def predictedType (expr : Expr) : EmitM Ty :=
  ask fun emitter =>
    match expr.typeOf emitter.scopes emitter.image with
    | .ok ty => .ok ty.asValue
    | .error _ => .ok .invalid

/-- Reserve a byte for the conversion of an int that is expected to meet a double. -/
def reserveConversion (leftTy predicted : Ty) : EmitM (Option Site) :=
  if leftTy = .int ∧ Ty.common leftTy predicted = .double then do
    return some (← writeWith (·.reserveOp))
  else
    pure none

/-- The numeric type that two operands have in common. -/
def numericType (op : BinOp) (leftTy rightTy : Ty) (position : Position) : EmitM Ty :=
  let common := Ty.common leftTy rightTy
  if common.isNumeric then
    pure common
  else
    throw (.invalidOperation (.badOperands op leftTy rightTy) position)

/-- Convert the left operand at the byte reserved for that; without one there must be nothing to
convert. -/
def convertLeft (op : BinOp) (leftTy common : Ty) (position : Position) :
    Option Site → EmitM Unit
  | some site => convert leftTy common (some site) position
  | none =>
      if leftTy = common then
        pure ()
      else
        throw (.invariant (.noConversionSite op))

/-- Write both operands of an operator, given by their actions, as values of their common type, and
tell that type.  The predicted type of the right operand decides whether a byte for a conversion is
reserved after the left one. -/
def emitOperands (op : BinOp) (position : Position) (predicted : Ty)
    (left : EmitM Compiled) (leftPosition : Position)
    (right : EmitM Compiled) (rightPosition : Position) : EmitM Ty := do
  let leftTy ← materializeValue (← left)
  let site ← reserveConversion leftTy predicted
  let rightTy ← materializeValue (← right)
  let common ← numericType op leftTy rightTy position
  convertLeft op leftTy common leftPosition site
  convert rightTy common none rightPosition
  return common

/-- The operator instruction on the two values on top of the stack. -/
def emitArithmetic (op : ArithOp) (ty : Ty) (position : Position) : EmitM Compiled :=
  match op.instr? ty with
  | some instr => do
      emit instr
      return .value ty
  | none => throw (.invalidOperation (.noOperator (.arith op) ty) position)

/-- Compare the two values on top of the stack and branch on the result. -/
def emitComparison (op : Comparison) (ty : Ty) : EmitM Compiled := do
  emit (if ty = .double then .dCmp else .iCmp)
  emit .iLoad0
  return .branch (← emitBranch op.branchOp)

/-- Join two conditions, given by their actions.  The outcome of the left one that does not decide
leads to the right one. -/
def emitLogical (op : Connective) (left right : EmitM PendingBranch) : EmitM Compiled := do
  let leftBranch ← left
  let rightStart ← offset
  match op with
  | .and => patch leftBranch.trueSites rightStart
  | .or => patch leftBranch.falseSites rightStart
  let rightBranch ← right
  match op with
  | .and => return .branch (leftBranch.conj rightBranch)
  | .or => return .branch (leftBranch.disj rightBranch)

/-- Negate the value that an operand has left. -/
def emitNegation (compiled : Compiled) (position : Position) : EmitM Compiled := do
  let ty ← materializeValue compiled
  match Numeric.ofTy? ty with
  | some numeric =>
      emit numeric.minusOneOp
      emit numeric.mulOp
      return .value ty
  | none => throw (.invalidOperation (.noNegation ty) position)

/-- The function that a call at a position means, with its signature, which must take the given
number of arguments. -/
def callee (name : String) (count : Nat) (position : Position) (emitter : Emitter) :
    Except CompileError (UInt16 × Signature) :=
  match resolveFunction? emitter.scopes emitter.image name with
  | none => .error (.undefinedFunction name position)
  | some id =>
      match emitter.image.routine? id with
      | none => .error (.invariant (.unregisteredFunction id))
      | some routine =>
          let signature := routine.signature
          if count = signature.params.length then
            .ok (id, signature)
          else
            .error (.parameterCountMismatch name signature.params.length count position)

mutual

/-- Write the code of an expression. -/
def emitExpr : Expr → EmitM Compiled
  | .int _ value => do
      write fun buffer => (buffer.emit .iLoad).emitInt value
      return .value .int
  | .double _ value => do
      write fun buffer => (buffer.emit .dLoad).emitDouble value
      return .value .double
  | .string _ value => do
      let id ← onImage (Image.internConstant value)
      emitWithWord .sLoad id
      return .value .string
  | .load position name => do
      let slot ← resolveVar name position
      emitLoad slot
      return .value slot.ty
  | .binary position op left right =>
      match op with
      | .logic connective =>
          emitLogical connective
            (do branchOnValue (← emitExpr left) left.position)
            (do branchOnValue (← emitExpr right) right.position)
      | .compare comparison => do
          let predicted ← predictedType right
          let ty ← emitOperands op position predicted
            (emitExpr left) left.position (emitExpr right) right.position
          emitComparison comparison ty
      | .arith arith => do
          let predicted ← predictedType right
          let ty ← emitOperands op position predicted
            (emitExpr left) left.position (emitExpr right) right.position
          emitArithmetic arith ty position
  | .unary position op operand =>
      match op with
      | .not => do
          let pending ← branchOnValue (← emitExpr operand) operand.position
          return .branch pending.negate
      | .neg => do
          emitNegation (← emitExpr operand) position
  | .call position name args => do
      let (id, signature) ← ask (callee name args.length position)
      emitArgs args (signature.params.map (·.ty))
      emitWithWord .call id
      return .value signature.returnType

/-- Write the code of arguments as values of the given types, the last one first. -/
def emitArgs : List Expr → List Ty → EmitM Unit
  | [], _ => pure ()
  | arg :: args, types => do
      emitArgs args types.tail
      coerce (← emitExpr arg) (types.headD .invalid) arg.position

end

/-- Write the code of an expression whose value decides between two ways. -/
def emitCondition (expr : Expr) : EmitM PendingBranch := do
  branchOnValue (← emitExpr expr) expr.position

/-- Write the code of an expression as a value of the given type. -/
def emitAs (expr : Expr) (ty : Ty) : EmitM Unit := do
  coerce (← emitExpr expr) ty expr.position

end Emitter

end Backpatch
