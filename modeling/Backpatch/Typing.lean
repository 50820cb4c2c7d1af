import Backpatch.CompileError
import Backpatch.Scope

/-!
# Static types

The type of an expression, found from its parts and from what is declared, without writing code.
The compiler asks for it where it has to know the type of an operand before it gets to it.  The
arguments of a call are not looked at: only its function matters.

A pass over an expression may also note down the type of every node it has found one for, each under
the path that leads to the node.  Such a table answers a later pass over the same expression.
-/

namespace Backpatch

/-- The function that a name means: one that a block around declares, else the entry function. -/
def resolveFunction? (scopes : Scopes) (image : Image) (name : String) : Option UInt16 :=
  (scopes.function? name).or ((image.entryRoutine?.filter (·.name == name)).bind (·.id))

/-- The return type of the function that a name means. -/
def resultType? (scopes : Scopes) (image : Image) (name : String) : Option Ty := do
  let id ← resolveFunction? scopes image name
  let routine ← image.routine? id
  return routine.signature.returnType

/-- The type of a binary operation on values of two types. -/
def BinOp.resultType (left right : Ty) : BinOp → Ty
  | arith _ => Ty.common left right
  | compare _ | logic _ => .logic

/-- The type of a unary operation on an operand of some type. -/
def UnaryOp.resultType (operand : Ty) : UnaryOp → Ty
  | neg => operand.asValue
  | not => .logic

/-- The type of an expression. -/
def Expr.typeOf (scopes : Scopes) (image : Image) : Expr → Except CompileError Ty
  | .int .. => .ok .int
  | .double .. => .ok .double
  | .string .. => .ok .string
  | .load position name =>
      match scopes.resolve? name .outward with
      | some slot => .ok slot.ty
      | none => .error (.undefinedVariable name position)
  | .binary _ op left right => do
      let left ← left.typeOf scopes image
      let right ← right.typeOf scopes image
      return op.resultType left.asValue right.asValue
  | .unary _ op operand => do
      let operand ← operand.typeOf scopes image
      return op.resultType operand
  | .call position name _ =>
      match resultType? scopes image name with
      | some ty => .ok ty
      | none => .error (.undefinedFunction name position)

/-- The way from the root of an expression to a node, by the number of the operand taken at each
step, the last step first. -/
abbrev NodePath := List Nat

/-- Types that have been found, by node. -/
abbrev TypeTable := Std.ExtTreeMap NodePath Ty

/-- Actions that fill a table of types and may fail. -/
abbrev TypingM := EStateM CompileError TypeTable

/-- Answer from the table, or find the type of a node and note it down. -/
def TypingM.memo (path : NodePath) (find : TypingM Ty) : TypingM Ty := do
  match (← get)[path]? with
  | some ty => return ty
  | none =>
      let ty ← find
      modify (·.insert path ty)
      return ty

/-- The type of the expression at a path, with the help of a table that is filled on the way. -/
def Expr.typeOfMemo (scopes : Scopes) (image : Image) (path : NodePath) : Expr → TypingM Ty
  | .binary _ op left right =>
      TypingM.memo path do
        let left ← left.typeOfMemo scopes image (0 :: path)
        let right ← right.typeOfMemo scopes image (1 :: path)
        return op.resultType left.asValue right.asValue
  | .unary _ op operand =>
      TypingM.memo path do
        let operand ← operand.typeOfMemo scopes image (0 :: path)
        return op.resultType operand
  | leaf =>
      TypingM.memo path (MonadExcept.ofExcept (leaf.typeOf scopes image))

end Backpatch
