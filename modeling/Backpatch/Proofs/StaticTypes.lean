import Backpatch.Proofs.EarlierCode
import Backpatch.Proofs.ImageTables

/-!
# Static types and compiled code

The type of an expression can be found from its parts and from what is declared, or it can be seen
from what its code leaves.  Wherever an expression is compiled without an error, the two agree: a
value has the type that is found beforehand, and where a condition is left, that type is the logical
one.  This asks nothing of the state.  It rests on the fact that compiling an expression declares
nothing, so that the right operand has the type that it had before the left one was compiled.
-/

namespace Backpatch

namespace Emitter

variable {α β : Type} {before after : Emitter}

/-- The types that expressions have in a state. -/
def typing (emitter : Emitter) (expr : Expr) : Except CompileError Ty :=
  expr.typeOf emitter.scopes emitter.image

/-- Types depend only on the variables and on the results of the functions. -/
theorem typing_congr {first second : Emitter}
    (vars : ∀ name, first.scopes.resolve? name .outward = second.scopes.resolve? name .outward)
    (results : ∀ name, resultType? first.scopes first.image name =
      resultType? second.scopes second.image name) : first.typing = second.typing := by
  funext expr
  induction expr using Expr.typeOf.induct second.scopes second.image with
  | case1 | case2 | case3 => rfl
  | case4 | case5 => simp only [typing, Expr.typeOf, vars]
  | case6 _ _ _ _ ihLeft ihRight =>
      simp only [typing] at ihLeft ihRight ⊢
      simp only [Expr.typeOf, ihLeft, ihRight]
  | case7 _ _ _ ih =>
      simp only [typing] at ih ⊢
      simp only [Expr.typeOf, ih]
  | case8 | case9 => simp only [typing, Expr.typeOf, results]

/-- If the action succeeds, expressions have the types that they had before. -/
def KeepsTypes (action : EmitM α) : Prop :=
  ∀ before result after, action before = .ok result after → after.typing = before.typing

namespace KeepsTypes

theorem pure (result : α) : KeepsTypes (pure result : EmitM α) := by
  intro before result after ran
  cases ran
  rfl

theorem bind {action : EmitM α} {next : α → EmitM β} (first : KeepsTypes action)
    (rest : ∀ result, KeepsTypes (next result)) : KeepsTypes (action >>= next) := by
  intro before result after ran
  obtain ⟨found, middle, began, ran⟩ := exists_of_bind_eq_ok ran
  rw [rest found middle result after ran, first before found middle began]

theorem ask (question : Emitter → Except CompileError α) : KeepsTypes (ask question) := by
  intro before result after ran
  unfold Emitter.ask at ran
  split at ran <;> cases ran
  rfl

theorem of_coding {action : EmitM α} (coding : Coding action) : KeepsTypes action := by
  induction coding with
  | pure result => exact pure result
  | throw nameless =>
      intro before result after ran
      cases ran
  | bind _ _ ihFirst ihRest => exact ihFirst.bind ihRest
  | observe question =>
      intro before result after ran
      cases ran
      rfl
  | onBuffer action =>
      intro before result after ran
      rw [onBuffer_apply] at ran
      split at ran <;> cases ran
      exact typing_congr (fun _ => rfl) fun _ => rfl

theorem constant (value : String) : KeepsTypes (onImage (Image.internConstant value)) := by
  intro before result after ran
  obtain ⟨image, interned, rfl⟩ := exists_of_onImage_eq_ok ran
  have outcome : Addition.Outcome before.image (.constant value) (.ok result image) :=
    interned ▸ Addition.outcome (.constant value) before.image
  cases outcome with
  | oldConstant => rfl
  | newConstant => exact typing_congr (fun _ => rfl) fun _ => rfl

theorem emitOperands (op : BinOp) (position leftPosition rightPosition : Position) (predicted : Ty)
    {left right : EmitM Compiled} (leftKeeps : KeepsTypes left) (rightKeeps : KeepsTypes right) :
    KeepsTypes (emitOperands op position predicted left leftPosition right rightPosition) :=
  leftKeeps.bind fun _ => (of_coding (.materializeValue _)).bind fun _ =>
    (of_coding (.reserveConversion _ _)).bind fun _ => rightKeeps.bind fun _ =>
      of_coding (.convertOperands _ _ _ _ _ _ _)

theorem emitLogical (op : Connective) {left right : EmitM PendingBranch}
    (leftKeeps : KeepsTypes left) (rightKeeps : KeepsTypes right) :
    KeepsTypes (emitLogical op left right) := by
  cases op with
  | and | or =>
      exact leftKeeps.bind fun _ => (of_coding .offset).bind fun _ =>
        (of_coding (.patch _ _)).bind fun _ => rightKeeps.bind fun _ => pure _

mutual

theorem emitExpr : (expr : Expr) → KeepsTypes (emitExpr expr)
  | .int _ _ | .double _ _ => (of_coding (.write _)).bind fun _ => pure _
  | .string _ _ => (constant _).bind fun _ => (of_coding (.emitWithWord _ _)).bind fun _ => pure _
  | .load _ _ => (ask _).bind fun slot => (of_coding (.emitLoad slot)).bind fun _ => pure _
  | .binary _ (.logic connective) left right =>
      emitLogical connective ((emitExpr left).bind fun _ => of_coding (.branchOnValue _ _))
        ((emitExpr right).bind fun _ => of_coding (.branchOnValue _ _))
  | .binary _ (.compare comparison) left right =>
      (ask _).bind fun _ =>
        (emitOperands _ _ _ _ _ (emitExpr left) (emitExpr right)).bind fun ty =>
          of_coding (.emitComparison comparison ty)
  | .binary _ (.arith arith) left right =>
      (ask _).bind fun _ =>
        (emitOperands _ _ _ _ _ (emitExpr left) (emitExpr right)).bind fun ty =>
          of_coding (.emitArithmetic arith ty _)
  | .unary _ .not operand =>
      (emitExpr operand).bind fun _ => (of_coding (.branchOnValue _ _)).bind fun _ => pure _
  | .unary _ .neg operand => (emitExpr operand).bind fun _ => of_coding (.emitNegation _ _)
  | .call _ _ args =>
      (ask _).bind fun _ => (emitArgs args _).bind fun _ =>
        (of_coding (.emitWithWord _ _)).bind fun _ => pure _

theorem emitArgs : (args : List Expr) → (types : List Ty) → KeepsTypes (emitArgs args types)
  | [], _ => pure _
  | arg :: args, types =>
      (emitArgs args types.tail).bind fun _ => (emitExpr arg).bind fun _ =>
        of_coding (.coerce _ _ _)

end

end KeepsTypes

theorem valueTy_of_materializeValue {compiled : Compiled} {ty : Ty}
    (ran : materializeValue compiled before = .ok ty after) : ty = compiled.valueTy := by
  cases compiled with
  | value own =>
      cases ran
      rfl
  | branch pending =>
      obtain ⟨_, _, _, done⟩ := exists_of_bind_eq_ok ran
      cases done
      rfl

/-- Both operands of an operator have been compiled, one in the state before and the other in a
state where expressions have the same types.  Their values have a numeric type in common. -/
theorem exists_of_emitOperands {op : BinOp} {position leftPosition rightPosition : Position}
    {predicted ty : Ty} {left right : EmitM Compiled} (leftKeeps : KeepsTypes left)
    (ran : emitOperands op position predicted left leftPosition right rightPosition before =
      .ok ty after) :
    ∃ leftCompiled leftAfter rightCompiled rightBefore rightAfter,
      left before = .ok leftCompiled leftAfter ∧ right rightBefore = .ok rightCompiled rightAfter ∧
        rightBefore.typing = before.typing ∧
        ty = Ty.common leftCompiled.valueTy rightCompiled.valueTy ∧ ty.isNumeric := by
  obtain ⟨leftCompiled, leftAfter, leftRan, ran⟩ := exists_of_bind_eq_ok ran
  obtain ⟨leftTy, valueAfter, leftValue, ran⟩ := exists_of_bind_eq_ok ran
  obtain ⟨site, reservedAfter, reserved, ran⟩ := exists_of_bind_eq_ok ran
  obtain ⟨rightCompiled, rightAfter, rightRan, ran⟩ := exists_of_bind_eq_ok ran
  obtain ⟨rightTy, _, rightValue, ran⟩ := exists_of_bind_eq_ok ran
  obtain ⟨common, _, foundCommon, ran⟩ := exists_of_bind_eq_ok ran
  obtain ⟨_, _, _, ran⟩ := exists_of_bind_eq_ok ran
  obtain ⟨_, _, _, done⟩ := exists_of_bind_eq_ok ran
  cases done
  obtain rfl := valueTy_of_materializeValue leftValue
  obtain rfl := valueTy_of_materializeValue rightValue
  refine ⟨leftCompiled, leftAfter, rightCompiled, reservedAfter, rightAfter, leftRan, rightRan,
    ?_, ?_⟩
  · rw [KeepsTypes.of_coding (.reserveConversion _ _) _ _ _ reserved,
      KeepsTypes.of_coding (.materializeValue _) _ _ _ leftValue, leftKeeps _ _ _ leftRan]
  · unfold numericType at foundCommon
    split at foundCommon
    case isTrue numeric =>
        cases foundCommon
        exact ⟨rfl, numeric⟩
    case isFalse => cases foundCommon

/-- Both operands of a connective have been compiled, one in the state before and the other in a
state where expressions have the same types. -/
theorem exists_of_emitLogical {op : Connective} {left right : EmitM PendingBranch}
    {compiled : Compiled} (leftKeeps : KeepsTypes left)
    (ran : emitLogical op left right before = .ok compiled after) :
    ∃ leftBranch leftAfter rightBranch rightBefore rightAfter,
      left before = .ok leftBranch leftAfter ∧ right rightBefore = .ok rightBranch rightAfter ∧
        rightBefore.typing = before.typing ∧ compiled.ty = .logic := by
  cases op with
  | and | or =>
      obtain ⟨leftBranch, leftAfter, leftRan, ran⟩ := exists_of_bind_eq_ok ran
      obtain ⟨_, _, found, ran⟩ := exists_of_bind_eq_ok ran
      cases found
      obtain ⟨_, rightBefore, patched, ran⟩ := exists_of_bind_eq_ok ran
      obtain ⟨rightBranch, rightAfter, rightRan, done⟩ := exists_of_bind_eq_ok ran
      cases done
      refine ⟨leftBranch, leftAfter, rightBranch, rightBefore, after, leftRan, rightRan, ?_,
        rfl⟩
      rw [KeepsTypes.of_coding (.patch _ _) _ _ _ patched, leftKeeps _ _ _ leftRan]

theorem typing_binary {left right : Expr} {leftTy rightTy : Ty} (position : Position) (op : BinOp)
    (leftTyped : before.typing left = .ok leftTy) (rightTyped : before.typing right = .ok rightTy) :
    before.typing (.binary position op left right) =
      .ok (op.resultType leftTy.asValue rightTy.asValue) := by
  unfold typing at leftTyped rightTyped ⊢
  rw [Expr.typeOf, leftTyped, rightTyped]
  rfl

theorem typing_unary {operand : Expr} {ty : Ty} (position : Position) (op : UnaryOp)
    (typed : before.typing operand = .ok ty) :
    before.typing (.unary position op operand) = .ok (op.resultType ty) := by
  unfold typing at typed ⊢
  rw [Expr.typeOf, typed]
  rfl

theorem resultType?_of_callee {name : String} {count : Nat} {position : Position} {id : UInt16}
    {signature : Signature}
    (found : ask (callee name count position) before = .ok (id, signature) after) :
    resultType? before.scopes before.image name = some signature.returnType := by
  unfold ask callee at found
  unfold resultType?
  cases resolved : resolveFunction? before.scopes before.image name with
  | none =>
      simp only [resolved] at found
      cases found
  | some id =>
      simp only [resolved] at found
      cases registered : before.image.routine? id with
      | none =>
          simp only [registered] at found
          cases found
      | some routine =>
          simp only [registered] at found
          split at found
          case h_1 answered =>
              split at answered <;> cases answered
              cases found
              simp only [Option.bind_eq_bind, Option.bind_some, registered]
              rfl
          case h_2 => cases found

/-- Where an expression is compiled without an error, its type is what its code leaves. -/
theorem typing_of_emitExpr : (expr : Expr) → {before after : Emitter} → {compiled : Compiled} →
    emitExpr expr before = .ok compiled after → before.typing expr = .ok compiled.ty
  | .int .., before, after, compiled, ran => by
      obtain ⟨_, _, _, done⟩ := exists_of_bind_eq_ok ran
      cases done
      rfl
  | .double .., before, after, compiled, ran => by
      obtain ⟨_, _, _, done⟩ := exists_of_bind_eq_ok ran
      cases done
      rfl
  | .string .., before, after, compiled, ran => by
      obtain ⟨_, _, _, ran⟩ := exists_of_bind_eq_ok ran
      obtain ⟨_, _, _, done⟩ := exists_of_bind_eq_ok ran
      cases done
      rfl
  | .load position name, before, after, compiled, ran => by
      obtain ⟨slot, middle, resolved, ran⟩ := exists_of_bind_eq_ok ran
      obtain ⟨_, _, _, done⟩ := exists_of_bind_eq_ok ran
      cases done
      unfold resolveVar ask at resolved
      rw [typing, Expr.typeOf]
      cases found : before.scopes.resolve? name .outward with
      | none =>
          simp only [found] at resolved
          cases resolved
      | some slot =>
          simp only [found] at resolved
          cases resolved
          rfl
  | .binary position (.logic connective) left right, before, after, compiled, ran => by
      obtain ⟨_, _, _, rightBefore, _, leftRan, rightRan, sameTypes, isLogic⟩ :=
        exists_of_emitLogical
          ((KeepsTypes.emitExpr left).bind fun _ => .of_coding (.branchOnValue _ _)) ran
      obtain ⟨_, _, leftRan, _⟩ := exists_of_bind_eq_ok leftRan
      obtain ⟨_, _, rightRan, _⟩ := exists_of_bind_eq_ok rightRan
      have rightTyped := typing_of_emitExpr right rightRan
      rw [sameTypes] at rightTyped
      rw [isLogic]
      exact typing_binary position _ (typing_of_emitExpr left leftRan) rightTyped
  | .binary position (.compare comparison) left right, before, after, compiled, ran => by
      obtain ⟨predicted, start, foreseen, ran⟩ := exists_of_bind_eq_ok ran
      obtain ⟨ty, _, operands, ran⟩ := exists_of_bind_eq_ok ran
      obtain ⟨_, _, _, _, _, leftRan, rightRan, sameTypes, -⟩ :=
        exists_of_emitOperands (.emitExpr left) operands
      obtain ⟨_, _, _, ran⟩ := exists_of_bind_eq_ok ran
      obtain ⟨_, _, _, ran⟩ := exists_of_bind_eq_ok ran
      obtain ⟨_, _, _, done⟩ := exists_of_bind_eq_ok ran
      cases done
      have rightTyped := typing_of_emitExpr right rightRan
      rw [sameTypes] at rightTyped
      rw [← KeepsTypes.ask _ _ _ _ foreseen]
      exact typing_binary position _ (typing_of_emitExpr left leftRan) rightTyped
  | .binary position (.arith arith) left right, before, after, compiled, ran => by
      obtain ⟨predicted, start, foreseen, ran⟩ := exists_of_bind_eq_ok ran
      obtain ⟨ty, _, operands, ran⟩ := exists_of_bind_eq_ok ran
      obtain ⟨leftCompiled, _, rightCompiled, _, _, leftRan, rightRan, sameTypes, rfl, numeric⟩ :=
        exists_of_emitOperands (.emitExpr left) operands
      have isCommon : compiled.ty = Ty.common leftCompiled.valueTy rightCompiled.valueTy := by
        unfold emitArithmetic at ran
        cases instr : arith.instr? (Ty.common leftCompiled.valueTy rightCompiled.valueTy) with
        | none =>
            simp only [instr] at ran
            cases ran
        | some op =>
            simp only [instr] at ran
            obtain ⟨_, _, _, done⟩ := exists_of_bind_eq_ok ran
            cases done
            rfl
      have rightTyped := typing_of_emitExpr right rightRan
      rw [sameTypes] at rightTyped
      obtain ⟨leftNumeric, rightNumeric⟩ := Ty.isNumeric_of_common numeric
      rw [← KeepsTypes.ask _ _ _ _ foreseen, isCommon, ← Compiled.asValue_ty leftNumeric,
        ← Compiled.asValue_ty rightNumeric]
      exact typing_binary position _ (typing_of_emitExpr left leftRan) rightTyped
  | .unary position .not operand, before, after, compiled, ran => by
      obtain ⟨_, _, operandRan, ran⟩ := exists_of_bind_eq_ok ran
      obtain ⟨_, _, _, done⟩ := exists_of_bind_eq_ok ran
      cases done
      exact typing_unary position .not (typing_of_emitExpr operand operandRan)
  | .unary position .neg operand, before, after, compiled, ran => by
      obtain ⟨operandCompiled, _, operandRan, ran⟩ := exists_of_bind_eq_ok ran
      obtain ⟨ty, _, isValue, ran⟩ := exists_of_bind_eq_ok ran
      obtain rfl := valueTy_of_materializeValue isValue
      have typed := typing_unary position .neg (typing_of_emitExpr operand operandRan)
      cases isNumber : Numeric.ofTy? operandCompiled.valueTy with
      | none =>
          simp only [isNumber] at ran
          cases ran
      | some numeric =>
          simp only [isNumber] at ran
          obtain ⟨_, _, _, ran⟩ := exists_of_bind_eq_ok ran
          obtain ⟨_, _, _, done⟩ := exists_of_bind_eq_ok ran
          cases done
          rw [typed, UnaryOp.resultType, Compiled.asValue_ty]
          · rfl
          · cases isType : operandCompiled.valueTy <;> rw [isType] at isNumber <;>
              first | rfl | cases isNumber
  | .call position name args, before, after, compiled, ran => by
      obtain ⟨⟨id, signature⟩, middle, found, ran⟩ := exists_of_bind_eq_ok ran
      obtain ⟨_, _, _, ran⟩ := exists_of_bind_eq_ok ran
      obtain ⟨_, _, _, done⟩ := exists_of_bind_eq_ok ran
      cases done
      rw [typing, Expr.typeOf, resultType?_of_callee found]
      rfl

end Emitter

end Backpatch
