import Backpatch.Proofs.EarlierCode
import Backpatch.Proofs.ReachedStates
import Backpatch.Proofs.WellFormed

/-!
# Conversions that are written directly

An int on the left of an operator has to be converted if there turns out to be a double on the
right.  The compiler reserves a byte for that and fills it when the right operand has been compiled.
This file has a plainer compiler, which goes by the types of both operands and writes each
conversion where it belongs, and never reserves a byte.  Whatever the compiler writes, the plainer
one writes too.
-/

namespace Backpatch

open Emitter

namespace Direct

/-- Make sure that an expression, given by its action, leaves a value, and tell its type. -/
def valueOf (action : EmitM Compiled) : EmitM Ty := do
  materializeValue (← action)

/-- Convert the value on top of the stack if it is an int that meets a double. -/
def widen (source other : Ty) : EmitM Unit :=
  if source = .int ∧ other = .double then emit .i2d else pure ()

/-- Write both operands of an operator, given by their actions, as values of their common type, and
tell that type.  The type of the right one is known. -/
def emitOperands (rightTy : Ty) (left right : EmitM Compiled) : EmitM Ty := do
  let leftTy ← valueOf left
  widen leftTy rightTy
  let _ ← valueOf right
  widen rightTy leftTy
  return Ty.common leftTy rightTy

mutual

/-- Write the code of an expression, with every conversion in its place at once. -/
def emitExpr : Expr → EmitM Compiled
  | .binary position op left right =>
      match op with
      | .logic connective =>
          emitLogical connective
            (do branchOnValue (← emitExpr left) left.position)
            (do branchOnValue (← emitExpr right) right.position)
      | .compare comparison => do
          let rightTy ← predictedType right
          let ty ← emitOperands rightTy (emitExpr left) (emitExpr right)
          emitComparison comparison ty
      | .arith arith => do
          let rightTy ← predictedType right
          let ty ← emitOperands rightTy (emitExpr left) (emitExpr right)
          emitArithmetic arith ty position
  | .unary position op operand =>
      match op with
      | .not => do
          let pending ← branchOnValue (← emitExpr operand) operand.position
          return .branch pending.negate
      | .neg => do
          emitNegation (← emitExpr operand) position
  | .call position name args => do
      let (id, signature) ← ask (callee name args.length position)
      emitArgs args (signature.params.map (·.ty))
      emitWithWord .call id
      return .value signature.returnType
  | .int position value => Emitter.emitExpr (.int position value)
  | .double position value => Emitter.emitExpr (.double position value)
  | .string position value => Emitter.emitExpr (.string position value)
  | .load position name => Emitter.emitExpr (.load position name)

/-- Write the code of arguments as values of the given types, the last one first. -/
def emitArgs : List Expr → List Ty → EmitM Unit
  | [], _ => pure ()
  | arg :: args, types => do
      emitArgs args types.tail
      coerce (← emitExpr arg) (types.headD .invalid) arg.position

end

end Direct

section Follows

variable {α β : Type} {env : Env} {before after : Emitter}

/-- Whatever an action leads to without an error, another one leads to as well. -/
def Follows (direct action : EmitM α) (before : Emitter) : Prop :=
  ∀ result after, action before = .ok result after → direct before = .ok result after

namespace Follows

theorem refl (action : EmitM α) : Follows action action before :=
  fun _ _ ran => ran

theorem bind {direct action : EmitM α} {directNext next : α → EmitM β}
    (first : Follows direct action before)
    (rest : ∀ result middle, action before = .ok result middle →
      Follows (directNext result) (next result) middle) :
    Follows (direct >>= directNext) (action >>= next) before := by
  intro result after ran
  obtain ⟨value, middle, began, ended⟩ := exists_of_bind_eq_ok ran
  rw [bind_apply, first value middle began]
  exact rest value middle began result after ended

/-- What comes afterwards is the same. -/
theorem andThen {direct action : EmitM α} (first : Follows direct action before)
    (next : α → EmitM β) : Follows (direct >>= next) (action >>= next) before :=
  first.bind fun _ _ _ => refl _

end Follows

theorem bind_of_ok {action : EmitM α} {next : α → EmitM β} {result : α} {middle : Emitter}
    (ran : action before = .ok result middle) : (action >>= next) before = next result middle := by
  rw [bind_apply, ran]

/-- A byte that is reserved at the end of the code and filled at once is an instruction. -/
theorem Buffer.filled_reserveOp_self {buffer : Buffer}
    (inside : ∀ offset ∈ buffer.openSites, offset < buffer.size) (op : Op) :
    buffer.reserveOp.2.filled buffer.size [op.toByte] = buffer.emit op := by
  refine eq_of_toList ?_ fun offset => ?_
  · rw [toList_filled_singleton, reserveOp, toList_openAt, toList_emit, toList_emit,
      ← length_toList, List.set_append_right _ _ (Nat.le_refl _)]
    simp
  · rw [mem_filled, reserveOp, mem_openAt]
    change (offset ∈ buffer.openSites ∨ buffer.size = offset) ∧ offset ≠ buffer.size ↔
      offset ∈ buffer.openSites
    constructor
    · rintro ⟨old | rfl, different⟩
      · exact old
      · exact absurd rfl different
    · exact fun old => ⟨.inl old, Nat.ne_of_lt (inside offset old)⟩

/-- If a byte is reserved before an operand and filled behind it, it might as well have been written
before it. -/
theorem valueOf_of_reserved {right : Expr} {op : Op} {ty : Ty} {valued filled : Emitter}
    (ready : Ready env before)
    (ran : Direct.valueOf (emitExpr right) (before.withBuffer before.buffer.reserveOp.2) =
      .ok ty valued)
    (fills : onBuffer (Buffer.patchOpSite before.buffer.reserveOp.1 op) valued =
      .ok () filled) :
    ∃ written, emit op before = .ok () written ∧
      Direct.valueOf (emitExpr right) written = .ok ty filled := by
  have inside : before.buffer.size < before.buffer.reserveOp.2.size := by
    rw [Buffer.size_reserveOp]
    exact Nat.lt_succ_self _
  have passes : Passes before.buffer.size (fun _ => True) (Direct.valueOf (emitExpr right)) :=
    (Passes.emitExpr right).bind fun _ => Passes.materializeValue
  obtain ⟨ranFilled, inside, -⟩ :=
    passes op.toByte (before.withBuffer before.buffer.reserveOp.2) _ _ inside ran
  have patched : Buffer.patchOpSite before.buffer.reserveOp.1 op valued.buffer = _ :=
    Buffer.patchOpSite_eq op inside
  rw [onBuffer_apply, patched] at fills
  cases fills
  rw [fillAt, buffer_withBuffer, Buffer.filled_reserveOp_self ready.inside] at ranFilled
  exact ⟨before.withBuffer (before.buffer.emit op), rfl, ranFilled⟩

/-- The operands of an operator, given by their actions, are written one after the other, and an int
that meets a double is converted directly behind its code. -/
structure OperandsRun (left right : EmitM Compiled) (leftTy rightTy : Numeric)
    (before leftDone rightStart rightDone after : Emitter) : Prop where
  left : Direct.valueOf left before = .ok leftTy.ty leftDone
  widenLeft : Direct.widen leftTy.ty rightTy.ty leftDone = .ok () rightStart
  right : Direct.valueOf right rightStart = .ok rightTy.ty rightDone
  widenRight : Direct.widen rightTy.ty leftTy.ty rightDone = .ok () after

/-- What the plainer compiler does with operands. -/
theorem OperandsRun.emitOperands {left right : EmitM Compiled} {leftTy rightTy : Numeric}
    {leftDone rightStart rightDone : Emitter}
    (run : OperandsRun left right leftTy rightTy before leftDone rightStart rightDone after) :
    Direct.emitOperands rightTy.ty left right before =
      .ok (Ty.common leftTy.ty rightTy.ty) after := by
  rw [Direct.emitOperands, bind_of_ok run.left, bind_of_ok run.widenLeft, bind_of_ok run.right,
    bind_of_ok run.widenRight]
  rfl

/-- Where the compiler fills a byte that it has reserved, it could have written the conversion
directly. -/
theorem exists_operandsRun {op : BinOp} {position leftPosition rightPosition : Position}
    {left right : Expr} {predicted ty : Ty} (ready : Ready env before)
    (foreseen : ∀ ty, right.typeOf before.scopes before.image = .ok ty → predicted = ty.asValue)
    (ran : emitOperands op position predicted (emitExpr left) leftPosition (emitExpr right)
      rightPosition before = .ok ty after) :
    ∃ leftTy rightTy leftDone rightStart rightDone,
      OperandsRun (emitExpr left) (emitExpr right) leftTy rightTy before leftDone rightStart
        rightDone after ∧ predicted = rightTy.ty ∧ ty = Ty.common leftTy.ty rightTy.ty := by
  obtain ⟨leftCompiled, leftEnd, leftRan, ran⟩ := exists_of_bind_eq_ok ran
  obtain ⟨leftTy, leftDone, leftMaterialized, ran⟩ := exists_of_bind_eq_ok ran
  obtain ⟨site, reserved, reserves, ran⟩ := exists_of_bind_eq_ok ran
  obtain ⟨rightCompiled, rightEnd, rightRan, ran⟩ := exists_of_bind_eq_ok ran
  obtain ⟨rightTy, rightDone, rightMaterialized, ran⟩ := exists_of_bind_eq_ok ran
  obtain ⟨common, checked, checks, ran⟩ := exists_of_bind_eq_ok ran
  obtain ⟨_, converted, leftConverts, ran⟩ := exists_of_bind_eq_ok ran
  obtain ⟨_, _, rightConverts, ⟨⟩⟩ := exists_of_bind_eq_ok ran
  have leftValue : Direct.valueOf (emitExpr left) before = .ok leftTy leftDone :=
    (bind_of_ok leftRan).trans leftMaterialized
  have rightValue : Direct.valueOf (emitExpr right) reserved = .ok rightTy rightDone :=
    (bind_of_ok rightRan).trans rightMaterialized
  have leftEmits := (achieves_emitExpr left ready).of_run leftRan
  obtain ⟨-, leftWrote⟩ :=
    (achieves_materializeValue ready leftEmits.wrote).of_run leftMaterialized
  have reservation := (achieves_reserveConversion leftWrote.ready).of_run reserves
  have readyReserved : Ready env reserved := by
    cases site with
    | none => exact reservation.2 ▸ leftWrote.ready
    | some site => exact reservation.2.2.2.ready
  have rightEmits := (achieves_emitExpr right readyReserved).of_run rightRan
  obtain ⟨rightTyEq, -⟩ :=
    (achieves_materializeValue readyReserved rightEmits.wrote).of_run rightMaterialized
  obtain ⟨rfl, numeric, rfl⟩ := achieves_numericType.of_run checks
  have rightTyped := rightEmits.typed
  rw [readyReserved.typeOf_eq ready] at rightTyped
  obtain rfl : predicted = rightTy := by
    have rightNumeric := (Ty.isNumeric_of_common numeric).2
    rw [rightTyEq] at rightNumeric ⊢
    exact (foreseen _ rightTyped).trans (Compiled.asValue_ty rightNumeric)
  rcases Ty.common_isNumeric numeric with ⟨shared, rfl, rfl⟩ | ⟨rfl, rfl⟩ | ⟨rfl, rfl⟩
  · cases site with
    | some site =>
        obtain ⟨⟨isInt, isDouble⟩, -⟩ := reservation
        rw [isInt] at isDouble
        cases isDouble
    | none =>
        obtain ⟨-, rfl⟩ := reservation
        rw [Ty.common_self] at leftConverts rightConverts ⊢
        rw [convertLeft_self] at leftConverts
        rw [convert_self] at rightConverts
        cases leftConverts
        cases rightConverts
        have alike : Direct.widen shared.ty shared.ty = pure () := by cases shared <;> rfl
        refine ⟨shared, shared, _, _, _, ⟨leftValue, ?_, rightValue, ?_⟩, rfl, ?_⟩
        · rw [alike]; rfl
        · rw [alike]; rfl
        · rw [Ty.common_self]
  · cases site with
    | none => exact absurd ⟨rfl, rfl⟩ reservation.1
    | some site =>
        cases reserves
        cases rightConverts
        obtain ⟨written, writes, rightValue⟩ :=
          valueOf_of_reserved leftWrote.ready rightValue leftConverts
        exact ⟨.int, .double, _, _, _, ⟨leftValue, writes, rightValue, rfl⟩, rfl, rfl⟩
  · cases site with
    | some site =>
        obtain ⟨⟨isInt, -⟩, -⟩ := reservation
        cases isInt
    | none =>
        obtain ⟨-, rfl⟩ := reservation
        cases leftConverts
        exact ⟨.double, .int, _, _, _, ⟨leftValue, rfl, rightValue, rightConverts⟩, rfl, rfl⟩

theorem achieves_valueOf (expr : Expr) (ready : Ready env before) :
    Achieves (Direct.valueOf (emitExpr expr)) before fun ty after =>
      (ty.isNumeric → (expr.typeOf before.scopes before.image).map Ty.asValue = .ok ty) ∧
        Wrote env before after [] fun _ _ => True := by
  refine (achieves_emitExpr expr ready).bind fun compiled middle emits => ?_
  refine (achieves_materializeValue ready emits.wrote).imp ?_
  rintro _ after ⟨rfl, wrote⟩
  refine ⟨fun numeric => ?_, wrote.imp fun _ _ _ => trivial⟩
  rw [emits.typed, ← Compiled.asValue_ty numeric]
  rfl

theorem achieves_widen {source other : Ty} (ready : Ready env before) :
    Achieves (Direct.widen source other) before fun _ after =>
      Wrote env before after [] fun _ _ => True := by
  unfold Direct.widen
  split
  · exact (achieves_emit ready rfl).imp fun _ _ ⟨_, wrote⟩ => wrote.imp fun _ _ _ => trivial
  · exact .pure (.refl ready)

theorem OperandsRun.ready_rightStart {left right : Expr} {leftTy rightTy : Numeric}
    {leftDone rightStart rightDone : Emitter} (ready : Ready env before)
    (run : OperandsRun (emitExpr left) (emitExpr right) leftTy rightTy before leftDone rightStart
      rightDone after) : Ready env rightStart :=
  ((achieves_widen ((achieves_valueOf left ready).of_run run.left).2.ready).of_run
    run.widenLeft).ready

theorem OperandsRun.follow {left right : Expr} {leftTy rightTy : Numeric}
    {leftDone rightStart rightDone : Emitter} (ready : Ready env before)
    (leftFollows : Follows (Direct.emitExpr left) (emitExpr left) before)
    (rightFollows : ∀ middle, Ready env middle →
      Follows (Direct.emitExpr right) (emitExpr right) middle)
    (run : OperandsRun (emitExpr left) (emitExpr right) leftTy rightTy before leftDone rightStart
      rightDone after) :
    OperandsRun (Direct.emitExpr left) (Direct.emitExpr right) leftTy rightTy before leftDone
      rightStart rightDone after where
  left := leftFollows.andThen materializeValue _ _ run.left
  widenLeft := run.widenLeft
  right := (rightFollows _ (run.ready_rightStart ready)).andThen materializeValue _ _ run.right
  widenRight := run.widenRight

theorem foreseen_of_predictedType {right : Expr} {predicted : Ty}
    (ran : predictedType right before = .ok predicted after) :
    before = after ∧
      ∀ ty, right.typeOf before.scopes before.image = .ok ty → predicted = ty.asValue := by
  have predicts : Achieves (predictedType right) before fun predicted after => before = after ∧
      ∀ ty, right.typeOf before.scopes before.image = .ok ty → predicted = ty.asValue := by
    rw [← bind_pure (predictedType right)]
    exact achieves_predictedType fun predicted foreseen => .pure ⟨rfl, foreseen⟩
  exact predicts.of_run ran

theorem count_of_callee {name : String} {count : Nat} {position : Position}
    {answer : UInt16 × Signature} (ready : Ready env before)
    (ran : ask (callee name count position) before = .ok answer after) :
    before = after ∧ count = answer.2.params.length := by
  have known : Achieves (ask (callee name count position)) before fun answer after =>
      before = after ∧ count = answer.2.params.length := by
    rw [← bind_pure (ask _)]
    exact achieves_callee ready fun id signature _ same => .pure ⟨rfl, same⟩
  exact known.of_run ran

theorem follows_operation {op : BinOp} {position leftPosition rightPosition : Position}
    {left right : Expr} (ready : Ready env before)
    (leftFollows : Follows (Direct.emitExpr left) (emitExpr left) before)
    (rightFollows : ∀ middle, Ready env middle →
      Follows (Direct.emitExpr right) (emitExpr right) middle) (finish : Ty → EmitM Compiled) :
    Follows
      (do
        let rightTy ← predictedType right
        let ty ← Direct.emitOperands rightTy (Direct.emitExpr left) (Direct.emitExpr right)
        finish ty)
      (do
        let predicted ← predictedType right
        let ty ← emitOperands op position predicted (emitExpr left) leftPosition (emitExpr right)
          rightPosition
        finish ty) before := by
  refine (Follows.refl _).bind fun predicted asked ran => ?_
  obtain ⟨rfl, foreseen⟩ := foreseen_of_predictedType ran
  refine Follows.andThen ?_ finish
  intro ty after operandsRan
  obtain ⟨leftTy, rightTy, leftDone, rightStart, rightDone, run, rfl, rfl⟩ :=
    exists_operandsRun ready foreseen operandsRan
  exact (run.follow ready leftFollows rightFollows).emitOperands

theorem follows_emitLogical {connective : Connective} {left right : Expr} (ready : Ready env before)
    (leftFollows : Follows (Direct.emitExpr left) (emitExpr left) before)
    (rightFollows : ∀ middle, Ready env middle →
      Follows (Direct.emitExpr right) (emitExpr right) middle) :
    Follows
      (emitLogical connective
        (do branchOnValue (← Direct.emitExpr left) left.position)
        (do branchOnValue (← Direct.emitExpr right) right.position))
      (emitLogical connective
        (do branchOnValue (← emitExpr left) left.position)
        (do branchOnValue (← emitExpr right) right.position)) before := by
  refine (leftFollows.andThen _).bind fun pending leftDone leftRan => ?_
  have leftWrote := (achieves_emitCondition left ready).of_run leftRan
  refine (Follows.refl _).bind ?_
  rintro _ _ ⟨⟩
  cases connective with
  | and =>
      refine (Follows.refl _).bind fun _ patched patches => ?_
      obtain ⟨-, patchedWrote⟩ := (achieves_patch (pending.falseSites.map Site.hole) ready leftWrote
        (by simp [PendingBranch.holes]) (Nat.le_refl _)).of_run patches
      exact ((rightFollows patched patchedWrote.ready).andThen _).andThen _
  | or =>
      refine (Follows.refl _).bind fun _ patched patches => ?_
      obtain ⟨-, patchedWrote⟩ := (achieves_patch (pending.trueSites.map Site.hole) ready leftWrote
        (by simpa [PendingBranch.holes] using List.perm_append_comm) (Nat.le_refl _)).of_run patches
      exact ((rightFollows patched patchedWrote.ready).andThen _).andThen _

mutual

/-- The plainer compiler writes what the compiler writes. -/
theorem follows_emitExpr : (expr : Expr) → {before : Emitter} → Ready env before →
    Follows (Direct.emitExpr expr) (emitExpr expr) before
  | .int .., _, _ | .double .., _, _ | .string .., _, _ | .load .., _, _ => by
      rw [Direct.emitExpr]
      exact .refl _
  | .binary position (.logic connective) left right, before, ready => by
      rw [emitExpr, Direct.emitExpr]
      exact follows_emitLogical ready (follows_emitExpr left ready)
        fun _ middleReady => follows_emitExpr right middleReady
  | .binary position (.compare comparison) left right, before, ready => by
      rw [emitExpr, Direct.emitExpr]
      exact follows_operation ready (follows_emitExpr left ready)
        (fun _ middleReady => follows_emitExpr right middleReady) _
  | .binary position (.arith arith) left right, before, ready => by
      rw [emitExpr, Direct.emitExpr]
      exact follows_operation ready (follows_emitExpr left ready)
        (fun _ middleReady => follows_emitExpr right middleReady) _
  | .unary position .not operand, before, ready => by
      rw [emitExpr, Direct.emitExpr]
      exact (follows_emitExpr operand ready).andThen _
  | .unary position .neg operand, before, ready => by
      rw [emitExpr, Direct.emitExpr]
      exact (follows_emitExpr operand ready).andThen _
  | .call position name args, before, ready => by
      rw [emitExpr, Direct.emitExpr]
      refine (Follows.refl _).bind fun answer asked ran => ?_
      obtain ⟨rfl, count⟩ := count_of_callee ready ran
      refine (follows_emitArgs args _ ?_ ready).andThen _
      simpa using count

theorem follows_emitArgs : (args : List Expr) → (types : List Ty) → args.length = types.length →
    {before : Emitter} → Ready env before →
    Follows (Direct.emitArgs args types) (emitArgs args types) before
  | [], _, _, _, _ => by
      rw [Direct.emitArgs, emitArgs]
      exact .refl _
  | arg :: args, ty :: types, count, before, ready => by
      rw [Direct.emitArgs, emitArgs]
      have count := Nat.succ.inj count
      refine (follows_emitArgs args types count ready).bind fun _ later ran => ?_
      have laterWrote := (achieves_emitArgs args types count ready).of_run ran
      exact (follows_emitExpr arg laterWrote.ready).andThen _

end

/-- The code that converts an int which meets a double. -/
def Numeric.conversion : Numeric → Numeric → List UInt8
  | int, double => [Op.i2d.toByte]
  | _, _ => []

/-- The numeric type that two numeric types have in common. -/
def Numeric.common : Numeric → Numeric → Numeric
  | int, int => int
  | _, _ => double

end Follows

end Backpatch
