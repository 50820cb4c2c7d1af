import Backpatch.Proofs.Emission

/-!
# What is written for expressions

Every action that compiles an expression achieves code of the form that the layout asks for, in
every state that fits the environment.  A condition has that form as soon as its outcomes are led
somewhere, wherever that is.

The type that an expression leaves is the one that is found for it beforehand.  It is for this
reason that a byte for the conversion of a left operand is there whenever one is needed.
-/

namespace Backpatch

/-- Once its outcomes are led somewhere, the code of a condition is that of the given part. -/
def PendingBranch.Decides (pending : PendingBranch) (names : Names) (part : Nat → Nat → ExprPart)
    (start stop : Nat) (image : Image) (code : List UInt8) : Prop :=
  ∀ onTrue onFalse, (∀ site ∈ pending.trueSites, TargetAt code site onTrue) →
    (∀ site ∈ pending.falseSites, TargetAt code site onFalse) →
    ExprCode image code names (part onTrue onFalse) start stop

namespace Compiled

def holes : Compiled → List Hole
  | value _ => []
  | branch pending => pending.holes

def ty : Compiled → Ty
  | value ty => ty
  | branch _ => .logic

/-- The type of what the code of an expression leaves, once it is made a value. -/
def valueTy : Compiled → Ty
  | value ty => ty
  | branch _ => .int

/-- What has been written for an expression. -/
def IsCode (names : Names) (expr : Expr) (start stop : Nat) (image : Image) (code : List UInt8) :
    Compiled → Prop
  | value ty => ExprCode image code names (.value expr ty) start stop
  | branch pending => pending.Decides names (.branch expr) start stop image code

end Compiled

theorem Ty.common_isNumeric {left right : Ty} (numeric : (common left right).isNumeric) :
    (∃ numeric : Numeric, left = numeric.ty ∧ right = numeric.ty) ∨
      (left = .int ∧ right = .double) ∨ (left = .double ∧ right = .int) := by
  cases left <;> cases right <;> cases numeric
  · exact .inl ⟨.int, rfl, rfl⟩
  · exact .inr (.inl ⟨rfl, rfl⟩)
  · exact .inr (.inr ⟨rfl, rfl⟩)
  · exact .inl ⟨.double, rfl, rfl⟩

theorem Ty.isNumeric_of_common {left right : Ty} (numeric : (common left right).isNumeric) :
    left.isNumeric ∧ right.isNumeric := by
  cases left <;> cases right <;> first | exact ⟨rfl, rfl⟩ | cases numeric

theorem Compiled.asValue_ty {compiled : Compiled} (numeric : compiled.valueTy.isNumeric) :
    compiled.ty.asValue = compiled.valueTy := by
  cases compiled with
  | branch pending => rfl
  | value ty => cases ty <;> first | rfl | cases numeric

namespace Emitter

variable {env : Env} {before middle : Emitter} {expr : Expr}

theorem achieves_materialize {pending : PendingBranch} {numeric : Numeric}
    (ready : Ready env before)
    (wrote : Wrote env before middle pending.holes
      (pending.Decides env.toNames (.branch expr) before.buffer.size middle.buffer.size)) :
    Achieves (materialize pending numeric) middle fun _ after =>
      after.buffer.size = middle.buffer.size + 5 ∧
        Wrote env before after [] fun final code =>
          ExprCode final code env.toNames
              (.branch expr middle.buffer.size (middle.buffer.size + 4))
              before.buffer.size middle.buffer.size ∧
            DiamondAt code middle.buffer.size numeric := by
  unfold materialize
  refine .offset ?_
  refine (achieves_emit wrote.ready (by cases numeric <;> rfl)).bind ?_
  rintro _ oneDone ⟨oneSize, oneWrote⟩
  refine (achieves_emitJump oneWrote.ready).bind ?_
  rintro join jumpDone ⟨jumpSize, jumpWrote⟩
  refine .offset ?_
  refine (achieves_emit jumpWrote.ready (by cases numeric <;> rfl)).bind ?_
  rintro _ zeroDone ⟨zeroSize, zeroWrote⟩
  refine .offset ?_
  -- Each patch closes the holes that come first: the join, then the true and the false sites.
  refine (achieves_patch pending.holes ready
    (((wrote.trans oneWrote).trans jumpWrote).trans zeroWrote)
    (by grind) (Nat.le_refl _)).bind ?_
  rintro _ joined ⟨joinedSize, joinedWrote⟩
  refine (achieves_patch (pending.falseSites.map Site.hole) ready joinedWrote
    (by simp [PendingBranch.holes]) (by omega)).bind ?_
  rintro _ trueDone ⟨trueSize, trueWrote⟩
  refine (achieves_patch [] ready trueWrote (by simp) (by omega)).imp ?_
  rintro _ after ⟨size, done⟩
  refine ⟨by omega, done.imp ?_⟩
  rintro final code ⟨⟨⟨⟨⟨⟨branch, one⟩, jump⟩, zero⟩, joinTarget⟩, trueTargets⟩, falseTargets⟩
  rw [oneSize] at jump
  rw [jumpSize, oneSize] at zero falseTargets
  refine ⟨branch _ _ trueTargets falseTargets, one, ?_, zero⟩
  have target := joinTarget join List.mem_cons_self
  rw [zeroSize, jumpSize, oneSize] at target
  exact jump _ target

theorem onBuffer_bind {α β : Type} (action : BufferM α) (next : α → BufferM β) :
    onBuffer (action >>= next) = (do onBuffer (next (← onBuffer action))) := by
  funext emitter
  have began : (action >>= next) emitter.buffer = EStateM.bind action next emitter.buffer := rfl
  rw [bind_apply, onBuffer_apply, onBuffer_apply, began, EStateM.bind]
  cases action emitter.buffer <;> rfl

theorem onBuffer_resolve (pending : PendingBranch) (target : Nat) :
    onBuffer (pending.resolve target) =
      (do patch pending.trueSites target; patch pending.falseSites target) :=
  onBuffer_bind _ _

theorem achieves_resolve {pending : PendingBranch} (ready : Ready env before)
    (wrote : Wrote env before middle pending.holes
      (pending.Decides env.toNames (.branch expr) before.buffer.size middle.buffer.size)) :
    Achieves (onBuffer (pending.resolve middle.buffer.size)) middle fun _ after =>
      Wrote env before after [] fun final code =>
        ExprCode final code env.toNames (.branch expr after.buffer.size after.buffer.size)
          before.buffer.size after.buffer.size := by
  rw [onBuffer_resolve]
  refine (achieves_patch (pending.falseSites.map Site.hole) ready wrote
    (by simp [PendingBranch.holes]) (Nat.le_refl _)).bind ?_
  rintro _ trueDone ⟨trueSize, trueWrote⟩
  refine (achieves_patch [] ready trueWrote (by simp) (by omega)).imp ?_
  rintro _ after ⟨size, done⟩
  rw [show after.buffer.size = middle.buffer.size by omega]
  exact done.imp fun final code ⟨⟨branch, trueTargets⟩, falseTargets⟩ =>
    branch _ _ trueTargets falseTargets

theorem width_of_convert {source target : Ty} {op : Op}
    (conversion : Op.convert? source target = some op) : op.width = 0 := by
  cases source <;> cases target <;> cases conversion <;> rfl

theorem achieves_materializeValue {compiled : Compiled} (ready : Ready env before)
    (wrote : Wrote env before middle compiled.holes fun final code =>
      compiled.IsCode env.toNames expr before.buffer.size middle.buffer.size final code) :
    Achieves (materializeValue compiled) middle fun ty after =>
      ty = compiled.valueTy ∧
        Wrote env before after [] fun final code =>
          ExprCode final code env.toNames (.operand expr ty) before.buffer.size
            after.buffer.size := by
  cases compiled with
  | value ty => exact .pure ⟨rfl, wrote.imp fun final code value => .operandValue value⟩
  | branch pending =>
      refine (achieves_materialize ready wrote).bind ?_
      rintro _ after ⟨size, done⟩
      refine ⟨rfl, ?_⟩
      rw [size]
      exact done.imp fun final code ⟨branch, diamond⟩ => .operandBranch branch diamond

/-- Making what an expression has left a value of a given type. -/
theorem achieves_coerce {compiled : Compiled} {target : Ty} {position : Position}
    (ready : Ready env before)
    (wrote : Wrote env before middle compiled.holes fun final code =>
      compiled.IsCode env.toNames expr before.buffer.size middle.buffer.size final code) :
    Achieves (coerce compiled target position) middle fun _ after =>
      Wrote env before after [] fun final code =>
        ExprCode final code env.toNames (.converted expr target) before.buffer.size
          after.buffer.size := by
  cases compiled with
  | value source =>
      unfold coerce convert
      dsimp only
      split
      case isTrue alike =>
          refine .pure (wrote.imp fun final code value => ?_)
          rcases alike with rfl | rfl
          · exact .same value
          · exact .unwanted value
      case isFalse different =>
          cases conversion : Op.convert? source target with
          | none => exact .throw rfl
          | some op =>
              refine (achieves_emit wrote.ready (width_of_convert conversion)).imp ?_
              rintro _ after ⟨size, done⟩
              rw [size]
              exact (wrote.trans done).imp fun final code ⟨value, instr⟩ =>
                .convert value conversion instr
  | branch pending =>
      cases target with
      | int | double =>
          refine (achieves_materialize ready wrote).imp ?_
          rintro _ after ⟨size, done⟩
          rw [size]
          exact done.imp fun final code ⟨branch, diamond⟩ => .convertBranch branch diamond
      | void =>
          refine .offset ((achieves_resolve ready wrote).imp ?_)
          exact fun _ after done => done.imp fun final code branch => .unwantedBranch branch
      | logic | string | invalid => exact .throw rfl

theorem achieves_branchOnValue {compiled : Compiled} {position : Position}
    (wrote : Wrote env before middle compiled.holes fun final code =>
      compiled.IsCode env.toNames expr before.buffer.size middle.buffer.size final code) :
    Achieves (branchOnValue compiled position) middle fun pending after =>
      Wrote env before after pending.holes
        (pending.Decides env.toNames (.condition expr) before.buffer.size after.buffer.size) := by
  cases compiled with
  | branch pending =>
      exact .pure (wrote.imp fun final code branch onTrue onFalse trueTargets falseTargets =>
        .conditionBranch (branch onTrue onFalse trueTargets falseTargets))
  | value ty =>
      cases ty with
      | int =>
          refine (achieves_emit wrote.ready rfl).bind ?_
          rintro _ zeroDone ⟨zeroSize, zeroWrote⟩
          refine (achieves_emitBranch zeroWrote.ready rfl).imp ?_
          rintro pending after ⟨size, branchWrote⟩
          refine ((wrote.trans zeroWrote).trans branchWrote).imp ?_
          rintro final code ⟨⟨value, zero⟩, branch⟩ onTrue onFalse trueTargets falseTargets
          rw [size, zeroSize]
          rw [zeroSize] at branch
          exact .conditionInt value zero (branch onTrue onFalse trueTargets falseTargets)
      | double =>
          refine (achieves_emit wrote.ready rfl).bind ?_
          rintro _ zeroDone ⟨zeroSize, zeroWrote⟩
          refine (achieves_emit zeroWrote.ready rfl).bind ?_
          rintro _ compareDone ⟨compareSize, compareWrote⟩
          refine (achieves_emit compareWrote.ready rfl).bind ?_
          rintro _ intDone ⟨intSize, intWrote⟩
          refine (achieves_emitBranch intWrote.ready rfl).imp ?_
          rintro pending after ⟨size, branchWrote⟩
          refine ((((wrote.trans zeroWrote).trans compareWrote).trans intWrote).trans
            branchWrote).imp ?_
          rintro final code ⟨⟨⟨⟨value, zero⟩, compare⟩, intZero⟩, branch⟩
          intro onTrue onFalse trueTargets falseTargets
          rw [size, intSize, compareSize, zeroSize]
          rw [zeroSize] at compare
          rw [compareSize, zeroSize] at intZero
          rw [intSize, compareSize, zeroSize] at branch
          exact .conditionDouble value zero compare intZero
            (branch onTrue onFalse trueTargets falseTargets)
      | logic | string | void | invalid => exact .throw rfl

theorem resultType?_eq (emitter : Emitter) (name : String) :
    resultType? emitter.scopes emitter.image name =
      (emitter.callee? name).map (·.2.returnType) := by
  unfold resultType? callee?
  cases resolveFunction? emitter.scopes emitter.image name with
  | none => rfl
  | some id =>
      simp only [Option.bind_eq_bind, Option.bind_some]
      cases emitter.image.routine? id <;> rfl

/-- The type of an expression depends on the environment only. -/
theorem Ready.typeOf_eq {first second : Emitter} (firstReady : Ready env first)
    (secondReady : Ready env second) : (expr : Expr) →
    expr.typeOf first.scopes first.image = expr.typeOf second.scopes second.image
  | .int .. | .double .. | .string .. => rfl
  | .load .. => by simp only [Expr.typeOf, firstReady.var, secondReady.var]
  | .binary _ _ left right => by
      simp only [Expr.typeOf, typeOf_eq firstReady secondReady left,
        typeOf_eq firstReady secondReady right]
  | .unary _ _ operand => by
      simp only [Expr.typeOf, typeOf_eq firstReady secondReady operand]
  | .call .. => by
      simp only [Expr.typeOf, resultType?_eq, firstReady.callee, secondReady.callee]

/-- An expression has been compiled: its code is there, and it leaves what its type says. -/
structure Emits (env : Env) (expr : Expr) (before : Emitter) (compiled : Compiled)
    (after : Emitter) : Prop where
  typed : expr.typeOf before.scopes before.image = .ok compiled.ty
  wrote : Wrote env before after compiled.holes fun final code =>
    compiled.IsCode env.toNames expr before.buffer.size after.buffer.size final code

theorem achieves_reserveOp (ready : Ready env before) :
    Achieves (writeWith (·.reserveOp)) before fun site after =>
      site.offset = before.buffer.size ∧ after.buffer.size = before.buffer.size + 1 ∧
        Wrote env before after [⟨before.buffer.size, 1⟩] fun _ _ => True :=
  ⟨rfl, Buffer.size_reserveOp _, Wrote.ofBuffer ready (.reserveOp _)⟩

theorem achieves_patchOpSite {site : Site} {op : Op} {opened : List Hole}
    {facts : Image → List UInt8 → Prop} (rest : List Hole) (ready : Ready env before)
    (wrote : Wrote env before middle opened facts)
    (among : opened.Perm (⟨site.offset, 1⟩ :: rest)) :
    Achieves (onBuffer (Buffer.patchOpSite site op)) middle fun _ after =>
      after.buffer.size = middle.buffer.size ∧
        Wrote env before after rest fun final code =>
          facts final code ∧ Holds code site.offset [op.toByte] := by
  have writes := wrote.writes.perm among
  have patched := Buffer.patchOpSite_eq op (writes.within _ List.mem_cons_self).2.2
  have filled := writes.filled ready.inside [op.toByte] rfl
  unfold Achieves
  rw [onBuffer_apply, patched]
  exact ⟨Buffer.size_filled _ _ _, wrote.refill ready filled⟩

/-- The code of two operands, with the types that they have by themselves. -/
structure EmitsOperands (env : Env) (left right : Expr) (before : Emitter) (ty : Ty)
    (after : Emitter) : Prop where
  numeric : ty.isNumeric
  typed : ∃ leftTy rightTy, left.typeOf before.scopes before.image = .ok leftTy ∧
    right.typeOf before.scopes before.image = .ok rightTy ∧
    ty = Ty.common leftTy.asValue rightTy.asValue
  wrote : Wrote env before after [] fun final code =>
    ExprCode final code env.toNames (.operands left right ty) before.buffer.size after.buffer.size

theorem achieves_reserveConversion {leftTy predicted : Ty} (ready : Ready env before) :
    Achieves (reserveConversion leftTy predicted) before fun site after =>
      match site with
      | some site =>
          (leftTy = .int ∧ predicted = .double) ∧ site.offset = before.buffer.size ∧
            after.buffer.size = before.buffer.size + 1 ∧
            Wrote env before after [⟨before.buffer.size, 1⟩] fun _ _ => True
      | none => ¬ (leftTy = .int ∧ predicted = .double) ∧ before = after := by
  have widens : leftTy = .int ∧ Ty.common leftTy predicted = .double ↔
      leftTy = .int ∧ predicted = .double := by
    constructor
    · rintro ⟨rfl, widened⟩
      cases predicted <;> first | exact ⟨rfl, rfl⟩ | cases widened
    · rintro ⟨rfl, rfl⟩
      exact ⟨rfl, rfl⟩
  unfold reserveConversion
  simp only [widens]
  split
  case isTrue reserve =>
      refine (achieves_reserveOp ready).bind ?_
      rintro site after ⟨place, size, wrote⟩
      exact .pure ⟨reserve, place, size, wrote⟩
  case isFalse noReserve => exact .pure ⟨noReserve, rfl⟩

theorem achieves_numericType {op : BinOp} {leftTy rightTy : Ty} {position : Position} :
    Achieves (numericType op leftTy rightTy position) before fun ty after =>
      Ty.common leftTy rightTy = ty ∧ ty.isNumeric ∧ before = after := by
  unfold numericType
  dsimp only
  split
  case isTrue numeric => exact .pure ⟨rfl, numeric, rfl⟩
  case isFalse notNumeric => exact .throw rfl

@[simp]
theorem convert_self (ty : Ty) (site : Option Site) (position : Position) :
    convert ty ty site position = pure () :=
  if_pos (Or.inl rfl)

@[simp]
theorem convertLeft_self (op : BinOp) (ty : Ty) (position : Position) :
    convertLeft op ty ty position none = pure () :=
  if_pos rfl

/-- Both operands of an operator.  A byte for the conversion of the left one is there if and only if
it is needed, since the type of the right one is known beforehand. -/
theorem achieves_emitOperands {op : BinOp} {position leftPosition rightPosition : Position}
    {left right : Expr} {predicted : Ty} {leftAction rightAction : EmitM Compiled}
    (foreseen : ∀ ty, right.typeOf before.scopes before.image = .ok ty → predicted = ty.asValue)
    (leftEmits : Achieves leftAction before (Emits env left before))
    (rightEmits : ∀ middle, Ready env middle → Achieves rightAction middle (Emits env right middle))
    (ready : Ready env before) :
    Achieves
      (emitOperands op position predicted leftAction leftPosition rightAction rightPosition)
      before (EmitsOperands env left right before) := by
  unfold emitOperands
  refine leftEmits.bind ?_
  rintro leftCompiled leftDone ⟨leftTyped, leftWrote⟩
  refine (achieves_materializeValue ready leftWrote).bind ?_
  rintro _ leftValue ⟨rfl, leftOperand⟩
  refine (achieves_reserveConversion leftOperand.ready).bind ?_
  intro site reserved reservation
  have readyReserved : Ready env reserved := by
    cases site with
    | none => exact reservation.2 ▸ leftOperand.ready
    | some site => exact reservation.2.2.2.ready
  refine (rightEmits reserved readyReserved).bind ?_
  rintro rightCompiled rightDone ⟨rightTyped, rightWrote⟩
  refine (achieves_materializeValue readyReserved rightWrote).bind ?_
  rintro _ rightValue ⟨rfl, rightOperand⟩
  refine achieves_numericType.bind ?_
  rintro _ _ ⟨rfl, numeric, rfl⟩
  rw [readyReserved.typeOf_eq ready] at rightTyped
  obtain ⟨leftNumeric, rightNumeric⟩ := Ty.isNumeric_of_common numeric
  have typed : ∃ leftTy rightTy, left.typeOf before.scopes before.image = .ok leftTy ∧
      right.typeOf before.scopes before.image = .ok rightTy ∧
      Ty.common leftCompiled.valueTy rightCompiled.valueTy =
        Ty.common leftTy.asValue rightTy.asValue := by
    refine ⟨_, _, leftTyped, rightTyped, ?_⟩
    rw [Compiled.asValue_ty leftNumeric, Compiled.asValue_ty rightNumeric]
  -- What is on the right has the type that was foreseen, so a site is there just for an int on the
  -- left and a double on the right.
  obtain rfl : predicted = rightCompiled.valueTy :=
    (foreseen _ rightTyped).trans (Compiled.asValue_ty rightNumeric)
  generalize leftCompiled.valueTy = leftTy at *
  generalize rightCompiled.valueTy = rightTy at *
  rcases Ty.common_isNumeric numeric with ⟨shared, rfl, rfl⟩ | ⟨rfl, rfl⟩ | ⟨rfl, rfl⟩
  · cases site with
    | some site =>
        obtain ⟨⟨isInt, isDouble⟩, -⟩ := reservation
        rw [isInt] at isDouble
        cases isDouble
    | none =>
        obtain ⟨-, rfl⟩ := reservation
        rw [Ty.common_self] at typed numeric ⊢
        rw [convertLeft_self, convert_self]
        exact ⟨numeric, typed, (leftOperand.trans rightOperand).imp
          fun final code ⟨first, second⟩ => .alike first second⟩
  · cases site with
    | none => exact absurd ⟨rfl, rfl⟩ reservation.1
    | some site =>
        obtain ⟨-, place, size, reservedWrote⟩ := reservation
        refine (achieves_patchOpSite [] ready ((leftOperand.trans reservedWrote).trans rightOperand)
          (by rw [place]; simp)).bind ?_
        rintro _ after ⟨sameSize, done⟩
        refine ⟨numeric, typed, done.imp ?_⟩
        rintro final code ⟨⟨⟨first, -⟩, second⟩, conversion⟩
        rw [place] at conversion
        rw [size] at second
        rw [show after.buffer.size = rightValue.buffer.size from sameSize]
        exact .widenLeft first (fetch_of_holds conversion rfl) second
  · cases site with
    | some site =>
        obtain ⟨⟨isInt, -⟩, -⟩ := reservation
        cases isInt
    | none =>
        obtain ⟨-, rfl⟩ := reservation
        change Achieves (do emit .i2d; pure Ty.double : EmitM Ty) rightValue _
        refine (achieves_emit rightOperand.ready rfl).bind ?_
        rintro _ after ⟨size, done⟩
        refine ⟨numeric, typed, ((leftOperand.trans rightOperand).trans done).imp ?_⟩
        rintro final code ⟨⟨first, second⟩, conversion⟩
        rw [show after.buffer.size = rightValue.buffer.size + 1 from size]
        exact .widenRight first second conversion

theorem width_of_instr {op : ArithOp} {ty : Ty} {instr : Op} (member : op.instr? ty = some instr) :
    instr.width = 0 := by
  cases op <;> cases ty <;> cases member <;> rfl

theorem achieves_emitArithmetic {op : ArithOp} {position operandsPosition : Position} {ty : Ty}
    {left right : Expr} (operands : EmitsOperands env left right before ty middle) :
    Achieves (emitArithmetic op ty position) middle
      (Emits env (.binary operandsPosition (.arith op) left right) before) := by
  obtain ⟨-, ⟨leftTy, rightTy, leftTyped, rightTyped, tyEq⟩, operandsWrote⟩ := operands
  unfold emitArithmetic
  cases member : op.instr? ty with
  | none => exact .throw rfl
  | some instr =>
      refine (achieves_emit operandsWrote.ready (width_of_instr member)).bind ?_
      rintro _ after ⟨size, wrote⟩
      refine .pure ⟨?_, ?_⟩
      · rw [Expr.typeOf, leftTyped, rightTyped, Compiled.ty, tyEq]
        rfl
      · refine (operandsWrote.trans wrote).imp ?_
        rintro final code ⟨operandsCode, instrAt⟩
        rw [size]
        exact .arith operandsCode member instrAt

theorem achieves_emitComparison {op : Comparison} {position : Position} {ty : Ty}
    {left right : Expr} (operands : EmitsOperands env left right before ty middle) :
    Achieves (emitComparison op ty) middle
      (Emits env (.binary position (.compare op) left right) before) := by
  obtain ⟨numeric, ⟨leftTy, rightTy, leftTyped, rightTyped, -⟩, operandsWrote⟩ := operands
  obtain ⟨shared, rfl⟩ : ∃ shared : Numeric, ty = shared.ty := by
    cases ty <;> first | exact ⟨.int, rfl⟩ | exact ⟨.double, rfl⟩ | cases numeric
  have compareOp : (if shared.ty = .double then .dCmp else .iCmp) = shared.compareOp := by
    cases shared <;> rfl
  unfold emitComparison
  rw [compareOp]
  refine (achieves_emit operandsWrote.ready (by cases shared <;> rfl)).bind ?_
  rintro _ compared ⟨compareSize, compareWrote⟩
  refine (achieves_emit compareWrote.ready rfl).bind ?_
  rintro _ zeroDone ⟨zeroSize, zeroWrote⟩
  refine (achieves_emitBranch zeroWrote.ready (by cases op <;> rfl)).bind ?_
  rintro pending after ⟨size, branchWrote⟩
  refine .pure ⟨?_, ?_⟩
  · rw [Expr.typeOf, leftTyped, rightTyped]
    rfl
  · refine (((operandsWrote.trans compareWrote).trans zeroWrote).trans branchWrote).imp ?_
    rintro final code ⟨⟨⟨operandsCode, compare⟩, zero⟩, branch⟩ onTrue onFalse trueTargets
      falseTargets
    rw [size, zeroSize, compareSize]
    rw [compareSize] at zero
    rw [zeroSize, compareSize] at branch
    exact .compare operandsCode compare zero (branch onTrue onFalse trueTargets falseTargets)

structure EmitsCondition (env : Env) (expr : Expr) (before : Emitter) (pending : PendingBranch)
    (after : Emitter) : Prop where
  typed : ∃ ty, expr.typeOf before.scopes before.image = .ok ty
  wrote : Wrote env before after pending.holes
    (pending.Decides env.toNames (.condition expr) before.buffer.size after.buffer.size)

/-- A connective.  The outcome of the left operand that does not decide is led to the right one, and
the others stay open. -/
theorem achieves_emitLogical {op : Connective} {position : Position} {left right : Expr}
    {leftAction rightAction : EmitM PendingBranch}
    (leftEmits : Achieves leftAction before (EmitsCondition env left before))
    (rightEmits : ∀ middle, Ready env middle →
      Achieves rightAction middle (EmitsCondition env right middle))
    (ready : Ready env before) :
    Achieves (emitLogical op leftAction rightAction) before
      (Emits env (.binary position (.logic op) left right) before) := by
  unfold emitLogical
  refine leftEmits.bind ?_
  rintro leftPending leftDone ⟨⟨leftTy, leftTyped⟩, leftWrote⟩
  refine .offset ?_
  cases op with
  | and =>
      refine (achieves_patch (leftPending.falseSites.map Site.hole) ready leftWrote
        (by simp [PendingBranch.holes]) (Nat.le_refl _)).bind ?_
      rintro _ patched ⟨sameSize, patchedWrote⟩
      refine (rightEmits patched patchedWrote.ready).bind ?_
      rintro rightPending after ⟨⟨rightTy, rightTyped⟩, rightWrote⟩
      rw [patchedWrote.ready.typeOf_eq ready] at rightTyped
      refine .pure ⟨by rw [Expr.typeOf, leftTyped, rightTyped]; rfl, ?_⟩
      refine ((patchedWrote.trans rightWrote).perm ?_).imp ?_
      · simp only [Compiled.holes, PendingBranch.holes, PendingBranch.conj, List.map_append]
        grind
      · rintro final code ⟨⟨first, firstTargets⟩, second⟩ onTrue onFalse trueTargets falseTargets
        rw [sameSize] at second
        refine .and (first _ _ firstTargets ?_) (second _ _ trueTargets ?_)
        · exact fun site member => falseTargets site (List.mem_append_left _ member)
        · exact fun site member => falseTargets site (List.mem_append_right _ member)
  | or =>
      refine (achieves_patch (leftPending.trueSites.map Site.hole) ready leftWrote
        (by simpa [PendingBranch.holes] using List.perm_append_comm) (Nat.le_refl _)).bind ?_
      rintro _ patched ⟨sameSize, patchedWrote⟩
      refine (rightEmits patched patchedWrote.ready).bind ?_
      rintro rightPending after ⟨⟨rightTy, rightTyped⟩, rightWrote⟩
      rw [patchedWrote.ready.typeOf_eq ready] at rightTyped
      refine .pure ⟨by rw [Expr.typeOf, leftTyped, rightTyped]; rfl, ?_⟩
      refine ((patchedWrote.trans rightWrote).perm ?_).imp ?_
      · simp [Compiled.holes, PendingBranch.holes, PendingBranch.disj]
      · rintro final code ⟨⟨first, firstTargets⟩, second⟩ onTrue onFalse trueTargets falseTargets
        rw [sameSize] at second
        refine .or (first _ _ ?_ firstTargets) (second _ _ ?_ falseTargets)
        · exact fun site member => trueTargets site (List.mem_append_left _ member)
        · exact fun site member => trueTargets site (List.mem_append_right _ member)

theorem achieves_emitNegation {compiled : Compiled} {position : Position} {operand : Expr}
    {operandPosition : Position} (ready : Ready env before)
    (emits : Emits env operand before compiled middle) :
    Achieves (emitNegation compiled position) middle
      (Emits env (.unary operandPosition .neg operand) before) := by
  unfold emitNegation
  refine (achieves_materializeValue ready emits.wrote).bind ?_
  rintro _ valueDone ⟨rfl, valueWrote⟩
  cases number : Numeric.ofTy? compiled.valueTy with
  | none => exact .throw rfl
  | some numeric =>
      have isNumeric : compiled.valueTy = numeric.ty := by
        revert number
        cases compiled.valueTy <;> rintro ⟨⟩ <;> rfl
      refine (achieves_emit valueWrote.ready (by cases numeric <;> rfl)).bind ?_
      rintro _ minusDone ⟨minusSize, minusWrote⟩
      refine (achieves_emit minusWrote.ready (by cases numeric <;> rfl)).bind ?_
      rintro _ after ⟨size, mulWrote⟩
      refine .pure ⟨?_, ?_⟩
      · rw [Expr.typeOf, emits.typed, Compiled.ty,
          ← Compiled.asValue_ty (by rw [isNumeric]; cases numeric <;> rfl)]
        rfl
      · refine ((valueWrote.trans minusWrote).trans mulWrote).imp ?_
        rintro final code ⟨⟨value, minusOne⟩, multiply⟩
        rw [size, minusSize]
        rw [minusSize] at multiply
        simp only [Compiled.IsCode]
        rw [isNumeric] at value ⊢
        exact .neg value minusOne multiply

theorem achieves_predictedType {right : Expr} {β : Type}
    {next : Ty → EmitM β} {post : β → Emitter → Prop}
    (rest : ∀ predicted,
      (∀ ty, right.typeOf before.scopes before.image = .ok ty → predicted = ty.asValue) →
      Achieves (next predicted) before post) :
    Achieves (predictedType right >>= next) before post := by
  have asked : Achieves (predictedType right) before fun predicted after =>
      (∀ ty, right.typeOf before.scopes before.image = .ok ty → predicted = ty.asValue) ∧
        before = after := by
    unfold predictedType Achieves ask
    dsimp only
    cases right.typeOf before.scopes before.image with
    | ok ty => exact ⟨fun _ same => by cases same; rfl, rfl⟩
    | error error => exact ⟨fun _ same => (nomatch same), rfl⟩
  refine asked.bind ?_
  rintro predicted _ ⟨isForeseen, rfl⟩
  exact rest predicted isForeseen

/-- The function that a call means, which is there and takes as many arguments as are given. -/
theorem achieves_callee {name : String} {count : Nat} {position : Position} {β : Type}
    {next : UInt16 × Signature → EmitM β} {post : β → Emitter → Prop} (ready : Ready env before)
    (rest : ∀ id signature, env.callee name = some (id, signature) →
      count = signature.params.length → Achieves (next (id, signature)) before post) :
    Achieves (ask (callee name count position) >>= next) before post := by
  have asked : Achieves (ask (callee name count position)) before fun answer after =>
      (env.callee name = some answer ∧ count = answer.2.params.length) ∧ before = after := by
    have registered := ready.registered name
    rw [← ready.callee, callee?]
    unfold Achieves ask callee
    cases resolved : resolveFunction? before.scopes before.image name with
    | none => exact fun isInternal => nomatch isInternal
    | some id =>
        obtain ⟨routine, found⟩ := Option.isSome_iff_exists.mp (registered id resolved)
        simp only [found, Option.bind_eq_bind, Option.bind_some]
        by_cases same : count = routine.signature.params.length
        · rw [if_pos same]
          exact ⟨⟨rfl, same⟩, rfl⟩
        · rw [if_neg same]
          exact fun isInternal => nomatch isInternal
  refine asked.bind ?_
  rintro ⟨id, signature⟩ _ ⟨⟨found, same⟩, rfl⟩
  exact rest id signature found same

theorem Settled.callee {final : Image} {finished : UInt16 → Prop} {name : String} {id : UInt16}
    {signature : Signature} (settled : Settled final finished before) (ready : Ready env before)
    (found : env.callee name = some (id, signature)) :
    ∃ routine, final.routine? id = some routine ∧ routine.signature = signature := by
  rw [← ready.callee, callee?] at found
  simp only [Option.bind_eq_bind, Option.bind_eq_some_iff] at found
  obtain ⟨_, -, routine, registered, same⟩ := found
  cases same
  obtain ⟨later, foundLater, -, sameSignature⟩ := settled.declared _ routine registered
  exact ⟨later, foundLater, sameSignature⟩

theorem achieves_literal {op : Op} {operands : List UInt8} {append : Buffer → Buffer} {ty : Ty}
    (ready : Ready env before)
    (appended : (append before.buffer).toList = before.buffer.toList ++ op.toByte :: operands)
    (sameSites : (append before.buffer).openSites = before.buffer.openSites)
    (width : operands.length = op.width)
    (typed : expr.typeOf before.scopes before.image = .ok ty)
    (code : ∀ {image code start},
      fetch code start = some ⟨start, op, operands⟩ →
        ExprCode image code env.toNames (.value expr ty) start (start + op.length)) :
    Achieves (do write append; return .value ty) before (Emits env expr before) := by
  refine (achieves_write ready (.ofInstr appended sameSites width)).bind ?_
  rintro _ after ⟨written, wrote⟩
  have size : after.buffer.size = before.buffer.size + op.length := by
    rw [written, ← Buffer.length_toList, appended, List.length_append, Buffer.length_toList,
      List.length_cons, width, Op.length]
    omega
  refine .pure ⟨typed, wrote.imp fun final bytes instr => ?_⟩
  rw [size]
  exact code instr

mutual

/-- Compiling an expression gives code of the form that the layout asks for. -/
theorem achieves_emitExpr : (expr : Expr) → {before : Emitter} → Ready env before →
    Achieves (emitExpr expr) before (Emits env expr before)
  | .int _ value, before, ready => by
      refine achieves_literal ready ?_ rfl (length_littleEndian _ _) rfl .int
      simp [Buffer.emitInt]
      rfl
  | .double _ value, before, ready => by
      refine achieves_literal ready ?_ rfl (length_littleEndian _ _) rfl .double
      simp [Buffer.emitDouble]
      rfl
  | .string _ value, before, ready => by
      rw [emitExpr]
      refine (achieves_internConstant ready).bind ?_
      rintro id interned ⟨sameBuffer, constantWrote⟩
      refine (achieves_emitWithWord constantWrote.ready rfl).bind ?_
      rintro _ after ⟨size, wrote⟩
      refine .pure ⟨rfl, (constantWrote.trans wrote).imp ?_⟩
      rintro final code ⟨constant, instr⟩
      rw [sameBuffer] at instr size
      rw [size]
      exact .string constant instr
  | .load position name, before, ready => by
      rw [emitExpr]
      refine achieves_resolveVar ready fun slot resolved => ?_
      obtain ⟨isStorable, owns⟩ := ready.storable name slot resolved
      refine (achieves_access accesses_load ready isStorable owns).bind ?_
      intro _ after wrote
      refine .pure ⟨?_, wrote.imp fun final code access => .load resolved access⟩
      rw [Expr.typeOf, ready.var, resolved]
      rfl
  | .binary position (.logic connective) left right, before, ready => by
      rw [emitExpr]
      refine achieves_emitLogical ?_ ?_ ready
      · refine (achieves_emitExpr left ready).bind fun compiled middle emits => ?_
        exact (achieves_branchOnValue emits.wrote).imp fun pending after wrote =>
          ⟨⟨_, emits.typed⟩, wrote⟩
      · intro middle middleReady
        refine (achieves_emitExpr right middleReady).bind fun compiled done emits => ?_
        exact (achieves_branchOnValue emits.wrote).imp fun pending after wrote =>
          ⟨⟨_, emits.typed⟩, wrote⟩
  | .binary position (.compare comparison) left right, before, ready => by
      rw [emitExpr]
      refine achieves_predictedType fun predicted foreseen => ?_
      refine (achieves_emitOperands foreseen (achieves_emitExpr left ready)
        (fun middle middleReady => achieves_emitExpr right middleReady) ready).bind ?_
      exact fun ty after operands => achieves_emitComparison operands
  | .binary position (.arith arith) left right, before, ready => by
      rw [emitExpr]
      refine achieves_predictedType fun predicted foreseen => ?_
      refine (achieves_emitOperands foreseen (achieves_emitExpr left ready)
        (fun middle middleReady => achieves_emitExpr right middleReady) ready).bind ?_
      exact fun ty after operands => achieves_emitArithmetic operands
  | .unary position .not operand, before, ready => by
      rw [emitExpr]
      refine (achieves_emitExpr operand ready).bind fun compiled middle emits => ?_
      refine (achieves_branchOnValue emits.wrote).bind fun pending after wrote => ?_
      refine .pure ⟨by rw [Expr.typeOf, emits.typed]; rfl, ?_⟩
      refine (wrote.perm ?_).imp ?_
      · simpa [Compiled.holes, PendingBranch.holes, PendingBranch.negate]
          using List.perm_append_comm
      · exact fun final code inner onTrue onFalse trueTargets falseTargets =>
          .not (inner onFalse onTrue falseTargets trueTargets)
  | .unary position .neg operand, before, ready => by
      rw [emitExpr]
      refine (achieves_emitExpr operand ready).bind fun compiled middle emits => ?_
      exact achieves_emitNegation ready emits
  | .call position name args, before, ready => by
      rw [emitExpr]
      refine achieves_callee ready fun id signature found count => ?_
      refine (achieves_emitArgs args (signature.params.map (·.ty)) (by simpa using count)
        ready).bind ?_
      intro _ pushed argsWrote
      refine (achieves_emitWithWord argsWrote.ready rfl).bind ?_
      rintro _ after ⟨size, wrote⟩
      refine .pure ⟨?_, ?_⟩
      · rw [Expr.typeOf, resultType?_eq, ready.callee, found]
        rfl
      · have extension := argsWrote.extension.trans wrote.extension
        refine ⟨wrote.ready, extension, (argsWrote.trans wrote).writes.imp ?_⟩
        intro code known final leads
        obtain ⟨pushedCode, instr⟩ := known final leads
        obtain ⟨finished, -, settled⟩ := leads.first extension
        obtain ⟨routine, registered, declared⟩ := settled.callee ready found
        rw [size]
        exact .call found registered declared count pushedCode instr

/-- Compiling arguments gives code that leaves the first one on top. -/
theorem achieves_emitArgs : (args : List Expr) → (types : List Ty) → args.length = types.length →
    {before : Emitter} → Ready env before →
    Achieves (emitArgs args types) before fun _ after =>
      Wrote env before after [] fun final code =>
        ExprCode final code env.toNames (.args args types) before.buffer.size after.buffer.size
  | [], _, _, _, ready => (Wrote.refl ready).imp fun _ _ _ => .noArgs
  | arg :: args, ty :: types, count, before, ready => by
      rw [emitArgs]
      refine (achieves_emitArgs args types (Nat.succ.inj count) ready).bind ?_
      intro _ later laterWrote
      refine (achieves_emitExpr arg laterWrote.ready).bind fun compiled middle emits => ?_
      refine (achieves_coerce laterWrote.ready emits.wrote).imp fun _ after wrote => ?_
      exact (laterWrote.trans wrote).imp fun final code ⟨rest, first⟩ => .arg rest first

end

theorem achieves_emitCondition (expr : Expr) (ready : Ready env before) :
    Achieves (emitCondition expr) before fun pending after =>
      Wrote env before after pending.holes
        (pending.Decides env.toNames (.condition expr) before.buffer.size after.buffer.size) :=
  (achieves_emitExpr expr ready).bind fun _ _ emits => achieves_branchOnValue emits.wrote

theorem achieves_emitAs (expr : Expr) (ty : Ty) (ready : Ready env before) :
    Achieves (emitAs expr ty) before fun _ after =>
      Wrote env before after [] fun final code =>
        ExprCode final code env.toNames (.converted expr ty) before.buffer.size
          after.buffer.size :=
  (achieves_emitExpr expr ready).bind fun _ _ emits => achieves_coerce ready emits.wrote

end Emitter

end Backpatch
