import Backpatch.Proofs.Simulation

/-!
# The code of expressions

The code of an expression does what its evaluation does, from any stack on: it leaves the value on
top of the stack, or goes to the address for its truth with the stack as it was.  The proof goes
through the rules by which finished code is described.
-/

namespace Backpatch

open Machine (Simulates Follows)

/-- What is assumed about the functions that a machine may call. -/
structure Machine.Sound (machine : Machine) (slots : List Slot) : Prop where
  ignores : machine.interp.Ignores slots
  valued : ∀ id callee, machine.image.routine? id = some callee →
    Ty.void ∉ callee.signature.params.map (·.ty)
  conforms : ∀ id callee, machine.image.routine? id = some callee →
    ∀ args world result after, args.map Value.ty = callee.signature.params.map (·.ty) →
      machine.interp.call id args world = some (result, after) →
      result.map Value.ty = callee.signature.returnType.valued

section

variable (machine : Machine) (fuel : Nat) (hidden : Hidden) (names : Names) (start stop : Nat)

/-- The code between two offsets does what the evaluation of a part of an expression does. -/
def ExprPart.Follows : ExprPart → Prop
  | .value expr ty => ∀ stack world config, At hidden start stack world config →
      machine.Follows fuel (expr.eval machine.interp names) world
        (fun result after final => ∃ value, result = .value value ∧
          value.map Value.ty = ty.valued ∧ At hidden stop (value.toList ++ stack) after final)
        config
  | .branch expr onTrue onFalse => ∀ stack world config, At hidden start stack world config →
      machine.Follows fuel (expr.eval machine.interp names) world
        (fun result after final => ∃ truth : Bool, result = .condition truth ∧
          At hidden (if truth then onTrue else onFalse) stack after final)
        config
  | .operand expr ty => ty ≠ .void → ∀ stack world config, At hidden start stack world config →
      machine.Follows fuel (.operand (expr.eval machine.interp names)) world
        (fun value after final => value.ty = ty ∧ At hidden stop (value :: stack) after final)
        config
  | .condition expr onTrue onFalse => ∀ stack world config, At hidden start stack world config →
      machine.Follows fuel (.truth machine.interp (expr.eval machine.interp names)) world
        (fun (truth : Bool) after final =>
          At hidden (if truth then onTrue else onFalse) stack after final)
        config
  | .converted expr ty => ty ≠ .void → ∀ stack world config, At hidden start stack world config →
      machine.Follows fuel (.as machine.interp ty (expr.eval machine.interp names)) world
        (fun value after final => value.ty = ty ∧ At hidden stop (value :: stack) after final)
        config
  | .operands left right ty => ∀ stack world config, At hidden start stack world config →
      machine.Follows fuel
        (.operands machine.interp (left.eval machine.interp names)
          (right.eval machine.interp names))
        world
        (fun values after final => values.1.ty = ty ∧ values.2.ty = ty ∧
          At hidden stop (values.2 :: values.1 :: stack) after final)
        config
  | .args exprs types => exprs.length = types.length → Ty.void ∉ types →
      ∀ stack world config, At hidden start stack world config →
        machine.Follows fuel (Expr.evalArgs machine.interp names types exprs) world
          (fun values after final => values.map Value.ty = types ∧
            At hidden stop (values ++ stack) after final)
          config

end

variable {machine : Machine} {fuel start stop : Nat} {hidden : Hidden} {names : Names}

/-- Code that makes a truth a number. -/
theorem DiamondAt.simulates {α : Type} {numeric : Numeric} {truth : Bool} {stack : List Value}
    {world : World} {config : Config} {exec : Exec α} {post : α → World → Config → Prop}
    (diamond : DiamondAt machine.code start numeric)
    (here : At hidden (if truth then start else start + 4) stack world config)
    (later : ∀ next, At hidden (start + 5) (numeric.ofBool truth :: stack) world next →
      machine.Simulates fuel exec world post next) :
    machine.Simulates fuel exec world post config := by
  cases truth with
  | true =>
      refine Simulates.push (Machine.acts_plain diamond.one numeric.acts_oneOp) here ?_
      intro next there
      exact (Simulates.jump (Machine.acts_jump diamond.join) there later).weaken (Nat.le_succ fuel)
  | false => exact Simulates.push (Machine.acts_plain diamond.zero numeric.acts_zeroOp) here later

theorem Numeric.ofTy?_ty (numeric : Numeric) : Numeric.ofTy? numeric.ty = some numeric := by
  cases numeric <;> rfl

/-- The comparison of two numbers, and a branch on its outcome. -/
theorem Machine.Follows.decide {β : Type} {numeric : Numeric} {comparison : Comparison}
    {onTrue onFalse : Nat} {first second : Value} {stack : List Value} {world : World}
    {config : Config} {rest : Ordering → Eval β} {post : β → World → Config → Prop}
    (compareAt : PlainAt machine.code start numeric.compareOp)
    (zero : PlainAt machine.code (start + 1) .iLoad0)
    (branch : BranchAt machine.code (start + 2) comparison.branchOp onTrue onFalse)
    (left : first.ty = numeric.ty) (right : second.ty = numeric.ty)
    (here : At hidden start (second :: first :: stack) world config)
    (later : ∀ ordering after final,
      At hidden (if comparison.holds ordering then onTrue else onFalse) stack after final →
      machine.Follows fuel (rest ordering) after post final) :
    machine.Follows fuel (.ofOption (machine.interp.compare first second) >>= rest) world post
      config := by
  refine Follows.bind (Follows.compare (Machine.acts_plain compareAt numeric.acts_compareOp)
    left right here) ?_
  intro ordering after final there
  refine Simulates.push (Machine.acts_plain zero Numeric.int.acts_zeroOp) there fun next there => ?_
  refine Simulates.branch (Machine.acts_branch branch) there fun next there => ?_
  rw [Comparison.test_outcome] at there
  exact later ordering after next there

/-- The left operand is converted before the right one is evaluated. -/
theorem ExprPart.Follows.widenLeft {left right : Expr} {middle : Nat}
    (firstFollows : (ExprPart.operand left .int).Follows machine fuel hidden names start middle)
    (instr : PlainAt machine.code middle .i2d)
    (secondFollows :
      (ExprPart.operand right .double).Follows machine fuel hidden names (middle + 1) stop) :
    (ExprPart.operands left right .double).Follows machine fuel hidden names start stop := by
  intro stack world config here
  refine Follows.bind (firstFollows nofun stack world config here) ?_
  rintro first after final ⟨firstTyped, there⟩
  have acts : machine.Acts middle (.convert .int .double) (middle + 1) :=
    Machine.acts_plain instr fun _ _ _ => rfl
  refine Follows.early (acts.performs_convert firstTyped there) ?_ ?_
  · -- The evaluation meets this failure behind the right operand, unless it fails there already.
    intro fails
    refine Option.bind_eq_none_iff.2 fun result evaluated => ?_
    obtain ⟨_, secondTyped, -⟩ := (secondFollows nofun stack after ⟨_, stack, final.world⟩
      ⟨rfl, rfl, there.agrees, there.bounds⟩).holds evaluated
    change (machine.interp.promote first result.1).map _ = none
    rw [Interp.promote_left firstTyped secondTyped, fails]
    rfl
  · intro widened changed
    refine Follows.bind (secondFollows nofun (widened :: stack) after _
      ⟨rfl, rfl, there.agrees, there.bounds⟩) ?_
    rintro second last config ⟨secondTyped, there⟩
    rw [Interp.promote_left firstTyped secondTyped, changed, Option.map_some]
    exact Follows.pure ⟨Interp.ty_of_change changed, secondTyped, there⟩

theorem exists_of_valued {value : Option Value} {ty : Ty} (typed : value.map Value.ty = ty.valued)
    (notVoid : ty ≠ .void) : ∃ given, value = some given ∧ given.ty = ty := by
  rw [Ty.valued_eq notVoid] at typed
  exact Option.map_eq_some_iff.1 typed

/-- The code of an expression does what its evaluation does. -/
theorem ExprCode.follows {part : ExprPart}
    (exprCode : ExprCode machine.image machine.code names part start stop) (fuel : Nat)
    (sound : machine.Sound hidden.slots) (function : names.function = machine.function)
    (visible : ∀ name slot, names.var name = some slot → slot ∉ hidden.slots) :
    part.Follows machine fuel hidden names start stop := by
  induction exprCode with
  | int instr =>
      intro stack world config here
      rw [Expr.eval]
      exact Simulates.push (Machine.acts_int instr) here fun next there =>
        Follows.pure ⟨_, rfl, rfl, there⟩
  | double instr =>
      intro stack world config here
      rw [Expr.eval]
      exact Simulates.push (Machine.acts_double instr) here fun next there =>
        Follows.pure ⟨_, rfl, rfl, there⟩
  | string constant instr =>
      intro stack world config here
      rw [Expr.eval]
      exact Simulates.push (Machine.acts_string constant instr) here fun next there =>
        Follows.pure ⟨_, rfl, rfl, there⟩
  | load resolved instr =>
      intro stack world config here
      rw [function] at instr
      rw [Expr.eval]
      refine Follows.known resolved ?_
      refine Follows.bind (Follows.load (Machine.acts_load instr) (visible _ _ resolved) here) ?_
      rintro value after final ⟨typed, there⟩
      exact Follows.pure ⟨some value, rfl, Value.map_ty_some typed, there⟩
  | arith operands member instrAt operandsFollow =>
      intro stack world config here
      obtain ⟨numeric, rfl, acts⟩ := ArithOp.acts_of_instr? member
      rw [Expr.eval]
      refine Follows.bind (operandsFollow stack world config here) ?_
      rintro ⟨first, second⟩ after final ⟨left, right, there⟩
      refine Follows.bind (Follows.arith (Machine.acts_plain instrAt acts) left right there) ?_
      rintro value after final ⟨typed, there⟩
      exact Follows.pure ⟨some value, rfl, Value.map_ty_some typed, there⟩
  | @compare _ op _ _ numeric _ _ _ _ operands compareAt zero branch operandsFollow =>
      intro stack world config here
      rw [Expr.eval]
      refine Follows.bind (operandsFollow stack world config here) ?_
      rintro ⟨first, second⟩ after final ⟨left, right, there⟩
      refine Follows.decide compareAt zero branch left right there ?_
      exact fun ordering after final there => Follows.pure ⟨_, rfl, there⟩
  | and first second firstFollows secondFollows =>
      intro stack world config here
      rw [Expr.eval]
      refine Follows.bind (firstFollows stack world config here) ?_
      intro truth after final there
      cases truth with
      | true =>
          refine Follows.bind (secondFollows stack after final there) ?_
          exact fun truth after final there => Follows.pure ⟨truth, rfl, there⟩
      | false => exact Follows.pure ⟨false, rfl, there⟩
  | or first second firstFollows secondFollows =>
      intro stack world config here
      rw [Expr.eval]
      refine Follows.bind (firstFollows stack world config here) ?_
      intro truth after final there
      cases truth with
      | true => exact Follows.pure ⟨true, rfl, there⟩
      | false =>
          refine Follows.bind (secondFollows stack after final there) ?_
          exact fun truth after final there => Follows.pure ⟨truth, rfl, there⟩
  | not inner innerFollows =>
      intro stack world config here
      rw [Expr.eval]
      refine Follows.bind (innerFollows stack world config here) ?_
      intro truth after final there
      refine Follows.pure ⟨!truth, rfl, ?_⟩
      cases truth <;> exact there
  | @neg _ _ numeric _ _ inner minusOne multiply innerFollows =>
      intro stack world config here
      rw [Expr.eval]
      refine Follows.bind (innerFollows numeric.ty_ne_void stack world config here) ?_
      rintro value after final ⟨typed, there⟩
      refine Follows.known (typed ▸ numeric.ofTy?_ty) ?_
      refine Simulates.push (Machine.acts_plain minusOne numeric.acts_minusOneOp) there ?_
      intro next there
      refine Follows.bind (Follows.arith (Machine.acts_plain multiply numeric.acts_mulOp) typed
        numeric.ty_minusOne there) ?_
      rintro product after final ⟨typed, there⟩
      exact Follows.pure ⟨some product, rfl, Value.map_ty_some typed, there⟩
  | @call _ _ _ _ _ routine _ _ resolved registered declared count pushed instr pushedFollow =>
      intro stack world config here
      subst declared
      rw [Expr.eval]
      refine Follows.known resolved ?_
      refine Follows.bind (pushedFollow (by simpa using count) (sound.valued _ _ registered) stack
        world config here) ?_
      rintro values after final ⟨typed, there⟩
      have length : values.length = routine.signature.params.length := by
        simpa using congrArg List.length typed
      refine Follows.bind (Follows.call (Machine.acts_call instr) registered length sound.ignores
        there) ?_
      rintro result final config ⟨called, there⟩
      exact Follows.pure
        ⟨result, rfl, sound.conforms _ _ registered _ _ _ _ typed called, there⟩
  | operandValue value valueFollows =>
      intro notVoid stack world config here
      refine Follows.bind (valueFollows stack world config here) ?_
      rintro _ after final ⟨value, rfl, valued, there⟩
      obtain ⟨value, rfl, typed⟩ := exists_of_valued valued notVoid
      exact Follows.pure ⟨typed, there⟩
  | operandBranch branch diamond branchFollows =>
      intro _ stack world config here
      refine Follows.bind (branchFollows stack world config here) ?_
      rintro _ after final ⟨truth, rfl, there⟩
      exact diamond.simulates there fun next there =>
        Follows.pure ⟨Numeric.int.ty_ofBool truth, there⟩
  | conditionBranch branch branchFollows =>
      intro stack world config here
      refine Follows.bind (branchFollows stack world config here) ?_
      rintro _ after final ⟨truth, rfl, there⟩
      exact Follows.pure there
  | conditionInt value zero branch valueFollows =>
      intro stack world config here
      refine Follows.bind (valueFollows stack world config here) ?_
      rintro _ after final ⟨value, rfl, valued, there⟩
      obtain ⟨value, rfl, typed⟩ := exists_of_valued valued nofun
      obtain ⟨number, rfl⟩ := Value.eq_int typed
      refine Simulates.push (Machine.acts_plain zero Numeric.int.acts_zeroOp) there ?_
      intro next there
      have test : BranchAt machine.code _ Comparison.neq.branchOp _ _ := branch
      exact Simulates.branch (Machine.acts_branch test) there fun next there => Follows.pure there
  | conditionDouble value zero compareAt intZero branch valueFollows =>
      intro stack world config here
      refine Follows.bind (valueFollows stack world config here) ?_
      rintro _ after final ⟨value, rfl, valued, there⟩
      obtain ⟨value, rfl, typed⟩ := exists_of_valued valued nofun
      obtain ⟨number, rfl⟩ := Value.eq_double typed
      refine Simulates.push (Machine.acts_plain zero Numeric.double.acts_zeroOp) there ?_
      intro next there
      rw [Result.truth, Eval.ofOption_map]
      have test : BranchAt machine.code _ Comparison.neq.branchOp _ _ := branch
      refine Follows.decide compareAt intZero test typed Numeric.double.ty_zero there ?_
      exact fun ordering after final there => Follows.pure there
  | same value valueFollows =>
      intro notVoid stack world config here
      refine Follows.bind (valueFollows stack world config here) ?_
      rintro _ after final ⟨value, rfl, valued, there⟩
      obtain ⟨value, rfl, typed⟩ := exists_of_valued valued notVoid
      rw [Result.as, Option.bind_some, Interp.convert_self typed]
      exact Follows.pure ⟨typed, there⟩
  | unwanted value valueFollows =>
      intro notVoid
      exact absurd rfl notVoid
  | unwantedBranch branch branchFollows =>
      intro notVoid
      exact absurd rfl notVoid
  | @convert _ _ target _ _ _ valueCode conversion instr valueFollows =>
      intro notVoid stack world config here
      refine Follows.bind (valueFollows stack world config here) ?_
      rintro _ after final ⟨value, rfl, valued, there⟩
      obtain ⟨value, rfl, rfl⟩ := exists_of_valued valued (by rintro rfl; cases conversion)
      have other : value.ty ≠ target := by
        rintro rfl
        cases value <;> cases conversion
      rw [Result.as, Option.bind_some, Interp.convert_other other]
      exact Follows.change (Machine.acts_plain instr (Op.acts_of_convert? conversion)) rfl there
  | @convertBranch _ numeric _ _ branch diamond branchFollows =>
      intro _ stack world config here
      refine Follows.bind (branchFollows stack world config here) ?_
      rintro _ after final ⟨truth, rfl, there⟩
      rw [Result.as, numeric.ofTy?_ty, Option.map_some]
      exact diamond.simulates there fun next there => Follows.pure ⟨numeric.ty_ofBool truth, there⟩
  | @alike _ _ numeric _ _ _ first second firstFollows secondFollows =>
      intro stack world config here
      refine Follows.bind (firstFollows numeric.ty_ne_void stack world config here) ?_
      rintro first after final ⟨left, there⟩
      refine Follows.bind (secondFollows numeric.ty_ne_void _ after final there) ?_
      rintro second after final ⟨right, there⟩
      rw [Interp.promote_alike left right]
      exact Follows.pure ⟨left, right, there⟩
  | widenLeft first instr second firstFollows secondFollows =>
      exact firstFollows.widenLeft instr secondFollows
  | widenRight first second instr firstFollows secondFollows =>
      intro stack world config here
      refine Follows.bind (firstFollows nofun stack world config here) ?_
      rintro first after final ⟨left, there⟩
      refine Follows.bind (secondFollows nofun _ after final there) ?_
      rintro second after final ⟨right, there⟩
      rw [Interp.promote_right left right, Eval.ofOption_map]
      refine Follows.bind
        (Follows.change (Machine.acts_plain instr fun _ _ _ => rfl) right there) ?_
      rintro second after final ⟨right, there⟩
      exact Follows.pure ⟨left, right, there⟩
  | noArgs =>
      intro count _ stack world config here
      cases List.length_eq_zero_iff.1 count.symm
      rw [Expr.evalArgs]
      exact Follows.pure ⟨rfl, here⟩
  | @arg _ exprs ty types _ _ _ later first laterFollow firstFollows =>
      intro count noVoid stack world config here
      rw [List.mem_cons, not_or] at noVoid
      rw [Expr.evalArgs]
      refine Follows.bind (laterFollow (Nat.succ.inj count) noVoid.2 stack world config here) ?_
      rintro values after final ⟨types, there⟩
      refine Follows.bind (firstFollows (Ne.symm noVoid.1) _ after final there) ?_
      rintro value after final ⟨typed, there⟩
      exact Follows.pure ⟨by rw [List.map_cons, typed, types], there⟩

end Backpatch
