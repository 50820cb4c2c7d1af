import Backpatch.Proofs.ExprSimulation
import Backpatch.Proofs.HiddenSlots

/-!
# The code of statements

The code of a statement does what the statement does.  It starts with an empty stack and ends with
one behind the statement, or at a return with the returned value on the stack.  A loop takes at
least one step in every round, so a loop that runs out of fuel has taken as many steps.
-/

namespace Backpatch

open Machine (Simulates Follows)

def StmtPart.exec (interp : Interp) (fuel : Nat) (env : Env) : StmtPart → Exec Outcome
  | .stmt statement => statement.exec interp fuel env
  | .stmts statements => Stmt.execAll interp fuel env statements
  | .block body | .otherwise (some body) => body.exec interp fuel env
  | .otherwise none => return .normal
  | .prints args => .ofEval (Stmt.evalPrint interp env args)

def StmtPart.named (env : Env) : StmtPart → List Slot
  | .stmt statement => statement.named env
  | .stmts statements => Stmt.namedAll env statements
  | .block body | .otherwise (some body) => body.named env
  | .otherwise none | .prints _ => []

def StmtPart.hidden (env : Env) : StmtPart → List Slot
  | .stmt statement => statement.hidden env
  | .stmts statements => Stmt.hiddenAll env statements
  | .block body | .otherwise (some body) => body.hidden env
  | .otherwise none | .prints _ => []

/-- The machine stands behind the code of a statement, or at a return. -/
def Finishes (machine : Machine) (hidden : Hidden) (stop : Nat) : Outcome → World → Config → Prop
  | .normal, after, final => At hidden stop [] after final
  | .returned value, after, final =>
      machine.AtReturn final ∧ ∃ pc, At hidden pc value.toList after final

variable {machine : Machine} {fuel start stop : Nat} {hidden : Hidden} {world : World}
  {config : Config}

namespace Machine.Simulates

theorem ofEval {eval : Eval Unit}
    (follows : machine.Follows fuel eval world (fun _ after final => At hidden stop [] after final)
      config) :
    machine.Simulates fuel (.ofEval eval) world (Finishes machine hidden stop) config :=
  bind follows fun _ _ _ there => pure there

theorem known {α β : Type} {option : Option α} {value : α} {rest : α → Exec β}
    {post : β → World → Config → Prop} (isValue : option = some value)
    (later : machine.Simulates fuel (rest value) world post config) :
    machine.Simulates fuel ((Eval.ofOption option).exec >>= rest) world post config := by
  rw [isValue]
  exact later

theorem andThen {first second : Exec Outcome} {middle : Nat}
    (firstSimulates : machine.Simulates fuel first world (Finishes machine hidden middle) config)
    (secondSimulates : ∀ after final, At hidden middle [] after final →
      machine.Simulates fuel second after (Finishes machine hidden stop) final) :
    machine.Simulates fuel (first.andThen second) world (Finishes machine hidden stop) config := by
  refine bind firstSimulates ?_
  rintro (_ | value) after final finished
  · exact secondSimulates after final finished
  · exact pure finished

/-- A jump behind a statement leads on. -/
theorem leave {exec : Exec Outcome} {target : Nat}
    (simulates : machine.Simulates fuel exec world (Finishes machine hidden stop) config)
    (jump : JumpAt machine.code stop target) :
    machine.Simulates fuel exec world (Finishes machine hidden target) config := by
  refine extend simulates ?_
  rintro (_ | value) after final finished
  · have performs := (acts_jump jump).performs finished.pc
    exact ⟨_, .step performs.step (.refl _), rfl, finished.stack, finished.agrees, finished.bounds⟩
  · exact ⟨final, .refl final, finished⟩

/-- Every round of a loop ends with a jump. -/
theorem repeatWhile {condition : Eval Bool} {body : Exec Outcome} {head entry back : Nat}
    (test : ∀ world config, At hidden head [] world config →
      machine.Follows fuel condition world
        (fun (truth : Bool) after final =>
          At hidden (if truth then entry else stop) [] after final) config)
    (round : ∀ world config, At hidden entry [] world config →
      machine.Simulates fuel body world (Finishes machine hidden back) config)
    (again : JumpAt machine.code back head) {count : Nat} (enough : count ≤ fuel)
    (here : At hidden head [] world config) :
    machine.Simulates count (.repeatWhile condition body count) world (Finishes machine hidden stop)
      config := by
  induction count generalizing world config with
  -- Without fuel there is no number of steps to be shown.
  | zero => exact running
  | succ count ih =>
      rw [Exec.repeatWhile]
      refine bind ((test world config here).weaken enough) ?_
      intro truth after final there
      cases truth with
      | true =>
          refine andThen ((round after final there).weaken enough) fun last config there => ?_
          exact jump (acts_jump again) there fun next there => ih (Nat.le_of_succ_le enough) there
      | false => exact pure there

end Machine.Simulates

/-- At this place of a function, variables with a name do not share the hidden slots, nor will those
of the given slots that are still to be declared; the bounds still to come have hidden slots, and
those in use are numbered already. -/
structure Fits (machine : Machine) (hidden : Hidden) (env : Env) (named bounds : List Slot) :
    Prop where
  function : env.function = machine.function
  visible : ∀ name slot, env.var name = some slot → slot ∉ hidden.slots
  apart : ∀ slot ∈ named, slot ∉ hidden.slots
  reserved : ∀ slot ∈ bounds, slot ∈ hidden.slots
  earlier : ∀ bound ∈ hidden.bounds, bound.1.Between env.function [] env.taken

namespace Fits

variable {env : Env} {named moreNamed bounds moreBounds : List Slot}

theorem left (fits : Fits machine hidden env (named ++ moreNamed) (bounds ++ moreBounds)) :
    Fits machine hidden env named bounds :=
  { fits with
    apart := fun slot member => fits.apart slot (List.mem_append_left _ member)
    reserved := fun slot member => fits.reserved slot (List.mem_append_left _ member) }

theorem right {next : Env}
    (fits : Fits machine hidden env (named ++ moreNamed) (bounds ++ moreBounds))
    (grows : env.taken.Sublist next.taken) (same : next.toNames = env.toNames) :
    Fits machine hidden next moreNamed moreBounds where
  function := by rw [same, fits.function]
  visible := by
    rw [same]
    exact fits.visible
  apart slot member := fits.apart slot (List.mem_append_right _ member)
  reserved slot member := fits.reserved slot (List.mem_append_right _ member)
  earlier bound member := by
    rw [same]
    exact (fits.earlier bound member).mono (.refl _) grows

theorem inside {vars : List VarDecl} {functions : List FnDef}
    (fits : Fits machine hidden env
      (Slot.numbered env.function env.taken (vars.map (·.ty)) ++ named) bounds) :
    Fits machine hidden (env.inside vars functions) named bounds where
  function := by rw [Env.function_inside, fits.function]
  visible name slot found := by
    rcases Env.var_inside found with declared | found
    · exact fits.apart slot (List.mem_append_left _ declared)
    · exact fits.visible name slot found
  apart slot member := fits.apart slot (List.mem_append_right _ member)
  reserved := fits.reserved
  earlier bound member := by
    rw [Env.function_inside, Env.taken_inside]
    exact (fits.earlier bound member).mono (.refl _) (List.sublist_append_left _ _)

theorem next_mem {name : String} {slot : Slot} {numeric : Numeric}
    (fits : Fits machine hidden env named ((env.boundSlot? name).toList ++ bounds))
    (resolved : env.var name = some slot) (number : Numeric.ofTy? slot.ty = some numeric) :
    env.next slot.ty ∈ hidden.slots := by
  have isNumeric : slot.ty.isNumeric = true := by
    revert number
    cases slot.ty <;> intro number <;> first | rfl | cases number
  refine fits.reserved _ (List.mem_append_left _ ?_)
  rw [Env.boundSlot?, resolved]
  simp [isNumeric]

/-- The slot for the bound of a loop is not used by a loop around it. -/
theorem next_unused (fits : Fits machine hidden env named bounds) {ty : Ty}
    (available : env.taken.count ty < 65535) :
    ∀ bound ∈ hidden.bounds, bound.1 ≠ env.next ty := by
  intro bound member same
  obtain ⟨-, number, index, -, below⟩ := fits.earlier bound member
  rw [same] at index below
  have words := congrArg UInt16.toNat index
  have below : number < env.taken.count ty := below
  change (UInt16.ofNat (env.taken.count ty)).toNat = _ at words
  -- Both numbers fit into a word, so they are equal as the words are.
  rw [UInt16.toNat_ofNat', UInt16.toNat_ofNat', Nat.mod_eq_of_lt (by omega),
    Nat.mod_eq_of_lt (by omega)] at words
  omega

/-- Inside a loop its slot is in use. -/
theorem hold {name : String} {slot : Slot} {value : Value}
    (fits : Fits machine hidden env named ((env.boundSlot? name).toList ++ bounds))
    (resolved : env.var name = some slot) (isHidden : env.next slot.ty ∈ hidden.slots) :
    Fits machine (hidden.hold (env.next slot.ty) value isHidden) (env.hide name) named bounds where
  function := by rw [env.toNames_hide, fits.function]
  visible := by
    rw [env.toNames_hide]
    exact fits.visible
  apart := fits.apart
  reserved bound member := fits.reserved bound (List.mem_append_right _ member)
  earlier bound member := by
    have taken : (env.hide name).taken = env.taken ++ [slot.ty] := by rw [Env.hide, resolved]
    rw [env.toNames_hide, taken]
    rcases List.mem_cons.1 member with rfl | member
    · exact ⟨rfl, env.taken.count slot.ty, rfl, by simp, by simp [Env.next, List.count_append]⟩
    · exact (fits.earlier bound member).mono (.refl _) (List.sublist_append_left _ _)

end Fits

theorem At.atReturn {pc : Nat} {stack : List Value} (here : At hidden pc stack world config)
    (instr : PlainAt machine.code pc .ret) : machine.AtReturn config := by
  refine ⟨⟨pc, .ret, []⟩, ?_, rfl⟩
  rw [here.pc]
  exact instr

theorem At.release {pc : Nat} {stack : List Value} {slot : Slot} {value : Value}
    {isHidden : slot ∈ hidden.slots}
    (here : At (hidden.hold slot value isHidden) pc stack world config) :
    At hidden pc stack world config :=
  ⟨here.pc, here.stack, here.agrees, fun bound member =>
    here.bounds bound (List.mem_cons_of_mem _ member)⟩

theorem Finishes.release {slot : Slot} {value : Value} {isHidden : slot ∈ hidden.slots}
    {outcome : Outcome} (finished : Finishes machine (hidden.hold slot value isHidden) stop outcome
      world config) :
    Finishes machine hidden stop outcome world config := by
  cases outcome with
  | normal => exact At.release finished
  | returned value =>
      obtain ⟨atReturn, pc, there⟩ := finished
      exact ⟨atReturn, pc, there.release⟩

section Ranges

variable {slot : Slot} {numeric : Numeric} {middle : Nat}

/-- The variable of a loop gets its first value, and the bound is left on the stack. -/
theorem follows_evalRange {env : Env} {low high : Expr} {lowStop : Nat}
    (sound : machine.Sound hidden.slots) (function : env.function = machine.function)
    (visible : ∀ name slot, env.var name = some slot → slot ∉ hidden.slots)
    (lowCode : ExprCode machine.image machine.code env.toNames (.converted low slot.ty) start
      lowStop)
    (store : AccessAt machine.image machine.code machine.function Op.store? slot lowStop middle)
    (highCode : ExprCode machine.image machine.code env.toNames (.converted high slot.ty) middle
      stop)
    (slotVisible : slot ∉ hidden.slots) (here : At hidden start [] world config) :
    machine.Follows fuel (Stmt.evalRange machine.interp env slot low high) world
      (fun bound after final => bound.ty = slot.ty ∧ At hidden stop [bound] after final)
      config := by
  have notVoid := store.store_ne_void
  rw [Stmt.evalRange]
  refine Follows.bind (lowCode.follows fuel sound function visible notVoid [] world config here) ?_
  rintro value after final ⟨typed, there⟩
  refine Follows.bind (Follows.set (Machine.acts_store store) typed slotVisible there) ?_
  intro _ after final there
  exact highCode.follows fuel sound function visible notVoid [] after final there

/-- The variable of a loop is compared with the bound. -/
theorem follows_evalWithin {boundSlot : Slot} {bound : Value} {loaded onTrue onFalse : Nat}
    (isNumeric : slot.ty = numeric.ty) (slotVisible : slot ∉ hidden.slots)
    (isBound : (boundSlot, bound) ∈ hidden.bounds) (boundTyped : bound.ty = slot.ty)
    (loadSlot : AccessAt machine.image machine.code machine.function Op.load? slot start loaded)
    (loadBound : AccessAt machine.image machine.code machine.function Op.load? boundSlot loaded
      middle)
    (compareAt : PlainAt machine.code middle numeric.compareOp)
    (zero : PlainAt machine.code (middle + 1) .iLoad0)
    (branch : BranchAt machine.code (middle + 2) Comparison.lte.branchOp onTrue onFalse)
    (here : At hidden start [] world config) :
    machine.Follows fuel (Stmt.evalWithin machine.interp slot bound) world
      (fun (truth : Bool) after final =>
        At hidden (if truth then onTrue else onFalse) [] after final) config := by
  rw [Stmt.evalWithin]
  refine Follows.bind (Follows.load (Machine.acts_load loadSlot) slotVisible here) ?_
  rintro current after final ⟨typed, there⟩
  refine Simulates.loadBound (Machine.acts_load loadBound) isBound there fun next there => ?_
  refine Follows.decide compareAt zero branch (typed.trans isNumeric) (boundTyped.trans isNumeric)
    there ?_
  exact fun ordering after final there => Follows.pure there

theorem follows_evalAdvance (isNumeric : slot.ty = numeric.ty) (slotVisible : slot ∉ hidden.slots)
    (load : AccessAt machine.image machine.code machine.function Op.load? slot start middle)
    (one : PlainAt machine.code middle numeric.oneOp)
    (add : PlainAt machine.code (middle + 1) numeric.addOp)
    (store : AccessAt machine.image machine.code machine.function Op.store? slot (middle + 2) stop)
    (here : At hidden start [] world config) :
    machine.Follows fuel (Stmt.evalAdvance machine.interp slot numeric.one) world
      (fun _ after final => At hidden stop [] after final) config := by
  rw [Stmt.evalAdvance]
  refine Follows.bind (Follows.load (Machine.acts_load load) slotVisible here) ?_
  rintro current after final ⟨typed, there⟩
  refine Simulates.push (Machine.acts_plain one numeric.acts_oneOp) there fun next there => ?_
  refine Follows.bind (Follows.arith (Machine.acts_plain add numeric.acts_addOp)
    (typed.trans isNumeric) numeric.ty_one there) ?_
  rintro sum after final ⟨typed, there⟩
  exact Follows.set (Machine.acts_store store) (typed.trans isNumeric.symm) slotVisible there

end Ranges

/-- The code of statements does what they do. -/
theorem StmtCode.simulates {env : Env} {part : StmtPart}
    (stmtCode : StmtCode machine.image machine.code env part start stop)
    (sound : machine.Sound hidden.slots)
    (fits : Fits machine hidden env (part.named env) (part.hidden env))
    (here : At hidden start [] world config) :
    machine.Simulates fuel (part.exec machine.interp fuel env) world (Finishes machine hidden stop)
      config := by
  induction stmtCode generalizing hidden world config with
  | assign resolved valueCode store =>
      have value := valueCode.follows fuel sound fits.function fits.visible store.store_ne_void
      rw [fits.function] at store
      rw [StmtPart.exec, Stmt.exec, Stmt.evalStore]
      refine Simulates.ofEval (Follows.known resolved ?_)
      refine Follows.bind (value [] world config here) ?_
      rintro value after final ⟨typed, there⟩
      exact Follows.set (Machine.acts_store store) typed (fits.visible _ _ resolved) there
  | update resolved updates member load valueCode instrAt store =>
      have value := valueCode.follows fuel sound fits.function fits.visible store.store_ne_void
      have visible := fits.visible _ _ resolved
      obtain ⟨numeric, isNumeric, acts⟩ := ArithOp.acts_of_instr? member
      rw [fits.function] at load store
      rw [StmtPart.exec, Stmt.exec, Stmt.evalStore, updates]
      refine Simulates.ofEval (Follows.known resolved ?_)
      refine Follows.bind (Follows.load (Machine.acts_load load) visible here) ?_
      rintro old after final ⟨oldTyped, there⟩
      refine Follows.bind (value [old] after final there) ?_
      rintro operand after final ⟨typed, there⟩
      refine Follows.bind (Follows.arith (Machine.acts_plain instrAt acts)
        (oldTyped.trans isNumeric) (typed.trans isNumeric) there) ?_
      rintro result after final ⟨typed, there⟩
      exact Follows.set (Machine.acts_store store) (typed.trans isNumeric.symm) visible there
  | @ifElse env cond thenBlock elseBlock _ _ _ _ toCond thenCode thenExit elseCode elseExit condCode
      thenSimulates elseSimulates =>
      have exec :
          (StmtPart.stmt (.ifElse cond thenBlock elseBlock)).exec machine.interp fuel env =
          (Eval.truth machine.interp (cond.eval machine.interp env.toNames)).exec >>= fun truth =>
            if truth then thenBlock.exec machine.interp fuel env
            else (StmtPart.otherwise elseBlock).exec machine.interp fuel (thenBlock.pass env) := by
        cases elseBlock <;> rw [StmtPart.exec, Stmt.exec] <;> rfl
      have named : (StmtPart.stmt (.ifElse cond thenBlock elseBlock)).named env =
          thenBlock.named env ++ (StmtPart.otherwise elseBlock).named (thenBlock.pass env) := by
        cases elseBlock <;> simp [StmtPart.named, Stmt.named]
      have bounds : (StmtPart.stmt (.ifElse cond thenBlock elseBlock)).hidden env =
          thenBlock.hidden env ++ (StmtPart.otherwise elseBlock).hidden (thenBlock.pass env) := by
        cases elseBlock <;> simp [StmtPart.hidden, Stmt.hidden]
      rw [named, bounds] at fits
      rw [exec]
      refine (Simulates.jump (Machine.acts_jump toCond) here fun next there => ?_).weaken
        (Nat.le_succ fuel)
      refine Simulates.bind
        (condCode.follows fuel sound fits.function fits.visible [] world next there) ?_
      intro truth after final there
      cases truth with
      | true => exact (thenSimulates sound fits.left there).leave thenExit
      | false =>
          have laterFits := fits.right (thenBlock.allocates env).grows (thenBlock.toNames_pass env)
          exact (elseSimulates sound laterFits there).leave elseExit
  | whileDo condCode bodyCode again bodySimulates =>
      rw [StmtPart.named, StmtPart.hidden, Stmt.named, Stmt.hidden] at fits
      rw [StmtPart.exec, Stmt.exec]
      exact Simulates.repeatWhile
        (fun world config here =>
          condCode.follows fuel sound fits.function fits.visible [] world config here)
        (fun world config here => bodySimulates sound fits here) again (Nat.le_refl fuel) here
  | @forRange env position name low high body slot numeric start lowStop lowStored highStop head
      slotLoaded boundLoaded bodyStop reloaded back resolved number available lowCode storeLow
      highCode storeBound loadSlot loadBound compareAt zero branch bodyCode reload one add storeNext
      again bodySimulates =>
      rw [StmtPart.named, StmtPart.hidden, Stmt.named, Stmt.hidden] at fits
      rw [fits.function] at storeLow storeBound loadSlot loadBound reload storeNext
      have isNumeric : slot.ty = numeric.ty := Numeric.ty_of_ofTy? number
      have visible := fits.visible _ _ resolved
      have isHidden := fits.next_mem resolved number
      rw [StmtPart.exec, Stmt.exec]
      refine Simulates.known resolved (Simulates.known number ?_)
      refine Simulates.bind (follows_evalRange sound fits.function fits.visible lowCode storeLow
        highCode visible here) ?_
      rintro bound after final ⟨typed, there⟩
      refine Simulates.storeBound (Machine.acts_store storeBound) typed isHidden
        (fits.next_unused available) there fun next there => ?_
      -- From here on the slot holds the bound, until the loop ends.
      let inner := hidden.hold (env.next slot.ty) bound isHidden
      have innerFits : Fits machine inner (env.hide name) _ _ := fits.hold resolved isHidden
      have test : ∀ world config, At inner head [] world config → machine.Follows fuel
          (Stmt.evalWithin machine.interp slot bound) world (fun (truth : Bool) after final =>
            At inner (if truth then boundLoaded + 7 else back + 3) [] after final) config :=
        fun _ _ => follows_evalWithin isNumeric visible List.mem_cons_self typed loadSlot loadBound
          compareAt zero branch
      have round : ∀ world config, At inner (boundLoaded + 7) [] world config →
          machine.Simulates fuel ((body.exec machine.interp fuel (env.hide name)).andThen
            (.ofEval (Stmt.evalAdvance machine.interp slot numeric.one))) world
            (Finishes machine inner back) config :=
        fun _ _ here => Simulates.andThen (bodySimulates sound innerFits here) fun _ _ there =>
          Simulates.ofEval (follows_evalAdvance isNumeric visible reload one add storeNext there)
      refine (Simulates.repeatWhile test round again (Nat.le_refl fuel) there).extend ?_
      exact fun outcome after final finished => ⟨final, .refl final, finished.release⟩
  | print prints printsSimulates =>
      rw [StmtPart.exec, Stmt.exec]
      exact printsSimulates sound { fits with apart := nofun, reserved := nofun } here
  | returnVoid void instr =>
      rw [StmtPart.exec, Stmt.exec]
      exact Simulates.pure ⟨here.atReturn instr, _, here⟩
  | returnValue notVoid valueCode instr =>
      rw [StmtPart.exec, Stmt.exec]
      have value := valueCode.follows fuel sound fits.function fits.visible notVoid
      refine Simulates.bind (value [] world config here) ?_
      rintro value after final ⟨typed, there⟩
      exact Simulates.pure ⟨there.atReturn instr, _, there⟩
  | callVoid valueCode =>
      rw [StmtPart.exec, Stmt.exec]
      have value := valueCode.follows fuel sound fits.function fits.visible
      refine Simulates.ofEval (Follows.bind (value [] world config here) ?_)
      rintro _ after final ⟨value, rfl, valued, there⟩
      obtain rfl := Option.map_eq_none_iff.1 valued
      exact Follows.pure there
  | dropValue notVoid valueCode instr =>
      rw [StmtPart.exec, Stmt.exec]
      have value := valueCode.follows fuel sound fits.function fits.visible
      refine Simulates.ofEval (Follows.bind (value [] world config here) ?_)
      rintro _ after final ⟨value, rfl, valued, there⟩
      obtain ⟨value, rfl, -⟩ := exists_of_valued valued notVoid
      exact Simulates.pop (Machine.acts_plain instr fun _ _ _ => rfl) there fun next there =>
        Follows.pure there
  | dropBranch valueCode =>
      rw [StmtPart.exec, Stmt.exec]
      have value := valueCode.follows fuel sound fits.function fits.visible
      refine Simulates.ofEval (Follows.bind (value [] world config here) ?_)
      rintro _ after final ⟨truth, rfl, there⟩
      rw [ite_self] at there
      exact Follows.pure there
  | nested bodyCode bodySimulates =>
      rw [StmtPart.named, StmtPart.hidden, Stmt.named, Stmt.hidden] at fits
      rw [StmtPart.exec, Stmt.exec]
      exact bodySimulates sound fits here
  | noStmts =>
      rw [StmtPart.exec, Stmt.execAll]
      exact Simulates.pure here
  | @stmts env first rest _ _ _ firstCode restCode firstSimulates restSimulates =>
      rw [StmtPart.named, StmtPart.hidden, Stmt.namedAll, Stmt.hiddenAll] at fits
      rw [StmtPart.exec, Stmt.execAll]
      refine Simulates.andThen (firstSimulates sound fits.left here) fun after final there => ?_
      have laterFits := fits.right (first.allocates env).grows (first.toNames_pass env)
      exact restSimulates sound laterFits there
  | block inner innerSimulates =>
      rw [StmtPart.named, StmtPart.hidden, Block.named, Block.hidden] at fits
      rw [StmtPart.exec, Block.exec]
      exact innerSimulates sound fits.inside here
  | noElse => exact Simulates.pure here
  | someElse inner innerSimulates => exact innerSimulates sound fits here
  | noPrints =>
      rw [StmtPart.exec, Stmt.evalPrint]
      exact Simulates.ofEval (Follows.pure here)
  | @prints _ _ _ ty _ _ _ _ valueCode member instr rest restSimulates =>
      rw [StmtPart.exec, Stmt.evalPrint, Exec.ofEval_bind]
      have notVoid : ty ≠ .void := by
        rintro rfl
        cases member
      have value := valueCode.follows fuel sound fits.function fits.visible notVoid
      refine Simulates.bind (value [] world config here) ?_
      rintro value after final ⟨typed, there⟩
      rw [Exec.ofEval_bind]
      refine Simulates.bind
        (Follows.print (Machine.acts_plain instr (Op.acts_of_print? member)) typed there) ?_
      intro _ after final there
      exact restSimulates sound fits there

end Backpatch
