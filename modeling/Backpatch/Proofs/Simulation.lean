import Backpatch.Proofs.Machine

/-!
# Code that does what an evaluation does

A machine simulates an execution from some configuration if it goes on to a configuration that fits
the result, or gets stuck when the execution fails.  If the execution runs out of fuel, the machine
has to take at least as many steps as there was fuel; this is what makes the comparison work in both
directions.  An evaluation is followed when it is simulated as an execution.
-/

namespace Backpatch

namespace Machine

/-- The machine ends like an execution, or takes as many steps as there is fuel. -/
def Ends {α : Type} (machine : Machine) (fuel : Nat) (post : α → World → Config → Prop)
    (config : Config) : Run (α × World) → Prop
  | .done result => ∃ final, machine.Reaches config final ∧ post result.1 result.2 final
  | .stuck => ∃ final, machine.Reaches config final ∧ machine.Stuck final
  | .running => ∃ final, machine.run fuel config = some final

/-- The machine does what an execution does. -/
def Simulates {α : Type} (machine : Machine) (fuel : Nat) (exec : Exec α) (world : World)
    (post : α → World → Config → Prop) (config : Config) : Prop :=
  machine.Ends fuel post config (exec world)

/-- The machine does what an evaluation does. -/
abbrev Follows {α : Type} (machine : Machine) (fuel : Nat) (eval : Eval α) (world : World)
    (post : α → World → Config → Prop) (config : Config) : Prop :=
  machine.Simulates fuel eval.exec world post config

/-- The next instruction is no return, and carrying it out has the given result. -/
structure Performs (machine : Machine) (config : Config) (result : Option Config) : Prop where
  step : machine.step config = result
  noReturn : ¬ machine.AtReturn config

variable {machine : Machine} {α β : Type} {fuel : Nat} {world : World} {config next : Config}
  {post : α → World → Config → Prop} {postNext : β → World → Config → Prop}

theorem exists_run_of_le {count more : Nat} {final : Config} (le : count ≤ more)
    (runs : machine.run more config = some final) :
    ∃ earlier, machine.run count config = some earlier := by
  obtain ⟨rest, rfl⟩ := Nat.exists_eq_add_of_le le
  rw [run_add] at runs
  obtain ⟨earlier, reached, -⟩ := Option.bind_eq_some_iff.1 runs
  exact ⟨earlier, reached⟩

namespace Ends

variable {run : Run (α × World)}

/-- What is reached first, and what happens then. -/
theorem after {count : Nat} (reached : machine.run count config = some next)
    (later : machine.Ends fuel post next run) : machine.Ends (count + fuel) post config run := by
  cases run with
  | done | stuck =>
      obtain ⟨final, reaches, holds⟩ := later
      exact ⟨final, .trans ⟨count, reached⟩ reaches, holds⟩
  | running =>
      obtain ⟨final, runs⟩ := later
      exact ⟨final, by rw [run_add, reached, Option.bind_some, runs]⟩

theorem weaken {less : Nat} (le : less ≤ fuel) (ends : machine.Ends fuel post config run) :
    machine.Ends less post config run := by
  cases run with
  | done | stuck => exact ends
  | running =>
      obtain ⟨final, runs⟩ := ends
      exact exists_run_of_le le runs

/-- The machine goes on after the execution has ended. -/
theorem extend {postLater : α → World → Config → Prop} (ends : machine.Ends fuel post config run)
    (later : ∀ result after final, post result after final →
      ∃ next, machine.Reaches final next ∧ postLater result after next) :
    machine.Ends fuel postLater config run := by
  cases run with
  | done =>
      obtain ⟨final, reaches, holds⟩ := ends
      obtain ⟨next, moreReaches, holds⟩ := later _ _ _ holds
      exact ⟨next, reaches.trans moreReaches, holds⟩
  | stuck | running => exact ends

theorem bind {rest : α × World → Run (β × World)} (first : machine.Ends fuel post config run)
    (second : ∀ result after final, post result after final →
      machine.Ends fuel postNext final (rest (result, after))) :
    machine.Ends fuel postNext config (run >>= rest) := by
  cases run with
  | done result =>
      obtain ⟨middle, ⟨count, reached⟩, holds⟩ := first
      exact ((second _ _ middle holds).after reached).weaken (Nat.le_add_left fuel count)
  | stuck | running => exact first

end Ends

namespace Simulates

variable {exec : Exec α}

theorem pure {result : α} (here : post result world config) :
    machine.Simulates fuel (pure result) world post config :=
  ⟨config, .refl config, here⟩

theorem running : machine.Simulates 0 (fun _ => .running) world post config :=
  ⟨config, rfl⟩

theorem weaken {less : Nat} (le : less ≤ fuel)
    (simulates : machine.Simulates fuel exec world post config) :
    machine.Simulates less exec world post config :=
  Ends.weaken le simulates

theorem bind {rest : α → Exec β} (first : machine.Simulates fuel exec world post config)
    (second : ∀ result after final, post result after final →
      machine.Simulates fuel (rest result) after postNext final) :
    machine.Simulates fuel (exec >>= rest) world postNext config :=
  Ends.bind first second

theorem extend {postLater : α → World → Config → Prop}
    (simulates : machine.Simulates fuel exec world post config)
    (later : ∀ result after final, post result after final →
      ∃ next, machine.Reaches final next ∧ postLater result after next) :
    machine.Simulates fuel exec world postLater config :=
  Ends.extend simulates later

/-- An instruction that the execution knows nothing of is a step gained. -/
theorem step (performs : machine.Performs config (some next))
    (later : machine.Simulates fuel exec world post next) :
    machine.Simulates (fuel + 1) exec world post config := by
  have reached : machine.run 1 config = some next := by
    rw [run, performs.step]
    rfl
  exact Nat.add_comm 1 fuel ▸ Ends.after reached later

theorem before (performs : machine.Performs config (some next))
    (later : machine.Simulates fuel exec world post next) :
    machine.Simulates fuel exec world post config :=
  (step performs later).weaken (Nat.le_succ fuel)

end Simulates

namespace Follows

variable {eval : Eval α}

theorem bind {rest : α → Eval β} (first : machine.Follows fuel eval world post config)
    (second : ∀ result after final, post result after final →
      machine.Follows fuel (rest result) after postNext final) :
    machine.Follows fuel (eval >>= rest) world postNext config := by
  rw [Follows, Eval.exec_bind]
  exact Simulates.bind first second

theorem pure {result : α} (here : post result world config) :
    machine.Follows fuel (pure result) world post config :=
  Simulates.pure here

/-- What is known of all results of an evaluation that is followed. -/
theorem holds {result : α} {after : World} (follows : machine.Follows fuel eval world post config)
    (evaluated : eval world = some (result, after)) : ∃ final, post result after final := by
  rw [Follows, Simulates, Eval.exec, evaluated] at follows
  obtain ⟨final, -, holds⟩ := follows
  exact ⟨final, holds⟩

theorem stuck (performs : machine.Performs config none) (fails : eval world = none) :
    machine.Follows fuel eval world post config := by
  rw [Follows, Simulates, Eval.exec, fails]
  exact ⟨config, .refl config, performs.step, performs.noReturn⟩

/-- An operation that the machine carries out earlier than the evaluation does. -/
theorem early {option : Option β} {target : β → Config}
    (performs : machine.Performs config (option.map target))
    (fails : option = none → eval world = none)
    (later : ∀ result, option = some result →
      machine.Follows fuel eval world post (target result)) :
    machine.Follows fuel eval world post config := by
  cases option with
  | none => exact stuck performs (fails rfl)
  | some result => exact Simulates.before performs (later result rfl)

/-- An evaluation that one instruction carries out. -/
theorem perform {option : Option α} {change : α → World} {target : α → Config}
    (evaluates : eval world = option.map fun result => (result, change result))
    (performs : machine.Performs config (option.map target))
    (holds : ∀ result, option = some result → post result (change result) (target result)) :
    machine.Follows fuel eval world post config := by
  cases option with
  | none => exact stuck performs evaluates
  | some result =>
      rw [Follows, Simulates, Eval.exec, evaluates]
      exact ⟨target result, .step performs.step (.refl _), holds result rfl⟩

/-- Something that is not looked up while the code runs. -/
theorem known {option : Option α} {value : α} {rest : α → Eval β} (isValue : option = some value)
    (later : machine.Follows fuel (rest value) world postNext config) :
    machine.Follows fuel (Eval.ofOption option >>= rest) world postNext config := by
  rw [isValue]
  exact later

end Follows

end Machine

/-- An instruction without operands that does the given thing. -/
def Op.Acts (op : Op) (action : Action) : Prop :=
  ∀ image function offset, (⟨offset, op, []⟩ : Instr).action? image function = some action

namespace Numeric

variable (numeric : Numeric)

theorem acts_zeroOp : numeric.zeroOp.Acts (.push numeric.zero) := by
  cases numeric <;> exact fun _ _ _ => rfl

theorem acts_oneOp : numeric.oneOp.Acts (.push numeric.one) := by
  cases numeric <;> exact fun _ _ _ => rfl

theorem acts_minusOneOp : numeric.minusOneOp.Acts (.push numeric.minusOne) := by
  cases numeric <;> exact fun _ _ _ => rfl

theorem acts_addOp : numeric.addOp.Acts (.arith numeric .add) := by
  cases numeric <;> exact fun _ _ _ => rfl

theorem acts_mulOp : numeric.mulOp.Acts (.arith numeric .mul) := by
  cases numeric <;> exact fun _ _ _ => rfl

theorem acts_compareOp : numeric.compareOp.Acts (.compare numeric) := by
  cases numeric <;> exact fun _ _ _ => rfl

end Numeric

theorem ArithOp.acts_of_instr? {arith : ArithOp} {ty : Ty} {op : Op}
    (member : arith.instr? ty = some op) :
    ∃ numeric : Numeric, ty = numeric.ty ∧ op.Acts (.arith numeric arith) := by
  cases ty with
  | int => exact ⟨.int, rfl, by cases arith <;> cases member <;> exact fun _ _ _ => rfl⟩
  | double => exact ⟨.double, rfl, by cases arith <;> cases member <;> exact fun _ _ _ => rfl⟩
  | logic | string | void | invalid => cases arith <;> cases member

theorem Op.acts_of_print? {ty : Ty} {op : Op} (member : Op.print? ty = some op) :
    op.Acts (.print ty) := by
  cases ty <;> cases member <;> exact fun _ _ _ => rfl

theorem Op.acts_of_convert? {source target : Ty} {op : Op}
    (member : Op.convert? source target = some op) : op.Acts (.convert source target) := by
  cases source <;> cases target <;> cases member <;> exact fun _ _ _ => rfl

namespace Machine

/-- At an offset stands an instruction that does the given thing. -/
def Acts (machine : Machine) (start : Nat) (action : Action) (stop : Nat) : Prop :=
  ∃ instr, fetch machine.code start = some instr ∧
    instr.action? machine.image machine.function = some action ∧
    stop = start + 1 + instr.operands.length

section Acts

variable {machine : Machine} {start stop : Nat} {op : Op}

theorem acts_plain {action : Action} (instr : PlainAt machine.code start op)
    (acts : op.Acts action) : machine.Acts start action (start + 1) :=
  ⟨_, instr, acts _ _ _, rfl⟩

theorem acts_jump {target : Nat} (instr : JumpAt machine.code start target) :
    machine.Acts start (.jump target) (start + 3) := by
  refine ⟨_, instr.2, ?_, rfl⟩
  simp only [Instr.action?]
  rw [Instr.targets_jump instr.1]
  rfl

theorem acts_branch {comparison : Comparison} {onTrue onFalse : Nat}
    (instr : BranchAt machine.code start comparison.branchOp onTrue onFalse) :
    machine.Acts start (.branch comparison onTrue onFalse) (start + 5) := by
  obtain ⟨trueNear, falseNear, fetched⟩ := instr
  have isBranch : comparison.branchOp.isBranch = true := by cases comparison <;> rfl
  have targets : (⟨start, comparison.branchOp, littleEndian 2 onTrue ++ littleEndian 2 onFalse⟩ :
      Instr).targets = [onTrue, onFalse] := Instr.targets_branch isBranch trueNear falseNear
  refine ⟨_, fetched, ?_, rfl⟩
  cases comparison <;>
    · simp only [Instr.action?, Comparison.branchOp, Instr.branch?] at targets ⊢
      rw [targets]
      rfl

theorem acts_load {slot : Slot}
    (instr : AccessAt machine.image machine.code machine.function Op.load? slot start stop) :
    machine.Acts start (.load slot) stop := by
  obtain ⟨context, index, ty⟩ := slot
  cases instr with
  | own _ localSlot member instr =>
      obtain rfl : context = machine.function := localSlot
      refine ⟨_, instr, ?_, rfl⟩
      cases ty <;> cases member <;> simp [Instr.action?, Instr.own?]
  | foreign _ _ member instr =>
      refine ⟨_, instr, ?_, rfl⟩
      cases ty <;> cases member <;> simp [Instr.action?, Instr.foreign?]

theorem acts_store {slot : Slot}
    (instr : AccessAt machine.image machine.code machine.function Op.store? slot start stop) :
    machine.Acts start (.store slot) stop := by
  obtain ⟨context, index, ty⟩ := slot
  cases instr with
  | own _ localSlot member instr =>
      obtain rfl : context = machine.function := localSlot
      refine ⟨_, instr, ?_, rfl⟩
      cases ty <;> cases member <;> simp [Instr.action?, Instr.own?]
  | foreign _ _ member instr =>
      refine ⟨_, instr, ?_, rfl⟩
      cases ty <;> cases member <;> simp [Instr.action?, Instr.foreign?]

theorem acts_call {id : UInt16} (instr : WordAt machine.code start .call id) :
    machine.Acts start (.call id) (start + 3) :=
  ⟨_, instr, by simp [Instr.action?], rfl⟩

theorem acts_string {id : UInt16} {text : String}
    (constant : machine.image.constant? id = some text)
    (instr : WordAt machine.code start .sLoad id) :
    machine.Acts start (.push (.string text)) (start + 3) :=
  ⟨_, instr, by simp [Instr.action?, constant], rfl⟩

/-- A literal is read as it was written. -/
theorem ofNat_littleEndian (word : UInt64) :
    UInt64.ofNat (ofLittleEndian (littleEndian 8 word.toNat)) = word := by
  rw [ofLittleEndian_littleEndian, show Nat.pow 256 8 = UInt64.size from rfl,
    Nat.mod_eq_of_lt word.toNat_lt_size, UInt64.ofNat_toNat]

theorem acts_int {number : Int64}
    (instr : fetch machine.code start =
      some ⟨start, .iLoad, littleEndian 8 number.toUInt64.toNat⟩) :
    machine.Acts start (.push (.int number)) (start + 9) := by
  refine ⟨_, instr, ?_, rfl⟩
  simp only [Instr.action?, Instr.int?, length_littleEndian, and_self, if_true, Option.map_some,
    ofNat_littleEndian]
  rfl

theorem acts_double {number : Double}
    (instr : fetch machine.code start = some ⟨start, .dLoad, littleEndian 8 number.bits.toNat⟩) :
    machine.Acts start (.push (.double number)) (start + 9) := by
  refine ⟨_, instr, ?_, rfl⟩
  simp only [Instr.action?, Instr.double?, length_littleEndian, and_self, if_true, Option.map_some,
    ofNat_littleEndian]

theorem Acts.performs {action : Action} {config : Config} (acts : machine.Acts start action stop)
    (here : config.pc = start) :
    machine.Performs config (action.perform machine.interp machine.image stop config) := by
  obtain ⟨instr, fetched, acts, rfl⟩ := acts
  subst here
  refine ⟨?_, fun atReturn => ?_⟩
  · simp [step, fetched, acts, nextOffset_of_fetch fetched]
  · obtain ⟨other, alsoFetched, isReturn⟩ := atReturn
    obtain rfl := Option.some.inj (fetched.symm.trans alsoFetched)
    rw [Instr.action?, isReturn] at acts
    cases acts

end Acts

end Machine

/-- The slots of a function that have no name.  While a loop runs, one of them holds its bound. -/
structure Hidden where
  slots : List Slot
  bounds : List (Slot × Value)
  mem : ∀ bound ∈ bounds, bound.1 ∈ slots

/-- A loop begins to use a slot for its bound. -/
def Hidden.hold (hidden : Hidden) (slot : Slot) (value : Value) (isHidden : slot ∈ hidden.slots) :
    Hidden where
  slots := hidden.slots
  bounds := (slot, value) :: hidden.bounds
  mem bound member := by
    rcases List.mem_cons.1 member with rfl | member
    · exact isHidden
    · exact hidden.mem bound member

/-- The machine stands at an offset with the given stack.  Its variables and its output are those of
an evaluation, and the slots in use hold their bounds. -/
structure At (hidden : Hidden) (pc : Nat) (stack : List Value) (world : World) (config : Config) :
    Prop where
  pc : config.pc = pc
  stack : config.stack = stack
  agrees : World.Agrees hidden.slots world config.world
  bounds : ∀ bound ∈ hidden.bounds, config.world.load bound.1 = some bound.2

namespace Machine

variable {machine : Machine} {α : Type} {fuel start stop : Nat} {world : World} {config : Config}
  {hidden : Hidden} {stack : List Value} {value first second : Value} {numeric : Numeric}
  {slot : Slot}

namespace Simulates

variable {exec : Exec α} {post : α → World → Config → Prop}

theorem push (acts : machine.Acts start (.push value) stop)
    (here : At hidden start stack world config)
    (later : ∀ next, At hidden stop (value :: stack) world next →
      machine.Simulates fuel exec world post next) :
    machine.Simulates fuel exec world post config :=
  before (acts.performs here.pc)
    (later _ ⟨rfl, congrArg (value :: ·) here.stack, here.agrees, here.bounds⟩)

theorem pop (acts : machine.Acts start .pop stop)
    (here : At hidden start (value :: stack) world config)
    (later : ∀ next, At hidden stop stack world next →
      machine.Simulates fuel exec world post next) :
    machine.Simulates fuel exec world post config := by
  have performs := acts.performs here.pc
  rw [Action.perform, here.stack] at performs
  exact before performs (later _ ⟨rfl, rfl, here.agrees, here.bounds⟩)

theorem jump {target : Nat} (acts : machine.Acts start (.jump target) stop)
    (here : At hidden start stack world config)
    (later : ∀ next, At hidden target stack world next →
      machine.Simulates fuel exec world post next) :
    machine.Simulates (fuel + 1) exec world post config :=
  step (acts.performs here.pc) (later _ ⟨rfl, here.stack, here.agrees, here.bounds⟩)

theorem branch {comparison : Comparison} {onTrue onFalse : Nat} {left right : Int64}
    (acts : machine.Acts start (.branch comparison onTrue onFalse) stop)
    (here : At hidden start (.int right :: .int left :: stack) world config)
    (later : ∀ next,
      At hidden (if comparison.test left right then onTrue else onFalse) stack world next →
      machine.Simulates fuel exec world post next) :
    machine.Simulates fuel exec world post config := by
  have performs := acts.performs here.pc
  rw [Action.perform, here.stack] at performs
  exact before performs (later _ ⟨rfl, rfl, here.agrees, here.bounds⟩)

theorem loadBound (acts : machine.Acts start (.load slot) stop)
    (isBound : (slot, value) ∈ hidden.bounds) (here : At hidden start stack world config)
    (later : ∀ next, At hidden stop (value :: stack) world next →
      machine.Simulates fuel exec world post next) :
    machine.Simulates fuel exec world post config := by
  have performs := acts.performs here.pc
  rw [Action.perform, here.bounds _ isBound] at performs
  exact before performs
    (later _ ⟨rfl, congrArg (value :: ·) here.stack, here.agrees, here.bounds⟩)

/-- A loop keeps its bound in a slot that is not in use. -/
theorem storeBound (acts : machine.Acts start (.store slot) stop) (typed : value.ty = slot.ty)
    (isHidden : slot ∈ hidden.slots) (unused : ∀ bound ∈ hidden.bounds, bound.1 ≠ slot)
    (here : At hidden start (value :: stack) world config)
    (later : ∀ next, At (hidden.hold slot value isHidden) stop stack world next →
      machine.Simulates fuel exec world post next) :
    machine.Simulates fuel exec world post config := by
  have performs := acts.performs here.pc
  obtain ⟨after, changed, -, load⟩ := config.world.set_eq_some typed
  rw [Action.perform, here.stack, popTyped_cons typed] at performs
  simp only [Option.bind_eq_bind, Option.bind_some, changed, Option.map_some] at performs
  refine before performs (later _ ⟨rfl, rfl, here.agrees.set_hidden typed isHidden changed, ?_⟩)
  intro bound member
  rcases List.mem_cons.1 member with rfl | member
  · rw [load, if_pos rfl]
  · rw [load, if_neg (unused bound member), here.bounds bound member]

end Simulates

theorem Acts.performs_convert {source target : Ty}
    (acts : machine.Acts start (.convert source target) stop) (typed : value.ty = source)
    (here : At hidden start (value :: stack) world config) :
    machine.Performs config ((machine.interp.change target value).map fun result =>
      ⟨stop, result :: stack, config.world⟩) := by
  have performs := acts.performs here.pc
  rw [Action.perform, here.stack, popTyped_cons typed] at performs
  exact performs

namespace Follows

theorem arith {op : ArithOp} (acts : machine.Acts start (.arith numeric op) stop)
    (left : first.ty = numeric.ty) (right : second.ty = numeric.ty)
    (here : At hidden start (second :: first :: stack) world config) :
    machine.Follows fuel (.ofOption (machine.interp.arith op first second)) world
      (fun value after final => value.ty = numeric.ty ∧ At hidden stop (value :: stack) after final)
      config := by
  have performs := acts.performs here.pc
  rw [Action.perform, here.stack, popTyped_cons right] at performs
  simp only [Option.bind_eq_bind, Option.bind_some, popTyped_cons left] at performs
  refine perform rfl performs fun value computed => ?_
  exact ⟨(Interp.ty_of_arith computed).trans left, rfl, rfl, here.agrees, here.bounds⟩

theorem compare (acts : machine.Acts start (.compare numeric) stop)
    (left : first.ty = numeric.ty) (right : second.ty = numeric.ty)
    (here : At hidden start (second :: first :: stack) world config) :
    machine.Follows fuel (.ofOption (machine.interp.compare first second)) world
      (fun ordering after final =>
        At hidden stop (.int (Comparison.outcome ordering) :: stack) after final) config := by
  have performs := acts.performs here.pc
  rw [Action.perform, here.stack, popTyped_cons right] at performs
  simp only [Option.bind_eq_bind, Option.bind_some, popTyped_cons left] at performs
  exact perform rfl performs fun ordering _ => ⟨rfl, rfl, here.agrees, here.bounds⟩

theorem change {source target : Ty} (acts : machine.Acts start (.convert source target) stop)
    (typed : value.ty = source) (here : At hidden start (value :: stack) world config) :
    machine.Follows fuel (.ofOption (machine.interp.change target value)) world
      (fun result after final => result.ty = target ∧ At hidden stop (result :: stack) after final)
      config := by
  refine perform rfl (acts.performs_convert typed here) fun result changed => ?_
  exact ⟨Interp.ty_of_change changed, rfl, rfl, here.agrees, here.bounds⟩

theorem load (acts : machine.Acts start (.load slot) stop) (visible : slot ∉ hidden.slots)
    (here : At hidden start stack world config) :
    machine.Follows fuel (.load slot) world
      (fun value after final => value.ty = slot.ty ∧ At hidden stop (value :: stack) after final)
      config := by
  have performs := acts.performs here.pc
  rw [Action.perform, here.agrees.load slot visible] at performs
  refine perform rfl performs fun value loaded => ?_
  exact ⟨World.ty_of_load loaded, rfl, congrArg (value :: ·) here.stack, here.agrees, here.bounds⟩

theorem set (acts : machine.Acts start (.store slot) stop) (typed : value.ty = slot.ty)
    (visible : slot ∉ hidden.slots) (here : At hidden start (value :: stack) world config) :
    machine.Follows fuel (.set slot value) world
      (fun _ after final => At hidden stop stack after final) config := by
  have performs := acts.performs here.pc
  obtain ⟨after, changed, -, -⟩ := world.set_eq_some typed
  obtain ⟨machineAfter, machineChanged, -, load⟩ := config.world.set_eq_some typed
  rw [Action.perform, here.stack, popTyped_cons typed] at performs
  simp only [Option.bind_eq_bind, Option.bind_some, machineChanged, Option.map_some] at performs
  refine Simulates.before performs ?_
  rw [Simulates, Eval.exec, Eval.set, changed]
  refine ⟨_, .refl _, rfl, rfl, here.agrees.set typed changed machineChanged, ?_⟩
  intro bound member
  have other : bound.1 ≠ slot := fun same => visible (same ▸ hidden.mem bound member)
  rw [load, if_neg other, here.bounds bound member]

theorem print {ty : Ty} (acts : machine.Acts start (.print ty) stop) (typed : value.ty = ty)
    (here : At hidden start (value :: stack) world config) :
    machine.Follows fuel (.print value) world
      (fun _ after final => At hidden stop stack after final) config := by
  have performs := acts.performs here.pc
  rw [Action.perform, here.stack, popTyped_cons typed] at performs
  simp only [Option.bind_eq_bind, Option.bind_some] at performs
  exact Simulates.before performs
    ⟨_, .refl _, rfl, rfl, here.agrees.print value, here.bounds⟩

/-- A call that neither reads nor writes hidden slots. -/
theorem call {id : UInt16} {callee : Routine} {args : List Value}
    (acts : machine.Acts start (.call id) stop)
    (registered : machine.image.routine? id = some callee)
    (count : args.length = callee.signature.params.length)
    (ignores : machine.interp.Ignores hidden.slots)
    (here : At hidden start (args ++ stack) world config) :
    machine.Follows fuel (.call machine.interp id args) world
      (fun result after final =>
        machine.interp.call id args world = some (result, after) ∧
          At hidden stop (result.toList ++ stack) after final) config := by
  have performs := acts.performs here.pc
  have enough : callee.signature.params.length ≤ (args ++ stack).length := by
    rw [List.length_append, count]
    exact Nat.le_add_right _ _
  rw [Action.perform, registered] at performs
  simp only [Option.bind_eq_bind, Option.bind_some, Action.performCall, here.stack, if_pos enough]
    at performs
  rw [← count, List.take_left, List.drop_left] at performs
  cases called : machine.interp.call id args world with
  | none =>
      -- The worlds differ in hidden slots only, so both calls fail.
      cases machineCalled : machine.interp.call id args config.world with
      | none =>
          rw [machineCalled] at performs
          exact stuck performs called
      | some result =>
          obtain ⟨_, also, -⟩ := ignores.unread id args _ _ _ _ here.agrees.symm machineCalled
          rw [called] at also
          cases also
  | some result =>
      obtain ⟨result, after⟩ := result
      obtain ⟨machineAfter, machineCalled, agrees⟩ :=
        ignores.unread id args _ _ _ _ here.agrees called
      rw [machineCalled] at performs
      refine Simulates.before performs ?_
      rw [Simulates, Eval.exec, Eval.call, called]
      refine ⟨_, .refl _, rfl, rfl, rfl, agrees, fun bound member => ?_⟩
      have unwritten :=
        ignores.unwritten id args _ _ _ machineCalled bound.1 (hidden.mem bound member)
      exact unwritten.trans (here.bounds bound member)

end Follows

end Machine

end Backpatch
