import Backpatch.Proofs.StackTyping
import Backpatch.Proofs.StmtSimulation

/-!
# Compiled functions do what their bodies say

The machine that runs the code of a function halts at a return exactly when the evaluation of the
function's body ends, and then with the same returned value, the same output and the same values of
all variables that have a name.
-/

namespace Backpatch

open Machine (Simulates Follows)

namespace Machine

variable {machine : Machine} {α : Type} {exec : Nat → Exec α} {world after : World}
  {post : α → World → Config → Prop} {config final : Config} {result : α}

/-- What an execution ends with, the machine halts with. -/
theorem halts_of_done (simulates : ∀ fuel, machine.Simulates fuel (exec fuel) world post config)
    (returns : ∀ result after final, post result after final → machine.AtReturn final) {fuel : Nat}
    (done : exec fuel world = .done (result, after)) :
    ∃ final, machine.Halts config final ∧ post result after final := by
  have ends := simulates fuel
  rw [Simulates, done] at ends
  obtain ⟨final, reaches, holds⟩ := ends
  exact ⟨final, ⟨reaches, returns _ _ _ holds⟩, holds⟩

/-- If the machine halts, the execution ends as soon as it has more fuel than the machine takes
steps. -/
theorem done_of_halts (simulates : ∀ fuel, machine.Simulates fuel (exec fuel) world post config)
    (returns : ∀ result after final, post result after final → machine.AtReturn final)
    (halts : machine.Halts config final) :
    ∃ fuel result after, exec fuel world = .done (result, after) ∧ post result after final := by
  obtain ⟨⟨count, reached⟩, atReturn⟩ := halts
  have ended := step_of_atReturn atReturn
  have ends := simulates (count + 1)
  rw [Simulates] at ends
  cases executed : exec (count + 1) world with
  | done result =>
      rw [executed] at ends
      obtain ⟨other, reaches, holds⟩ := ends
      have otherEnded := step_of_atReturn (returns _ _ _ holds)
      obtain rfl := reaches.unique otherEnded ⟨count, reached⟩ ended
      exact ⟨count + 1, result.1, result.2, executed, holds⟩
  | stuck =>
      rw [executed] at ends
      obtain ⟨other, reaches, stuck, noReturn⟩ := ends
      obtain rfl := reaches.unique stuck ⟨count, reached⟩ ended
      exact absurd atReturn noReturn
  | running =>
      rw [executed] at ends
      obtain ⟨other, runs⟩ := ends
      exact absurd (run_le reached ended runs) (Nat.not_succ_le_self count)

end Machine

/-- The code of a routine, ready to run. -/
def Routine.machine (routine : Routine) (interp : Interp) (image : Image) (id : Nat) : Machine where
  interp := interp
  image := image
  function := UInt16.ofNat id
  code := routine.code.bytes.toList

/-- The arguments are taken from the stack into the slots of the parameters. -/
theorem ParamsCode.follows {machine : Machine} {hidden : Hidden} {fuel start stop : Nat} {env : Env}
    {params : List ParamDecl} {args : List Value} {world : World} {config : Config}
    (paramsCode : ParamsCode machine.image machine.code env params start stop)
    (function : env.function = machine.function)
    (apart : ∀ slot ∈ Slot.numbered env.function env.taken (params.map (·.ty)), slot ∉ hidden.slots)
    (typed : args.map Value.ty = params.map (·.ty)) (here : At hidden start args world config) :
    machine.Follows fuel (env.bind params args) world
      (fun _ after final => At hidden stop [] after final) config := by
  induction paramsCode generalizing args world config with
  | nil =>
      obtain rfl := List.map_eq_nil_iff.1 typed
      rw [Env.bind]
      exact Follows.pure here
  | @cons env param params start middle stop store rest ih =>
      obtain ⟨value, values, rfl, valueTyped, valuesTyped⟩ := List.map_eq_cons_iff.1 typed
      rw [function] at store
      rw [Env.bind]
      refine Follows.bind (Follows.set (Machine.acts_store store) valueTyped
        (apart _ List.mem_cons_self) here) ?_
      intro _ after final there
      exact ih function (fun slot member => apart slot (List.mem_cons_of_mem _ member)) valuesTyped
        there

/-- What a function returns with: its result on the stack, and variables and output that differ at
most in hidden slots. -/
def Returns (machine : Machine) (hidden : List Slot) (returned : Option Value) (after : World)
    (final : Config) : Prop :=
  machine.AtReturn final ∧ final.stack = returned.toList ∧ World.Agrees hidden after final.world

section Functions

variable {program : Program} {image : Image} {index : Nat} {env : Env} {name : String}
  {returnType : Ty} {params : List ParamDecl} {body : Block} {position : Position}
  {routine : Routine} {interp : Interp} {args : List Value}

/-- Calls that conform to a program are sound in its image. -/
theorem Image.Realizes.sound (realizes : image.Realizes program) {slots : List Slot}
    (noVoidParams : ∀ definition ∈ program.definitions, ∀ symbol,
      definition.2.body = .native symbol → ∀ param ∈ definition.2.params, param.ty ≠ .void)
    (conforms : interp.Conforms program) (ignores : interp.Ignores slots) :
    (routine.machine interp image index).Sound slots where
  ignores := ignores
  valued := realizes.callees noVoidParams
  conforms id callee registered args world result after typed called := by
    obtain ⟨definition, found, routineCode⟩ := realizes.definition registered
    rw [← UInt16.ofNat_toNat (x := id)] at called
    rw [routineCode.paramTypes] at typed
    rw [routineCode.signature]
    exact conforms id.toNat definition found args world result after typed called

/-- The code of a function does what its body says. -/
theorem Image.Realizes.simulates_apply (realizes : image.Realizes program)
    (noVoidParams : ∀ definition ∈ program.definitions, ∀ symbol,
      definition.2.body = .native symbol → ∀ param ∈ definition.2.params, param.ty ≠ .void)
    (found : program.definitions[index]? =
      some (env, ⟨name, returnType, params, .block body, position⟩))
    (routineCode :
      RoutineCode image (env, ⟨name, returnType, params, .block body, position⟩) routine)
    (conforms : interp.Conforms program) (ignores : interp.Ignores (body.hidden env))
    (typed : args.map Value.ty = params.map (·.ty)) (world : World) (fuel : Nat) :
    (routine.machine interp image index).Simulates fuel (body.apply interp fuel env params args)
      world (Returns (routine.machine interp image index) (body.hidden env)) ⟨0, args, world⟩ := by
  let machine := routine.machine interp image index
  let hidden : Hidden := ⟨body.hidden env, [], nofun⟩
  have sound : machine.Sound hidden.slots := realizes.sound noVoidParams conforms ignores
  have function : env.function = machine.function := program.function_definition found
  have allocates := program.allocates_definition found
  have apart := allocates.apart routineCode.count_le
  have small : index < 65536 := by
    obtain ⟨inside, -⟩ := List.getElem?_eq_some_iff.1 found
    exact Nat.lt_of_lt_of_le (realizes.size ▸ inside) realizes.size_le
  -- No loop is running yet, so no hidden slot is in use.
  have fits : Fits machine hidden env (body.named env) (body.hidden env) :=
    { function := function
      visible := fun _ _ => program.not_hidden_of_var small found routineCode.count_le
      apart := fun slot member => apart slot (List.mem_append_right _ member)
      reserved := fun _ member => member
      earlier := nofun }
  have bodyCode := routineCode.body
  generalize routine.code.size = size at bodyCode
  obtain @⟨_, _, _, _, _, entry, stop, paramsCode, blockCode, ret⟩ := bodyCode
  have here : At hidden 0 args world ⟨0, args, world⟩ := ⟨rfl, rfl, .refl _ _, nofun⟩
  rw [Block.apply]
  refine Simulates.bind (paramsCode.follows function (fun slot member =>
    apart slot (List.mem_append_left _ member)) typed here) ?_
  intro _ after final there
  refine Simulates.bind (blockCode.simulates sound fits there) ?_
  rintro (_ | value) last config finished
  · exact Simulates.pure ⟨finished.atReturn ret, finished.stack, finished.agrees⟩
  · obtain ⟨atReturn, pc, there⟩ := finished
    exact Simulates.pure ⟨atReturn, there.stack, there.agrees⟩

end Functions

/-- What can be observed of a world: the output, and the values of all variables with a name. -/
def Program.Observes (program : Program) (trace : List Value) (values : Slot → Option Value)
    (world : World) : Prop :=
  world.trace = trace ∧ ∀ slot ∈ program.named, world.load slot = values slot

theorem Program.Observes.of_agrees {program : Program} {trace : List Value}
    {values : Slot → Option Value} {hidden : List Slot} {world other : World}
    (observes : program.Observes trace values world) (agrees : World.Agrees hidden world other)
    (apart : ∀ slot ∈ program.named, slot ∉ hidden) : program.Observes trace values other :=
  ⟨agrees.trace.trans observes.1, fun slot isNamed =>
    (agrees.load slot (apart slot isNamed)).trans (observes.2 slot isNamed)⟩

/-- The code of a function with a block halts at a return exactly when the evaluation of the block
ends, with the same result, the same output and the same values of all variables with a name; at
the return there is nothing on the stack but the result.

Two things are assumed of calls.  By `Conforms`, a call that ends returns a value of the type that
the function is declared to return, or none if that is void; a function with a result that runs into
its end without one has thus no call that ends.  By `Ignores`, calls neither read nor change the
slots in which the function keeps the bounds of its loops. -/
theorem Program.halts_iff_of_emit {program : Program} {options : Options} {image : Image}
    (emitted : program.emit options = .ok image)
    (noVoidParams : ∀ definition ∈ program.definitions, ∀ symbol,
      definition.2.body = .native symbol → ∀ param ∈ definition.2.params, param.ty ≠ .void)
    {index : Nat} {env : Env} {name : String} {returnType : Ty} {params : List ParamDecl}
    {body : Block} {position : Position}
    (found : program.definitions[index]? =
      some (env, ⟨name, returnType, params, .block body, position⟩))
    {interp : Interp} (conforms : interp.Conforms program)
    (ignores : interp.Ignores (body.hidden env)) {args : List Value}
    (typed : args.map Value.ty = params.map (·.ty)) (world : World) :
    ∃ routine, image.routines[index]? = some routine ∧
      (∀ final, (routine.machine interp image index).Halts ⟨0, args, world⟩ final →
        final.stack.length ≤ 1) ∧
      ∀ (returned : Option Value) (trace : List Value) (values : Slot → Option Value),
        (∃ final, (routine.machine interp image index).Halts ⟨0, args, world⟩ final ∧
          final.stack = returned.toList ∧ program.Observes trace values final.world) ↔
        ∃ fuel after, body.apply interp fuel env params args world = .done (returned, after) ∧
          program.Observes trace values after := by
  have realizes := realizes_of_emit emitted
  obtain ⟨routine, lookup, routineCode⟩ := realizes.routine index _ found
  have simulates :=
    realizes.simulates_apply noVoidParams found routineCode conforms ignores typed world
  have returns : ∀ returned after final,
      Returns (routine.machine interp image index) (body.hidden env) returned after final →
      (routine.machine interp image index).AtReturn final :=
    fun _ _ _ returned => returned.1
  have apart : ∀ slot ∈ program.named, slot ∉ body.hidden env := fun _ =>
    program.not_hidden_of_named (realizes.size ▸ realizes.size_le) found routineCode.count_le
  refine ⟨routine, lookup, fun final halts => ?_, fun returned trace values => ⟨?_, ?_⟩⟩
  · obtain ⟨_, returned, _, -, -, stack, -⟩ := Machine.done_of_halts simulates returns halts
    rw [stack]
    cases returned <;> simp
  · rintro ⟨final, halts, stack, observes⟩
    obtain ⟨fuel, result, after, done, -, sameStack, agrees⟩ :=
      Machine.done_of_halts simulates returns halts
    obtain rfl : result = returned := by
      simpa using congrArg List.head? (sameStack.symm.trans stack)
    exact ⟨fuel, after, done, observes.of_agrees agrees.symm apart⟩
  · rintro ⟨fuel, after, done, observes⟩
    obtain ⟨final, halts, -, stack, agrees⟩ := Machine.halts_of_done simulates returns done
    exact ⟨final, halts, stack, observes.of_agrees agrees apart⟩

/-- An interpretation for the example, in which a double is an int in its bits and the inner
function returns its argument. -/
def Interp.simple : Interp where
  intArith
    | .add, first, second => some (first + second)
    | _, _, _ => none
  doubleArith _ _ _ := none
  intNegate _ := none
  doubleNegate _ := none
  intCompare first second := some (Ord.compare first second)
  doubleCompare first second := some (Ord.compare first.bits second.bits)
  intToDouble number := some ⟨number.toUInt64⟩
  doubleToInt _ := none
  stringToInt _ := none
  call id args world := if id = 1 then some (args.head?, world) else none
  callNative _ _ _ := none

theorem Interp.simple_ignores (hidden : List Slot) : simple.Ignores hidden where
  unread id args world other result after agrees called := by
    by_cases isHalf : id = 1
    · simp only [simple, if_pos isHalf, Option.some.injEq, Prod.mk.injEq] at called ⊢
      obtain ⟨rfl, rfl⟩ := called
      exact ⟨other, ⟨rfl, rfl⟩, agrees⟩
    · simp [simple, if_neg isHalf] at called
  unwritten id args world result after called slot _ := by
    by_cases isHalf : id = 1
    · simp only [simple, if_pos isHalf, Option.some.injEq, Prod.mk.injEq] at called
      obtain ⟨-, rfl⟩ := called
      rfl
    · simp [simple, if_neg isHalf] at called

theorem Interp.simple_conforms : simple.Conforms .halving := by
  intro index definition found args world result after typed called
  rcases index with _ | _ | index
  · cases called
  · cases found
    obtain ⟨value, values, rfl, typed, -⟩ := List.map_eq_cons_iff.1 typed
    cases called
    exact congrArg some typed
  · cases found

theorem Run.exists_done {run : Run (Option Value × World)} {returned : Option Value}
    {trace : List Value}
    (ended : run.result?.map (fun result => (result.1, result.2.trace)) = some (returned, trace)) :
    ∃ after, run = .done (returned, after) ∧ after.trace = trace := by
  cases run with
  | done result =>
      cases ended
      exact ⟨result.2, rfl, rfl⟩
  | stuck | running => cases ended

/-- The example prints the numbers from two to four. -/
theorem Program.halts_iff_of_emit_halving :
    ∃ image routine final, halving.emit .default = .ok image ∧
      image.routines[0]? = some routine ∧
      (routine.machine .simple image 0).Halts ⟨0, [], default⟩ final ∧ final.stack = [] ∧
      final.world.trace =
        [.string "at ", .int 2, .string "at ", .int 3, .string "at ", .int 4] := by
  obtain ⟨image, emitted⟩ := halving_emits
  have found : halving.definitions[0]? =
      some (halving.outside.enter 0 halving.top, ⟨"main", .void, [], .block .halving, 0⟩) := rfl
  have typed : ([] : List Value).map Value.ty = ([] : List ParamDecl).map (·.ty) := rfl
  obtain ⟨routine, lookup, -, halts_iff⟩ := halts_iff_of_emit emitted
    (fun _ member symbol native => absurd native (halving_natives member symbol)) found
    Interp.simple_conforms (Interp.simple_ignores _) typed default
  have ended : (Block.halving.apply .simple 11 (halving.outside.enter 0 halving.top) [] []
      default).result?.map (fun result => (result.1, result.2.trace)) =
        some (none, [.string "at ", .int 2, .string "at ", .int 3, .string "at ", .int 4]) := by
    decide +kernel
  obtain ⟨after, done, printed⟩ := Run.exists_done ended
  obtain ⟨final, halts, stack, trace, -⟩ :=
    (halts_iff none _ after.load).2 ⟨11, after, done, printed, fun _ _ => rfl⟩
  exact ⟨image, routine, final, emitted, lookup, halts, stack, trace⟩

end Backpatch
