import Backpatch.Proofs.Evaluation
import Backpatch.Proofs.Stretch

/-!
# The machine

How the code of a function runs.  An instruction is read at the current offset, and acts on the
operand stack, the variables and the output as its description in the instruction set says; it fails
if the values that it takes from the stack are not there or not of its types, or if the operation
itself fails.  A call is carried out at once, by what the interpretation says about it.  The machine
halts at a return.  At any other instruction that it cannot carry out it is stuck.
-/

namespace Backpatch

/-- What an instruction does. -/
inductive Action
  | push (value : Value)
  | arith (numeric : Numeric) (op : ArithOp)
  | negate (numeric : Numeric)
  | compare (numeric : Numeric)
  | convert (source target : Ty)
  | swap (ty : Ty)
  | pop
  | load (slot : Slot)
  | store (slot : Slot)
  | print (ty : Ty)
  | dump
  | jump (target : Nat)
  | branch (test : Comparison) (onTrue onFalse : Nat)
  | call (id : UInt16)
  | callNative (id : UInt16)
  | skip

namespace Instr

/-- An access to a variable of the running function, which is named by its index. -/
def own? (instr : Instr) (access : Slot → Action) (function : UInt16) (ty : Ty) : Option Action :=
  (instr.word? 0).map fun index => access ⟨function, index, ty⟩

/-- An access to a variable that is named by its function and its index. -/
def foreign? (instr : Instr) (access : Slot → Action) (ty : Ty) : Option Action := do
  return access ⟨← instr.word? 0, ← instr.word? 1, ty⟩

def branch? (instr : Instr) (test : Comparison) : Option Action := do
  return .branch test (← instr.targets[0]?) (← instr.targets[1]?)

/-- What an instruction of the given function does, unless it ends the execution. -/
def action? (image : Image) (function : UInt16) (instr : Instr) : Option Action :=
  match instr.op with
  | .dLoad => instr.double?.map fun number => .push (.double number)
  | .iLoad => instr.int?.map fun number => .push (.int number)
  | .sLoad => do return .push (.string (← image.constant? (← instr.word? 0)))
  | .dLoad0 => some (.push Numeric.double.zero)
  | .iLoad0 => some (.push Numeric.int.zero)
  | .sLoad0 => some (.push (.string ""))
  | .dLoad1 => some (.push Numeric.double.one)
  | .iLoad1 => some (.push Numeric.int.one)
  | .dLoadM1 => some (.push Numeric.double.minusOne)
  | .iLoadM1 => some (.push Numeric.int.minusOne)
  | .dAdd => some (.arith .double .add)
  | .iAdd => some (.arith .int .add)
  | .dSub => some (.arith .double .sub)
  | .iSub => some (.arith .int .sub)
  | .dMul => some (.arith .double .mul)
  | .iMul => some (.arith .int .mul)
  | .dDiv => some (.arith .double .div)
  | .iDiv => some (.arith .int .div)
  | .iMod => some (.arith .int .mod)
  | .dNeg => some (.negate .double)
  | .iNeg => some (.negate .int)
  | .iAOr => some (.arith .int .bitOr)
  | .iAAnd => some (.arith .int .bitAnd)
  | .iAXor => some (.arith .int .bitXor)
  | .iPrint => some (.print .int)
  | .dPrint => some (.print .double)
  | .sPrint => some (.print .string)
  | .i2d => some (.convert .int .double)
  | .d2i => some (.convert .double .int)
  | .s2i => some (.convert .string .int)
  | .iSwap => some (.swap .int)
  | .dSwap => some (.swap .double)
  | .sSwap => some (.swap .string)
  | .pop => some .pop
  | .loadDVar0 => some (.load ⟨function, 0, .double⟩)
  | .loadDVar1 => some (.load ⟨function, 1, .double⟩)
  | .loadDVar2 => some (.load ⟨function, 2, .double⟩)
  | .loadDVar3 => some (.load ⟨function, 3, .double⟩)
  | .loadIVar0 => some (.load ⟨function, 0, .int⟩)
  | .loadIVar1 => some (.load ⟨function, 1, .int⟩)
  | .loadIVar2 => some (.load ⟨function, 2, .int⟩)
  | .loadIVar3 => some (.load ⟨function, 3, .int⟩)
  | .loadSVar0 => some (.load ⟨function, 0, .string⟩)
  | .loadSVar1 => some (.load ⟨function, 1, .string⟩)
  | .loadSVar2 => some (.load ⟨function, 2, .string⟩)
  | .loadSVar3 => some (.load ⟨function, 3, .string⟩)
  | .storeDVar0 => some (.store ⟨function, 0, .double⟩)
  | .storeDVar1 => some (.store ⟨function, 1, .double⟩)
  | .storeDVar2 => some (.store ⟨function, 2, .double⟩)
  | .storeDVar3 => some (.store ⟨function, 3, .double⟩)
  | .storeIVar0 => some (.store ⟨function, 0, .int⟩)
  | .storeIVar1 => some (.store ⟨function, 1, .int⟩)
  | .storeIVar2 => some (.store ⟨function, 2, .int⟩)
  | .storeIVar3 => some (.store ⟨function, 3, .int⟩)
  | .storeSVar0 => some (.store ⟨function, 0, .string⟩)
  | .storeSVar1 => some (.store ⟨function, 1, .string⟩)
  | .storeSVar2 => some (.store ⟨function, 2, .string⟩)
  | .storeSVar3 => some (.store ⟨function, 3, .string⟩)
  | .loadDVar => instr.own? .load function .double
  | .loadIVar => instr.own? .load function .int
  | .loadSVar => instr.own? .load function .string
  | .storeDVar => instr.own? .store function .double
  | .storeIVar => instr.own? .store function .int
  | .storeSVar => instr.own? .store function .string
  | .loadCtxDVar => instr.foreign? .load .double
  | .loadCtxIVar => instr.foreign? .load .int
  | .loadCtxSVar => instr.foreign? .load .string
  | .storeCtxDVar => instr.foreign? .store .double
  | .storeCtxIVar => instr.foreign? .store .int
  | .storeCtxSVar => instr.foreign? .store .string
  | .dCmp => some (.compare .double)
  | .iCmp => some (.compare .int)
  | .jump => instr.targets.head?.map .jump
  | .ifICmpNe => instr.branch? .neq
  | .ifICmpE => instr.branch? .eq
  | .ifICmpG => instr.branch? .gt
  | .ifICmpGe => instr.branch? .gte
  | .ifICmpL => instr.branch? .lt
  | .ifICmpLe => instr.branch? .lte
  | .dump => some .dump
  | .call => (instr.word? 0).map .call
  | .callNative => (instr.word? 0).map .callNative
  | .breakpoint => some .skip
  | .invalid | .stop | .ret => none

end Instr

/-- A state of the machine: the offset of the next instruction, the operand stack with its topmost
value first, and the variables and the output. -/
structure Config where
  pc : Nat
  stack : List Value
  world : World

/-- A value of the given type taken from the top of a stack. -/
def popTyped (ty : Ty) : List Value → Option (Value × List Value)
  | value :: stack => if value.ty = ty then some (value, stack) else none
  | [] => none

theorem popTyped_cons {ty : Ty} {value : Value} {stack : List Value} (typed : value.ty = ty) :
    popTyped ty (value :: stack) = some (value, stack) :=
  if_pos typed

/-- The number that is the outcome of a comparison. -/
def Comparison.outcome : Ordering → Int64
  | .lt => -1
  | .eq => 0
  | .gt => 1

def Comparison.test : Comparison → Int64 → Int64 → Bool
  | eq, first, second => first = second
  | neq, first, second => first ≠ second
  | lt, first, second => first < second
  | lte, first, second => first ≤ second
  | gt, first, second => first > second
  | gte, first, second => first ≥ second

theorem Comparison.test_outcome (comparison : Comparison) (ordering : Ordering) :
    comparison.test (Comparison.outcome ordering) 0 = comparison.holds ordering := by
  cases comparison <;> cases ordering <;> decide

namespace Action

/-- The arguments of a call, which are on top of the stack with the first one topmost, are replaced
by its result. -/
def performCall (call : List Value → World → Option (Option Value × World)) (count next : Nat)
    (config : Config) : Option Config :=
  if count ≤ config.stack.length then do
    let (result, world) ← call (config.stack.take count) config.world
    return ⟨next, result.toList ++ config.stack.drop count, world⟩
  else
    none

/-- Carry out an action; control goes on at the given offset unless the action says otherwise. -/
def perform (interp : Interp) (image : Image) (next : Nat) (config : Config) :
    Action → Option Config
  | push value => some ⟨next, value :: config.stack, config.world⟩
  | arith numeric op => do
      let (second, stack) ← popTyped numeric.ty config.stack
      let (first, stack) ← popTyped numeric.ty stack
      (interp.arith op first second).map fun value => ⟨next, value :: stack, config.world⟩
  | negate numeric => do
      let (value, stack) ← popTyped numeric.ty config.stack
      (interp.negate value).map fun value => ⟨next, value :: stack, config.world⟩
  | compare numeric => do
      let (second, stack) ← popTyped numeric.ty config.stack
      let (first, stack) ← popTyped numeric.ty stack
      (interp.compare first second).map fun ordering =>
        ⟨next, .int (Comparison.outcome ordering) :: stack, config.world⟩
  | convert source target => do
      let (value, stack) ← popTyped source config.stack
      (interp.change target value).map fun value => ⟨next, value :: stack, config.world⟩
  | swap ty => do
      let (second, stack) ← popTyped ty config.stack
      let (first, stack) ← popTyped ty stack
      return ⟨next, first :: second :: stack, config.world⟩
  | pop => config.stack.tail?.map fun stack => ⟨next, stack, config.world⟩
  | load slot =>
      (config.world.load slot).map fun value => ⟨next, value :: config.stack, config.world⟩
  | store slot => do
      let (value, stack) ← popTyped slot.ty config.stack
      (config.world.set slot value).map fun world => ⟨next, stack, world⟩
  | print ty => do
      let (value, stack) ← popTyped ty config.stack
      return ⟨next, stack, config.world.print value⟩
  | dump => config.stack.head?.map fun value => ⟨next, config.stack, config.world.print value⟩
  | jump target => some { config with pc := target }
  | branch test onTrue onFalse =>
      match config.stack with
      | .int second :: .int first :: stack =>
          some ⟨if test.test first second then onTrue else onFalse, stack, config.world⟩
      | _ => none
  | call id => do
      let routine ← image.routine? id
      performCall (interp.call id) routine.signature.params.length next config
  | callNative id => do
      let native ← image.native? id
      performCall (interp.callNative id) native.signature.params.length next config
  | skip => some { config with pc := next }

end Action

/-- The code of one function of an image, ready to run. -/
structure Machine where
  interp : Interp
  image : Image
  /-- The number of the function. -/
  function : UInt16
  code : List UInt8

namespace Machine

variable (machine : Machine)

/-- Carry out the next instruction. -/
def step (config : Config) : Option Config := do
  let instr ← fetch machine.code config.pc
  let action ← instr.action? machine.image machine.function
  action.perform machine.interp machine.image instr.nextOffset config

def run : Nat → Config → Option Config
  | 0, config => some config
  | count + 1, config => (machine.step config).bind (run count)

def Reaches (config final : Config) : Prop :=
  ∃ count, machine.run count config = some final

def AtReturn (config : Config) : Prop :=
  ∃ instr, fetch machine.code config.pc = some instr ∧ instr.op = .ret

/-- Execution ends at a return. -/
def Halts (config final : Config) : Prop :=
  machine.Reaches config final ∧ machine.AtReturn final

/-- The next instruction is no return, and cannot be carried out. -/
def Stuck (config : Config) : Prop :=
  machine.step config = none ∧ ¬ machine.AtReturn config

variable {machine} {config middle final : Config}

theorem run_add (first second : Nat) (config : Config) :
    machine.run (first + second) config =
      (machine.run first config).bind (machine.run second) := by
  induction first generalizing config with
  | zero => rw [Nat.zero_add, run, Option.bind_some]
  | succ first ih =>
      rw [Nat.add_right_comm, run, run, Option.bind_assoc]
      exact congrArg _ (funext ih)

theorem step_of_atReturn (atReturn : machine.AtReturn config) : machine.step config = none := by
  obtain ⟨instr, fetched, isReturn⟩ := atReturn
  have noAction : instr.action? machine.image machine.function = none := by
    rw [Instr.action?, isReturn]
  rw [step, fetched, Option.bind_eq_bind, Option.bind_some, noAction]
  rfl

namespace Reaches

theorem refl (config : Config) : machine.Reaches config config :=
  ⟨0, rfl⟩

theorem trans (first : machine.Reaches config middle) (second : machine.Reaches middle final) :
    machine.Reaches config final := by
  obtain ⟨count, first⟩ := first
  obtain ⟨more, second⟩ := second
  exact ⟨count + more, by rw [run_add, first, Option.bind_some, second]⟩

theorem step (first : machine.step config = some middle) (later : machine.Reaches middle final) :
    machine.Reaches config final :=
  .trans ⟨1, by rw [run, first]; rfl⟩ later

end Reaches

/-- A run that has come to an end cannot be continued. -/
theorem run_le {count more : Nat} (reached : machine.run count config = some final)
    (ended : machine.step final = none) (other : machine.run more config = some middle) :
    more ≤ count := by
  refine Nat.le_of_not_lt fun later => ?_
  obtain ⟨rest, rfl⟩ : ∃ rest, more = count + (rest + 1) := ⟨more - count - 1, by omega⟩
  rw [run_add, reached, Option.bind_some, run, ended] at other
  cases other

/-- The end of a run is determined by where it starts. -/
theorem Reaches.unique (first : machine.Reaches config middle) (ended : machine.step middle = none)
    (second : machine.Reaches config final) (alsoEnded : machine.step final = none) :
    middle = final := by
  obtain ⟨count, first⟩ := first
  obtain ⟨more, second⟩ := second
  obtain rfl := Nat.le_antisymm (run_le second alsoEnded first) (run_le first ended second)
  exact Option.some.inj (first.symm.trans second)

end Machine

end Backpatch
