import Backpatch.Proofs.Lexical

/-!
# Values, variables and operations

What a program computes with: values of the three storable types, variables that are told apart by
their function, their type and their index, and a trace of what has been printed.

What the operations on values do is left open, and so is what a call does.  An interpretation says
it: an operation may fail, and a call gets the values of its arguments and may change variables and
print.  Both the evaluation of programs and the machine that runs their code are defined over an
interpretation, so that whatever is shown about the two holds for all of them.
-/

namespace Backpatch

/-- The type of a value of the given type, of which there is none for `void`. -/
def Ty.valued : Ty → Option Ty
  | void => none
  | ty => some ty

theorem Ty.valued_eq {ty : Ty} (notVoid : ty ≠ .void) : ty.valued = some ty := by
  cases ty <;> first | rfl | exact absurd rfl notVoid

/-- What a variable can hold. -/
inductive Value
  | int (value : Int64)
  | double (value : Double)
  | string (value : String)
  deriving DecidableEq

namespace Value

def ty : Value → Ty
  | int _ => .int
  | double _ => .double
  | string _ => .string

theorem isStorable_ty (value : Value) : value.ty.isStorable = true := by
  cases value <;> rfl

theorem valued_ty (value : Value) : value.ty.valued = some value.ty := by
  cases value <;> rfl

theorem map_ty_some {value : Value} {ty : Ty} (typed : value.ty = ty) :
    (some value).map Value.ty = ty.valued := by
  rw [← typed, value.valued_ty, Option.map_some]

theorem eq_int {value : Value} (isInt : value.ty = .int) : ∃ number, value = .int number := by
  cases value with
  | int number => exact ⟨number, rfl⟩
  | double _ | string _ => cases isInt

theorem eq_double {value : Value} (isDouble : value.ty = .double) :
    ∃ number, value = .double number := by
  cases value with
  | double number => exact ⟨number, rfl⟩
  | int _ | string _ => cases isDouble

end Value

namespace Numeric

def zero : Numeric → Value
  | int => .int 0
  | double => .double ⟨0⟩

def one : Numeric → Value
  | int => .int 1
  | double => .double ⟨0x3FF0000000000000⟩

def minusOne : Numeric → Value
  | int => .int (-1)
  | double => .double ⟨0xBFF0000000000000⟩

@[simp]
theorem ty_zero (numeric : Numeric) : numeric.zero.ty = numeric.ty := by
  cases numeric <;> rfl

@[simp]
theorem ty_one (numeric : Numeric) : numeric.one.ty = numeric.ty := by
  cases numeric <;> rfl

@[simp]
theorem ty_minusOne (numeric : Numeric) : numeric.minusOne.ty = numeric.ty := by
  cases numeric <;> rfl

/-- The number that stands for a truth. -/
def ofBool (numeric : Numeric) (truth : Bool) : Value :=
  if truth then numeric.one else numeric.zero

@[simp]
theorem ty_ofBool (numeric : Numeric) (truth : Bool) : (numeric.ofBool truth).ty = numeric.ty := by
  cases truth <;> simp [ofBool]

end Numeric

/-- The values of all variables.  A slot of a storable type has a value of this type. -/
structure Store where
  value : Slot → Value
  typed : ∀ slot, slot.ty.isStorable = true → (value slot).ty = slot.ty

instance : Inhabited Store where
  default :=
    { value := fun slot =>
        match slot.ty with
        | .double => .double ⟨0⟩
        | .string => .string ""
        | _ => .int 0
      typed := fun ⟨_, _, ty⟩ storable => by cases ty <;> first | rfl | cases storable }

namespace Store

def load (store : Store) (slot : Slot) : Option Value :=
  if slot.ty.isStorable then some (store.value slot) else none

/-- Change the value of a slot, which must stay of its type. -/
def set (store : Store) (slot : Slot) (value : Value) : Option Store :=
  if typed : value.ty = slot.ty then
    some
      { value := fun other => if other = slot then value else store.value other
        typed := fun other storable => by
          by_cases same : other = slot
          · rw [if_pos same, typed, same]
          · rw [if_neg same, store.typed other storable] }
  else
    none

theorem ty_of_load {store : Store} {slot : Slot} {value : Value}
    (loaded : store.load slot = some value) : value.ty = slot.ty := by
  rw [load] at loaded
  split at loaded
  · rename_i storable
    exact Option.some.inj loaded ▸ store.typed slot storable
  · cases loaded

theorem set_eq_some {store : Store} {slot : Slot} {value : Value} (typed : value.ty = slot.ty) :
    ∃ after, store.set slot value = some after ∧
      ∀ other, after.load other = if other = slot then some value else store.load other := by
  rw [set, dif_pos typed]
  refine ⟨_, rfl, fun other => ?_⟩
  by_cases same : other = slot
  · subst same
    simp [load, ← typed, value.isStorable_ty]
  · simp [load, same]

end Store

/-- What a program can observe and change: its variables, and what has been printed so far. -/
structure World where
  store : Store
  trace : List Value
  deriving Inhabited

namespace World

def load (world : World) (slot : Slot) : Option Value :=
  world.store.load slot

def set (world : World) (slot : Slot) (value : Value) : Option World :=
  (world.store.set slot value).map fun store => { world with store := store }

def print (world : World) (value : Value) : World :=
  { world with trace := world.trace ++ [value] }

theorem ty_of_load {world : World} {slot : Slot} {value : Value}
    (loaded : world.load slot = some value) : value.ty = slot.ty :=
  Store.ty_of_load loaded

theorem set_eq_some {world : World} {slot : Slot} {value : Value} (typed : value.ty = slot.ty) :
    ∃ after, world.set slot value = some after ∧ after.trace = world.trace ∧
      ∀ other, after.load other = if other = slot then some value else world.load other := by
  obtain ⟨store, set, load⟩ := world.store.set_eq_some typed
  refine ⟨{ world with store := store }, ?_, rfl, load⟩
  rw [World.set, set, Option.map_some]

/-- Two worlds differ at most in the given slots. -/
structure Agrees (hidden : List Slot) (world other : World) : Prop where
  trace : other.trace = world.trace
  load : ∀ slot, slot ∉ hidden → other.load slot = world.load slot

namespace Agrees

variable {hidden : List Slot} {world other : World}

theorem refl (hidden : List Slot) (world : World) : Agrees hidden world world :=
  ⟨rfl, fun _ _ => rfl⟩

theorem symm (agrees : Agrees hidden world other) : Agrees hidden other world :=
  ⟨agrees.trace.symm, fun slot visible => (agrees.load slot visible).symm⟩

theorem print (agrees : Agrees hidden world other) (value : Value) :
    Agrees hidden (world.print value) (other.print value) :=
  ⟨congrArg (· ++ [value]) agrees.trace, agrees.load⟩

theorem set {slot : Slot} {value : Value} {after otherAfter : World}
    (agrees : Agrees hidden world other) (typed : value.ty = slot.ty)
    (changed : world.set slot value = some after)
    (otherChanged : other.set slot value = some otherAfter) : Agrees hidden after otherAfter := by
  obtain ⟨_, changed', trace, load⟩ := world.set_eq_some typed
  obtain ⟨_, otherChanged', otherTrace, otherLoad⟩ := other.set_eq_some typed
  obtain rfl := Option.some.inj (changed.symm.trans changed')
  obtain rfl := Option.some.inj (otherChanged.symm.trans otherChanged')
  refine ⟨by rw [otherTrace, trace, agrees.trace], fun read visible => ?_⟩
  rw [otherLoad, load, agrees.load read visible]

/-- An assignment to one of the slots that do not matter. -/
theorem set_hidden {slot : Slot} {value : Value} {after : World}
    (agrees : Agrees hidden world other) (typed : value.ty = slot.ty) (isHidden : slot ∈ hidden)
    (changed : other.set slot value = some after) : Agrees hidden world after := by
  obtain ⟨_, changed', trace, load⟩ := other.set_eq_some typed
  obtain rfl := Option.some.inj (changed.symm.trans changed')
  refine ⟨trace.trans agrees.trace, fun read visible => ?_⟩
  have other : read ≠ slot := fun same => visible (same ▸ isHidden)
  rw [load, if_neg other, agrees.load read visible]

end Agrees

end World

/-- What operations on values and calls do; `none` is failure. -/
structure Interp where
  intArith : ArithOp → Int64 → Int64 → Option Int64
  doubleArith : ArithOp → Double → Double → Option Double
  intNegate : Int64 → Option Int64
  doubleNegate : Double → Option Double
  intCompare : Int64 → Int64 → Option Ordering
  doubleCompare : Double → Double → Option Ordering
  intToDouble : Int64 → Option Double
  doubleToInt : Double → Option Int64
  stringToInt : String → Option Int64
  /-- A call of the function of a number, with its arguments in the order of their declaration. -/
  call : UInt16 → List Value → World → Option (Option Value × World)
  /-- A call of the native function of a number. -/
  callNative : UInt16 → List Value → World → Option (Option Value × World)

namespace Interp

variable (interp : Interp)

def arith (op : ArithOp) : Value → Value → Option Value
  | .int first, .int second => (interp.intArith op first second).map .int
  | .double first, .double second => (interp.doubleArith op first second).map .double
  | _, _ => none

def negate : Value → Option Value
  | .int number => (interp.intNegate number).map .int
  | .double number => (interp.doubleNegate number).map .double
  | .string _ => none

def compare : Value → Value → Option Ordering
  | .int first, .int second => interp.intCompare first second
  | .double first, .double second => interp.doubleCompare first second
  | _, _ => none

/-- A value as one of another type. -/
def change : Ty → Value → Option Value
  | .double, .int number => (interp.intToDouble number).map .double
  | .int, .double number => (interp.doubleToInt number).map .int
  | .int, .string text => (interp.stringToInt text).map .int
  | _, _ => none

/-- A value as one of the given type. -/
def convert (ty : Ty) (value : Value) : Option Value :=
  if value.ty = ty then some value else interp.change ty value

/-- Two numbers as numbers of one type: an int becomes a double if the other number is one. -/
def promote (first second : Value) : Option (Value × Value) :=
  match first, second with
  | .int _, .double _ => (interp.change .double first).map fun first => (first, second)
  | .double _, .int _ => (interp.change .double second).map fun second => (first, second)
  | .int _, .int _ | .double _, .double _ => some (first, second)
  | _, _ => none

variable {interp}

theorem ty_of_arith {op : ArithOp} {first second value : Value}
    (computed : interp.arith op first second = some value) : value.ty = first.ty := by
  cases first <;> cases second <;>
    first
    | (obtain ⟨_, _, rfl⟩ := Option.map_eq_some_iff.1 computed; rfl)
    | cases computed

theorem ty_of_change {ty : Ty} {value result : Value}
    (changed : interp.change ty value = some result) : result.ty = ty := by
  cases ty <;> cases value <;>
    first
    | (obtain ⟨_, _, rfl⟩ := Option.map_eq_some_iff.1 changed; rfl)
    | cases changed

theorem convert_self {ty : Ty} {value : Value} (same : value.ty = ty) :
    interp.convert ty value = some value :=
  if_pos same

theorem convert_other {ty : Ty} {value : Value} (other : value.ty ≠ ty) :
    interp.convert ty value = interp.change ty value :=
  if_neg other

theorem promote_alike {numeric : Numeric} {first second : Value} (left : first.ty = numeric.ty)
    (right : second.ty = numeric.ty) : interp.promote first second = some (first, second) := by
  cases numeric with
  | int =>
      obtain ⟨_, rfl⟩ := Value.eq_int left
      obtain ⟨_, rfl⟩ := Value.eq_int right
      rfl
  | double =>
      obtain ⟨_, rfl⟩ := Value.eq_double left
      obtain ⟨_, rfl⟩ := Value.eq_double right
      rfl

theorem promote_left {first second : Value} (left : first.ty = .int) (right : second.ty = .double) :
    interp.promote first second =
      (interp.change .double first).map fun first => (first, second) := by
  obtain ⟨_, rfl⟩ := Value.eq_int left
  obtain ⟨_, rfl⟩ := Value.eq_double right
  rfl

theorem promote_right {first second : Value} (left : first.ty = .double)
    (right : second.ty = .int) :
    interp.promote first second =
      (interp.change .double second).map fun second => (first, second) := by
  obtain ⟨_, rfl⟩ := Value.eq_double left
  obtain ⟨_, rfl⟩ := Value.eq_int right
  rfl

variable (interp)

/-- A call with arguments of the declared types returns a value of the declared type, or none if
nothing is declared to be returned. -/
def Conforms (program : Program) : Prop :=
  ∀ (index : Nat) definition, program.definitions[index]? = some definition →
    ∀ args world result after, args.map Value.ty = definition.2.params.map (·.ty) →
      interp.call (UInt16.ofNat index) args world = some (result, after) →
      result.map Value.ty = definition.2.returnType.valued

/-- Calls depend on none of the given slots, and change none. -/
structure Ignores (hidden : List Slot) : Prop where
  unread : ∀ id args world other result after, World.Agrees hidden world other →
    interp.call id args world = some (result, after) →
    ∃ otherAfter, interp.call id args other = some (result, otherAfter) ∧
      World.Agrees hidden after otherAfter
  unwritten : ∀ id args world result after, interp.call id args world = some (result, after) →
    ∀ slot ∈ hidden, after.load slot = world.load slot

end Interp

end Backpatch
