/-!
# Value types

Every value of the language has one of three types that a variable can hold: `int`, `double` and
`string`, ordered by widening.  Beside them stand `logic`, the type of a condition that exists only
as jumps still to be routed, `void`, the type of a call that leaves no value, and `invalid`, the
type of an operation that has none.
-/

namespace Backpatch

/-- Static types of expressions, variables and functions. -/
inductive Ty
  | logic
  | int
  | double
  | string
  | void
  | invalid
  deriving DecidableEq, Repr, Inhabited

namespace Ty

/-- The types in the order in which they are listed. -/
def all : List Ty :=
  [logic, int, double, string, void, invalid]

/-- The name of a type, as messages and documents spell it. -/
def name : Ty → String
  | logic => "logic"
  | int => "int"
  | double => "double"
  | string => "string"
  | void => "void"
  | invalid => "invalid"

/-- The type of a given name. -/
def ofName? (name : String) : Option Ty :=
  all.find? (·.name == name)

/-- A variable can have this type: functions reserve slots for it. -/
def isStorable : Ty → Bool
  | int | double | string => true
  | _ => false

/-- Arithmetic is defined on this type. -/
def isNumeric : Ty → Bool
  | int | double => true
  | _ => false

/-- The place of a storable type in the widening order. -/
def rank? : Ty → Option Nat
  | int => some 1
  | double => some 2
  | string => some 3
  | _ => none

/-- Compare two types by widening; types outside the order are comparable with none. -/
def compare? (first second : Ty) : Option Ordering := do
  return compare (← first.rank?) (← second.rank?)

/-- The type in which a binary operation on two operand types is carried out. -/
def common (first second : Ty) : Ty :=
  if first = second then first
  else
    match first, second with
    | void, _ | invalid, _ | _, void | _, invalid => invalid
    | string, _ | _, string => string
    | int, double | double, int => double
    | _, _ => invalid

/-- The type that an expression has once its value is wanted: a condition becomes an int. -/
def asValue : Ty → Ty
  | logic => int
  | ty => ty

theorem common_self (ty : Ty) : common ty ty = ty := by
  simp [common]

theorem common_comm (first second : Ty) : common first second = common second first := by
  cases first <;> cases second <;> rfl

theorem ofName?_name (ty : Ty) : ofName? ty.name = some ty := by
  cases ty <;> rfl

end Ty

end Backpatch
