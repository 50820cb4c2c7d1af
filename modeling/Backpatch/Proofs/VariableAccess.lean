import Backpatch.Proofs.References
import Backpatch.Proofs.WellFormed

/-!
# Which variables checked code can reach

An instruction that loads or stores a variable has one of three forms.  It names one of the first
four slots of a type by its opcode alone, or any slot of the running routine by an operand, or any
slot of any routine by two operands.  In code that has passed the check the slot exists whenever
operands name it.  The short form is not looked at, so that the slot it names exists only if the
frame of the routine happens to be large enough.
-/

namespace Backpatch

namespace Instr

variable {instr : Instr} {function context index : UInt16} {ty : Ty}

theorem slot?_of_own (long : instr.op.fixedVariable? = none)
    (named : instr.op.variable? = some (ty, false))
    (operands : instr.operands = littleEndian 2 index.toNat) :
    instr.slot? function = some (⟨function, index, ty⟩, false) := by
  obtain ⟨offset, op, bytes⟩ := instr
  dsimp only at long named operands
  subst operands
  simp [slot?, long, named]

theorem slot?_of_cross (long : instr.op.fixedVariable? = none)
    (named : instr.op.variable? = some (ty, true))
    (operands : instr.operands = littleEndian 2 context.toNat ++ littleEndian 2 index.toNat) :
    instr.slot? function = some (⟨context, index, ty⟩, true) := by
  obtain ⟨offset, op, bytes⟩ := instr
  dsimp only at long named operands
  subst operands
  simp [slot?, long, named]

end Instr

namespace Image

/-- The routine that owns a variable exists and has a slot for it.  This is the running routine
unless the instruction names another one. -/
def HasVariable (image : Image) (routine : Routine) (slot : Slot) (cross : Bool) : Prop :=
  ∃ owner, (bif cross then image.routine? slot.context else some routine) = some owner ∧
    slot.index < owner.frame.count slot.ty

section Access

variable {image : Image} {routine : Routine} {instrs : List Instr} {instr : Instr}
  {function : UInt16} {slot : Slot} {cross : Bool}

theorem hasVariable_own_iff :
    image.HasVariable routine slot false ↔ slot.index < routine.frame.count slot.ty := by
  simp [HasVariable]

/-- A variable that operands name exists. -/
theorem Allows.hasVariable (allowed : image.Allows routine instrs instr)
    (long : instr.op.fixedVariable? = none)
    (refers : instr.slot? function = some (slot, cross)) :
    image.HasVariable routine slot cross := by
  cases named : instr.op.variable? with
  | none =>
      rw [Instr.slot?, long, named] at refers
      cases refers
  | some form =>
      obtain ⟨ty, _ | _⟩ := form
      · obtain ⟨index, operands, inside⟩ := allowed.own ty (Op.variable?_eq_some_iff.mp named)
        rw [Instr.slot?_of_own long named operands] at refers
        cases refers
        exact hasVariable_own_iff.mpr inside
      · obtain ⟨context, index, owner, operands, found, inside⟩ :=
          allowed.cross ty (Op.variable?_eq_some_iff.mp named)
        rw [Instr.slot?_of_cross long named operands] at refers
        cases refers
        exact ⟨owner, found, inside⟩

/-- In code that has passed the check, an instruction reaches a variable that exists unless it names
a slot beyond the frame by its opcode alone. -/
theorem hasVariable_iff_of_check (accepted : image.check = .ok ())
    (member : routine ∈ image.routines) (splits : Splits routine.code.bytes.toList instrs)
    (inside : instr ∈ instrs) (refers : instr.slot? function = some (slot, cross)) :
    image.HasVariable routine slot cross ↔
      (instr.op.fixedVariable?.isSome → slot.index < routine.frame.count slot.ty) := by
  cases short : instr.op.fixedVariable? with
  | some fixed =>
      rw [Instr.slot?, short] at refers
      cases refers
      simp only [hasVariable_own_iff, Option.isSome_some, forall_const]
  | none =>
      obtain ⟨-, others, otherSplits, allowed⟩ := check_eq_ok_iff.mp accepted routine member
      obtain rfl := splits.unique otherSplits
      have found := (allowed instr inside).hasVariable short refers
      simp [found]

end Access

end Image

namespace Routine

/-- A routine with one variable that returns at once. -/
def keeper : Routine :=
  { declare "keeper" default with id := some 0, frame := ⟨1, 0, 0⟩, code := ⟨#[0x54], ∅⟩ }

/-- A routine that adds the variable of routine zero to its own one, which it loads by the opcode
alone and stores by an operand. -/
def adder : Routine :=
  { declare "adder" default with
    id := some 1
    frame := ⟨1, 0, 0⟩
    code := ⟨#[0x42, 0, 0, 0, 0, 0x27, 0x0c, 0x3f, 0, 0, 0x54], ∅⟩ }

theorem splits_adder : Splits adder.code.bytes.toList
    [⟨0, .loadCtxIVar, [0, 0, 0, 0]⟩, ⟨5, .loadIVar0, []⟩, ⟨6, .iAdd, []⟩,
      ⟨7, .storeIVar, [0, 0]⟩, ⟨10, .ret, []⟩] :=
  ⟨.cons rfl rfl (.cons rfl rfl (.cons rfl rfl (.cons rfl rfl (.cons rfl rfl .nil)))), rfl⟩

/-- A routine without variables that loads its first one. -/
def unframed : Routine :=
  { declare "f" default with id := some 0, code := ⟨#[0x27, 0x54], ∅⟩ }

end Routine

namespace Image

/-- The image of the given routines, without an index of their names. -/
def ofRoutines (routines : Array Routine) : Image :=
  { empty with routines }

theorem check_of_isOk {image : Image} (passes : image.check.isOk = true) :
    image.check = .ok () := by
  obtain ⟨_, accepted⟩ := exists_of_isOk passes
  exact accepted

theorem hasVariable_iff_of_check_adder :
    (ofRoutines #[.keeper, .adder]).check = .ok () ∧
      (⟨0, .loadCtxIVar, [0, 0, 0, 0]⟩ : Instr).slot? 1 = some (⟨0, 0, .int⟩, true) ∧
      (ofRoutines #[.keeper, .adder]).HasVariable .adder ⟨0, 0, .int⟩ true := by
  have accepted : (ofRoutines #[.keeper, .adder]).check = .ok () :=
    check_of_isOk (by decide +kernel)
  have member : Routine.adder ∈ (ofRoutines #[.keeper, .adder]).routines :=
    Array.mem_of_getElem? (i := 1) rfl
  have refers : (⟨0, .loadCtxIVar, [0, 0, 0, 0]⟩ : Instr).slot? 1 = some (⟨0, 0, .int⟩, true) :=
    rfl
  have reaches := hasVariable_iff_of_check accepted member Routine.splits_adder List.mem_cons_self
    refers
  exact ⟨accepted, refers, reaches.mpr nofun⟩

/-- The check accepts a load of a variable that does not exist, if the opcode alone names it. -/
theorem check_accepts_missing_variable :
    (ofRoutines #[.unframed]).check = .ok () ∧
      Splits Routine.unframed.code.bytes.toList [⟨0, .loadIVar0, []⟩, ⟨1, .ret, []⟩] ∧
      (⟨0, .loadIVar0, []⟩ : Instr).slot? 0 = some (⟨0, 0, .int⟩, false) ∧
      ¬ (ofRoutines #[.unframed]).HasVariable .unframed ⟨0, 0, .int⟩ false := by
  refine ⟨check_of_isOk (by decide +kernel), ⟨.cons rfl rfl (.cons rfl rfl .nil), rfl⟩, rfl, ?_⟩
  rw [hasVariable_own_iff]
  decide

end Image

end Backpatch
