import Backpatch.Image
import Backpatch.Instr

/-!
# Checking images

A check that finished code can be trusted to be well formed: every routine reads as instructions
from its first byte to its last, jumps lead to instructions of the same routine, and the numbers in
instructions name routines, natives, constants and variable slots that exist.  Variables that are
addressed by the opcode itself, the first four of each type, are not looked at.
-/

namespace Backpatch

/-- The type of the variable that an instruction names by number, and whether the owning routine is
named too. -/
def Op.variable? : Op → Option (Ty × Bool)
  | loadIVar | storeIVar => some (.int, false)
  | loadDVar | storeDVar => some (.double, false)
  | loadSVar | storeSVar => some (.string, false)
  | loadCtxIVar | storeCtxIVar => some (.int, true)
  | loadCtxDVar | storeCtxDVar => some (.double, true)
  | loadCtxSVar | storeCtxSVar => some (.string, true)
  | _ => none

namespace Image

/-- The operand of an instruction at a position; instructions that have none there are given the
greatest number. -/
def operand (instr : Instr) (index : Nat) : UInt16 :=
  (instr.word? index).getD 0xFFFF

/-- A slot of a routine exists. -/
def checkSlot (owner : Routine) (ty : Ty) (slot : UInt16) : Except InstrFault Unit :=
  if slot < owner.frame.count ty then .ok ()
  else .error (.slotOutOfRange ty slot owner.name)

/-- Check one instruction of a routine whose instructions start at the given offsets. -/
def checkInstr (image : Image) (routine : Routine) (boundaries : Std.ExtTreeSet Nat)
    (instr : Instr) : Except InstrFault Unit :=
  match instr.op with
  | .invalid => .error .invalidInstruction
  | .call =>
      let id := operand instr 0
      if (image.routine? id).isSome then .ok () else .error (.unknownFunction id)
  | .callNative =>
      let id := operand instr 0
      if (image.native? id).isSome then .ok () else .error (.unknownNative id)
  | .sLoad =>
      let id := operand instr 0
      if (image.constant? id).isSome then .ok () else .error (.unknownConstant id)
  | op =>
      if op.isJump then
        match instr.targets.find? (! boundaries.contains ·) with
        | some target => .error (.strayTarget target)
        | none => .ok ()
      else
        match op.variable? with
        | none => .ok ()
        | some (ty, false) => checkSlot routine ty (operand instr 0)
        | some (ty, true) =>
            let context := operand instr 0
            match image.routine? context with
            | none => .error (.unknownContext context)
            | some owner => checkSlot owner ty (operand instr 1)

/-- Check one routine, which need not be one of the image. -/
def checkRoutine (image : Image) (routine : Routine) : Except CodeError Unit := do
  routine.code.ensurePatched
  let instrs ← routine.code.instructions
  let boundaries := Std.ExtTreeSet.ofList (instrs.map (·.offset))
  instrs.forM fun instr =>
    (image.checkInstr routine boundaries instr).mapError fun fault =>
      .malformed (.instruction routine.name instr.offset fault)

/-- Check all routines in order. -/
def check (image : Image) : Except CodeError Unit :=
  image.routines.toList.forM image.checkRoutine

end Image

end Backpatch
