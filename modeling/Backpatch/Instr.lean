import Backpatch.Buffer

/-!
# Instructions

A stream of bytes read as instructions: each opcode byte is followed by as many operand bytes as the
opcode says.  Reading goes on until the bytes end, or until a byte is no opcode or the operands run
past the end; what comes before such a fault has been read.
-/

namespace Backpatch

/-- An instruction with the offset at which it stands. -/
structure Instr where
  offset : Nat
  op : Op
  operands : List UInt8
  deriving DecidableEq, Repr, Inhabited

namespace Instr

/-- The bytes of an instruction. -/
def encode (instr : Instr) : List UInt8 :=
  instr.op.toByte :: instr.operands

/-- The offset of the instruction that follows. -/
def nextOffset (instr : Instr) : Nat :=
  instr.offset + instr.op.length

/-- The two-byte operand at a position counted from zero. -/
def word? (instr : Instr) (index : Nat) : Option UInt16 :=
  match instr.operands.drop (2 * index) with
  | low :: high :: _ => some (UInt16.ofNat (ofLittleEndian [low, high]))
  | _ => none

/-- The literal of an instruction that pushes an int. -/
def int? (instr : Instr) : Option Int64 :=
  if instr.op = .iLoad ∧ instr.operands.length = 8 then
    some (UInt64.ofNat (ofLittleEndian instr.operands)).toInt64
  else
    none

/-- The literal of an instruction that pushes a double. -/
def double? (instr : Instr) : Option Double :=
  if instr.op = .dLoad ∧ instr.operands.length = 8 then
    some ⟨UInt64.ofNat (ofLittleEndian instr.operands)⟩
  else
    none

/-- The offsets to which a jump or a branch may go, that of the true case first. -/
def targets (instr : Instr) : List Nat :=
  if instr.op = .jump then
    (instr.word? 0).toList.map UInt16.toNat
  else if instr.op.isBranch then
    ((instr.word? 0).toList ++ (instr.word? 1).toList).map UInt16.toNat
  else
    []

end Instr

/-- What reading a stream gives: the instructions, and the fault that ended it if there was one. -/
structure Decoded where
  instrs : List Instr
  fault : Option CodeError
  deriving DecidableEq, Repr

/-- Read the bytes that stand at an offset; `read` holds the instructions before them, the last one
first. -/
def Decoded.readFrom (offset : Nat) (bytes : List UInt8) (read : List Instr) : Decoded :=
  match bytes with
  | [] => ⟨read.reverse, none⟩
  | byte :: rest =>
      match Op.ofByte? byte with
      | none => ⟨read.reverse, some (.unknownOpcode offset byte)⟩
      | some op =>
          let operands := rest.take op.width
          if operands.length < op.width then
            ⟨read.reverse, some (.truncated offset op)⟩
          else
            Decoded.readFrom (offset + op.length) (rest.drop op.width)
              (⟨offset, op, operands⟩ :: read)
termination_by bytes.length
decreasing_by rw [List.length_drop, List.length_cons]; omega

/-- The instructions of a buffer. -/
def Buffer.decode (buffer : Buffer) : Decoded :=
  Decoded.readFrom 0 buffer.bytes.toList []

/-- The instructions of a buffer that reads to its end. -/
def Buffer.instructions (buffer : Buffer) : Except CodeError (List Instr) :=
  match buffer.decode with
  | ⟨instrs, none⟩ => .ok instrs
  | ⟨_, some error⟩ => .error error

end Backpatch
