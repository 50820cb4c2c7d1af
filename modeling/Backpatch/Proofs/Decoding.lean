import Backpatch.Instr

/-!
# Reading instructions back

Every stream of bytes is a row of whole instructions, up to its end or up to the first place at
which no instruction can be read: the byte there is no opcode, or the operands that its opcode asks
for run past the end.  A stream is such a row in one way only, and this is what reading finds.

A row is described by the bytes that writing its instructions gives, so that nothing here rests on
how instructions are read.
-/

namespace Backpatch

/-- Opcodes are listed in the order of their bytes. -/
theorem Op.toByte_all (index : Fin Op.all.size) : Op.all[index].toByte.toNat = index := by
  revert index
  decide

theorem Op.toByte_of_ofByte? {byte : UInt8} {op : Op} (known : Op.ofByte? byte = some op) :
    op.toByte = byte := by
  obtain ⟨inside, found⟩ := Array.getElem?_eq_some_iff.mp known
  apply UInt8.toNat.inj
  rw [← found]
  exact toByte_all ⟨byte.toNat, inside⟩

theorem Op.ofByte?_eq_none {byte : UInt8} (noOpcode : ∀ op : Op, op.toByte ≠ byte) :
    Op.ofByte? byte = none := by
  cases known : Op.ofByte? byte with
  | none => rfl
  | some op => exact absurd (toByte_of_ofByte? known) (noOpcode op)

/-- Instructions that stand one behind the other from an offset on, each with as many operand bytes
as its opcode asks for. -/
inductive Consecutive : Nat → List Instr → Prop
  | nil {start : Nat} : Consecutive start []
  | cons {start : Nat} {instr : Instr} {rest : List Instr} (place : instr.offset = start)
      (whole : instr.operands.length = instr.op.width)
      (later : Consecutive instr.nextOffset rest) : Consecutive start (instr :: rest)

/-- Bytes that stand at an offset do not begin with an instruction, for a reason. -/
inductive FaultAt (offset : Nat) : List UInt8 → CodeError → Prop
  | unknown {byte : UInt8} {rest : List UInt8} (noOpcode : ∀ op : Op, op.toByte ≠ byte) :
      FaultAt offset (byte :: rest) (.unknownOpcode offset byte)
  | truncated {op : Op} {rest : List UInt8} (short : rest.length < op.width) :
      FaultAt offset (op.toByte :: rest) (.truncated offset op)

/-- The bytes are those of whole instructions from offset zero on. -/
def Splits (bytes : List UInt8) (instrs : List Instr) : Prop :=
  Consecutive 0 instrs ∧ instrs.flatMap Instr.encode = bytes

/-- The bytes begin with whole instructions, behind which no further one can be read. -/
def Breaks (bytes : List UInt8) (error : CodeError) : Prop :=
  ∃ instrs rest, Consecutive 0 instrs ∧ instrs.flatMap Instr.encode ++ rest = bytes ∧
    FaultAt (instrs.flatMap Instr.encode).length rest error

theorem Consecutive.whole {start : Nat} {instrs : List Instr} (row : Consecutive start instrs) :
    ∀ instr ∈ instrs, instr.operands.length = instr.op.width := by
  induction row with
  | nil => exact nofun
  | cons _ whole _ ih => exact List.forall_mem_cons.mpr ⟨whole, ih⟩

theorem Consecutive.start_le {start : Nat} {instrs : List Instr} (row : Consecutive start instrs) :
    ∀ instr ∈ instrs, start ≤ instr.offset := by
  induction row with
  | nil => exact nofun
  | @cons start head rest place _ _ ih =>
      refine List.forall_mem_cons.mpr ⟨Nat.le_of_eq place.symm, fun other member => ?_⟩
      have next : head.nextOffset ≤ other.offset := ih other member
      rw [Instr.nextOffset, place] at next
      exact Nat.le_of_add_right_le next

/-- Instructions in a row stand at increasing offsets. -/
theorem Consecutive.increasing {start : Nat} {instrs : List Instr}
    (row : Consecutive start instrs) :
    instrs.Pairwise (fun first second => first.offset < second.offset) := by
  induction row with
  | nil => exact .nil
  | @cons start head rest _ _ later ih =>
      refine .cons (fun other member => ?_) ih
      have next : head.nextOffset ≤ other.offset := later.start_le other member
      rw [Instr.nextOffset, Op.length] at next
      omega

namespace Decoded

/-- Whole instructions in front of the bytes that are left are read first. -/
theorem readFrom_append {start : Nat} {instrs : List Instr} (row : Consecutive start instrs)
    (rest : List UInt8) (read : List Instr) :
    readFrom start (instrs.flatMap Instr.encode ++ rest) read =
      readFrom (start + (instrs.flatMap Instr.encode).length) rest (instrs.reverse ++ read) := by
  induction row generalizing read with
  | nil => rfl
  | @cons start head later place whole _ ih =>
      have operands : (head.operands ++ (later.flatMap Instr.encode ++ rest)).take head.op.width =
          head.operands := List.take_left' whole
      have behind : (head.operands ++ (later.flatMap Instr.encode ++ rest)).drop head.op.width =
          later.flatMap Instr.encode ++ rest := List.drop_left' whole
      have next : start + head.op.length = head.nextOffset := by rw [Instr.nextOffset, place]
      have far : head.nextOffset + (later.flatMap Instr.encode).length =
          start + ((head :: later).flatMap Instr.encode).length := by
        rw [← next, List.flatMap_cons, List.length_append, Instr.encode, List.length_cons, whole,
          Op.length]
        omega
      rw [← far, List.reverse_cons, List.append_assoc, List.singleton_append, ← ih,
        List.flatMap_cons, Instr.encode, List.cons_append, List.cons_append, List.append_assoc,
        readFrom]
      simp only [Op.ofByte?_toByte, operands, behind, whole, Nat.lt_irrefl, if_false, next]
      rw [← place]

theorem readFrom_of_faultAt {start : Nat} {bytes : List UInt8} {error : CodeError}
    (fault : FaultAt start bytes error) (read : List Instr) :
    readFrom start bytes read = ⟨read.reverse, some error⟩ := by
  cases fault with
  | @unknown byte rest noOpcode =>
      rw [readFrom]
      simp only [Op.ofByte?_eq_none noOpcode]
  | @truncated op rest short =>
      have cut : (rest.take op.width).length < op.width := by
        rw [List.length_take]
        omega
      rw [readFrom]
      simp only [Op.ofByte?_toByte, if_pos cut]

end Decoded

/-- All bytes are whole instructions, or there is a first place at which none can be read. -/
theorem exists_consecutive (start : Nat) (bytes : List UInt8) :
    ∃ instrs rest, Consecutive start instrs ∧ instrs.flatMap Instr.encode ++ rest = bytes ∧
      (rest = [] ∨ ∃ error, FaultAt (start + (instrs.flatMap Instr.encode).length) rest error) := by
  -- The cases are those of reading; what has been read before plays no part.
  induction start, bytes, ([] : List Instr) using Decoded.readFrom.induct with
  | case1 start => exact ⟨[], [], .nil, rfl, .inl rfl⟩
  | case2 start _ byte rest unknown =>
      have noOpcode : ∀ op : Op, op.toByte ≠ byte := by
        rintro op rfl
        rw [Op.ofByte?_toByte] at unknown
        cases unknown
      exact ⟨[], byte :: rest, .nil, rfl, .inr ⟨_, .unknown noOpcode⟩⟩
  | case3 start _ byte rest op known operands short =>
      obtain rfl := Op.toByte_of_ofByte? known
      have cut : rest.length < op.width := by
        rw [List.length_take] at short
        omega
      exact ⟨[], op.toByte :: rest, .nil, rfl, .inr ⟨_, .truncated cut⟩⟩
  | case4 start _ byte rest op known operands long ih =>
      obtain rfl := Op.toByte_of_ofByte? known
      obtain ⟨later, left, row, spelled, ending⟩ := ih
      have whole : operands.length = op.width :=
        Nat.le_antisymm (List.length_take_le op.width rest) (Nat.le_of_not_lt long)
      have bytes : (⟨start, op, operands⟩ :: later).flatMap Instr.encode ++ left =
          op.toByte :: rest := by
        rw [List.flatMap_cons, List.append_assoc, spelled, Instr.encode, List.cons_append,
          List.take_append_drop]
      have far : start + ((⟨start, op, operands⟩ :: later).flatMap Instr.encode).length =
          start + op.length + (later.flatMap Instr.encode).length := by
        rw [List.flatMap_cons, List.length_append, Instr.encode, List.length_cons, whole, Op.length]
        omega
      exact ⟨⟨start, op, operands⟩ :: later, left, .cons rfl whole row, bytes, far ▸ ending⟩

theorem splits_or_breaks (bytes : List UInt8) :
    (∃ instrs, Splits bytes instrs) ∨ ∃ error, Breaks bytes error := by
  obtain ⟨instrs, rest, row, spelled, rfl | ⟨error, fault⟩⟩ := exists_consecutive 0 bytes
  · rw [List.append_nil] at spelled
    exact .inl ⟨instrs, row, spelled⟩
  · rw [Nat.zero_add] at fault
    exact .inr ⟨error, instrs, rest, row, spelled, fault⟩

theorem Decoded.readFrom_of_splits {bytes : List UInt8} {instrs : List Instr}
    (splits : Splits bytes instrs) : readFrom 0 bytes [] = ⟨instrs, none⟩ := by
  have read := readFrom_append splits.1 [] []
  rwa [List.append_nil, splits.2, readFrom, List.append_nil, List.reverse_reverse] at read

/-- Bytes are whole instructions in one way only. -/
theorem Splits.unique {bytes : List UInt8} {instrs others : List Instr}
    (splits : Splits bytes instrs) (otherSplits : Splits bytes others) : instrs = others := by
  have same := (Decoded.readFrom_of_splits splits).symm.trans
    (Decoded.readFrom_of_splits otherSplits)
  exact congrArg Decoded.instrs same

namespace Buffer

variable {buffer : Buffer}

theorem decode_of_splits {instrs : List Instr} (splits : Splits buffer.bytes.toList instrs) :
    buffer.decode = ⟨instrs, none⟩ :=
  Decoded.readFrom_of_splits splits

theorem decode_of_breaks {error : CodeError} (breaks : Breaks buffer.bytes.toList error) :
    ∃ instrs, buffer.decode = ⟨instrs, some error⟩ := by
  obtain ⟨instrs, rest, row, spelled, fault⟩ := breaks
  rw [← Nat.zero_add (List.length _)] at fault
  rw [decode, ← spelled, Decoded.readFrom_append row, Decoded.readFrom_of_faultAt fault]
  exact ⟨_, rfl⟩

theorem instructions_of_splits {instrs : List Instr} (splits : Splits buffer.bytes.toList instrs) :
    buffer.instructions = .ok instrs := by
  rw [instructions, decode_of_splits splits]

theorem instructions_of_breaks {error : CodeError} (breaks : Breaks buffer.bytes.toList error) :
    buffer.instructions = .error error := by
  obtain ⟨instrs, decoded⟩ := decode_of_breaks breaks
  rw [instructions, decoded]

/-- The instructions of a buffer are those whose bytes it holds. -/
theorem instructions_eq_ok_iff {instrs : List Instr} :
    buffer.instructions = .ok instrs ↔ Splits buffer.bytes.toList instrs := by
  refine ⟨fun read => ?_, instructions_of_splits⟩
  rcases splits_or_breaks buffer.bytes.toList with ⟨others, splits⟩ | ⟨error, breaks⟩
  · rw [instructions_of_splits splits] at read
    cases read
    exact splits
  · rw [instructions_of_breaks breaks] at read
    cases read

/-- Reading a buffer fails at the first place at which no instruction can be read. -/
theorem instructions_eq_error_iff {error : CodeError} :
    buffer.instructions = .error error ↔ Breaks buffer.bytes.toList error := by
  refine ⟨fun read => ?_, instructions_of_breaks⟩
  rcases splits_or_breaks buffer.bytes.toList with ⟨instrs, splits⟩ | ⟨other, breaks⟩
  · rw [instructions_of_splits splits] at read
    cases read
  · rw [instructions_of_breaks breaks] at read
    cases read
    exact breaks

end Buffer

end Backpatch
