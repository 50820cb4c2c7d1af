import Backpatch.Proofs.Decoding

/-!
# Streams of instructions

Instructions that are written one behind the other are read back as they are, each at the offset
that is the length of all before it.  In the other direction, whatever the bytes are, the
instructions that are read from them are written again as the beginning of the same bytes, and the
rest is empty or begins with something that is no instruction.

Instructions can also be asked for one by one.  A reader answers the first calls with the
instructions, the next one with the fault if there is one, and all later calls with nothing.
-/

namespace Backpatch

/-- An instruction that has no place yet: an opcode with as many operand bytes as it asks for. -/
structure Wording where
  op : Op
  operands : List UInt8
  whole : operands.length = op.width

namespace Wording

def bytes (wording : Wording) : List UInt8 :=
  wording.op.toByte :: wording.operands

/-- The instruction at an offset. -/
def placed (wording : Wording) (offset : Nat) : Instr :=
  ⟨offset, wording.op, wording.operands⟩

/-- The instructions in a row that begins at an offset, each behind those before it. -/
def row (start : Nat) (code : List Wording) : List Instr :=
  code.mapIdx fun index wording => wording.placed (start + ((code.take index).flatMap bytes).length)

theorem row_cons (start : Nat) (wording : Wording) (code : List Wording) :
    row start (wording :: code) =
      wording.placed start :: row (start + wording.bytes.length) code := by
  simp only [row, List.mapIdx_cons, List.take_zero, List.flatMap_nil, List.length_nil, Nat.add_zero,
    List.take_succ_cons, List.flatMap_cons, List.length_append, Nat.add_assoc]

theorem consecutive_row (start : Nat) (code : List Wording) :
    Consecutive start (row start code) := by
  induction code generalizing start with
  | nil => exact .nil
  | cons wording code ih =>
      have next : (wording.placed start).nextOffset = start + wording.bytes.length := by
        rw [Instr.nextOffset, Op.length, bytes, List.length_cons, wording.whole, placed,
          Nat.add_comm 1]
      rw [row_cons]
      exact .cons rfl wording.whole (next ▸ ih _)

theorem flatMap_encode_row (start : Nat) (code : List Wording) :
    (row start code).flatMap Instr.encode = code.flatMap bytes := by
  induction code generalizing start with
  | nil => rfl
  | cons wording code ih =>
      rw [row_cons, List.flatMap_cons, List.flatMap_cons, ih]
      rfl

end Wording

/-- Reading has come to this: whole instructions from the beginning of the bytes on, and then the
rest, which is empty unless there is a fault. -/
structure Decoded.Describes (decoded : Decoded) (bytes rest : List UInt8) : Prop where
  row : Consecutive 0 decoded.instrs
  spelled : decoded.instrs.flatMap Instr.encode ++ rest = bytes
  ended : decoded.fault = none ↔ rest = []
  broken : ∀ error, decoded.fault = some error ↔
    FaultAt (decoded.instrs.flatMap Instr.encode).length rest error

theorem FaultAt.unique {offset : Nat} {bytes : List UInt8} {error other : CodeError}
    (fault : FaultAt offset bytes error) (otherFault : FaultAt offset bytes other) :
    error = other := by
  have same := (Decoded.readFrom_of_faultAt fault []).symm.trans
    (Decoded.readFrom_of_faultAt otherFault [])
  exact Option.some.inj (congrArg Decoded.fault same)

/-- Every stream has been read in this way. -/
theorem Buffer.exists_describes_decode (buffer : Buffer) :
    ∃ rest, buffer.decode.Describes buffer.bytes.toList rest := by
  obtain ⟨instrs, rest, row, spelled, ending⟩ := exists_consecutive 0 buffer.bytes.toList
  have read : buffer.decode =
      Decoded.readFrom (0 + (instrs.flatMap Instr.encode).length) rest (instrs.reverse ++ []) := by
    rw [decode, ← spelled, Decoded.readFrom_append row]
  refine ⟨rest, ?_⟩
  rcases ending with rfl | ⟨error, fault⟩
  · rw [Decoded.readFrom, List.append_nil, List.reverse_reverse] at read
    rw [read]
    refine ⟨row, spelled, ⟨fun _ => rfl, fun _ => rfl⟩, fun error => ⟨?_, ?_⟩⟩
    · rintro ⟨⟩
    · rintro ⟨⟩
  · rw [Decoded.readFrom_of_faultAt fault, List.append_nil, List.reverse_reverse] at read
    rw [Nat.zero_add] at fault
    rw [read]
    refine ⟨row, spelled, ⟨?_, ?_⟩, fun other => ⟨?_, fun otherFault => ?_⟩⟩
    · rintro ⟨⟩
    · rintro rfl
      cases fault
    · rintro ⟨⟩
      exact fault
    · exact congrArg some (fault.unique otherFault)

/-- A reader of a stream: how far it has come, and whether it has met a fault. -/
structure Reader where
  bytes : List UInt8
  offset : Nat
  stopped : Bool

namespace Reader

/-- The reader at the beginning of a stream. -/
def start (bytes : List UInt8) : Reader :=
  ⟨bytes, 0, false⟩

/-- Read an instruction, or the fault that is met in its place.  There is nothing to be read at the
end of the bytes or behind a fault. -/
def next? (reader : Reader) : Option (Except CodeError Instr × Reader) :=
  if reader.stopped then
    none
  else
    match reader.bytes.drop reader.offset with
    | [] => none
    | byte :: rest =>
        match Op.ofByte? byte with
        | none =>
            some (.error (.unknownOpcode reader.offset byte), { reader with stopped := true })
        | some op =>
            if rest.length < op.width then
              some (.error (.truncated reader.offset op), { reader with stopped := true })
            else
              some (.ok ⟨reader.offset, op, rest.take op.width⟩,
                { reader with offset := reader.offset + op.length })

/-- The reader after a call, which may have had nothing to read. -/
def advance (reader : Reader) : Reader :=
  reader.next?.elim reader (·.2)

/-- The answer to a call, of which the first one has number zero. -/
def answer? (reader : Reader) : Nat → Option (Except CodeError Instr)
  | 0 => reader.next?.map (·.1)
  | call + 1 => reader.advance.answer? call

/-- The reader answers its first calls with the given items, and all later ones with nothing. -/
def Yields (reader : Reader) (items : List (Except CodeError Instr)) : Prop :=
  ∀ call, reader.answer? call = items[call]?

variable {reader later : Reader} {item : Except CodeError Instr}
  {items : List (Except CodeError Instr)}

theorem Yields.nil (nothing : reader.next? = none) : reader.Yields [] := by
  intro call
  have stays : reader.advance = reader := by rw [advance, nothing, Option.elim_none]
  induction call with
  | zero => rw [answer?, nothing, Option.map_none, List.getElem?_nil]
  | succ call ih => rw [answer?, stays, ih, List.getElem?_nil, List.getElem?_nil]

theorem Yields.cons (reads : reader.next? = some (item, later)) (rest : later.Yields items) :
    reader.Yields (item :: items) := by
  intro call
  cases call with
  | zero => rw [answer?, reads, Option.map_some, List.getElem?_cons_zero]
  | succ call =>
      have moved : reader.advance = later := by rw [advance, reads, Option.elim_some]
      rw [answer?, moved, rest, List.getElem?_cons_succ]

theorem next?_eq_none_of_stopped (stopped : reader.stopped = true) : reader.next? = none := by
  rw [next?, if_pos stopped]

variable {bytes : List UInt8} {offset : Nat}

/-- A fault is the last answer. -/
theorem yields_of_faultAt {rest : List UInt8} {error : CodeError}
    (left : bytes.drop offset = rest) (fault : FaultAt offset rest error) :
    Yields ⟨bytes, offset, false⟩ [.error error] := by
  have reads : next? ⟨bytes, offset, false⟩ = some (.error error, ⟨bytes, offset, true⟩) := by
    rw [next?, if_neg Bool.false_ne_true]
    cases fault with
    | unknown noOpcode => simp only [left, Op.ofByte?_eq_none noOpcode]
    | truncated short => simp only [left, Op.ofByte?_toByte, if_pos short]
  exact .cons reads (.nil (next?_eq_none_of_stopped rfl))

/-- Whole instructions are the first answers. -/
theorem yields_of_consecutive {instrs : List Instr} (row : Consecutive offset instrs)
    {rest : List UInt8} (left : bytes.drop offset = instrs.flatMap Instr.encode ++ rest)
    (behind : Yields ⟨bytes, offset + (instrs.flatMap Instr.encode).length, false⟩ items) :
    Yields ⟨bytes, offset, false⟩ (instrs.map .ok ++ items) := by
  induction row with
  | nil => exact behind
  | @cons start head tail place whole _ ih =>
      have spelled : bytes.drop start =
          head.op.toByte :: (head.operands ++ (tail.flatMap Instr.encode ++ rest)) := by
        rw [left, List.flatMap_cons, Instr.encode, List.append_assoc, List.cons_append]
      have long : ¬ (head.operands ++ (tail.flatMap Instr.encode ++ rest)).length <
          head.op.width := by
        rw [List.length_append, whole]
        omega
      have length : head.encode.length = head.op.length := by
        rw [Instr.encode, List.length_cons, whole, Op.length, Nat.add_comm]
      have reads : next? ⟨bytes, start, false⟩ =
          some (.ok head, ⟨bytes, head.nextOffset, false⟩) := by
        rw [next?, if_neg Bool.false_ne_true]
        simp only [spelled, Op.ofByte?_toByte, if_neg long, List.take_left' whole]
        rw [Instr.nextOffset, ← place]
      have leftBehind : bytes.drop head.nextOffset = tail.flatMap Instr.encode ++ rest := by
        rw [Instr.nextOffset, place, ← List.drop_drop, left, List.flatMap_cons, List.append_assoc,
          ← length, List.drop_left]
      refine .cons reads (ih leftBehind ?_)
      rw [Instr.nextOffset, place, ← length, Nat.add_assoc, ← List.length_append,
        ← List.flatMap_cons]
      exact behind

end Reader

/-- A reader yields what reading at once finds: first the instructions, then the fault. -/
theorem Decoded.Describes.yields {decoded : Decoded} {bytes rest : List UInt8}
    (describes : decoded.Describes bytes rest) :
    (Reader.start bytes).Yields
      (decoded.instrs.map .ok ++ decoded.fault.toList.map .error) := by
  have left : bytes.drop 0 = decoded.instrs.flatMap Instr.encode ++ rest := describes.spelled.symm
  have leftBehind : bytes.drop (0 + (decoded.instrs.flatMap Instr.encode).length) = rest := by
    rw [← describes.spelled, Nat.zero_add, List.drop_left]
  refine Reader.yields_of_consecutive describes.row left ?_
  cases ended : decoded.fault with
  | none =>
      refine .nil ?_
      rw [Reader.next?, if_neg Bool.false_ne_true]
      simp only [leftBehind, describes.ended.mp ended]
  | some error =>
      have fault := (describes.broken error).mp ended
      rw [← Nat.zero_add (List.length _)] at fault
      exact Reader.yields_of_faultAt leftBehind fault

/-- Writing instructions and reading them are inverse to each other.  Any instructions in a row are
read back as they are, at the offsets at which they stand, and without a fault.  From any bytes,
instructions are read that are written again as a beginning of the bytes.  Reading goes on to the
end of the bytes, unless behind that beginning there is a byte that is no opcode or an opcode whose
operands run past the end.  This is then the one fault, and nothing is read behind it. -/
theorem Buffer.decode_inverts_encode :
    (∀ code : List Wording,
      (ofBytes (code.flatMap Wording.bytes).toArray).decode = ⟨Wording.row 0 code, none⟩) ∧
    ∀ buffer : Buffer,
      (∃ rest, buffer.decode.Describes buffer.bytes.toList rest) ∧
      (Reader.start buffer.bytes.toList).Yields
        (buffer.decode.instrs.map .ok ++ buffer.decode.fault.toList.map .error) := by
  refine ⟨fun code => ?_, fun buffer => ?_⟩
  · have splits : Splits (code.flatMap Wording.bytes) (Wording.row 0 code) :=
      ⟨Wording.consecutive_row 0 code, Wording.flatMap_encode_row 0 code⟩
    exact decode_of_splits splits
  · obtain ⟨rest, describes⟩ := buffer.exists_describes_decode
    exact ⟨⟨rest, describes⟩, describes.yields⟩

end Backpatch
