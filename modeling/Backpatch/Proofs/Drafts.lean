import Backpatch.Proofs.Decoding
import Backpatch.Proofs.EarlierCode
import Backpatch.Proofs.WellFormed
import Mathlib.Data.List.Forall2

/-!
# Drafts of code

A draft is what a piece of code says apart from the place at which it stands: a row of instructions
whose jump targets are counted from the beginning of the row.  Targets may be open, and so may be
the opcode of a conversion.  Behind other code a draft becomes a row of instructions at definite
offsets with definite targets.

A buffer continues another one by a draft if it holds the bytes of the other one and then those of
the draft, and has as open sites those of the other one and the gaps of the draft that are open.
Appending an instruction to such a buffer is appending it to the draft, and patching a site is
filling a gap.
-/

namespace Backpatch

/-- What can be left open in an instruction. -/
inductive Gap
  | target
  | opcode

/-- What fills a gap: a jump target, counted from the beginning of the draft, or an opcode that has
no operands. -/
inductive Filling : Gap → Type
  | target (place : Nat) : Filling .target
  | opcode (op : Op) (bare : op.width = 0) : Filling .opcode

namespace Filling

variable {gap : Gap}

/-- The bytes of a filling in a draft that begins at an offset. -/
def bytes (base : Nat) : Filling gap → List UInt8
  | target place => littleEndian 2 (base + place)
  | opcode op _ => [op.toByte]

/-- A jump can name the target if the draft begins at an offset. -/
def Near (base : Nat) : Filling gap → Prop
  | target place => base + place ≤ Buffer.maxTarget
  | opcode _ _ => True

end Filling

/-- An instruction of a draft. -/
inductive Shape
  | plain (op : Op) (operands : List UInt8) (whole : operands.length = op.width)
      (still : op.isJump = false)
  | jump (target : Option Nat)
  | branch (op : Op) (isBranch : op.isBranch = true) (onTrue onFalse : Option Nat)
  | conversion (op : Option { op : Op // op.width = 0 })

namespace Shape

/-- The number that stands for a jump target in a draft that begins at an offset. -/
def word (base : Nat) (target : Option Nat) : Nat :=
  target.elim 0xFFFF (base + ·)

/-- The number of bytes. -/
def size : Shape → Nat
  | plain op _ _ _ => op.length
  | jump _ => 3
  | branch _ _ _ _ => 5
  | conversion _ => 1

/-- The instruction at a place of a draft that begins at an offset. -/
def instr (base place : Nat) : Shape → Instr
  | plain op operands _ _ => ⟨base + place, op, operands⟩
  | jump target => ⟨base + place, .jump, littleEndian 2 (word base target)⟩
  | branch op _ onTrue onFalse =>
      ⟨base + place, op, littleEndian 2 (word base onTrue) ++ littleEndian 2 (word base onFalse)⟩
  | conversion op => ⟨base + place, op.elim .invalid (·.1), []⟩

/-- Where the jump targets are, filled in or not. -/
def targets : Shape → List Nat
  | plain _ _ _ _ | conversion _ => []
  | jump _ => [1]
  | branch _ _ _ _ => [1, 3]

/-- Where the opcode is, if it is that of a conversion. -/
def opcodes : Shape → List Nat
  | plain _ _ _ _ | jump _ | branch _ _ _ _ => []
  | conversion _ => [0]

/-- Where the gaps of a kind are, filled in or not. -/
def gaps (gap : Gap) (shape : Shape) : List Nat :=
  match gap with
  | .target => shape.targets
  | .opcode => shape.opcodes

/-- The gaps that are open. -/
def opens : Shape → List Nat
  | plain _ _ _ _ => []
  | jump target => if target.isNone then [1] else []
  | branch _ _ onTrue onFalse =>
      (if onTrue.isNone then [1] else []) ++ if onFalse.isNone then [3] else []
  | conversion op => if op.isNone then [0] else []

/-- Jumps can name the targets if the draft begins at an offset. -/
def Near (base : Nat) : Shape → Prop
  | jump target => ∀ place ∈ target, base + place ≤ Buffer.maxTarget
  | branch _ _ onTrue onFalse =>
      (∀ place ∈ onTrue, base + place ≤ Buffer.maxTarget) ∧
        ∀ place ∈ onFalse, base + place ≤ Buffer.maxTarget
  | plain _ _ _ _ | conversion _ => True

/-- The instruction with a jump target filled in. -/
def fillTarget (inner place : Nat) : Shape → Shape
  | plain op operands whole still => plain op operands whole still
  | jump _ => jump (some place)
  | branch op isBranch onTrue onFalse =>
      branch op isBranch (if inner = 1 then some place else onTrue)
        (if inner = 1 then onFalse else some place)
  | conversion op => conversion op

/-- The instruction with the opcode of a conversion filled in. -/
def fillOpcode (op : Op) (bare : op.width = 0) : Shape → Shape
  | conversion _ => conversion (some ⟨op, bare⟩)
  | plain op operands whole still => plain op operands whole still
  | jump target => jump target
  | branch op isBranch onTrue onFalse => branch op isBranch onTrue onFalse

/-- The instruction with a gap filled in. -/
def fill {gap : Gap} (inner : Nat) (filling : Filling gap) (shape : Shape) : Shape :=
  match filling with
  | .target place => shape.fillTarget inner place
  | .opcode op bare => shape.fillOpcode op bare

variable {gap : Gap} {inner base place : Nat}

theorem whole_instr (shape : Shape) :
    (shape.instr base place).operands.length = (shape.instr base place).op.width := by
  cases shape with
  | plain op operands whole => exact whole
  | jump target => exact length_littleEndian _ _
  | branch op isBranch =>
      simp only [instr, List.length_append, length_littleEndian, Op.width_of_isBranch isBranch]
  | conversion op =>
      cases op with
      | none => rfl
      | some op => exact op.2.symm

theorem length_instr (shape : Shape) : (shape.instr base place).op.length = shape.size := by
  cases shape with
  | plain | jump => rfl
  | branch op isBranch => simp only [instr, size, Op.length, Op.width_of_isBranch isBranch]
  | conversion op =>
      cases op with
      | none => rfl
      | some op => simp only [instr, size, Op.length, Option.elim_some, op.2]

theorem length_encode (shape : Shape) : (shape.instr base place).encode.length = shape.size := by
  have whole : (shape.instr base place).op.length = shape.size := shape.length_instr
  rw [Instr.encode, List.length_cons, shape.whole_instr, ← whole, Op.length, Nat.add_comm]

theorem lt_size_of_mem_gaps {shape : Shape} (member : inner ∈ shape.gaps gap) :
    inner < shape.size := by
  cases gap <;> cases shape <;> grind [gaps, targets, opcodes, size]

theorem lt_size_of_mem_opens {shape : Shape} (member : inner ∈ shape.opens) :
    inner < shape.size := by
  cases shape <;> grind [opens, size]

theorem size_fill (filling : Filling gap) (shape : Shape) :
    (shape.fill inner filling).size = shape.size := by
  cases filling <;> cases shape <;> rfl

theorem gaps_fill (filling : Filling gap) (shape : Shape) (other : Gap) :
    (shape.fill inner filling).gaps other = shape.gaps other := by
  cases filling <;> cases shape <;> cases other <;> rfl

theorem mem_opens_fill {filling : Filling gap} {shape : Shape} (member : inner ∈ shape.gaps gap)
    {other : Nat} :
    other ∈ (shape.fill inner filling).opens ↔ other ∈ shape.opens ∧ other ≠ inner := by
  cases filling <;> cases shape <;>
    grind [fill, fillTarget, fillOpcode, gaps, targets, opcodes, opens]

theorem Near.fill {filling : Filling gap} {shape : Shape} (near : shape.Near base)
    (nearFilling : filling.Near base) : (shape.fill inner filling).Near base := by
  cases filling <;> cases shape <;>
    grind [Shape.fill, fillTarget, fillOpcode, Shape.Near, Filling.Near]

/-- Filling a gap changes only the bytes of the gap. -/
theorem exists_encode_fill (base place : Nat) (filling : Filling gap) {shape : Shape}
    (member : inner ∈ shape.gaps gap) :
    ∃ front old rest, front.length = inner ∧ old.length = (filling.bytes base).length ∧
      (shape.instr base place).encode = front ++ (old ++ rest) ∧
      ((shape.fill inner filling).instr base place).encode =
        front ++ (filling.bytes base ++ rest) := by
  cases filling with
  | target goal =>
      cases shape with
      | plain | conversion => cases member
      | jump target =>
          cases List.mem_singleton.mp member
          exact ⟨[Op.jump.toByte], littleEndian 2 (word base target), [], rfl, rfl, rfl, rfl⟩
      | branch op isBranch onTrue onFalse =>
          rcases List.mem_cons.mp member with rfl | member
          · exact ⟨[op.toByte], littleEndian 2 (word base onTrue),
              littleEndian 2 (word base onFalse), rfl, rfl, rfl, rfl⟩
          · cases List.mem_singleton.mp member
            exact ⟨op.toByte :: littleEndian 2 (word base onTrue),
              littleEndian 2 (word base onFalse), [], rfl, rfl, rfl, rfl⟩
  | opcode op bare =>
      cases shape with
      | plain | jump | branch => cases member
      | conversion old =>
          cases List.mem_singleton.mp member
          exact ⟨[], [(old.elim Op.invalid (·.1)).toByte], [], rfl, rfl, rfl, rfl⟩

end Shape

namespace Draft

/-- The number of bytes. -/
def size : List Shape → Nat
  | [] => 0
  | shape :: shapes => shape.size + size shapes

/-- The places of some kind in a draft of which the given part begins at a place. -/
def places (kind : Shape → List Nat) : Nat → List Shape → List Nat
  | _, [] => []
  | place, shape :: shapes =>
      (kind shape).map (place + ·) ++ places kind (place + shape.size) shapes

/-- The instructions of a part of a draft. -/
def row (base : Nat) : Nat → List Shape → List Instr
  | _, [] => []
  | place, shape :: shapes => shape.instr base place :: row base (place + shape.size) shapes

/-- The places of the gaps of a kind. -/
def gaps (gap : Gap) (shapes : List Shape) : List Nat :=
  places (Shape.gaps gap) 0 shapes

/-- The places of the open gaps. -/
def opens (shapes : List Shape) : List Nat :=
  places Shape.opens 0 shapes

/-- The instructions of a draft that begins at an offset. -/
def instrs (base : Nat) (shapes : List Shape) : List Instr :=
  row base 0 shapes

def bytes (base : Nat) (shapes : List Shape) : List UInt8 :=
  (instrs base shapes).flatMap Instr.encode

def Near (base : Nat) (shapes : List Shape) : Prop :=
  ∀ shape ∈ shapes, shape.Near base

/-- All gaps are still there, filled or not. -/
def Covers (shapes later : List Shape) : Prop :=
  ∀ gap, gaps gap shapes ⊆ gaps gap later

section Lists

variable {kind : Shape → List Nat} {base place inner : Nat} {before after shapes : List Shape}
  {shape : Shape}

theorem size_append (before after : List Shape) :
    size (before ++ after) = size before + size after := by
  induction before with
  | nil => exact (Nat.zero_add _).symm
  | cons shape before ih => rw [List.cons_append, size, ih, size, Nat.add_assoc]

theorem places_append (kind : Shape → List Nat) (place : Nat) (before after : List Shape) :
    places kind place (before ++ after) =
      places kind place before ++ places kind (place + size before) after := by
  induction before generalizing place with
  | nil => rfl
  | cons shape before ih =>
      rw [List.cons_append, places, ih, places, List.append_assoc, size, Nat.add_assoc]

theorem row_append (base place : Nat) (before after : List Shape) :
    row base place (before ++ after) =
      row base place before ++ row base (place + size before) after := by
  induction before generalizing place with
  | nil => rfl
  | cons shape before ih =>
      rw [List.cons_append, row, ih, row, List.cons_append, size, Nat.add_assoc]

theorem length_row (base place : Nat) (shapes : List Shape) :
    ((row base place shapes).flatMap Instr.encode).length = size shapes := by
  induction shapes generalizing place with
  | nil => rfl
  | cons shape shapes ih =>
      rw [row, List.flatMap_cons, List.length_append, ih, shape.length_encode, size]

theorem consecutive_row (base place : Nat) (shapes : List Shape) :
    Consecutive (base + place) (row base place shapes) := by
  induction shapes generalizing place with
  | nil => exact .nil
  | cons shape shapes ih =>
      have offset : (shape.instr base place).offset = base + place := by cases shape <;> rfl
      refine .cons offset shape.whole_instr ?_
      rw [Instr.nextOffset, offset, shape.length_instr, Nat.add_assoc]
      exact ih (place + shape.size)

theorem bytes_append (base : Nat) (before after : List Shape) :
    bytes base (before ++ after) =
      bytes base before ++ (row base (size before) after).flatMap Instr.encode := by
  rw [bytes, instrs, row_append, List.flatMap_append, Nat.zero_add]
  rfl

theorem length_bytes (base : Nat) (shapes : List Shape) :
    (bytes base shapes).length = size shapes :=
  length_row base 0 shapes

/-- Reading the bytes of a draft gives its instructions. -/
theorem readFrom_bytes (base : Nat) (shapes : List Shape) :
    Decoded.readFrom base (bytes base shapes) [] = ⟨instrs base shapes, none⟩ := by
  have read := Decoded.readFrom_append (consecutive_row base 0 shapes) [] []
  rwa [Decoded.readFrom, List.append_nil, List.append_nil, List.reverse_reverse] at read

theorem bounds_of_mem_places (within : ∀ shape, ∀ inner ∈ kind shape, inner < shape.size)
    {start : Nat} (member : place ∈ places kind start shapes) :
    start ≤ place ∧ place < start + size shapes := by
  induction shapes generalizing start with
  | nil => cases member
  | cons shape shapes ih =>
      rw [size]
      rcases List.mem_append.mp member with here | later
      · obtain ⟨inner, inKind, rfl⟩ := List.mem_map.mp here
        have := within shape inner inKind
        omega
      · have := ih later
        omega

/-- A place in a draft, given by the instruction that it is in. -/
theorem exists_of_mem_places {start : Nat} (member : place ∈ places kind start shapes) :
    ∃ before shape after inner, shapes = before ++ shape :: after ∧ inner ∈ kind shape ∧
      place = start + size before + inner := by
  induction shapes generalizing start with
  | nil => cases member
  | cons first shapes ih =>
      rcases List.mem_append.mp member with here | later
      · obtain ⟨inner, inKind, rfl⟩ := List.mem_map.mp here
        exact ⟨[], first, shapes, inner, rfl, inKind, rfl⟩
      · obtain ⟨before, shape, after, inner, rfl, inKind, rfl⟩ := ih later
        refine ⟨first :: before, shape, after, inner, rfl, inKind, ?_⟩
        rw [size]
        omega

/-- The places in front of an instruction, in it, and behind it. -/
theorem mem_places_append_cons :
    place ∈ places kind 0 (before ++ shape :: after) ↔
      place ∈ places kind 0 before ∨ (∃ inner ∈ kind shape, size before + inner = place) ∨
        place ∈ places kind (size before + shape.size) after := by
  rw [places_append, places, List.mem_append, List.mem_append, List.mem_map, Nat.zero_add]

/-- A place in an instruction is of a kind exactly if it is so in the instruction. -/
theorem mem_places_inside (within : ∀ shape, ∀ inner ∈ kind shape, inner < shape.size)
    (inside : inner < shape.size) :
    size before + inner ∈ places kind 0 (before ++ shape :: after) ↔ inner ∈ kind shape := by
  rw [mem_places_append_cons]
  constructor
  · rintro (inFront | ⟨other, inKind, same⟩ | behind)
    · have := bounds_of_mem_places within inFront
      omega
    · rwa [← Nat.add_left_cancel same]
    · have := bounds_of_mem_places within behind
      omega
  · exact fun inKind => .inr (.inl ⟨inner, inKind, rfl⟩)

theorem mem_gaps_append {gap : Gap} (member : inner ∈ shape.gaps gap) :
    size shapes + inner ∈ gaps gap (shapes ++ [shape]) :=
  mem_places_append_cons.mpr (.inr (.inl ⟨inner, member, rfl⟩))

theorem Covers.refl (shapes : List Shape) : Covers shapes shapes :=
  fun _ _ => id

theorem Covers.trans {first second third : List Shape} (one : Covers first second)
    (two : Covers second third) : Covers first third :=
  fun gap _ member => two gap (one gap member)

theorem Covers.append (before after : List Shape) : Covers before (before ++ after) := by
  intro gap place member
  rw [gaps, places_append]
  exact List.mem_append_left _ member

end Lists

section Filling

variable {gap : Gap} {filling : Filling gap} {base place inner : Nat} {before after : List Shape}
  {shape : Shape}

theorem mem_gaps_fill {other : Gap} :
    place ∈ gaps other (before ++ shape.fill inner filling :: after) ↔
      place ∈ gaps other (before ++ shape :: after) := by
  rw [gaps, gaps, mem_places_append_cons, mem_places_append_cons, shape.gaps_fill,
    shape.size_fill filling]

theorem mem_opens_fill (inGaps : inner ∈ shape.gaps gap) :
    place ∈ opens (before ++ shape.fill inner filling :: after) ↔
      place ∈ opens (before ++ shape :: after) ∧ place ≠ size before + inner := by
  have inside : inner < shape.size := Shape.lt_size_of_mem_gaps inGaps
  have within : ∀ shape : Shape, ∀ inner ∈ shape.opens, inner < shape.size :=
    fun _ _ => Shape.lt_size_of_mem_opens
  rw [opens, opens, mem_places_append_cons, mem_places_append_cons, shape.size_fill filling]
  constructor
  · rintro (inFront | ⟨other, isOpen, rfl⟩ | behind)
    · have := bounds_of_mem_places within inFront
      exact ⟨.inl inFront, by omega⟩
    · obtain ⟨wasOpen, different⟩ := (Shape.mem_opens_fill inGaps).mp isOpen
      exact ⟨.inr (.inl ⟨other, wasOpen, rfl⟩), by omega⟩
    · have := bounds_of_mem_places within behind
      exact ⟨.inr (.inr behind), by omega⟩
  · rintro ⟨inFront | ⟨other, wasOpen, rfl⟩ | behind, different⟩
    · exact .inl inFront
    · have elsewhere : other ≠ inner := fun same => different (same ▸ rfl)
      exact .inr (.inl ⟨other, (Shape.mem_opens_fill inGaps).mpr ⟨wasOpen, elsewhere⟩, rfl⟩)
    · exact .inr (.inr behind)

theorem Near.fill (near : Near base (before ++ shape :: after)) (nearFilling : filling.Near base) :
    Near base (before ++ shape.fill inner filling :: after) := by
  obtain ⟨nearBefore, nearRest⟩ := List.forall_mem_append.mp near
  obtain ⟨nearShape, nearAfter⟩ := List.forall_mem_cons.mp nearRest
  exact List.forall_mem_append.mpr
    ⟨nearBefore, List.forall_mem_cons.mpr ⟨nearShape.fill nearFilling, nearAfter⟩⟩

/-- Filling a gap changes only the bytes of the gap. -/
theorem exists_bytes_fill (base : Nat) (filling : Filling gap) (inGaps : inner ∈ shape.gaps gap) :
    ∃ front old rest, front.length = size before + inner ∧
      old.length = (filling.bytes base).length ∧
      bytes base (before ++ shape :: after) = front ++ (old ++ rest) ∧
      bytes base (before ++ shape.fill inner filling :: after) =
        front ++ (filling.bytes base ++ rest) := by
  obtain ⟨front, old, rest, length, sameLength, spelled, filled⟩ :=
    Shape.exists_encode_fill base (size before) filling inGaps
  refine ⟨bytes base before ++ front, old,
    rest ++ (row base (size before + shape.size) after).flatMap Instr.encode, ?_, sameLength, ?_,
    ?_⟩
  · rw [List.length_append, length_bytes, length]
  · rw [bytes_append, row, List.flatMap_cons, spelled]
    simp only [List.append_assoc]
  · rw [bytes_append, row, List.flatMap_cons, filled, shape.size_fill filling]
    simp only [List.append_assoc]

end Filling

/-- The second draft is the first one with a gap filled. -/
structure Fills {gap : Gap} (place : Nat) (filling : Filling gap) (shapes later : List Shape) :
    Prop where
  covers : Covers shapes later
  opens : ∀ other, other ∈ opens later ↔ other ∈ opens shapes ∧ other ≠ place
  near : ∀ base, Near base shapes → filling.Near base → Near base later
  bytes : ∀ base, ∃ front old rest, front.length = place ∧
    old.length = (filling.bytes base).length ∧ bytes base shapes = front ++ (old ++ rest) ∧
    bytes base later = front ++ (filling.bytes base ++ rest)

theorem exists_fills {gap : Gap} {place : Nat} {shapes : List Shape} (filling : Filling gap)
    (member : place ∈ gaps gap shapes) : ∃ later, Fills place filling shapes later := by
  obtain ⟨before, shape, after, inner, rfl, inGaps, rfl⟩ := exists_of_mem_places member
  rw [Nat.zero_add]
  exact ⟨before ++ shape.fill inner filling :: after,
    { covers := fun _ _ => mem_gaps_fill.mpr
      opens := fun _ => mem_opens_fill inGaps
      near := fun _ near nearFilling => near.fill nearFilling
      bytes := fun base => exists_bytes_fill base filling inGaps }⟩

end Draft

namespace Buffer

theorem toList_filled_of_eq {buffer : Buffer} {front old rest bytes : List UInt8}
    (spelled : buffer.toList = front ++ (old ++ rest)) (same : old.length = bytes.length) :
    (buffer.filled front.length bytes).toList = front ++ (bytes ++ rest) := by
  have size : buffer.size = front.length + (old.length + rest.length) := by
    rw [← length_toList, spelled, List.length_append, List.length_append]
  refine List.ext_getElem? fun index => ?_
  rw [getElem?_filled, spelled]
  simp only [List.getElem?_append]
  split <;> split <;> grind

/-- The buffer holds what the base holds, and a draft behind it. -/
structure Continues (base : Buffer) (shapes : List Shape) (buffer : Buffer) : Prop where
  bytes : buffer.toList = base.toList ++ Draft.bytes base.size shapes
  sites : ∀ offset, offset ∈ buffer.openSites ↔
    offset ∈ base.openSites ∨ ∃ place ∈ Draft.opens shapes, base.size + place = offset
  near : Draft.Near base.size shapes

namespace Continues

variable {base buffer later : Buffer} {shapes : List Shape} {shape : Shape}

theorem refl (base : Buffer) : base.Continues [] base where
  bytes := (List.append_nil _).symm
  sites _ := ⟨.inl, fun member => member.resolve_right fun ⟨_, isOpen, _⟩ => nomatch isOpen⟩
  near := nofun

theorem size_eq (continues : base.Continues shapes buffer) :
    buffer.size = base.size + Draft.size shapes := by
  rw [← length_toList, continues.bytes, List.length_append, Draft.length_bytes, length_toList]

/-- What is written behind a buffer is settled by the draft. -/
theorem unique (one : base.Continues shapes buffer) (two : base.Continues shapes later) :
    buffer = later :=
  eq_of_toList (one.bytes.trans two.bytes.symm) fun offset =>
    (one.sites offset).trans (two.sites offset).symm

theorem append (continues : base.Continues shapes buffer)
    (bytes : later.toList = buffer.toList ++ (shape.instr base.size (Draft.size shapes)).encode)
    (sites : ∀ offset, offset ∈ later.openSites ↔
      offset ∈ buffer.openSites ∨ ∃ inner ∈ shape.opens, buffer.size + inner = offset)
    (near : shape.Near base.size) : base.Continues (shapes ++ [shape]) later where
  bytes := by
    rw [bytes, continues.bytes, Draft.bytes_append, List.append_assoc, Draft.row, Draft.row,
      List.flatMap_singleton]
  sites offset := by
    rw [sites, continues.sites, continues.size_eq, or_assoc, Draft.opens, Draft.opens,
      Draft.places_append]
    refine or_congr_right ⟨?_, ?_⟩
    · rintro (⟨place, isOpen, rfl⟩ | ⟨inner, isOpen, rfl⟩)
      · exact ⟨place, List.mem_append_left _ isOpen, rfl⟩
      · refine ⟨Draft.size shapes + inner, List.mem_append_right _ ?_, (Nat.add_assoc _ _ _).symm⟩
        rw [Draft.places, Draft.places, List.append_nil, Nat.zero_add]
        exact List.mem_map_of_mem isOpen
    · rintro ⟨place, member, rfl⟩
      rcases List.mem_append.mp member with isOpen | isOpen
      · exact .inl ⟨place, isOpen, rfl⟩
      · rw [Draft.places, Draft.places, List.append_nil, Nat.zero_add] at isOpen
        obtain ⟨inner, inShape, rfl⟩ := List.mem_map.mp isOpen
        exact .inr ⟨inner, inShape, Nat.add_assoc _ _ _⟩
  near := List.forall_mem_append.mpr ⟨continues.near, List.forall_mem_singleton.mpr near⟩

theorem plain (continues : base.Continues shapes buffer) {op : Op} {operands : List UInt8}
    (whole : operands.length = op.width) (still : op.isJump = false) :
    base.Continues (shapes ++ [.plain op operands whole still])
      (buffer.append (op.toByte :: operands)) :=
  continues.append (toList_append _ _) (fun _ => by simp [Shape.opens]) trivial

theorem jumpTo (continues : base.Continues shapes buffer) {place : Nat}
    (near : base.size + place ≤ maxTarget) :
    base.Continues (shapes ++ [.jump (some place)])
      (buffer.emitWithWord .jump (UInt16.ofNat (base.size + place))) := by
  refine continues.append ?_ (fun _ => by simp [Shape.opens, emitWithWord, emitWord]) ?_
  · have number : (UInt16.ofNat (base.size + place)).toNat = base.size + place :=
      UInt16.toNat_ofNat_of_lt' (Nat.lt_succ_of_le near)
    rw [emitWithWord, emitWord, toList_append, toList_emit, number, List.append_assoc]
    rfl
  · rintro _ ⟨⟩
    exact near

theorem emitJump (continues : base.Continues shapes buffer) :
    base.Continues (shapes ++ [.jump none]) (buffer.emit .jump).reserveWord.2 := by
  refine continues.append ?_ (fun offset => ?_) nofun
  · simp [reserveWord, emitWord, Shape.instr, Shape.word, Instr.encode]
  · simp [reserveWord, mem_openAt, Shape.opens, emitWord]

theorem emitBranch (continues : base.Continues shapes buffer) {op : Op}
    (isBranch : op.isBranch = true) :
    base.Continues (shapes ++ [.branch op isBranch none none]) (buffer.emitBranch op).2 := by
  refine continues.append ?_ (fun offset => ?_) ⟨nofun, nofun⟩
  · simp [Buffer.emitBranch, reserveWord, emitWord, Shape.instr, Shape.word, Instr.encode]
  · simp [Buffer.emitBranch, reserveWord, mem_openAt, Shape.opens, emitWord, or_assoc]

theorem reserveOp (continues : base.Continues shapes buffer) :
    base.Continues (shapes ++ [.conversion none]) buffer.reserveOp.2 := by
  refine continues.append ?_ (fun offset => ?_) trivial
  · simp [Buffer.reserveOp, Shape.instr, Instr.encode]
  · simp [Buffer.reserveOp, mem_openAt, Shape.opens]

/-- Patching a site fills a gap of the draft. -/
theorem filled (continues : base.Continues shapes buffer)
    (inside : ∀ offset ∈ base.openSites, offset < base.size) {gap : Gap} {filling : Filling gap}
    {place : Nat} {later : List Shape} (fills : Draft.Fills place filling shapes later)
    (near : filling.Near base.size) :
    base.Continues later (buffer.filled (base.size + place) (filling.bytes base.size)) where
  bytes := by
    obtain ⟨front, old, rest, length, same, spelled, filled⟩ := fills.bytes base.size
    have whole : buffer.toList = (base.toList ++ front) ++ (old ++ rest) := by
      rw [continues.bytes, spelled, List.append_assoc]
    have offset : base.size + place = (base.toList ++ front).length := by
      rw [List.length_append, length, length_toList]
    rw [offset, toList_filled_of_eq whole same, filled, List.append_assoc]
  sites offset := by
    rw [mem_filled, continues.sites]
    constructor
    · rintro ⟨known | ⟨other, isOpen, rfl⟩, different⟩
      · exact .inl known
      · refine .inr ⟨other, (fills.opens other).mpr ⟨isOpen, ?_⟩, rfl⟩
        exact fun same => different (same ▸ rfl)
    · rintro (known | ⟨other, isOpen, rfl⟩)
      · have := inside offset known
        exact ⟨.inl known, by omega⟩
      · obtain ⟨wasOpen, different⟩ := (fills.opens other).mp isOpen
        exact ⟨.inr ⟨other, wasOpen, rfl⟩, by omega⟩
  near := fills.near base.size continues.near near

end Continues

end Buffer

namespace Instr

/-- The jump targets at an index of two instructions are both open, or they are as far apart as the
code to which the instructions belong. -/
def SameTarget (base other : Nat) (code moved : Buffer) (one two : Instr) (index : Nat) : Prop :=
  ∃ target goal, one.word? index = some target ∧ two.word? index = some goal ∧
    (one.offset + 1 + 2 * index ∈ code.openSites ∧ two.offset + 1 + 2 * index ∈ moved.openSites ∧
        target = 0xFFFF ∧ goal = 0xFFFF ∨
      one.offset + 1 + 2 * index ∉ code.openSites ∧ two.offset + 1 + 2 * index ∉ moved.openSites ∧
        goal.toNat + base = target.toNat + other)

/-- Two instructions at the same place of code that begins at one offset in one buffer and at
another offset in another buffer.  They differ only in the targets of a jump or a branch. -/
structure Moves (base other : Nat) (code moved : Buffer) (one two : Instr) : Prop where
  offset : two.offset + base = one.offset + other
  op : two.op = one.op
  operands : one.op.isJump = false → two.operands = one.operands
  targets : one.op.isJump = true → ∀ index < one.op.width / 2,
    one.SameTarget base other code moved two index

end Instr

section Moving

variable {base other code moved : Buffer} {shapes : List Shape}

theorem Buffer.Continues.mem_openSites (continues : base.Continues shapes code)
    (inside : ∀ offset ∈ base.openSites, offset < base.size) {place : Nat} :
    base.size + place ∈ code.openSites ↔ place ∈ Draft.opens shapes := by
  rw [continues.sites]
  constructor
  · rintro (known | ⟨_, isOpen, same⟩)
    · have := inside _ known
      omega
    · rwa [← Nat.add_left_cancel same]
  · exact fun isOpen => .inr ⟨place, isOpen, rfl⟩

theorem Buffer.Continues.mem_openSites_of_lt (continues : base.Continues shapes code) {offset : Nat}
    (early : offset < base.size) : offset ∈ code.openSites ↔ offset ∈ base.openSites := by
  rw [continues.sites]
  refine ⟨fun member => member.resolve_right ?_, .inl⟩
  rintro ⟨place, -, rfl⟩
  omega

/-- Behind the base the instructions of the draft are read. -/
theorem Buffer.Continues.readFrom (continues : base.Continues shapes code) :
    Decoded.readFrom base.size (code.toList.drop base.size) [] =
      ⟨Draft.instrs base.size shapes, none⟩ := by
  rw [continues.bytes, List.drop_left' base.length_toList]
  exact Draft.readFrom_bytes base.size shapes

variable (one : base.Continues shapes code) (two : other.Continues shapes moved)
  (inside : ∀ offset ∈ base.openSites, offset < base.size)
  (otherInside : ∀ offset ∈ other.openSites, offset < other.size)

include one two inside otherInside

/-- A target that is open or filled in the same way at both places. -/
theorem Draft.sameTarget {place index : Nat} {target : Option Nat} {first second : Instr}
    (firstOffset : first.offset = base.size + place)
    (secondOffset : second.offset = other.size + place)
    (firstWord : first.word? index = some (UInt16.ofNat (Shape.word base.size target)))
    (secondWord : second.word? index = some (UInt16.ofNat (Shape.word other.size target)))
    (isOpen : place + (1 + 2 * index) ∈ Draft.opens shapes ↔ target = none)
    (near : ∀ goal ∈ target, base.size + goal ≤ Buffer.maxTarget)
    (otherNear : ∀ goal ∈ target, other.size + goal ≤ Buffer.maxTarget) :
    first.SameTarget base.size other.size code moved second index := by
  refine ⟨_, _, firstWord, secondWord, ?_⟩
  rw [firstOffset, secondOffset, Nat.add_assoc, Nat.add_assoc, Nat.add_assoc, Nat.add_assoc,
    one.mem_openSites inside, two.mem_openSites otherInside, isOpen]
  cases target with
  | none => exact .inl ⟨rfl, rfl, rfl, rfl⟩
  | some goal =>
      have small : base.size + goal < 65536 := Nat.lt_succ_of_le (near goal rfl)
      have otherSmall : other.size + goal < 65536 := Nat.lt_succ_of_le (otherNear goal rfl)
      refine .inr ⟨nofun, nofun, ?_⟩
      simp only [Shape.word, Option.elim_some, UInt16.toNat_ofNat', Nat.mod_eq_of_lt small,
        Nat.mod_eq_of_lt otherSmall]
      omega

theorem Draft.moves_instr {before after : List Shape} {shape : Shape}
    (split : shapes = before ++ shape :: after) :
    (shape.instr base.size (size before)).Moves base.size other.size code moved
      (shape.instr other.size (size before)) := by
  have isOpen : ∀ inner < shape.size, size before + inner ∈ opens shapes ↔ inner ∈ shape.opens := by
    intro inner inShape
    rw [split, opens]
    exact mem_places_inside (fun _ _ => Shape.lt_size_of_mem_opens) inShape
  have member : shape ∈ shapes := split ▸ List.mem_append_right _ List.mem_cons_self
  have near := one.near shape member
  have otherNear := two.near shape member
  cases shape with
  | plain op operands whole still =>
      refine ⟨by simp only [Shape.instr]; omega, rfl, fun _ => rfl, fun isJump => ?_⟩
      rw [Shape.instr, still] at isJump
      cases isJump
  | conversion op =>
      -- The opcode may be any, but one without operands has no target.
      refine ⟨by simp only [Shape.instr]; omega, rfl, fun _ => rfl, fun _ index small => ?_⟩
      rw [← Shape.whole_instr, Shape.instr, List.length_nil, Nat.zero_div] at small
      cases small
  | jump target =>
      refine ⟨by simp only [Shape.instr]; omega, rfl, nofun, fun _ index small => ?_⟩
      rw [Shape.instr, show Op.jump.width / 2 = 1 from rfl, Nat.lt_one_iff] at small
      subst small
      refine sameTarget one two inside otherInside rfl rfl
        Instr.word?_zero_single Instr.word?_zero_single ?_ near otherNear
      rw [isOpen 1 (by simp [Shape.size])]
      simp [Shape.opens]
  | branch op isBranch onTrue onFalse =>
      refine ⟨by simp only [Shape.instr]; omega, rfl, fun still => ?_, fun _ index small => ?_⟩
      · simp [Shape.instr, Op.isJump, isBranch] at still
      · rw [Shape.instr, Op.width_of_isBranch isBranch] at small
        obtain rfl | rfl : index = 0 ∨ index = 1 := by omega
        · refine sameTarget one two inside otherInside rfl rfl
            Instr.word?_zero_pair Instr.word?_zero_pair ?_ near.1 otherNear.1
          rw [isOpen 1 (by simp [Shape.size])]
          simp [Shape.opens]
        · refine sameTarget one two inside otherInside rfl rfl
            Instr.word?_one_pair Instr.word?_one_pair ?_ near.2 otherNear.2
          rw [isOpen 3 (by simp [Shape.size])]
          simp [Shape.opens]

/-- At two places a draft gives instructions that differ only in their jump targets. -/
theorem Draft.forall₂_moves :
    List.Forall₂ (Instr.Moves base.size other.size code moved) (instrs base.size shapes)
      (instrs other.size shapes) := by
  suffices rows : ∀ after before, shapes = before ++ after →
      List.Forall₂ (Instr.Moves base.size other.size code moved)
        (row base.size (size before) after) (row other.size (size before) after) from
    rows shapes [] rfl
  intro after
  -- The whole draft stays fixed, and with it the open sites; what has been passed grows.
  induction after with
  | nil => exact fun _ _ => .nil
  | cons shape after ih =>
      intro before split
      refine .cons (moves_instr one two inside otherInside split) ?_
      have later := ih (before ++ [shape]) (split.trans (List.append_cons _ _ _))
      rwa [size_append, size] at later

end Moving

end Backpatch
