import Backpatch.Proofs.Layout

/-!
# Stretches of code

Finished code is a row of instructions, and what is proved about all of them is proved stretch by
stretch.  Each instruction of a stretch carries a mark, which is whatever is known when control
arrives at it: nothing at all when only the places of instructions matter, the types on the operand
stack when these do.  A property of an instruction may speak of the marks at other offsets, such as
the target of a jump.  Marks inside a stretch are settled by the stretch; the offsets outside at
which a mark is relied on are listed as its exits.  Some instructions may be watched, and their
marks are then listed in their order.

Stretches that follow each other are joined, which keeps a list of the offsets where they meet.  An
exit of one part that is such an offset, or an end of the whole, is no longer an exit of the whole.
-/

namespace Backpatch

/-- Between two offsets stand the given instructions, one after the other. -/
inductive Reads (code : List UInt8) : Nat → Nat → List Instr → Prop
  | nil {start : Nat} : Reads code start start []
  | cons {start stop : Nat} {instr : Instr} {rest : List Instr}
      (first : fetch code start = some instr) (later : Reads code instr.nextOffset stop rest) :
      Reads code start stop (instr :: rest)

section Reading

variable {code : List UInt8} {start middle stop : Nat} {instr : Instr} {instrs others : List Instr}

/-- An instruction is an opcode byte and as many operand bytes as the opcode says. -/
theorem fetch_eq_some (fetched : fetch code start = some instr) :
    ∃ byte rest, code.drop start = byte :: rest ∧ Op.ofByte? byte = some instr.op ∧
      instr.op.width ≤ rest.length ∧ instr = ⟨start, instr.op, rest.take instr.op.width⟩ := by
  rw [fetch] at fetched
  split at fetched
  · cases fetched
  · rename_i byte rest dropped
    split at fetched
    · cases fetched
    · rename_i op known
      split at fetched
      · cases fetched
      · rename_i fits
        obtain rfl := Option.some.inj fetched
        exact ⟨byte, rest, dropped, known, Nat.le_of_not_lt fits, rfl⟩

theorem offset_of_fetch (fetched : fetch code start = some instr) : instr.offset = start := by
  obtain ⟨_, _, _, _, _, shape⟩ := fetch_eq_some fetched
  rw [shape]

theorem nextOffset_of_fetch (fetched : fetch code start = some instr) :
    instr.nextOffset = start + 1 + instr.operands.length := by
  obtain ⟨_, rest, _, _, fits, shape⟩ := fetch_eq_some fetched
  have width : instr.operands.length = instr.op.width := by
    rw [shape, List.length_take, Nat.min_eq_left fits]
  rw [Instr.nextOffset, Op.length, offset_of_fetch fetched, width, Nat.add_assoc]

theorem Instr.offset_lt_nextOffset (instr : Instr) : instr.offset < instr.nextOffset := by
  rw [Instr.nextOffset, Op.length]
  omega

namespace Reads

theorem single (fetched : fetch code start = some instr) :
    Reads code start instr.nextOffset [instr] :=
  .cons fetched .nil

theorem append (first : Reads code start middle instrs) (second : Reads code middle stop others) :
    Reads code start stop (instrs ++ others) := by
  induction first with
  | nil => exact second
  | cons fetched _ ih => exact .cons fetched (ih second)

theorem start_le (reads : Reads code start stop instrs) (member : instr ∈ instrs) :
    start ≤ instr.offset := by
  induction reads with
  | nil => exact nomatch member
  | @cons start stop head rest fetched later ih =>
      have atStart := offset_of_fetch fetched
      rcases List.mem_cons.1 member with rfl | member
      · exact Nat.le_of_eq atStart.symm
      · have increasing := head.offset_lt_nextOffset
        have := ih member
        omega

theorem increasing (reads : Reads code start stop instrs) :
    instrs.Pairwise (fun first second => first.offset < second.offset) := by
  induction reads with
  | nil => exact .nil
  | @cons start stop head rest fetched later ih =>
      refine .cons (fun other member => ?_) ih
      exact Nat.lt_of_lt_of_le head.offset_lt_nextOffset (later.start_le member)

/-- Reading the rest of the code gives the instructions that stand there. -/
theorem readFrom (reads : Reads code start code.length instrs) (before : List Instr) :
    Decoded.readFrom start (code.drop start) before = ⟨before.reverse ++ instrs, none⟩ := by
  generalize ending : code.length = stop at reads
  induction reads generalizing before with
  | nil =>
      rw [List.drop_of_length_le (Nat.le_of_eq ending), Decoded.readFrom, List.append_nil]
  | @cons start stop head rest fetched later ih =>
      obtain ⟨byte, bytes, dropped, known, fits, shape⟩ := fetch_eq_some fetched
      have next : bytes.drop head.op.width = code.drop head.nextOffset := by
        rw [Instr.nextOffset, offset_of_fetch fetched, Op.length, ← List.drop_drop, dropped,
          Nat.add_comm, List.drop_succ_cons]
      have long : ¬ (bytes.take head.op.width).length < head.op.width := by
        rw [List.length_take]
        omega
      rw [dropped, Decoded.readFrom]
      simp only [known, if_neg long]
      rw [next, ← offset_of_fetch fetched]
      have shape : (⟨head.offset, head.op, bytes.take head.op.width⟩ : Instr) = head := by
        rw [offset_of_fetch fetched]
        exact shape.symm
      rw [shape]
      rw [show head.offset + head.op.length = head.nextOffset from rfl, ih _ ending,
        List.reverse_cons, List.append_assoc, List.singleton_append]

end Reads

theorem Buffer.instructions_of_reads {buffer : Buffer}
    (reads : Reads buffer.bytes.toList 0 buffer.size instrs) :
    buffer.instructions = .ok instrs := by
  have decoded : buffer.decode = ⟨instrs, none⟩ := reads.readFrom []
  rw [instructions, decoded]

end Reading

/-- A mark at an offset. -/
abbrev Mark (α : Type) := Nat × α

/-- The marks at the two addresses where code that decides a condition goes on. -/
def ExprPart.exits {α : Type} (mark : α) : ExprPart → List (Mark α)
  | .branch _ onTrue onFalse | .condition _ onTrue onFalse => [(onTrue, mark), (onFalse, mark)]
  | _ => []

/-- A stretch of code whose instructions have a property, if its end and its exits are marked as
listed; its start and its points are then marked as listed.  The instructions that are watched have
the marks seen, in their order. -/
def Stretch {α : Type} (holds : (Nat → Option α) → Instr → Prop) (watched : Instr → Bool)
    (code : List UInt8) (source target : Mark α) (points exits : List (Mark α)) (seen : List α) :
    Prop :=
  ∃ marked : List (Instr × α), Reads code source.1 target.1 (marked.map Prod.fst) ∧
    (marked.filter (watched ·.1)).map Prod.snd = seen ∧
    ∀ marks : Nat → Option α, (∀ entry ∈ marked, marks entry.1.offset = some entry.2) →
      marks target.1 = some target.2 →
      (∀ point ∈ source :: points, marks point.1 = some point.2) ∧
        ((∀ exit ∈ exits, marks exit.1 = some exit.2) → ∀ entry ∈ marked, holds marks entry.1)

namespace Stretch

variable {α : Type} {holds : (Nat → Option α) → Instr → Prop} {watched : Instr → Bool}
  {code : List UInt8} {source middle target : Mark α}
  {points morePoints exits moreExits : List (Mark α)} {seen moreSeen : List α} {instr : Instr}

theorem nil : Stretch holds watched code source source [] [] [] :=
  ⟨[], .nil, rfl, fun _ _ atEnd =>
    ⟨fun _ member => by rw [List.mem_singleton.1 member]; exact atEnd, fun _ _ => nofun⟩⟩

theorem single {offset : Nat} {mark : α} (fetched : fetch code offset = some instr)
    (next : target.1 = offset + 1 + instr.operands.length)
    (watch : (if watched instr then [mark] else []) = seen)
    (property : ∀ marks, marks offset = some mark → marks target.1 = some target.2 →
      (∀ exit ∈ exits, marks exit.1 = some exit.2) → holds marks instr) :
    Stretch holds watched code (offset, mark) target [] exits seen := by
  rw [← nextOffset_of_fetch fetched] at next
  refine ⟨[(instr, mark)], next ▸ .single fetched, ?_, fun marks marked atEnd => ?_⟩
  · rw [← watch]
    by_cases isWatched : watched instr <;> simp [isWatched]
  have atStart : marks offset = some mark := by
    rw [← offset_of_fetch fetched]
    exact marked _ (List.mem_singleton.2 rfl)
  refine ⟨fun point member => ?_, fun atExits entry member => ?_⟩
  · rw [List.mem_singleton.1 member]
    exact atStart
  · rw [List.mem_singleton.1 member]
    exact property marks atStart atEnd atExits

theorem trans (first : Stretch holds watched code source middle points exits seen)
    (second : Stretch holds watched code middle target morePoints moreExits moreSeen) :
    Stretch holds watched code source target (points ++ middle :: morePoints) (exits ++ moreExits)
      (seen ++ moreSeen) := by
  obtain ⟨marked, reads, sees, property⟩ := first
  obtain ⟨moreMarked, moreReads, moreSees, moreProperty⟩ := second
  refine ⟨marked ++ moreMarked, ?_, ?_, fun marks agree atEnd => ?_⟩
  · rw [List.map_append]
    exact reads.append moreReads
  · rw [List.filter_append, List.map_append, sees, moreSees]
  · rw [List.forall_mem_append] at agree
    obtain ⟨atMiddle, later⟩ := moreProperty marks agree.2 atEnd
    obtain ⟨atStart, earlier⟩ := property marks agree.1 (atMiddle _ List.mem_cons_self)
    rw [← List.cons_append, List.forall_mem_append, List.forall_mem_append, List.forall_mem_append]
    exact ⟨⟨atStart, atMiddle⟩, fun atExits => ⟨earlier atExits.1, later atExits.2⟩⟩

theorem sees (stretch : Stretch holds watched code source target points exits seen)
    (same : seen = moreSeen) : Stretch holds watched code source target points exits moreSeen :=
  same ▸ stretch

/-- What is known inside a stretch need not be listed. -/
theorem close (stretch : Stretch holds watched code source target points exits seen)
    (inside : ∀ exit ∈ exits, exit ∈ source :: target :: points ++ moreExits) :
    Stretch holds watched code source target [] moreExits seen := by
  obtain ⟨marked, reads, sees, property⟩ := stretch
  refine ⟨marked, reads, sees, fun marks agree atEnd => ?_⟩
  obtain ⟨known, all⟩ := property marks agree atEnd
  rw [List.forall_mem_cons] at known
  refine ⟨List.forall_mem_cons.2 ⟨known.1, nofun⟩, fun atExits => all fun exit member => ?_⟩
  rcases List.mem_append.1 (inside exit member) with member | member
  · rcases List.mem_cons.1 member with rfl | member
    · exact known.1
    rcases List.mem_cons.1 member with rfl | member
    · exact atEnd
    · exact known.2 exit member
  · exact atExits exit member

/-- The marks of code that ends in a single instruction. -/
theorem settle (stretch : Stretch holds watched code source target [] [] seen)
    (fetched : fetch code target.1 = some instr) :
    ∃ instrs, ∃ marks : Nat → Option α,
      Reads code source.1 instr.nextOffset (instrs ++ [instr]) ∧
      (∀ offset, (marks offset).isSome ↔ ∃ other ∈ instrs ++ [instr], other.offset = offset) ∧
      marks source.1 = some source.2 ∧ marks target.1 = some target.2 ∧
      (instrs.filter watched).map (fun other => marks other.offset) = seen.map some ∧
      ∀ other ∈ instrs, holds marks other := by
  obtain ⟨marked, reads, sees, property⟩ := stretch
  have reads := reads.append (.single fetched)
  let all := marked ++ [(instr, target.2)]
  let marks : Nat → Option α := fun offset =>
    (all.find? (·.1.offset = offset)).map Prod.snd
  have increasing : all.Pairwise (fun first second => first.1.offset < second.1.offset) := by
    have := reads.increasing
    rwa [show marked.map Prod.fst ++ [instr] = all.map Prod.fst by simp [all],
      List.pairwise_map] at this
  -- Offsets occur once, so that a search for an offset finds the mark listed with it.
  have found : ∀ entry ∈ all, marks entry.1.offset = some entry.2 := by
    intro entry member
    obtain ⟨before, after, split⟩ := List.append_of_mem member
    have earlier : ∀ other ∈ before, ¬ other.1.offset = entry.1.offset := by
      intro other otherMember
      rw [split, List.pairwise_append] at increasing
      exact Nat.ne_of_lt (increasing.2.2 other otherMember entry List.mem_cons_self)
    have missed : before.find? (·.1.offset = entry.1.offset) = none := by
      simpa [List.find?_eq_none] using earlier
    simp only [marks, split, List.find?_append, missed, List.find?_cons_of_pos, decide_true,
      Option.none_or, Option.map_some]
  have agree : ∀ entry ∈ marked, marks entry.1.offset = some entry.2 := fun entry member =>
    found entry (List.mem_append_left _ member)
  have atEnd : marks target.1 = some target.2 := by
    rw [← offset_of_fetch fetched]
    exact found (instr, target.2) (List.mem_append_right _ (List.mem_singleton.2 rfl))
  obtain ⟨atStart, every⟩ := property marks agree atEnd
  refine ⟨marked.map Prod.fst, marks, reads, fun offset => ?_, atStart _ List.mem_cons_self, atEnd,
    ?_, ?_⟩
  · simp [marks, all, List.find?_isSome]
  · rw [← sees, List.filter_map, List.map_map, List.map_map]
    refine List.map_congr_left fun entry member => ?_
    exact agree entry (List.mem_filter.1 member).1
  · intro other member
    obtain ⟨entry, entryMember, rfl⟩ := List.mem_map.1 member
    exact every nofun entry entryMember

end Stretch

end Backpatch
