import Backpatch.Branch
import Backpatch.Proofs.Layout

/-!
# Code with holes

While code is being written, some of its places are open and will be written over later; all other
bytes are there to stay.  So what can be said about the finished code is what follows from a buffer
outside of its holes, and whatever is known once the holes are filled.

A stretch of writing is described from its end: code that agrees with the buffer afterwards, except
in the holes left open, agrees with the buffer before as well, and has the properties for which the
stretch was written.  Such descriptions compose, and filling a hole turns it into a property.
-/

namespace Backpatch

/-- Code holds the given bytes from an offset on. -/
def Holds (code : List UInt8) (offset : Nat) (bytes : List UInt8) : Prop :=
  ∀ index < bytes.length, code[offset + index]? = bytes[index]?

/-- A place in a buffer that is still to be written over. -/
structure Hole where
  offset : Nat
  width : Nat
  deriving DecidableEq

namespace Hole

def Covers (hole : Hole) (index : Nat) : Prop :=
  hole.offset ≤ index ∧ index < hole.offset + hole.width

/-- Two holes share no byte. -/
def Apart (first second : Hole) : Prop :=
  first.offset + first.width ≤ second.offset ∨ second.offset + second.width ≤ first.offset

theorem Apart.symm {first second : Hole} (apart : first.Apart second) : second.Apart first :=
  Or.symm apart

end Hole

def Site.hole (site : Site) : Hole :=
  ⟨site.offset, 2⟩

/-- The finished jump target at a site. -/
def TargetAt (code : List UInt8) (site : Site) (target : Nat) : Prop :=
  target ≤ Buffer.maxTarget ∧ Holds code site.offset (littleEndian 2 target)

theorem Holds.append {code first second : List UInt8} {offset : Nat} :
    Holds code offset (first ++ second) ↔
      Holds code offset first ∧ Holds code (offset + first.length) second := by
  constructor
  · intro both
    constructor
    · intro index bound
      have := both index (by rw [List.length_append]; omega)
      rwa [List.getElem?_append_left bound] at this
    · intro index bound
      have := both (first.length + index) (by rw [List.length_append]; omega)
      rw [List.getElem?_append_right (by omega), Nat.add_sub_cancel_left] at this
      rwa [Nat.add_assoc]
  · rintro ⟨left, right⟩ index bound
    rw [List.length_append] at bound
    by_cases inLeft : index < first.length
    · rw [List.getElem?_append_left inLeft]
      exact left index inLeft
    · rw [List.getElem?_append_right (by omega)]
      have := right (index - first.length) (by omega)
      rwa [show offset + first.length + (index - first.length) = offset + index by omega] at this

theorem Holds.cons {code bytes : List UInt8} {offset : Nat} {byte : UInt8}
    (first : Holds code offset [byte]) (rest : Holds code (offset + 1) bytes) :
    Holds code offset (byte :: bytes) :=
  Holds.append.mpr ⟨first, rest⟩

theorem Holds.drop_eq {code bytes : List UInt8} {offset : Nat} (holds : Holds code offset bytes) :
    ∃ rest, code.drop offset = bytes ++ rest := by
  refine ⟨code.drop (offset + bytes.length), List.ext_getElem? fun index => ?_⟩
  rw [List.getElem?_drop]
  by_cases inside : index < bytes.length
  · rw [List.getElem?_append_left inside]
    exact holds index inside
  · rw [List.getElem?_append_right (by omega), List.getElem?_drop]
    congr 1
    omega

theorem fetch_of_holds {code operands : List UInt8} {offset : Nat} {op : Op}
    (holds : Holds code offset (op.toByte :: operands)) (width : operands.length = op.width) :
    fetch code offset = some ⟨offset, op, operands⟩ := by
  obtain ⟨rest, dropped⟩ := holds.drop_eq
  have fits : ¬ (operands ++ rest).length < op.width := by
    rw [List.length_append]
    omega
  simp only [fetch, dropped, List.cons_append, Op.ofByte?_toByte, if_neg fits]
  rw [← width, List.take_left]

namespace Buffer

def toList (buffer : Buffer) : List UInt8 :=
  buffer.bytes.toList

@[simp]
theorem length_toList (buffer : Buffer) : buffer.toList.length = buffer.size :=
  rfl

theorem ensurePatched_of_openSites {buffer : Buffer} (patched : buffer.openSites = ∅) :
    buffer.ensurePatched = .ok () := by
  rw [ensurePatched, patched]
  rfl

/-- The code is what the buffer says, outside of the holes. -/
def Agrees (buffer : Buffer) (holes : List Hole) (code : List UInt8) : Prop :=
  ∀ index < buffer.size, (∀ hole ∈ holes, ¬ hole.Covers index) →
    code[index]? = buffer.toList[index]?

/-- From one buffer to another, code has been written that leaves the given holes open and ensures
the given facts about the finished code. -/
structure Writes (before after : Buffer) (opened : List Hole) (facts : List UInt8 → Prop) :
    Prop where
  size_le : before.size ≤ after.size
  within : ∀ hole ∈ opened,
    before.size ≤ hole.offset ∧ 0 < hole.width ∧ hole.offset + hole.width ≤ after.size
  apart : opened.Pairwise Hole.Apart
  open_iff : ∀ offset,
    offset ∈ after.openSites ↔ offset ∈ before.openSites ∨ ∃ hole ∈ opened, hole.offset = offset
  ensures : ∀ outer code, (∀ hole ∈ outer, hole.offset + hole.width ≤ before.size) →
    after.Agrees (outer ++ opened) code → before.Agrees outer code ∧ facts code

namespace Writes

variable {before middle after : Buffer} {opened more : List Hole}
  {facts moreFacts : List UInt8 → Prop}

theorem refl (buffer : Buffer) : Writes buffer buffer [] fun _ => True where
  size_le := Nat.le_refl _
  within := by simp
  apart := .nil
  open_iff := by simp
  ensures outer code _ agrees := ⟨by simpa using agrees, trivial⟩

theorem imp (writes : Writes before after opened facts)
    (weaken : ∀ code, facts code → moreFacts code) : Writes before after opened moreFacts where
  size_le := writes.size_le
  within := writes.within
  apart := writes.apart
  open_iff := writes.open_iff
  ensures outer code bounded agrees :=
    (writes.ensures outer code bounded agrees).imp_right (weaken code)

theorem trans (first : Writes before middle opened facts)
    (second : Writes middle after more moreFacts) :
    Writes before after (opened ++ more) fun code => facts code ∧ moreFacts code where
  size_le := Nat.le_trans first.size_le second.size_le
  within hole member := by
    have firstLe := first.size_le
    have secondLe := second.size_le
    rcases List.mem_append.mp member with early | late
    · have := first.within hole early
      omega
    · have := second.within hole late
      omega
  apart := by
    rw [List.pairwise_append]
    refine ⟨first.apart, second.apart, fun early earlyMem late lateMem => Or.inl ?_⟩
    have := first.within early earlyMem
    have := second.within late lateMem
    omega
  open_iff offset := by
    rw [second.open_iff, first.open_iff]
    simp only [List.mem_append, or_and_right, exists_or, or_assoc]
  ensures outer code bounded agrees := by
    have within : ∀ hole ∈ outer ++ opened, hole.offset + hole.width ≤ middle.size := by
      intro hole member
      have := first.size_le
      rcases List.mem_append.mp member with old | new
      · exact Nat.le_trans (bounded hole old) this
      · exact (first.within hole new).2.2
    rw [← List.append_assoc] at agrees
    obtain ⟨agreesMiddle, later⟩ := second.ensures _ code within agrees
    obtain ⟨agreesBefore, earlier⟩ := first.ensures _ code bounded agreesMiddle
    exact ⟨agreesBefore, earlier, later⟩

theorem perm (writes : Writes before after opened facts) (same : opened.Perm more) :
    Writes before after more facts where
  size_le := writes.size_le
  within hole member := writes.within hole (same.mem_iff.mpr member)
  apart := (same.pairwise_iff fun apart => apart.symm).mp writes.apart
  open_iff offset := by
    rw [writes.open_iff]
    simp only [same.mem_iff]
  ensures outer code bounded agrees := by
    apply writes.ensures outer code bounded
    intro index inBuffer outside
    apply agrees index inBuffer
    intro hole member
    apply outside hole
    simpa only [List.mem_append, same.mem_iff] using member

/-- Code as it is written, with what stands in its holes for now, is code like any other. -/
theorem ensures_toList (writes : Writes before after opened facts) :
    before.Agrees [] after.toList ∧ facts after.toList :=
  writes.ensures [] after.toList (List.forall_mem_nil _) fun _ _ _ => rfl

/-- Code that is written leaves the code before it as it is. -/
theorem exists_append (writes : Writes before after opened facts) :
    ∃ bytes, after.toList = before.toList ++ bytes := by
  have isPrefix : before.toList <+: after.toList := by
    refine List.prefix_iff_getElem?.mpr fun index inside => ?_
    rw [writes.ensures_toList.1 index inside (List.forall_mem_nil _),
      List.getElem?_eq_getElem inside]
  obtain ⟨bytes, appended⟩ := isPrefix
  exact ⟨bytes, appended.symm⟩

end Writes

@[simp]
theorem toList_append (buffer : Buffer) (bytes : List UInt8) :
    (buffer.append bytes).toList = buffer.toList ++ bytes := by
  simp [append, toList]

@[simp]
theorem toList_emit (buffer : Buffer) (op : Op) :
    (buffer.emit op).toList = buffer.toList ++ [op.toByte] := by
  simp [emit, toList]

@[simp]
theorem toList_openAt (buffer : Buffer) (offset : Nat) :
    (buffer.openAt offset).toList = buffer.toList :=
  rfl

@[simp]
theorem size_append (buffer : Buffer) (bytes : List UInt8) :
    (buffer.append bytes).size = buffer.size + bytes.length := by
  rw [← length_toList, toList_append, List.length_append, length_toList]

@[simp]
theorem size_emit (buffer : Buffer) (op : Op) : (buffer.emit op).size = buffer.size + 1 := by
  rw [← length_toList, toList_emit, List.length_append, length_toList]
  rfl

@[simp]
theorem size_openAt (buffer : Buffer) (offset : Nat) : (buffer.openAt offset).size = buffer.size :=
  rfl

@[simp]
theorem openSites_append (buffer : Buffer) (bytes : List UInt8) :
    (buffer.append bytes).openSites = buffer.openSites :=
  rfl

@[simp]
theorem openSites_emit (buffer : Buffer) (op : Op) :
    (buffer.emit op).openSites = buffer.openSites :=
  rfl

theorem mem_openAt {buffer : Buffer} {opened offset : Nat} :
    offset ∈ (buffer.openAt opened).openSites ↔ offset ∈ buffer.openSites ∨ opened = offset := by
  rw [openAt, Std.ExtTreeSet.mem_insert, Nat.compare_eq_eq]
  exact Or.comm

namespace Writes

variable {before middle after : Buffer} {opened rest : List Hole} {facts : List UInt8 → Prop}

/-- What both ways of appending have in common. -/
private theorem agrees_of_append {holes outer : List Hole} {bytes code : List UInt8}
    (appended : after.toList = before.toList ++ bytes) (agrees : after.Agrees (outer ++ holes) code)
    (beyond : ∀ hole ∈ holes, before.size ≤ hole.offset) : before.Agrees outer code := by
  intro index inBefore outside
  have inAfter : index < after.size := by
    rw [← length_toList, appended, List.length_append, length_toList]
    omega
  have same := agrees index inAfter fun hole member covers => by
    rcases List.mem_append.mp member with old | new
    · exact outside hole old covers
    · have := beyond hole new
      have := covers.1
      omega
  rw [same, appended, List.getElem?_append_left (by simpa using inBefore)]

theorem ofAppend {bytes : List UInt8} (appended : after.toList = before.toList ++ bytes)
    (sameSites : after.openSites = before.openSites) :
    Writes before after [] fun code => Holds code before.size bytes where
  size_le := by
    rw [← length_toList, ← length_toList after, appended, List.length_append]
    omega
  within := by simp
  apart := .nil
  open_iff := by simp [sameSites]
  ensures outer code bounded agrees := by
    refine ⟨agrees_of_append appended agrees (by simp), fun index inBytes => ?_⟩
    have inAfter : before.size + index < after.size := by
      rw [← length_toList after, appended, List.length_append, length_toList]
      omega
    have same := agrees (before.size + index) inAfter fun hole member covers => by
      have := bounded hole (by simpa using member)
      have := covers.2
      omega
    rw [same, appended, List.getElem?_append_right (by simp), length_toList,
      Nat.add_sub_cancel_left]

theorem ofReserve {bytes : List UInt8} (appended : after.toList = before.toList ++ bytes)
    (nonempty : 0 < bytes.length)
    (sites : ∀ offset, offset ∈ after.openSites ↔
      offset ∈ before.openSites ∨ before.size = offset) :
    Writes before after [⟨before.size, bytes.length⟩] fun _ => True where
  size_le := by
    rw [← length_toList, ← length_toList after, appended, List.length_append]
    omega
  within hole member := by
    obtain rfl := List.mem_singleton.mp member
    refine ⟨Nat.le_refl _, nonempty, ?_⟩
    have grown : after.size = before.size + bytes.length := by
      rw [← length_toList after, appended, List.length_append, length_toList]
    exact Nat.le_of_eq grown.symm
  apart := List.pairwise_singleton _ _
  open_iff offset := by simp [sites]
  ensures outer code _ agrees :=
    ⟨agrees_of_append appended agrees (by simp), trivial⟩

/-- Writing over a hole makes its bytes part of the finished code. -/
theorem fill {hole : Hole} {bytes : List UInt8} (writes : Writes before middle (hole :: rest) facts)
    (inside : ∀ offset ∈ before.openSites, offset < before.size)
    (width : bytes.length = hole.width) (sameSize : after.size = middle.size)
    (written : ∀ index < bytes.length, after.toList[hole.offset + index]? = bytes[index]?)
    (untouched : ∀ index, ¬ hole.Covers index → after.toList[index]? = middle.toList[index]?)
    (sites : ∀ offset, offset ∈ after.openSites ↔
      offset ∈ middle.openSites ∧ offset ≠ hole.offset) :
    Writes before after rest fun code => facts code ∧ Holds code hole.offset bytes := by
  have holeWithin := writes.within hole (by simp)
  have apartRest : ∀ other ∈ rest, hole.Apart other := (List.pairwise_cons.mp writes.apart).1
  refine ⟨sameSize ▸ writes.size_le, ?_, (List.pairwise_cons.mp writes.apart).2, ?_, ?_⟩
  · intro other member
    rw [sameSize]
    exact writes.within other (List.mem_cons_of_mem _ member)
  · intro offset
    rw [sites, writes.open_iff]
    constructor
    · rintro ⟨old | ⟨other, member, rfl⟩, different⟩
      · exact Or.inl old
      · rcases List.mem_cons.mp member with rfl | inRest
        · exact (different rfl).elim
        · exact Or.inr ⟨other, inRest, rfl⟩
    · rintro (old | ⟨other, inRest, rfl⟩)
      · have := inside offset old
        exact ⟨Or.inl old, by omega⟩
      · refine ⟨Or.inr ⟨other, List.mem_cons_of_mem _ inRest, rfl⟩, ?_⟩
        have := writes.within other (List.mem_cons_of_mem _ inRest)
        rcases apartRest other inRest with early | late <;> omega
  · intro outer code bounded agrees
    -- Outside of the hole nothing has changed, so the code agrees with the earlier buffer too.
    have agreesMiddle : middle.Agrees (outer ++ hole :: rest) code := by
      intro index inMiddle outside
      have same := agrees index (by omega) fun other member => by
        apply outside other
        rcases List.mem_append.mp member with old | new
        · exact List.mem_append_left _ old
        · exact List.mem_append_right _ (List.mem_cons_of_mem _ new)
      rw [same]
      exact untouched index (outside hole (by simp))
    obtain ⟨agreesBefore, known⟩ := writes.ensures outer code bounded agreesMiddle
    refine ⟨agreesBefore, known, fun index inBytes => ?_⟩
    -- No other hole covers the bytes just written, so the code must have them.
    have same := agrees (hole.offset + index) (by omega) fun other member covers => by
      have low := covers.1
      have high := covers.2
      rcases List.mem_append.mp member with old | new
      · have := bounded other old
        omega
      · have := writes.within other (List.mem_cons_of_mem _ new)
        rcases apartRest other new with early | late <;> omega
    rw [same, written index inBytes]

end Writes

theorem toList_overwrite (buffer : Buffer) (offset : Nat) (bytes : List UInt8) :
    (buffer.overwrite offset bytes).size = buffer.size ∧
      (buffer.overwrite offset bytes).openSites = buffer.openSites ∧
      ∀ index, (buffer.overwrite offset bytes).toList[index]? =
        if offset ≤ index ∧ index < offset + bytes.length ∧ index < buffer.size then
          bytes[index - offset]?
        else buffer.toList[index]? := by
  induction bytes generalizing buffer offset with
  | nil =>
      refine ⟨rfl, rfl, fun index => ?_⟩
      rw [if_neg (by simp only [List.length_nil]; omega)]
      rfl
  | cons byte bytes ih =>
      obtain ⟨sameSize, sameSites, rest⟩ :=
        ih { buffer with bytes := buffer.bytes.setIfInBounds offset byte } (offset + 1)
      have sizeSet : size { buffer with bytes := buffer.bytes.setIfInBounds offset byte } =
          buffer.size := by
        simp [size]
      refine ⟨sameSize.trans sizeSet, sameSites, fun index => ?_⟩
      rw [overwrite, rest index, sizeSet]
      by_cases here : index = offset
      · subst here
        rw [if_neg (by omega)]
        by_cases inBuffer : index < buffer.size
        · rw [if_pos (by simp only [List.length_cons]; omega)]
          simp only [toList, Array.toList_setIfInBounds, Nat.sub_self, List.getElem?_cons_zero]
          exact List.getElem?_set_self inBuffer
        · rw [if_neg (by omega)]
          simp only [toList, Array.toList_setIfInBounds]
          rw [List.set_eq_of_length_le (Nat.le_of_not_lt inBuffer)]
      · by_cases later : offset + 1 ≤ index ∧ index < offset + 1 + bytes.length ∧
            index < buffer.size
        · rw [if_pos later, if_pos (by simp only [List.length_cons]; omega)]
          rw [show index - offset = (index - (offset + 1)) + 1 by omega, List.getElem?_cons_succ]
        · rw [if_neg later, if_neg (by simp only [List.length_cons]; omega)]
          simp only [toList, Array.toList_setIfInBounds]
          rw [List.getElem?_set_ne (Ne.symm here)]

/-- Patching a place of the buffer writes over it and succeeds. -/
theorem patchBytes_eq {buffer : Buffer} {offset : Nat} {bytes : List UInt8}
    (inside : offset + bytes.length ≤ buffer.size) :
    patchBytes offset bytes buffer = .ok () (buffer.overwrite offset bytes) := by
  rw [patchBytes, if_pos inside]

theorem bind_patchBytes {α : Type} (offset : Nat) (bytes : List UInt8) (next : Unit → BufferM α)
    (buffer : Buffer) :
    EStateM.bind (patchBytes offset bytes) next buffer =
      if offset + bytes.length ≤ buffer.size then next () (buffer.overwrite offset bytes)
      else .error (.patchOutOfRange offset buffer.size) buffer := by
  rw [EStateM.bind.eq_1, patchBytes]
  by_cases inside : offset + bytes.length ≤ buffer.size
  · rw [if_pos inside, if_pos inside]
  · rw [if_neg inside, if_neg inside]

theorem mem_erase {buffer : Buffer} {closed offset : Nat} :
    offset ∈ buffer.openSites.erase closed ↔ offset ∈ buffer.openSites ∧ offset ≠ closed := by
  rw [Std.ExtTreeSet.mem_erase]
  simp only [ne_eq, Nat.compare_eq_eq]
  constructor
  · rintro ⟨different, member⟩
    exact ⟨member, fun same => different same.symm⟩
  · rintro ⟨member, different⟩
    exact ⟨fun same => different same.symm, member⟩

/-- A buffer whose bytes at an offset are written over and whose site there is closed. -/
def filled (buffer : Buffer) (offset : Nat) (bytes : List UInt8) : Buffer :=
  { buffer.overwrite offset bytes with
    openSites := (buffer.overwrite offset bytes).openSites.erase offset }

theorem size_filled (buffer : Buffer) (offset : Nat) (bytes : List UInt8) :
    (buffer.filled offset bytes).size = buffer.size :=
  (toList_overwrite buffer offset bytes).1

theorem Writes.filled {before middle : Buffer} {rest : List Hole} {facts : List UInt8 → Prop}
    {hole : Hole} (writes : Writes before middle (hole :: rest) facts)
    (inside : ∀ offset ∈ before.openSites, offset < before.size) (bytes : List UInt8)
    (width : bytes.length = hole.width) :
    Writes before (middle.filled hole.offset bytes) rest fun code =>
      facts code ∧ Holds code hole.offset bytes := by
  have holeWithin := writes.within hole (by simp)
  obtain ⟨sameSize, sameSites, contents⟩ := toList_overwrite middle hole.offset bytes
  refine writes.fill inside width sameSize ?_ ?_ ?_
  · intro index inBytes
    refine (contents _).trans ?_
    rw [if_pos (by omega), Nat.add_sub_cancel_left]
  · intro index uncovered
    refine (contents index).trans (if_neg ?_)
    rintro ⟨low, high, -⟩
    exact uncovered ⟨low, by omega⟩
  · intro offset
    rw [Buffer.filled, mem_erase, sameSites]

theorem patchTarget_eq {buffer : Buffer} {site : Site} (target : Nat)
    (inside : site.offset + 2 ≤ buffer.size) :
    patchTarget site target buffer =
      if target > maxTarget then .error (.codeTooLarge target) buffer
      else .ok () (buffer.filled site.offset (littleEndian 2 (UInt16.ofNat target).toNat)) := by
  unfold patchTarget
  split
  · rfl
  · change EStateM.bind (patchWord _ _) _ _ = _
    rw [EStateM.bind, patchWord, patchBytes_eq (by rw [length_littleEndian]; exact inside)]
    rfl

theorem patchOpSite_eq {buffer : Buffer} {site : Site} (op : Op)
    (inside : site.offset + 1 ≤ buffer.size) :
    patchOpSite site op buffer = .ok () (buffer.filled site.offset [op.toByte]) := by
  change EStateM.bind (patchOp _ _) _ _ = _
  rw [EStateM.bind, patchOp, patchBytes_eq inside]
  rfl

/-- Leading sites to a target fills them, unless the target is too far. -/
theorem Writes.patchTargets {before middle : Buffer} {rest : List Hole}
    {facts : List UInt8 → Prop} {sites : List Site} (target : Nat)
    (writes : Writes before middle (sites.map Site.hole ++ rest) facts)
    (inside : ∀ offset ∈ before.openSites, offset < before.size) :
    match Buffer.patchTargets sites target middle with
    | .ok _ after =>
        after.size = middle.size ∧
          Writes before after rest fun code =>
            facts code ∧ ∀ site ∈ sites, TargetAt code site target
    | .error error after =>
        error = .codeTooLarge target ∧ maxTarget < target ∧ after.size = middle.size := by
  induction sites generalizing middle facts with
  | nil => exact ⟨rfl, writes.imp fun code known => ⟨known, by simp⟩⟩
  | cons site sites ih =>
      have siteWithin := writes.within site.hole (by simp)
      have patched := patchTarget_eq target siteWithin.2.2
      change match EStateM.bind (patchTarget site target)
        (fun _ => Buffer.patchTargets sites target) middle with
      | .ok _ after => _
      | .error error after => _
      rw [EStateM.bind, patched]
      by_cases far : target > maxTarget
      · rw [if_pos far]
        exact ⟨rfl, far, rfl⟩
      · rw [if_neg far]
        have small : (UInt16.ofNat target).toNat = target := by
          rw [UInt16.toNat_ofNat']
          exact Nat.mod_eq_of_lt (by unfold maxTarget at far; omega)
        have once := writes.filled inside (littleEndian 2 (UInt16.ofNat target).toNat)
          (by rw [length_littleEndian]; rfl)
        have later := ih once
        simp only [Site.hole] at later
        dsimp only
        cases run : Buffer.patchTargets sites target
            (middle.filled site.offset (littleEndian 2 (UInt16.ofNat target).toNat)) with
        | ok result after =>
            rw [run] at later
            refine ⟨later.1.trans (size_filled _ _ _), later.2.imp fun code known => ?_⟩
            obtain ⟨⟨known, here⟩, others⟩ := known
            refine ⟨known, fun other member => ?_⟩
            rcases List.mem_cons.mp member with rfl | inRest
            · rw [small] at here
              exact ⟨by omega, here⟩
            · exact others other inRest
        | error error after =>
            rw [run] at later
            exact ⟨later.1, later.2.1, later.2.2.trans (size_filled _ _ _)⟩

namespace Writes

theorem ofInstr {before after : Buffer} {op : Op} {operands : List UInt8}
    (appended : after.toList = before.toList ++ op.toByte :: operands)
    (sameSites : after.openSites = before.openSites) (width : operands.length = op.width) :
    Writes before after [] fun code =>
      fetch code before.size = some ⟨before.size, op, operands⟩ :=
  (ofAppend appended sameSites).imp fun _ holds => fetch_of_holds holds width

theorem emit (buffer : Buffer) {op : Op} (plain : op.width = 0) :
    Writes buffer (buffer.emit op) [] fun code => PlainAt code buffer.size op :=
  ofInstr (toList_emit buffer op) rfl plain.symm

theorem emitWithWord (buffer : Buffer) {op : Op} (word : UInt16) (wide : op.width = 2) :
    Writes buffer (buffer.emitWithWord op word) [] fun code => WordAt code buffer.size op word :=
  ofInstr (by simp [Buffer.emitWithWord, emitWord]) rfl (by rw [length_littleEndian, wide])

theorem emitWithWords (buffer : Buffer) {op : Op} (first second : UInt16) (wide : op.width = 4) :
    Writes buffer (((buffer.emit op).emitWord first).emitWord second) [] fun code =>
      fetch code buffer.size = some ⟨buffer.size, op,
        littleEndian 2 first.toNat ++ littleEndian 2 second.toNat⟩ :=
  ofInstr (by simp [emitWord]) rfl
    (by rw [List.length_append, length_littleEndian, length_littleEndian, wide])

theorem reserveWord (buffer : Buffer) :
    Writes buffer buffer.reserveWord.2 [buffer.reserveWord.1.hole] fun _ => True := by
  have appended : buffer.reserveWord.2.toList = buffer.toList ++ littleEndian 2 0xFFFF := by
    simp [Buffer.reserveWord, emitWord]
  have reserved := ofReserve appended (by decide) fun offset => mem_openAt
  exact reserved

theorem reserveOp (buffer : Buffer) :
    Writes buffer buffer.reserveOp.2 [⟨buffer.size, 1⟩] fun _ => True :=
  have appended : buffer.reserveOp.2.toList = buffer.toList ++ [Op.invalid.toByte] := by
    simp [Buffer.reserveOp]
  ofReserve appended (by decide) fun _ => mem_openAt

end Writes

theorem size_reserveWord (buffer : Buffer) : buffer.reserveWord.2.size = buffer.size + 2 := by
  simp [reserveWord, emitWord]

theorem size_reserveOp (buffer : Buffer) : buffer.reserveOp.2.size = buffer.size + 1 := by
  simp [reserveOp]

theorem size_emitWithWord (buffer : Buffer) (op : Op) (word : UInt16) :
    (buffer.emitWithWord op word).size = buffer.size + 3 := by
  simp [emitWithWord, emitWord]

theorem size_emitWithWords (buffer : Buffer) (op : Op) (first second : UInt16) :
    (((buffer.emit op).emitWord first).emitWord second).size = buffer.size + 5 := by
  simp [emitWord]

/-- The opcode of an instruction whose operands are written afterwards. -/
theorem Writes.opcode (buffer : Buffer) (op : Op) :
    Writes buffer (buffer.emit op) [] fun code => Holds code buffer.size [op.toByte] :=
  ofAppend (toList_emit buffer op) rfl

theorem Writes.emitJump (buffer : Buffer) :
    Writes buffer (buffer.emit .jump).reserveWord.2 [(buffer.emit .jump).reserveWord.1.hole]
      fun code => ∀ target, TargetAt code (buffer.emit .jump).reserveWord.1 target →
        JumpAt code buffer.size target := by
  refine ((Writes.opcode buffer .jump).trans (Writes.reserveWord _)).imp ?_
  rintro code ⟨opcode, -⟩ target ⟨near, bytes⟩
  have operand : Holds code (buffer.size + 1) (littleEndian 2 target) := by
    simpa [Buffer.reserveWord] using bytes
  exact ⟨near, fetch_of_holds (Holds.cons opcode operand) (length_littleEndian _ _)⟩

theorem size_emitJump (buffer : Buffer) :
    (buffer.emit .jump).reserveWord.2.size = buffer.size + 3 := by
  rw [size_reserveWord, size_emit]

theorem Writes.emitBranch (buffer : Buffer) {op : Op} (wide : op.width = 4) :
    Writes buffer (buffer.emitBranch op).2
      (((buffer.emitBranch op).1.trueSites ++ (buffer.emitBranch op).1.falseSites).map Site.hole)
      fun code => ∀ onTrue onFalse,
        (∀ site ∈ (buffer.emitBranch op).1.trueSites, TargetAt code site onTrue) →
        (∀ site ∈ (buffer.emitBranch op).1.falseSites, TargetAt code site onFalse) →
        BranchAt code buffer.size op onTrue onFalse := by
  refine (((Writes.opcode buffer op).trans (Writes.reserveWord _)).trans
    (Writes.reserveWord _)).imp ?_
  rintro code ⟨⟨opcode, -⟩, -⟩ onTrue onFalse trueTargets falseTargets
  obtain ⟨trueNear, trueBytes⟩ := trueTargets _ List.mem_cons_self
  obtain ⟨falseNear, falseBytes⟩ := falseTargets _ List.mem_cons_self
  have trueOperand : Holds code (buffer.size + 1) (littleEndian 2 onTrue) := by
    simpa [Buffer.reserveWord] using trueBytes
  have falseOperand : Holds code (buffer.size + 1 + 2) (littleEndian 2 onFalse) := by
    simpa [Buffer.reserveWord, emitWord] using falseBytes
  have operands := Holds.append.mpr
    ⟨trueOperand, by rw [length_littleEndian]; exact falseOperand⟩
  exact ⟨trueNear, falseNear, fetch_of_holds (Holds.cons opcode operands)
    (by rw [List.length_append, length_littleEndian, length_littleEndian, wide])⟩

theorem size_emitBranch (buffer : Buffer) (op : Op) :
    (buffer.emitBranch op).2.size = buffer.size + 5 := by
  change ((buffer.emit op).reserveWord.2.reserveWord.2).size = _
  rw [size_reserveWord, size_reserveWord, size_emit]

end Buffer

end Backpatch
