import Backpatch.Proofs.WellFormed

/-!
# Buffers over a whole run

A buffer is made by requests one after the other: bytes are appended, places are reserved, and what
has been written is written over, at any offset and any number of times.  A request that is refused
does not end the run.  What one request can do is said once, by `Request.Outcome`.  From it follows
that a buffer is what its history tells: at each offset stands the byte that was written there last,
and the open sites are the places that were reserved and have not been closed since.
-/

namespace Backpatch.Buffer

/-- What can be asked of a buffer. -/
inductive Request
  | emit (op : Op)
  | emitWord (word : UInt16)
  | emitInt (value : Int64)
  | emitDouble (value : Double)
  | emitWithWord (op : Op) (word : UInt16)
  | reserveWord
  | reserveOp
  | patchTarget (site : Site) (target : Nat)
  | patchOpSite (site : Site) (op : Op)
  | patchWord (offset : Nat) (word : UInt16)
  | patchOp (offset : Nat) (op : Op)

/-- The buffer that a request leaves, whether it is refused or not. -/
def bufferOf : EStateM.Result CodeError Buffer (Option Site) → Buffer
  | .ok _ buffer => buffer
  | .error _ buffer => buffer

namespace Request

/-- Do what is asked; a reservation answers with its site. -/
def perform : Request → BufferM (Option Site)
  | emit op => fun buffer => .ok none (buffer.emit op)
  | emitWord word => fun buffer => .ok none (buffer.emitWord word)
  | emitInt value => fun buffer => .ok none (buffer.emitInt value)
  | emitDouble value => fun buffer => .ok none (buffer.emitDouble value)
  | emitWithWord op word => fun buffer => .ok none (buffer.emitWithWord op word)
  | reserveWord => fun buffer => .ok (some buffer.reserveWord.1) buffer.reserveWord.2
  | reserveOp => fun buffer => .ok (some buffer.reserveOp.1) buffer.reserveOp.2
  | patchTarget site target => do
      Buffer.patchTarget site target
      return none
  | patchOpSite site op => do
      Buffer.patchOpSite site op
      return none
  | patchWord offset word => do
      Buffer.patchWord offset word
      return none
  | patchOp offset op => do
      Buffer.patchOp offset op
      return none

/-- The bytes to be written. -/
def bytes : Request → List UInt8
  | emit op | patchOpSite _ op | patchOp _ op => [op.toByte]
  | emitWord word | patchWord _ word => littleEndian 2 word.toNat
  | emitInt value => littleEndian 8 value.toUInt64.toNat
  | emitDouble value => littleEndian 8 value.bits.toNat
  | emitWithWord op word => op.toByte :: littleEndian 2 word.toNat
  | reserveWord => littleEndian 2 0xFFFF
  | reserveOp => [Op.invalid.toByte]
  | patchTarget _ target => littleEndian 2 target

/-- The offset at which bytes are written over; other requests append. -/
def place? : Request → Option Nat
  | patchTarget site _ | patchOpSite site _ => some site.offset
  | patchWord offset _ | patchOp offset _ => some offset
  | _ => none

def isReservation : Request → Bool
  | reserveWord | reserveOp => true
  | _ => false

/-- The offset of the site that is closed. -/
def closes? : Request → Option Nat
  | patchTarget site _ | patchOpSite site _ => some site.offset
  | _ => none

/-- The number of bytes by which a buffer gets longer. -/
def growth (request : Request) : Nat :=
  if request.place? = none then request.bytes.length else 0

/-- The answer of a buffer of some length that does what is asked. -/
def answer? (length : Nat) (request : Request) : Option Site :=
  if request.isReservation then some ⟨length⟩ else none

/-- No target is asked for that a jump cannot name. -/
def IsNear (request : Request) : Prop :=
  ∀ site target, request = .patchTarget site target → target ≤ maxTarget

/-- Why a buffer of some length refuses a request. -/
inductive Refused (length : Nat) : Request → CodeError → Prop
  | far {site : Site} {target : Nat} (far : maxTarget < target) :
      Refused length (.patchTarget site target) (.codeTooLarge target)
  | beyond {request : Request} {place : Nat} (near : request.IsNear)
      (patches : request.place? = some place) (beyond : length < place + request.bytes.length) :
      Refused length request (.patchOutOfRange place length)

/-- All that a request can do to a buffer and answer. -/
inductive Outcome (buffer : Buffer) (request : Request) :
    EStateM.Result CodeError Buffer (Option Site) → Prop
  | appended {after : Buffer} (appends : request.place? = none)
      (bytes : after.toList = buffer.toList ++ request.bytes)
      (sites : ∀ offset, offset ∈ after.openSites ↔
        offset ∈ buffer.openSites ∨ request.isReservation ∧ buffer.size = offset) :
      Outcome buffer request (.ok (request.answer? buffer.size) after)
  | patched {place : Nat} {after : Buffer} (near : request.IsNear)
      (patches : request.place? = some place)
      (inside : place + request.bytes.length ≤ buffer.size) (size : after.size = buffer.size)
      (bytes : ∀ index, after.toList[index]? =
        if place ≤ index ∧ index < place + request.bytes.length then request.bytes[index - place]?
        else buffer.toList[index]?)
      (sites : ∀ offset, offset ∈ after.openSites ↔
        offset ∈ buffer.openSites ∧ request.closes? ≠ some offset) :
      Outcome buffer request (.ok none after)
  | refused {error : CodeError} (refused : request.Refused buffer.size error) :
      Outcome buffer request (.error error buffer)

namespace Outcome

variable {buffer : Buffer} {request : Request} {place : Nat} {bytes : List UInt8}

/-- A request that appends and reserves nothing. -/
theorem ofAppend {after : Buffer} (appends : request.place? = none)
    (bytes : after.toList = buffer.toList ++ request.bytes)
    (sites : after.openSites = buffer.openSites) (plain : request.isReservation = false) :
    Outcome buffer request (.ok none after) := by
  have answer : request.answer? buffer.size = none := by rw [answer?, plain]; rfl
  rw [← answer]
  exact .appended appends bytes (by simp [sites, plain])

theorem ofReserve {after : Buffer} (appends : request.place? = none)
    (bytes : after.toList = buffer.toList ++ request.bytes)
    (sites : after.openSites = (buffer.openAt buffer.size).openSites)
    (reserves : request.isReservation = true) :
    Outcome buffer request (.ok (some ⟨buffer.size⟩) after) := by
  have answer : request.answer? buffer.size = some ⟨buffer.size⟩ := by rw [answer?, reserves]; rfl
  rw [← answer]
  exact .appended appends bytes fun offset => by rw [sites, mem_openAt]; simp [reserves]

/-- A request that writes over bytes, if they are there. -/
theorem ofPatch {after : Buffer} (near : request.IsNear) (patches : request.place? = some place)
    (performed : request.perform buffer =
      if place + request.bytes.length ≤ buffer.size then .ok none after
      else .error (.patchOutOfRange place buffer.size) buffer)
    (written : after.bytes = (buffer.overwrite place request.bytes).bytes)
    (sites : ∀ offset, offset ∈ after.openSites ↔
      offset ∈ buffer.openSites ∧ request.closes? ≠ some offset) :
    Outcome buffer request (request.perform buffer) := by
  rw [performed]
  split
  case isTrue inside =>
      obtain ⟨size, -, contents⟩ := toList_overwrite buffer place request.bytes
      refine .patched near patches inside ?_ (fun index => ?_) sites
      · exact (congrArg Array.size written).trans size
      · have covered :
            (place ≤ index ∧ index < place + request.bytes.length ∧ index < buffer.size) ↔
              (place ≤ index ∧ index < place + request.bytes.length) := by omega
        rw [toList, written, ← toList, contents]
        simp only [covered]
  case isFalse outside =>
      exact .refused (.beyond near patches (Nat.lt_of_not_le outside))

end Outcome

theorem perform_patchTarget {target : Nat} (site : Site) (near : ¬ target > maxTarget)
    (buffer : Buffer) :
    perform (.patchTarget site target) buffer =
      if site.offset + 2 ≤ buffer.size then
        .ok none (buffer.filled site.offset (littleEndian 2 target))
      else .error (.patchOutOfRange site.offset buffer.size) buffer := by
  have small : (UInt16.ofNat target).toNat = target :=
    UInt16.toNat_ofNat_of_lt' (Nat.lt_succ_of_le (Nat.le_of_not_lt near))
  have opened : Buffer.patchTarget site target =
      (do patchBytes site.offset (littleEndian 2 target); close site) := by
    rw [Buffer.patchTarget, if_neg near, Buffer.patchWord, small]
  rw [perform, opened, bind_assoc]
  exact bind_patchBytes site.offset (littleEndian 2 target) _ buffer

theorem outcome (request : Request) (buffer : Buffer) :
    Outcome buffer request (request.perform buffer) := by
  have closed : ∀ (site : Site) (bytes : List UInt8) (offset : Nat),
      offset ∈ (buffer.filled site.offset bytes).openSites ↔
        offset ∈ buffer.openSites ∧ some site.offset ≠ some offset := by
    intro site bytes offset
    rw [filled, mem_erase, (toList_overwrite buffer site.offset bytes).2.1]
    simp [eq_comm]
  cases request with
  | emit op => exact .ofAppend rfl (toList_emit buffer op) rfl rfl
  | emitWord word => exact .ofAppend rfl (toList_append buffer _) rfl rfl
  | emitInt value => exact .ofAppend rfl (toList_append buffer _) rfl rfl
  | emitDouble value => exact .ofAppend rfl (toList_append buffer _) rfl rfl
  | emitWithWord op word =>
      exact .ofAppend rfl (by simp [Buffer.emitWithWord, Buffer.emitWord, bytes]) rfl rfl
  | reserveWord =>
      exact .ofReserve rfl (by simp [Buffer.reserveWord, Buffer.emitWord, bytes]) rfl rfl
  | reserveOp => exact .ofReserve rfl (by simp [Buffer.reserveOp, bytes]) rfl rfl
  | patchWord offset word =>
      refine .ofPatch (fun _ _ same => by cases same) rfl ?_ rfl fun other => ?_
      · change EStateM.bind (patchBytes offset (littleEndian 2 word.toNat)) _ buffer = _
        exact bind_patchBytes offset _ _ buffer
      · rw [(toList_overwrite buffer offset _).2.1]
        simp [closes?]
  | patchOp offset op =>
      refine .ofPatch (fun _ _ same => by cases same) rfl ?_ rfl fun other => ?_
      · change EStateM.bind (patchBytes offset [op.toByte]) _ buffer = _
        exact bind_patchBytes offset _ _ buffer
      · rw [(toList_overwrite buffer offset _).2.1]
        simp [closes?]
  | patchOpSite site op =>
      have performed : perform (.patchOpSite site op) buffer =
          if site.offset + 1 ≤ buffer.size then .ok none (buffer.filled site.offset [op.toByte])
          else .error (.patchOutOfRange site.offset buffer.size) buffer := by
        rw [perform, Buffer.patchOpSite, bind_assoc]
        exact bind_patchBytes site.offset [op.toByte] _ buffer
      exact .ofPatch (fun _ _ same => by cases same) rfl performed rfl (closed site _)
  | patchTarget site target =>
      by_cases far : target > maxTarget
      · have failed : perform (.patchTarget site target) buffer =
            .error (.codeTooLarge target) buffer := by
          have thrown : Buffer.patchTarget site target = throw (.codeTooLarge target) := if_pos far
          rw [perform, thrown]
          rfl
        rw [failed]
        exact .refused (.far far)
      · refine .ofPatch ?_ rfl (perform_patchTarget site far buffer) rfl (closed site _)
        rintro _ _ ⟨⟩
        exact Nat.le_of_not_lt far

theorem IsNear.le {site : Site} {target : Nat} (near : IsNear (.patchTarget site target)) :
    target ≤ maxTarget :=
  near site target rfl

theorem Refused.unique {length : Nat} {request : Request} {error other : CodeError}
    (first : request.Refused length error) (second : request.Refused length other) :
    error = other := by
  cases first with
  | far far =>
      cases second with
      | far => rfl
      | beyond near => exact absurd near.le (Nat.not_le.mpr far)
  | beyond near patches =>
      cases second with
      | far far => exact absurd near.le (Nat.not_le.mpr far)
      | beyond _ samePatches =>
          rw [patches] at samePatches
          cases samePatches
          rfl

/-- What is done has not been refused. -/
theorem Outcome.not_refused {buffer after : Buffer} {request : Request} {answer : Option Site}
    {error : CodeError} (outcome : Outcome buffer request (.ok answer after)) :
    ¬ request.Refused buffer.size error := by
  intro refused
  cases outcome with
  | appended appends =>
      cases refused with
      | far => cases appends
      | beyond _ patches =>
          rw [appends] at patches
          cases patches
  | patched near patches inside =>
      cases refused with
      | far far => exact absurd near.le (Nat.not_le.mpr far)
      | beyond _ samePatches beyond =>
          rw [patches] at samePatches
          cases samePatches
          exact absurd inside (Nat.not_le.mpr beyond)

/-- A request is refused just for the reasons listed, and then the buffer stays as it was. -/
theorem perform_eq_error_iff {request : Request} {buffer after : Buffer} {error : CodeError} :
    request.perform buffer = .error error after ↔
      after = buffer ∧ request.Refused buffer.size error := by
  have outcome := request.outcome buffer
  generalize request.perform buffer = result at outcome
  constructor
  · rintro rfl
    cases outcome with
    | refused refused => exact ⟨rfl, refused⟩
  · rintro ⟨rfl, refused⟩
    cases result with
    | ok answer after => exact absurd refused outcome.not_refused
    | error other after =>
        cases outcome with
        | refused other => rw [refused.unique other]

end Request

/-- A request that has been made. -/
structure Record where
  request : Request
  /-- The length of the buffer before. -/
  length : Nat
  /-- It was not refused. -/
  done : Bool

namespace Record

/-- The byte that has been written at an offset, if one has. -/
def byteAt? (record : Record) (offset : Nat) : Option UInt8 :=
  let start := record.request.place?.getD record.length
  if record.done ∧ start ≤ offset then record.request.bytes[offset - start]? else none

/-- The place at an offset has been reserved. -/
def Reserves (record : Record) (offset : Nat) : Prop :=
  record.request.isReservation ∧ record.length = offset

/-- The site at an offset has been closed. -/
def Closes (record : Record) (offset : Nat) : Prop :=
  record.done ∧ record.request.closes? = some offset

end Record

/-- The byte that was written last at an offset. -/
def lastWritten? (records : List Record) (offset : Nat) : Option UInt8 :=
  records.reverse.findSome? (·.byteAt? offset)

/-- The place at an offset was reserved and has not been closed since. -/
def LeftOpen (records : List Record) (offset : Nat) : Prop :=
  ∃ earlier record later, records = earlier ++ record :: later ∧ record.Reserves offset ∧
    ∀ other ∈ later, ¬ other.Closes offset

def isOk : EStateM.Result CodeError Buffer (Option Site) → Bool
  | .ok .. => true
  | .error .. => false

/-- The buffer after a request. -/
def next (buffer : Buffer) (request : Request) : Buffer :=
  bufferOf (request.perform buffer)

/-- The buffer after requests in a row. -/
def after (buffer : Buffer) (requests : List Request) : Buffer :=
  requests.foldl next buffer

def record (buffer : Buffer) (request : Request) : Record :=
  ⟨request, buffer.size, isOk (request.perform buffer)⟩

/-- What happens to a buffer on requests in a row. -/
def history (buffer : Buffer) : List Request → List Record
  | [] => []
  | request :: requests => buffer.record request :: (buffer.next request).history requests

/-- A buffer is what its history tells. -/
structure Reflects (buffer : Buffer) (records : List Record) : Prop where
  size : buffer.size = records.foldl (fun size record => size + record.request.growth) 0
  byte : ∀ offset, buffer.toList[offset]? = lastWritten? records offset
  isOpen : ∀ offset, offset ∈ buffer.openSites ↔ LeftOpen records offset
  inside : ∀ offset ∈ buffer.openSites, offset < buffer.size

section Reflection

variable {buffer : Buffer} {records : List Record} {request : Request}

theorem lastWritten?_concat (records : List Record) (record : Record) (offset : Nat) :
    lastWritten? (records ++ [record]) offset =
      (record.byteAt? offset).or (lastWritten? records offset) := by
  rw [lastWritten?, List.reverse_append, List.reverse_singleton, List.singleton_append,
    List.findSome?_cons, lastWritten?]
  cases record.byteAt? offset <;> rfl

theorem leftOpen_concat (records : List Record) (record : Record) (offset : Nat) :
    LeftOpen (records ++ [record]) offset ↔
      record.Reserves offset ∨ LeftOpen records offset ∧ ¬ record.Closes offset := by
  constructor
  · rintro ⟨earlier, reserved, later, split, reserves, unclosed⟩
    rcases List.eq_nil_or_concat later with rfl | ⟨later, last, rfl⟩
    · obtain ⟨-, same⟩ := List.append_inj' split rfl
      cases same
      exact .inl reserves
    · rw [List.concat_eq_append, ← List.cons_append, ← List.append_assoc] at split
      obtain ⟨rfl, same⟩ := List.append_inj' split rfl
      cases same
      rw [List.concat_eq_append, List.forall_mem_append] at unclosed
      exact .inr ⟨⟨earlier, reserved, later, rfl, reserves, unclosed.1⟩,
        unclosed.2 record (List.mem_singleton.mpr rfl)⟩
  · rintro (reserves | ⟨⟨earlier, reserved, later, rfl, reserves, unclosed⟩, stays⟩)
    · exact ⟨records, record, [], rfl, reserves, nofun⟩
    · refine ⟨earlier, reserved, later ++ [record], by simp, reserves, ?_⟩
      rw [List.forall_mem_append]
      exact ⟨unclosed, fun other member => List.mem_singleton.mp member ▸ stays⟩

namespace Request

theorem closes?_of_appends (appends : request.place? = none) : request.closes? = none := by
  cases request <;> first | rfl | cases appends

theorem isReservation_of_patches {place : Nat} (patches : request.place? = some place) :
    request.isReservation = false := by
  cases request <;> first | rfl | cases patches

theorem growth_pos (reserves : request.isReservation = true) : 0 < request.growth := by
  cases request <;> first | exact Nat.zero_lt_succ _ | cases reserves

theorem growth_of_patches {place : Nat} (patches : request.place? = some place) :
    request.growth = 0 :=
  if_neg (by rw [patches]; exact Option.some_ne_none place)

theorem exists_place_of_refused {length : Nat} {error : CodeError}
    (refused : request.Refused length error) : ∃ place, request.place? = some place := by
  cases refused with
  | far => exact ⟨_, rfl⟩
  | beyond _ patches => exact ⟨_, patches⟩

end Request

/-- One more request keeps a buffer and its history together. -/
theorem Reflects.next (reflects : buffer.Reflects records) (request : Request) :
    (buffer.next request).Reflects (records ++ [buffer.record request]) := by
  have outcome := request.outcome buffer
  rw [Buffer.next, Buffer.record]
  generalize request.perform buffer = result at outcome ⊢
  cases outcome with
  | @appended after appends bytes sites =>
      have grown : request.growth = request.bytes.length := if_pos appends
      have size : after.size = buffer.size + request.growth := by
        rw [grown, ← length_toList, bytes, List.length_append, length_toList]
      refine ⟨?_, fun offset => ?_, fun offset => ?_, fun offset isOpen => ?_⟩
      · simp [bufferOf, size, reflects.size]
      · rw [lastWritten?_concat, ← reflects.byte, bufferOf, bytes]
        by_cases old : offset < buffer.size
        · rw [List.getElem?_append_left (by simpa using old)]
          simp [Record.byteAt?, appends, Nat.not_le.mpr old]
        · have none : buffer.toList[offset]? = none := by simpa using old
          rw [List.getElem?_append_right (by simpa using old), none, Option.or_none]
          simp [Record.byteAt?, appends, isOk, Nat.le_of_not_lt old]
      · rw [bufferOf, sites, leftOpen_concat, reflects.isOpen]
        simp [Record.Reserves, Record.Closes, Request.closes?_of_appends appends, or_comm]
      · rw [bufferOf, sites] at isOpen
        rw [bufferOf, size]
        rcases isOpen with old | ⟨reserves, rfl⟩
        · have := reflects.inside offset old
          omega
        · have := Request.growth_pos reserves
          omega
  | @patched place after near patches inside size bytes sites =>
      have plain := Request.isReservation_of_patches patches
      refine ⟨?_, fun offset => ?_, fun offset => ?_, fun offset isOpen => ?_⟩
      · simp [bufferOf, size, reflects.size, Request.growth_of_patches patches]
      · rw [lastWritten?_concat, ← reflects.byte, bufferOf, bytes]
        by_cases covered : place ≤ offset ∧ offset < place + request.bytes.length
        · have found : offset - place < request.bytes.length := by omega
          simp [Record.byteAt?, patches, isOk, covered, found]
        · have missed : Record.byteAt? ⟨request, buffer.size, true⟩ offset = none := by
            simp only [Record.byteAt?, patches, Option.getD_some, true_and]
            split
            · exact List.getElem?_eq_none (by omega)
            · rfl
          rw [if_neg covered, isOk, missed, Option.none_or]
      · rw [bufferOf, sites, leftOpen_concat, reflects.isOpen]
        simp [Record.Reserves, Record.Closes, plain, isOk]
      · rw [bufferOf, sites] at isOpen
        rw [bufferOf, size]
        exact reflects.inside offset isOpen.1
  | refused refused =>
      obtain ⟨place, patches⟩ := Request.exists_place_of_refused refused
      have plain := Request.isReservation_of_patches patches
      refine ⟨?_, fun offset => ?_, fun offset => ?_, reflects.inside⟩
      · simp [bufferOf, reflects.size, Request.growth_of_patches patches]
      · rw [lastWritten?_concat, ← reflects.byte, bufferOf]
        simp [Record.byteAt?, isOk]
      · rw [bufferOf, leftOpen_concat, reflects.isOpen]
        simp [Record.Reserves, Record.Closes, plain, isOk]

/-- A run keeps a buffer and its history together. -/
theorem Reflects.after (reflects : buffer.Reflects records) (requests : List Request) :
    (buffer.after requests).Reflects (records ++ buffer.history requests) := by
  induction requests generalizing buffer records with
  | nil => rwa [history, List.append_nil]
  | cons request requests ih =>
      have later := ih (reflects.next request)
      rwa [List.append_assoc, List.singleton_append] at later

theorem reflects_empty : empty.Reflects [] where
  size := rfl
  byte _ := rfl
  isOpen offset := by simp [empty, ofBytes, LeftOpen]
  inside offset isOpen := by simp [empty, ofBytes] at isOpen

theorem size_next (buffer : Buffer) (request : Request) :
    (buffer.next request).size = buffer.size + request.growth := by
  have outcome := request.outcome buffer
  rw [Buffer.next]
  generalize request.perform buffer = result at outcome
  cases outcome with
  | @appended after appends bytes =>
      have grown : request.growth = request.bytes.length := if_pos appends
      rw [bufferOf, grown, ← length_toList, bytes, List.length_append, length_toList]
  | patched _ patches _ size => rw [bufferOf, size, Request.growth_of_patches patches, Nat.add_zero]
  | refused refused =>
      obtain ⟨place, patches⟩ := Request.exists_place_of_refused refused
      rw [bufferOf, Request.growth_of_patches patches, Nat.add_zero]

theorem answer_of_perform {after : Buffer} {answer : Option Site}
    (performed : request.perform buffer = .ok answer after) :
    answer = request.answer? buffer.size := by
  have outcome := performed ▸ request.outcome buffer
  cases outcome with
  | appended => rfl
  | patched _ patches =>
      rw [Request.answer?, Request.isReservation_of_patches patches]
      rfl

/-- A target that has been filled is read back. -/
theorem readWord?_of_patchTarget {after : Buffer} {answer : Option Site} {site : Site}
    {target : Nat}
    (performed : (Request.patchTarget site target).perform buffer = .ok answer after) :
    (after.readWord? site.offset).map UInt16.toNat = some target := by
  have outcome := performed ▸ (Request.patchTarget site target).outcome buffer
  cases outcome with
  | appended appends => cases appends
  | patched near patches _ _ bytes =>
      cases patches
      have small : target < 65536 := Nat.lt_succ_of_le near.le
      have low : after.bytes[site.offset]? = some (UInt8.ofNat target) := by
        rw [← Array.getElem?_toList]
        refine (bytes site.offset).trans ?_
        simp [Request.bytes, littleEndian]
      have high : after.bytes[site.offset + 1]? = some (UInt8.ofNat (target / 256)) := by
        rw [← Array.getElem?_toList]
        refine (bytes (site.offset + 1)).trans ?_
        simp [Request.bytes, littleEndian]
      have spelled : ofLittleEndian [UInt8.ofNat target, UInt8.ofNat (target / 256)] = target :=
        (ofLittleEndian_littleEndian 2 target).trans (Nat.mod_eq_of_lt small)
      simp [readWord?, low, high, spelled, Nat.mod_eq_of_lt small]

end Reflection

/-- After any requests, a buffer is what its history tells.  It has grown by what was appended or
reserved; at each offset stands the byte that was written there last; the open sites, in their
order, are the places reserved and not closed since, and the lowest of them is reported.  A further
request makes the buffer longer by what it appends, is refused just for the reasons listed and then
changes nothing, and a target that it fills is read back. -/
theorem reflects_of_run (requests : List Request) :
    (empty.after requests).Reflects (empty.history requests) ∧
      (empty.after requests).openSites.toList.Pairwise (· < ·) ∧
      (∀ offset, offset ∈ (empty.after requests).openSites.toList ↔
        LeftOpen (empty.history requests) offset) ∧
      ((empty.after requests).ensurePatched = .ok () ↔
        ∀ offset, ¬ LeftOpen (empty.history requests) offset) ∧
      (∀ error, (empty.after requests).ensurePatched = .error error ↔
        ∃ offset, LeftOpen (empty.history requests) offset ∧
          (∀ other, LeftOpen (empty.history requests) other → offset ≤ other) ∧
          error = .unpatchedSite offset) ∧
      ∀ request : Request,
        ((empty.after requests).next request).size =
            (empty.after requests).size + request.growth ∧
          (∀ error after, request.perform (empty.after requests) = .error error after ↔
            after = empty.after requests ∧
              request.Refused (empty.after requests).size error) ∧
          ∀ answer after, request.perform (empty.after requests) = .ok answer after →
            answer = request.answer? (empty.after requests).size ∧
              ∀ site target, request = .patchTarget site target →
                (after.readWord? site.offset).map UInt16.toNat = some target := by
  have reflects := reflects_empty.after requests
  rw [List.nil_append] at reflects
  refine ⟨reflects, ?_, ?_, ?_, fun error => ?_, fun request => ⟨size_next _ request, ?_, ?_⟩⟩
  · exact Std.ExtTreeSet.ordered_toList.imp Nat.compare_eq_lt.mp
  · simp only [Std.ExtTreeSet.mem_toList, reflects.isOpen, implies_true]
  · simp only [ensurePatched_eq_ok_iff, reflects.isOpen]
  · simp only [ensurePatched_eq_error_iff, reflects.isOpen]
  · exact fun error after => Request.perform_eq_error_iff
  · refine fun answer after performed => ⟨answer_of_perform performed, ?_⟩
    rintro site target rfl
    exact readWord?_of_patchTarget performed

end Backpatch.Buffer
