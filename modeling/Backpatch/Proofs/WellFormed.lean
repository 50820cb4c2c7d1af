import Backpatch.Proofs.Checked
import Backpatch.Proofs.Decoding

/-!
# What the check decides

A routine is well formed if no place in its code is open, its code is a row of whole instructions,
and every instruction is sound: it is not the invalid one, its targets are starts of instructions,
and the numbers in it name entries of the image and slots of frames.  The check accepts exactly the
images whose routines are all well formed.  Of an image that it refuses it tells the first defect:
that of the first routine with one, and in it the lowest open place, else the place at which reading
stops, else what is wrong with the first instruction that is not sound.
-/

namespace Backpatch

section Rows

variable {α ε : Type} {items : List α} {action : α → Except ε Unit} {error : ε}

theorem forM_cons_eq (item : α) (items : List α) (action : α → Except ε Unit) :
    (item :: items).forM action = action item >>= fun _ => items.forM action := rfl

/-- Checks in a row fail as the first of them that fails. -/
theorem forM_eq_error_iff :
    items.forM action = .error error ↔ ∃ before item after, items = before ++ item :: after ∧
      (∀ earlier ∈ before, action earlier = .ok ()) ∧ action item = .error error := by
  constructor
  · intro failed
    induction items with
    | nil => cases failed
    | cons head items ih =>
        rw [forM_cons_eq] at failed
        cases first : action head with
        | error other =>
            rw [first] at failed
            cases failed
            exact ⟨[], head, items, rfl, nofun, first⟩
        | ok =>
            rw [first] at failed
            obtain ⟨before, item, after, rfl, passed, last⟩ := ih failed
            exact ⟨head :: before, item, after, rfl, List.forall_mem_cons.mpr ⟨first, passed⟩, last⟩
  · rintro ⟨before, item, after, rfl, passed, failed⟩
    induction before with
    | nil =>
        rw [List.nil_append, forM_cons_eq, failed]
        rfl
    | cons head before ih =>
        rw [List.forall_mem_cons] at passed
        rw [List.cons_append, forM_cons_eq, passed.1]
        exact ih passed.2

theorem forM_eq_ok_iff :
    items.forM action = .ok () ↔ ∀ item ∈ items, action item = .ok () := by
  refine ⟨fun passed => ?_, forM_eq_ok⟩
  induction items with
  | nil => exact nofun
  | cons head items ih =>
      rw [forM_cons_eq] at passed
      cases first : action head with
      | error other =>
          rw [first] at passed
          cases passed
      | ok =>
          rw [first] at passed
          exact List.forall_mem_cons.mpr ⟨first, ih passed⟩

end Rows

theorem exists_word {bytes : List UInt8} (length : bytes.length = 2) :
    ∃ word : UInt16, bytes = littleEndian 2 word.toNat := by
  have small := ofLittleEndian_lt bytes
  rw [length] at small
  refine ⟨UInt16.ofNat (ofLittleEndian bytes), ?_⟩
  rw [UInt16.toNat_ofNat_of_lt' small, ← length, littleEndian_ofLittleEndian]

theorem exists_words {bytes : List UInt8} (length : bytes.length = 4) :
    ∃ first second : UInt16, bytes = littleEndian 2 first.toNat ++ littleEndian 2 second.toNat := by
  have frontLength : (bytes.take 2).length = 2 := by rw [List.length_take, length]; rfl
  have backLength : (bytes.drop 2).length = 2 := by rw [List.length_drop, length]
  obtain ⟨first, front⟩ := exists_word frontLength
  obtain ⟨second, back⟩ := exists_word backLength
  exact ⟨first, second, by rw [← front, ← back, List.take_append_drop]⟩

/-- The opcode loads or stores a variable of a type that its operands name: by an index in the
running routine, or with `cross` by a routine and an index in it. -/
def Op.Names (op : Op) (ty : Ty) (cross : Bool) : Prop :=
  Op.load? ty cross = some op ∨ Op.store? ty cross = some op

theorem Op.variable?_eq_some_iff {op : Op} {ty : Ty} {cross : Bool} :
    op.variable? = some (ty, cross) ↔ op.Names ty cross := by
  constructor
  · intro named
    cases op <;> cases named <;> first | exact .inl rfl | exact .inr rfl
  · rintro (loads | stores)
    · exact variable?_of_load? loads
    · exact variable?_of_store? stores

theorem Op.Names.width {op : Op} {ty : Ty} {cross : Bool} (named : op.Names ty cross) :
    op.width = bif cross then 4 else 2 := by
  have named := variable?_eq_some_iff.mpr named
  cases op <;> cases named <;> rfl

theorem Op.width_of_isBranch {op : Op} (isBranch : op.isBranch = true) : op.width = 4 := by
  cases op <;> first | rfl | cases isBranch

/-- One of the instructions starts at an offset. -/
def StartsAt (instrs : List Instr) (offset : Nat) : Prop :=
  ∃ instr ∈ instrs, instr.offset = offset

instance (instrs : List Instr) (offset : Nat) : Decidable (StartsAt instrs offset) :=
  inferInstanceAs (Decidable (∃ instr ∈ instrs, instr.offset = offset))

namespace Image

/-- For an opcode that names an entry of the image by number: how many entries of that kind there
are, and the fault of a number that none of them has. -/
def entries? (image : Image) : Op → Option (Nat × (UInt16 → InstrFault))
  | .call => some (image.routines.size, .unknownFunction)
  | .callNative => some (image.natives.size, .unknownNative)
  | .sLoad => some (image.constants.size, .unknownConstant)
  | _ => none

theorem width_of_entries? {image : Image} {op : Op} {count : Nat} {missing : UInt16 → InstrFault}
    (named : image.entries? op = some (count, missing)) : op.width = 2 := by
  cases op <;> cases named <;> rfl

/-- An instruction among those of a routine names only what exists. -/
structure Allows (image : Image) (routine : Routine) (instrs : List Instr) (instr : Instr) :
    Prop where
  valid : instr.op ≠ .invalid
  entry : ∀ count missing, image.entries? instr.op = some (count, missing) →
    ∃ id : UInt16, instr.operands = littleEndian 2 id.toNat ∧ id.toNat < count
  jump : instr.op = .jump →
    ∃ target : UInt16, instr.operands = littleEndian 2 target.toNat ∧ StartsAt instrs target.toNat
  branch : instr.op.isBranch = true →
    ∃ onTrue onFalse : UInt16,
      instr.operands = littleEndian 2 onTrue.toNat ++ littleEndian 2 onFalse.toNat ∧
        StartsAt instrs onTrue.toNat ∧ StartsAt instrs onFalse.toNat
  own : ∀ ty, instr.op.Names ty false →
    ∃ slot : UInt16, instr.operands = littleEndian 2 slot.toNat ∧ slot < routine.frame.count ty
  cross : ∀ ty, instr.op.Names ty true →
    ∃ context slot : UInt16, ∃ owner,
      instr.operands = littleEndian 2 context.toNat ++ littleEndian 2 slot.toNat ∧
        image.routine? context = some owner ∧ slot < owner.frame.count ty

/-- What is wrong with an instruction among those of a routine.  Of two targets that are both astray
the first is told. -/
inductive Faulty (image : Image) (routine : Routine) (instrs : List Instr) (instr : Instr) :
    InstrFault → Prop
  | invalid (isInvalid : instr.op = .invalid) :
      Faulty image routine instrs instr .invalidInstruction
  | entry {count : Nat} {missing : UInt16 → InstrFault} {id : UInt16}
      (named : image.entries? instr.op = some (count, missing))
      (operands : instr.operands = littleEndian 2 id.toNat) (beyond : count ≤ id.toNat) :
      Faulty image routine instrs instr (missing id)
  | jump {target : UInt16} (isJump : instr.op = .jump)
      (operands : instr.operands = littleEndian 2 target.toNat)
      (stray : ¬ StartsAt instrs target.toNat) :
      Faulty image routine instrs instr (.strayTarget target.toNat)
  | onTrue {onTrue onFalse : UInt16} (isBranch : instr.op.isBranch = true)
      (operands : instr.operands = littleEndian 2 onTrue.toNat ++ littleEndian 2 onFalse.toNat)
      (stray : ¬ StartsAt instrs onTrue.toNat) :
      Faulty image routine instrs instr (.strayTarget onTrue.toNat)
  | onFalse {onTrue onFalse : UInt16} (isBranch : instr.op.isBranch = true)
      (operands : instr.operands = littleEndian 2 onTrue.toNat ++ littleEndian 2 onFalse.toNat)
      (first : StartsAt instrs onTrue.toNat) (stray : ¬ StartsAt instrs onFalse.toNat) :
      Faulty image routine instrs instr (.strayTarget onFalse.toNat)
  | own {ty : Ty} {slot : UInt16} (named : instr.op.Names ty false)
      (operands : instr.operands = littleEndian 2 slot.toNat)
      (beyond : routine.frame.count ty ≤ slot) :
      Faulty image routine instrs instr (.slotOutOfRange ty slot routine.name)
  | context {ty : Ty} {context slot : UInt16} (named : instr.op.Names ty true)
      (operands : instr.operands = littleEndian 2 context.toNat ++ littleEndian 2 slot.toNat)
      (unknown : image.routine? context = none) :
      Faulty image routine instrs instr (.unknownContext context)
  | cross {ty : Ty} {context slot : UInt16} {owner : Routine} (named : instr.op.Names ty true)
      (operands : instr.operands = littleEndian 2 context.toNat ++ littleEndian 2 slot.toNat)
      (found : image.routine? context = some owner) (beyond : owner.frame.count ty ≤ slot) :
      Faulty image routine instrs instr (.slotOutOfRange ty slot owner.name)

/-- The offsets at which instructions start, as the check collects them. -/
def starts (instrs : List Instr) : Std.ExtTreeSet Nat :=
  .ofList (instrs.map (·.offset))

theorem contains_starts (instrs : List Instr) (offset : Nat) :
    (starts instrs).contains offset = decide (StartsAt instrs offset) := by
  rw [Bool.eq_iff_iff, starts, Std.ExtTreeSet.contains_ofList, List.contains_iff_mem,
    List.mem_map, decide_eq_true_iff, StartsAt]

section Instruction

variable {image : Image} {routine : Routine} {instrs : List Instr} {instr : Instr}

theorem checkInstr_of_entries? {count : Nat} {missing : UInt16 → InstrFault} {id : UInt16}
    (named : image.entries? instr.op = some (count, missing))
    (operands : instr.operands = littleEndian 2 id.toNat) :
    image.checkInstr routine (starts instrs) instr =
      if id.toNat < count then .ok () else .error (missing id) := by
  obtain ⟨offset, op, bytes⟩ := instr
  dsimp only at named operands
  subst operands
  cases op <;> cases named <;>
    simp [checkInstr, operand, routine?, native?, constant?]

theorem checkInstr_of_jump {target : UInt16} (isJump : instr.op = .jump)
    (operands : instr.operands = littleEndian 2 target.toNat) :
    image.checkInstr routine (starts instrs) instr =
      if StartsAt instrs target.toNat then .ok () else .error (.strayTarget target.toNat) := by
  obtain ⟨offset, op, bytes⟩ := instr
  dsimp only at isJump operands
  subst isJump operands
  have near : target.toNat ≤ Buffer.maxTarget := Nat.le_of_lt_succ target.toNat_lt
  rw [checkInstr_eq_of_isJump rfl, Instr.targets_jump near, List.find?_singleton, contains_starts]
  by_cases inside : StartsAt instrs target.toNat <;> simp [inside]

theorem checkInstr_of_branch {onTrue onFalse : UInt16} (isBranch : instr.op.isBranch = true)
    (operands : instr.operands = littleEndian 2 onTrue.toNat ++ littleEndian 2 onFalse.toNat) :
    image.checkInstr routine (starts instrs) instr =
      if StartsAt instrs onTrue.toNat then
        if StartsAt instrs onFalse.toNat then .ok () else .error (.strayTarget onFalse.toNat)
      else .error (.strayTarget onTrue.toNat) := by
  obtain ⟨offset, op, bytes⟩ := instr
  dsimp only at isBranch operands
  subst operands
  have isJump : op.isJump = true := by rw [Op.isJump, isBranch, Bool.or_true]
  have trueNear : onTrue.toNat ≤ Buffer.maxTarget := Nat.le_of_lt_succ onTrue.toNat_lt
  have falseNear : onFalse.toNat ≤ Buffer.maxTarget := Nat.le_of_lt_succ onFalse.toNat_lt
  rw [checkInstr_eq_of_isJump isJump, Instr.targets_branch isBranch trueNear falseNear,
    List.find?_cons, List.find?_singleton, contains_starts, contains_starts]
  by_cases first : StartsAt instrs onTrue.toNat <;>
    by_cases second : StartsAt instrs onFalse.toNat <;> simp [first, second]

theorem checkInstr_of_names_own {ty : Ty} {slot : UInt16} (named : instr.op.Names ty false)
    (operands : instr.operands = littleEndian 2 slot.toNat) :
    image.checkInstr routine (starts instrs) instr = checkSlot routine ty slot := by
  rw [checkInstr_of_own (Op.variable?_eq_some_iff.mpr named)]
  obtain ⟨offset, op, bytes⟩ := instr
  dsimp only at operands
  subst operands
  simp [operand]

theorem checkInstr_of_names_cross {ty : Ty} {context slot : UInt16} (named : instr.op.Names ty true)
    (operands : instr.operands = littleEndian 2 context.toNat ++ littleEndian 2 slot.toNat) :
    image.checkInstr routine (starts instrs) instr =
      (image.routine? context).elim (.error (.unknownContext context))
        (checkSlot · ty slot) := by
  have isCross := Op.variable?_eq_some_iff.mpr named
  obtain ⟨offset, op, bytes⟩ := instr
  dsimp only at isCross operands
  subst operands
  cases found : image.routine? context with
  | some owner =>
      rw [checkInstr_of_cross isCross (by simpa [operand] using found)]
      simp [operand]
  | none =>
      cases op <;> cases isCross <;>
        simp [checkInstr, Op.isJump, Op.isBranch, Op.variable?, operand, found]

/-- How an instruction says what it names. -/
inductive Form (image : Image) (instr : Instr) : Prop
  | invalid (isInvalid : instr.op = .invalid)
  | entry {count : Nat} {missing : UInt16 → InstrFault} {id : UInt16}
      (named : image.entries? instr.op = some (count, missing))
      (operands : instr.operands = littleEndian 2 id.toNat)
  | jump {target : UInt16} (isJump : instr.op = .jump)
      (operands : instr.operands = littleEndian 2 target.toNat)
  | branch {onTrue onFalse : UInt16} (isBranch : instr.op.isBranch = true)
      (operands : instr.operands = littleEndian 2 onTrue.toNat ++ littleEndian 2 onFalse.toNat)
  | own {ty : Ty} {slot : UInt16} (named : instr.op.Names ty false)
      (operands : instr.operands = littleEndian 2 slot.toNat)
  | cross {ty : Ty} {context slot : UInt16} (named : instr.op.Names ty true)
      (operands : instr.operands = littleEndian 2 context.toNat ++ littleEndian 2 slot.toNat)
  | free (isFree : instr.op.isFree = true)

theorem form_of_whole (image : Image) (whole : instr.operands.length = instr.op.width) :
    image.Form instr := by
  obtain ⟨offset, op, operands⟩ := instr
  cases op
  case invalid => exact .invalid rfl
  case jump =>
      obtain ⟨target, word⟩ := exists_word whole
      exact .jump rfl word
  case call | callNative | sLoad =>
      obtain ⟨id, word⟩ := exists_word whole
      exact .entry rfl word
  case ifICmpNe | ifICmpE | ifICmpG | ifICmpGe | ifICmpL | ifICmpLe =>
      obtain ⟨onTrue, onFalse, words⟩ := exists_words whole
      exact .branch rfl words
  case loadIVar | loadDVar | loadSVar | storeIVar | storeDVar | storeSVar =>
      obtain ⟨slot, word⟩ := exists_word whole
      exact .own (Op.variable?_eq_some_iff.mp rfl) word
  case loadCtxIVar | loadCtxDVar | loadCtxSVar | storeCtxIVar | storeCtxDVar | storeCtxSVar =>
      obtain ⟨context, slot, words⟩ := exists_words whole
      exact .cross (Op.variable?_eq_some_iff.mp rfl) words
  all_goals exact .free rfl

theorem checkInstr_of_allows (whole : instr.operands.length = instr.op.width)
    (allowed : image.Allows routine instrs instr) :
    image.checkInstr routine (starts instrs) instr = .ok () := by
  cases form_of_whole image whole with
  | invalid isInvalid => exact absurd isInvalid allowed.valid
  | entry named _ =>
      obtain ⟨id, operands, inside⟩ := allowed.entry _ _ named
      rw [checkInstr_of_entries? named operands, if_pos inside]
  | jump isJump _ =>
      obtain ⟨target, operands, inside⟩ := allowed.jump isJump
      rw [checkInstr_of_jump isJump operands, if_pos inside]
  | branch isBranch _ =>
      obtain ⟨onTrue, onFalse, operands, first, second⟩ := allowed.branch isBranch
      rw [checkInstr_of_branch isBranch operands, if_pos first, if_pos second]
  | own named _ =>
      obtain ⟨slot, operands, inside⟩ := allowed.own _ named
      rw [checkInstr_of_names_own named operands, checkSlot, if_pos inside]
  | cross named _ =>
      obtain ⟨context, slot, owner, operands, found, inside⟩ := allowed.cross _ named
      rw [checkInstr_of_names_cross named operands, found, Option.elim_some, checkSlot,
        if_pos inside]
  | free isFree => exact checkInstr_of_isFree isFree

theorem checkInstr_of_faulty {fault : InstrFault}
    (faulty : image.Faulty routine instrs instr fault) :
    image.checkInstr routine (starts instrs) instr = .error fault := by
  cases faulty with
  | invalid isInvalid => rw [checkInstr, isInvalid]
  | entry named operands beyond =>
      rw [checkInstr_of_entries? named operands, if_neg (Nat.not_lt.mpr beyond)]
  | jump isJump operands stray => rw [checkInstr_of_jump isJump operands, if_neg stray]
  | onTrue isBranch operands stray => rw [checkInstr_of_branch isBranch operands, if_neg stray]
  | onFalse isBranch operands first stray =>
      rw [checkInstr_of_branch isBranch operands, if_pos first, if_neg stray]
  | own named operands beyond =>
      rw [checkInstr_of_names_own named operands, checkSlot, if_neg (UInt16.not_lt.mpr beyond)]
  | context named operands unknown =>
      rw [checkInstr_of_names_cross named operands, unknown, Option.elim_none]
  | cross named operands found beyond =>
      rw [checkInstr_of_names_cross named operands, found, Option.elim_some, checkSlot,
        if_neg (UInt16.not_lt.mpr beyond)]

theorem faulty_of_checkInstr (whole : instr.operands.length = instr.op.width) {fault : InstrFault}
    (failed : image.checkInstr routine (starts instrs) instr = .error fault) :
    image.Faulty routine instrs instr fault := by
  cases form_of_whole image whole with
  | invalid isInvalid =>
      rw [checkInstr_of_faulty (.invalid isInvalid)] at failed
      cases failed
      exact .invalid isInvalid
  | entry named operands =>
      rw [checkInstr_of_entries? named operands] at failed
      split at failed
      · cases failed
      · cases failed
        exact .entry named operands (Nat.not_lt.mp ‹_›)
  | jump isJump operands =>
      rw [checkInstr_of_jump isJump operands] at failed
      split at failed
      · cases failed
      · cases failed
        exact .jump isJump operands ‹_›
  | branch isBranch operands =>
      rw [checkInstr_of_branch isBranch operands] at failed
      split at failed
      · split at failed
        · cases failed
        · cases failed
          exact .onFalse isBranch operands ‹_› ‹_›
      · cases failed
        exact .onTrue isBranch operands ‹_›
  | own named operands =>
      rw [checkInstr_of_names_own named operands, checkSlot] at failed
      split at failed
      · cases failed
      · cases failed
        exact .own named operands (UInt16.not_lt.mp ‹_›)
  | @cross _ context _ named operands =>
      rw [checkInstr_of_names_cross named operands] at failed
      cases found : image.routine? context with
      | none =>
          rw [found] at failed
          cases failed
          exact .context named operands found
      | some owner =>
          rw [found, Option.elim_some, checkSlot] at failed
          split at failed
          · cases failed
          · cases failed
            exact .cross named operands found (UInt16.not_lt.mp ‹_›)
  | free isFree =>
      rw [checkInstr_of_isFree isFree] at failed
      cases failed

/-- An instruction with which nothing is wrong names only what exists. -/
theorem allows_of_not_faulty (whole : instr.operands.length = instr.op.width)
    (faultless : ∀ fault, ¬ image.Faulty routine instrs instr fault) :
    image.Allows routine instrs instr where
  valid isInvalid := faultless _ (.invalid isInvalid)
  entry count missing named := by
    obtain ⟨id, operands⟩ := exists_word (whole.trans (width_of_entries? named))
    exact ⟨id, operands, Nat.not_le.mp fun beyond => faultless _ (.entry named operands beyond)⟩
  jump isJump := by
    obtain ⟨target, operands⟩ := exists_word (whole.trans (congrArg Op.width isJump))
    exact ⟨target, operands,
      Decidable.byContradiction fun stray => faultless _ (.jump isJump operands stray)⟩
  branch isBranch := by
    obtain ⟨onTrue, onFalse, operands⟩ := exists_words (whole.trans (Op.width_of_isBranch isBranch))
    have first : StartsAt instrs onTrue.toNat :=
      Decidable.byContradiction fun stray => faultless _ (.onTrue isBranch operands stray)
    exact ⟨onTrue, onFalse, operands, first,
      Decidable.byContradiction fun stray => faultless _ (.onFalse isBranch operands first stray)⟩
  own ty named := by
    obtain ⟨slot, operands⟩ := exists_word (whole.trans named.width)
    exact ⟨slot, operands, UInt16.not_le.mp fun beyond => faultless _ (.own named operands beyond)⟩
  cross ty named := by
    obtain ⟨context, slot, operands⟩ := exists_words (whole.trans named.width)
    cases found : image.routine? context with
    | none => exact absurd (.context named operands found) (faultless _)
    | some owner =>
        exact ⟨context, slot, owner, operands, found,
          UInt16.not_le.mp fun beyond => faultless _ (.cross named operands found beyond)⟩

end Instruction

end Image

namespace Buffer

variable {buffer : Buffer}

theorem ensurePatched_eq_ok_iff :
    buffer.ensurePatched = .ok () ↔ ∀ offset, offset ∉ buffer.openSites := by
  simp only [← Std.ExtTreeSet.mem_toList, ensurePatched]
  cases buffer.openSites.toList with
  | nil => simp
  | cons lowest rest =>
      constructor
      · intro failed
        cases failed
      · intro none
        exact absurd List.mem_cons_self (none lowest)

/-- The open place that is told is the lowest one. -/
theorem ensurePatched_eq_error_iff {error : CodeError} :
    buffer.ensurePatched = .error error ↔
      ∃ offset ∈ buffer.openSites, (∀ other ∈ buffer.openSites, offset ≤ other) ∧
        error = .unpatchedSite offset := by
  have ordered :
      buffer.openSites.toList.Pairwise (fun first second => compare first second = .lt) :=
    Std.ExtTreeSet.ordered_toList
  simp only [← Std.ExtTreeSet.mem_toList, ensurePatched]
  cases sites : buffer.openSites.toList with
  | nil =>
      constructor
      · intro passed
        cases passed
      · rintro ⟨_, member, _⟩
        cases member
  | cons lowest rest =>
      rw [sites, List.pairwise_cons] at ordered
      have least : ∀ other ∈ lowest :: rest, lowest ≤ other :=
        List.forall_mem_cons.mpr ⟨Nat.le_refl lowest, fun other member =>
          Nat.le_of_lt (Nat.compare_eq_lt.mp (ordered.1 other member))⟩
      constructor
      · intro failed
        cases failed
        exact ⟨lowest, List.mem_cons_self, least, rfl⟩
      · rintro ⟨offset, member, lower, rfl⟩
        rw [Nat.le_antisymm (lower lowest List.mem_cons_self) (least offset member)]

end Buffer

namespace Image

/-- A routine, of the image or not, that runs in the image without naming what does not exist. -/
structure WellFormed (image : Image) (routine : Routine) : Prop where
  patched : ∀ offset, offset ∉ routine.code.openSites
  instructions : ∃ instrs, Splits routine.code.bytes.toList instrs ∧
    ∀ instr ∈ instrs, image.Allows routine instrs instr

/-- The defect of a routine that is told: its lowest open place, else the place at which reading its
code stops, else what is wrong with its first instruction that names what does not exist. -/
inductive Refuses (image : Image) (routine : Routine) : CodeError → Prop
  | openSite {offset : Nat} (isOpen : offset ∈ routine.code.openSites)
      (lowest : ∀ other ∈ routine.code.openSites, offset ≤ other) :
      Refuses image routine (.unpatchedSite offset)
  | unreadable {error : CodeError} (patched : ∀ offset, offset ∉ routine.code.openSites)
      (breaks : Breaks routine.code.bytes.toList error) : Refuses image routine error
  | instruction {instrs : List Instr} {instr : Instr} {fault : InstrFault}
      (patched : ∀ offset, offset ∉ routine.code.openSites)
      (splits : Splits routine.code.bytes.toList instrs) (member : instr ∈ instrs)
      (earlier : ∀ other ∈ instrs, other.offset < instr.offset →
        image.Allows routine instrs other)
      (faulty : image.Faulty routine instrs instr fault) :
      Refuses image routine (.malformed (.instruction routine.name instr.offset fault))

section Routines

variable {image : Image} {routine : Routine} {instrs : List Instr} {error : CodeError}

/-- The check of an instruction as a part of that of its routine. -/
def checkWithin (image : Image) (routine : Routine) (instrs : List Instr) (instr : Instr) :
    Except CodeError Unit :=
  (image.checkInstr routine (starts instrs) instr).mapError fun fault =>
    .malformed (.instruction routine.name instr.offset fault)

theorem checkWithin_eq_ok_iff {instr : Instr} (whole : instr.operands.length = instr.op.width) :
    image.checkWithin routine instrs instr = .ok () ↔ image.Allows routine instrs instr := by
  rw [checkWithin]
  constructor
  · intro passed
    refine allows_of_not_faulty whole fun fault faulty => ?_
    rw [checkInstr_of_faulty faulty] at passed
    cases passed
  · intro allowed
    rw [checkInstr_of_allows whole allowed]
    rfl

theorem checkWithin_eq_error_iff {instr : Instr} (whole : instr.operands.length = instr.op.width) :
    image.checkWithin routine instrs instr = .error error ↔
      ∃ fault, image.Faulty routine instrs instr fault ∧
        error = .malformed (.instruction routine.name instr.offset fault) := by
  rw [checkWithin]
  constructor
  · intro failed
    cases checked : image.checkInstr routine (starts instrs) instr with
    | ok =>
        rw [checked] at failed
        cases failed
    | error fault =>
        rw [checked] at failed
        cases failed
        exact ⟨fault, faulty_of_checkInstr whole checked, rfl⟩
  · rintro ⟨fault, faulty, rfl⟩
    rw [checkInstr_of_faulty faulty]
    rfl

theorem checkRoutine_of_openSite (failed : routine.code.ensurePatched = .error error) :
    image.checkRoutine routine = .error error := by
  rw [checkRoutine, failed]
  rfl

theorem checkRoutine_of_breaks (patched : routine.code.ensurePatched = .ok ())
    (breaks : Breaks routine.code.bytes.toList error) :
    image.checkRoutine routine = .error error := by
  rw [checkRoutine, patched, Buffer.instructions_of_breaks breaks]
  rfl

theorem checkRoutine_of_splits (patched : routine.code.ensurePatched = .ok ())
    (splits : Splits routine.code.bytes.toList instrs) :
    image.checkRoutine routine = instrs.forM (image.checkWithin routine instrs) := by
  rw [checkRoutine, patched, Buffer.instructions_of_splits splits]
  rfl

theorem checkRoutine_of_wellFormed (wellFormed : image.WellFormed routine) :
    image.checkRoutine routine = .ok () := by
  obtain ⟨patched, instrs, splits, allowed⟩ := wellFormed
  rw [checkRoutine_of_splits (Buffer.ensurePatched_eq_ok_iff.mpr patched) splits, forM_eq_ok_iff]
  exact fun instr member =>
    (checkWithin_eq_ok_iff (splits.1.whole instr member)).mpr (allowed instr member)

theorem checkRoutine_of_refuses (refused : image.Refuses routine error) :
    image.checkRoutine routine = .error error := by
  cases refused with
  | openSite isOpen lowest =>
      exact checkRoutine_of_openSite
        (Buffer.ensurePatched_eq_error_iff.mpr ⟨_, isOpen, lowest, rfl⟩)
  | unreadable patched breaks =>
      exact checkRoutine_of_breaks (Buffer.ensurePatched_eq_ok_iff.mpr patched) breaks
  | @instruction instrs instr fault patched splits member earlier faulty =>
      rw [checkRoutine_of_splits (Buffer.ensurePatched_eq_ok_iff.mpr patched) splits,
        forM_eq_error_iff]
      obtain ⟨before, after, shape⟩ := List.append_of_mem member
      refine ⟨before, instr, after, shape, fun other otherMember => ?_, ?_⟩
      · -- Instructions that are listed before another one stand at lower offsets.
        have increasing := splits.1.increasing
        rw [shape, List.pairwise_append] at increasing
        have lower := increasing.2.2 other otherMember instr List.mem_cons_self
        have otherMember : other ∈ instrs := shape ▸ List.mem_append_left _ otherMember
        exact (checkWithin_eq_ok_iff (splits.1.whole other otherMember)).mpr
          (earlier other otherMember lower)
      · exact (checkWithin_eq_error_iff (splits.1.whole instr member)).mpr ⟨fault, faulty, rfl⟩

/-- Every routine is well formed or has a defect that is told. -/
theorem wellFormed_or_refuses (image : Image) (routine : Routine) :
    image.WellFormed routine ∨ ∃ error, image.Refuses routine error := by
  cases patching : routine.code.ensurePatched with
  | error error =>
      obtain ⟨offset, isOpen, lowest, -⟩ := Buffer.ensurePatched_eq_error_iff.mp patching
      exact .inr ⟨_, .openSite isOpen lowest⟩
  | ok =>
      have patched := Buffer.ensurePatched_eq_ok_iff.mp patching
      rcases splits_or_breaks routine.code.bytes.toList with ⟨instrs, splits⟩ | ⟨error, breaks⟩
      · cases checked : instrs.forM (image.checkWithin routine instrs) with
        | ok =>
            rw [forM_eq_ok_iff] at checked
            exact .inl ⟨patched, instrs, splits, fun instr member =>
              (checkWithin_eq_ok_iff (splits.1.whole instr member)).mp (checked instr member)⟩
        | error error =>
            obtain ⟨before, instr, after, rfl, passed, failed⟩ := forM_eq_error_iff.mp checked
            have member : instr ∈ before ++ instr :: after :=
              List.mem_append_right _ List.mem_cons_self
            obtain ⟨fault, faulty, rfl⟩ :=
              (checkWithin_eq_error_iff (splits.1.whole instr member)).mp failed
            refine .inr ⟨_, .instruction patched splits member (fun other otherMember lower => ?_)
              faulty⟩
            have increasing := (List.pairwise_append.mp splits.1.increasing).2.1
            rcases List.mem_append.mp otherMember with inFront | behind
            · exact (checkWithin_eq_ok_iff (splits.1.whole other otherMember)).mp
                (passed other inFront)
            · rcases List.mem_cons.mp behind with rfl | behind
              · exact absurd lower (Nat.lt_irrefl _)
              · have higher := (List.pairwise_cons.mp increasing).1 other behind
                exact absurd lower (Nat.lt_asymm higher)
      · exact .inr ⟨error, .unreadable patched breaks⟩

theorem checkRoutine_eq_ok_iff :
    image.checkRoutine routine = .ok () ↔ image.WellFormed routine := by
  refine ⟨fun passed => ?_, checkRoutine_of_wellFormed⟩
  rcases image.wellFormed_or_refuses routine with wellFormed | ⟨error, refused⟩
  · exact wellFormed
  · rw [checkRoutine_of_refuses refused] at passed
    cases passed

theorem checkRoutine_eq_error_iff :
    image.checkRoutine routine = .error error ↔ image.Refuses routine error := by
  refine ⟨fun failed => ?_, checkRoutine_of_refuses⟩
  rcases image.wellFormed_or_refuses routine with wellFormed | ⟨other, refused⟩
  · rw [checkRoutine_of_wellFormed wellFormed] at failed
    cases failed
  · rw [checkRoutine_of_refuses refused] at failed
    cases failed
    exact refused

theorem check_eq_ok_iff :
    image.check = .ok () ↔ ∀ routine ∈ image.routines, image.WellFormed routine := by
  simp only [check, forM_eq_ok_iff, Array.mem_toList_iff, checkRoutine_eq_ok_iff]

theorem check_eq_error_iff :
    image.check = .error error ↔
      ∃ before routine after, image.routines.toList = before ++ routine :: after ∧
        (∀ earlier ∈ before, image.WellFormed earlier) ∧ image.Refuses routine error := by
  simp only [check, forM_eq_error_iff, checkRoutine_eq_ok_iff, checkRoutine_eq_error_iff]

end Routines

/-- The check decides whether code is well formed.  It accepts a routine exactly if that is, and
else tells its defect; it accepts an image exactly if all of its routines are well formed, and else
tells the defect of the first one that is not. -/
theorem check_decides_wellFormed (image : Image) :
    (∀ routine, (image.checkRoutine routine = .ok () ↔ image.WellFormed routine) ∧
      ∀ error, image.checkRoutine routine = .error error ↔ image.Refuses routine error) ∧
      (image.check = .ok () ↔ ∀ routine ∈ image.routines, image.WellFormed routine) ∧
      ∀ error, image.check = .error error ↔
        ∃ before routine after, image.routines.toList = before ++ routine :: after ∧
          (∀ earlier ∈ before, image.WellFormed earlier) ∧ image.Refuses routine error :=
  ⟨fun _ => ⟨checkRoutine_eq_ok_iff, fun _ => checkRoutine_eq_error_iff⟩, check_eq_ok_iff,
    fun _ => check_eq_error_iff⟩

end Image

end Backpatch
