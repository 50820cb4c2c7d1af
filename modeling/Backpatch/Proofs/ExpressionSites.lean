import Backpatch.Proofs.DirectEmission
import Backpatch.Proofs.SitesInside
import Backpatch.Proofs.StaticTypes

/-!
# The open sites of expressions

A jump whose target is not known yet leaves an open site, and sites are filled far from where they
were opened.  This file keeps the account of them for expressions.  An expression that leaves a
value has filled all sites that it has opened.  One that leaves a condition has opened exactly the
sites of the condition: each is an operand of a two-way branch that was written for it, none is
listed twice, and at least one leads each way.

The account starts from any state in which the open sites lie inside the code.  It follows the
instructions that are appended as a row of opcodes, since operands may change until they are filled.
-/

namespace Backpatch

/-- From one offset up to another, code holds the opcodes of instructions that stand one behind the
other.  Each opcode is listed with its offset. -/
inductive Opcodes (code : List UInt8) : Nat → List (Nat × Op) → Nat → Prop
  | nil {start : Nat} : Opcodes code start [] start
  | cons {start stop : Nat} {op : Op} {row : List (Nat × Op)}
      (opcode : Holds code start [op.toByte]) (later : Opcodes code (start + op.length) row stop) :
      Opcodes code start ((start, op) :: row) stop

namespace Opcodes

variable {code : List UInt8} {start middle stop : Nat} {row more : List (Nat × Op)}

theorem append (first : Opcodes code start row middle) (second : Opcodes code middle more stop) :
    Opcodes code start (row ++ more) stop := by
  induction first with
  | nil => exact second
  | cons opcode _ ih => exact .cons opcode (ih second)

theorem start_le (opcodes : Opcodes code start row stop) : start ≤ stop := by
  induction opcodes with
  | nil => exact Nat.le_refl _
  | cons _ _ ih => exact Nat.le_trans (Nat.le_add_right _ _) ih

/-- With the bytes between them as operands, the opcodes are those of whole instructions. -/
theorem exists_consecutive (opcodes : Opcodes code start row stop) (ends : stop = code.length) :
    ∃ instrs, Consecutive start instrs ∧ code.drop start = instrs.flatMap Instr.encode ∧
      instrs.map (fun instr => (instr.offset, instr.op)) = row := by
  induction opcodes with
  | nil =>
      refine ⟨[], .nil, ?_, rfl⟩
      rw [ends, List.drop_length]
      rfl
  | @cons start stop op row opcode later ih =>
      obtain ⟨instrs, consecutive, spelled, listed⟩ := ih ends
      obtain ⟨rest, dropped⟩ := opcode.drop_eq
      have behind : code.drop (start + op.length) = rest.drop op.width := by
        rw [← List.drop_drop, dropped, Op.length, Nat.add_comm 1]
        exact List.drop_succ_cons
      have whole : (rest.take op.width).length = op.width := by
        have fits := later.start_le
        have long : (code.drop start).length = rest.length + 1 := by rw [dropped]; rfl
        rw [List.length_drop] at long
        rw [List.length_take, Nat.min_eq_left]
        rw [Op.length] at fits
        omega
      refine ⟨⟨start, op, rest.take op.width⟩ :: instrs, .cons rfl whole consecutive, ?_, ?_⟩
      · rw [List.flatMap_cons, ← spelled, behind, dropped]
        change op.toByte :: rest = op.toByte :: (rest.take op.width ++ rest.drop op.width)
        rw [List.take_append_drop]
      · rw [List.map_cons, listed]

end Opcodes

/-- The site is an operand of a two-way branch in a row of opcodes. -/
def Site.OperandIn (site : Site) (row : List (Nat × Op)) : Prop :=
  ∃ entry ∈ row, entry.2.isBranch = true ∧
    (site.offset = entry.1 + 1 ∨ site.offset = entry.1 + 3)

/-- Code is a row of instructions from one offset up to another, and the sites are operands of
two-way branches in it. -/
def Spells (sites : List Site) (start stop : Nat) (code : List UInt8) : Prop :=
  ∃ row, Opcodes code start row stop ∧ ∀ site ∈ sites, site.OperandIn row

namespace Spells

variable {code : List UInt8} {start middle stop : Nat} {sites more : List Site}

theorem refl (start : Nat) (code : List UInt8) : Spells [] start start code :=
  ⟨[], .nil, fun _ member => absurd member List.not_mem_nil⟩

theorem append (first : Spells sites start middle code) (second : Spells more middle stop code) :
    Spells (sites ++ more) start stop code := by
  obtain ⟨row, opcodes, operands⟩ := first
  obtain ⟨moreRow, moreOpcodes, moreOperands⟩ := second
  refine ⟨row ++ moreRow, opcodes.append moreOpcodes, fun site member => ?_⟩
  rcases List.mem_append.mp member with early | late
  · obtain ⟨entry, found, operand⟩ := operands site early
    exact ⟨entry, List.mem_append_left _ found, operand⟩
  · obtain ⟨entry, found, operand⟩ := moreOperands site late
    exact ⟨entry, List.mem_append_right _ found, operand⟩

theorem mono (spells : Spells sites start stop code) (subset : more ⊆ sites) :
    Spells more start stop code := by
  obtain ⟨row, opcodes, operands⟩ := spells
  exact ⟨row, opcodes, fun site member => operands site (subset member)⟩

/-- A single instruction. -/
theorem single {op : Op} (opcode : Holds code start [op.toByte]) :
    Spells [] start (start + op.length) code :=
  ⟨[(start, op)], .cons opcode .nil, fun _ member => absurd member List.not_mem_nil⟩

end Spells

namespace PendingBranch

/-- The open jump targets of a condition, those of the true case first. -/
def sites (pending : PendingBranch) : List Site :=
  pending.trueSites ++ pending.falseSites

/-- There is a jump for each case. -/
def Full (pending : PendingBranch) : Prop :=
  pending.trueSites ≠ [] ∧ pending.falseSites ≠ []

variable (left right : PendingBranch)

theorem perm_holes_conj :
    (left.falseSites.map Site.hole ++ right.holes).Perm (left.conj right).holes := by
  simp only [holes, conj, List.map_append]
  exact List.perm_append_comm_assoc _ _ _

theorem perm_holes_disj :
    (left.trueSites.map Site.hole ++ right.holes).Perm (left.disj right).holes := by
  simp only [holes, disj, List.map_append, List.append_assoc]
  exact .refl _

theorem sites_conj_subset : (left.conj right).sites ⊆ left.sites ++ right.sites := by
  intro site member
  simp only [sites, conj, List.mem_append] at member ⊢
  tauto

theorem sites_disj_subset : (left.disj right).sites ⊆ left.sites ++ right.sites := by
  intro site member
  simp only [sites, disj, List.mem_append] at member ⊢
  tauto

end PendingBranch

namespace Compiled

def sites : Compiled → List Site
  | value _ => []
  | branch pending => pending.sites

def Full : Compiled → Prop
  | value _ => True
  | branch pending => pending.Full

end Compiled

namespace Emitter

variable {before middle after : Emitter}

/-- From one state to another, whole instructions have been appended to the code of the current
function.  They leave the given holes open, and the given sites are operands of two-way branches
among them. -/
structure Grows (before after : Emitter) (opened : List Hole) (sites : List Site) : Prop where
  fault : after.fault = before.fault
  writes : before.buffer.Writes after.buffer opened
    (Spells sites before.buffer.size after.buffer.size)

namespace Grows

variable {opened more : List Hole} {sites others : List Site}

theorem refl (emitter : Emitter) : Grows emitter emitter [] [] where
  fault := rfl
  writes := (Buffer.Writes.refl _).imp fun code _ => .refl _ code

theorem trans (first : Grows before middle opened sites) (second : Grows middle after more others) :
    Grows before after (opened ++ more) (sites ++ others) where
  fault := second.fault.trans first.fault
  writes := (first.writes.trans second.writes).imp fun _ both => both.1.append both.2

theorem perm (grows : Grows before after opened sites) (same : opened.Perm more) :
    Grows before after more sites :=
  ⟨grows.fault, grows.writes.perm same⟩

theorem mono (grows : Grows before after opened sites) (subset : others ⊆ sites) :
    Grows before after opened others :=
  ⟨grows.fault, grows.writes.imp fun _ spells => spells.mono subset⟩

/-- What comes next has its open sites inside as well. -/
theorem inside (grows : Grows before after opened sites) (inside : before.buffer.Inside) :
    after.buffer.Inside := by
  intro offset member
  rcases (grows.writes.open_iff offset).mp member with old | ⟨hole, found, rfl⟩
  · exact Nat.lt_of_lt_of_le (inside offset old) grows.writes.size_le
  · have := grows.writes.within hole found
    omega

/-- Nothing has been written. -/
theorem of_buffer_eq (fault : after.fault = before.fault) (buffer : after.buffer = before.buffer) :
    Grows before after [] [] where
  fault := fault
  writes := by
    rw [buffer]
    exact (Buffer.Writes.refl _).imp fun code _ => .refl _ code

/-- Without holes, the open sites are as before. -/
theorem openSites_eq (grows : Grows before after [] sites) :
    after.buffer.openSites = before.buffer.openSites := by
  apply Std.ExtTreeSet.ext_mem
  intro offset
  rw [grows.writes.open_iff]
  simp

end Grows

/-- Asking for the end of the code changes nothing. -/
theorem eq_ok_of_offset {α : Type} {next : Nat → EmitM α} {result : α}
    (ran : (offset >>= next) before = .ok result after) :
    next before.buffer.size before = .ok result after :=
  ran

theorem eq_of_write {append : Buffer → Buffer} (ran : write append before = .ok () after) :
    after = before.withBuffer (append before.buffer) := by
  cases ran
  rfl

theorem eq_of_writeWith {α : Type} {append : Buffer → α × Buffer} {result : α}
    (ran : writeWith append before = .ok result after) :
    result = (append before.buffer).1 ∧ after = before.withBuffer (append before.buffer).2 := by
  cases ran
  exact ⟨rfl, rfl⟩

/-- An instruction with its operands. -/
theorem grows_write {append : Buffer → Buffer} (op : Op) (operands : List UInt8)
    (appended : (append before.buffer).toList = before.buffer.toList ++ op.toByte :: operands)
    (sameSites : (append before.buffer).openSites = before.buffer.openSites)
    (width : operands.length = op.width) (ran : write append before = .ok () after) :
    Grows before after [] [] := by
  obtain rfl := eq_of_write ran
  refine ⟨rfl, (Buffer.Writes.ofAppend appended sameSites).imp fun code holds => ?_⟩
  have size : (append before.buffer).size = before.buffer.size + op.length := by
    rw [← Buffer.length_toList, appended, List.length_append, Buffer.length_toList,
      List.length_cons, width, Op.length, Nat.add_comm 1]
  rw [buffer_withBuffer, size]
  exact .single (Holds.append.mp (show Holds code _ ([op.toByte] ++ operands) from holds)).1

theorem grows_emit {op : Op} (bare : op.width = 0) (ran : emit op before = .ok () after) :
    Grows before after [] [] :=
  grows_write op [] (Buffer.toList_emit _ op) rfl bare.symm ran

theorem grows_emitWithWord {op : Op} {word : UInt16} (wide : op.width = 2)
    (ran : emitWithWord op word before = .ok () after) : Grows before after [] [] :=
  grows_write op (littleEndian 2 word.toNat) (by simp [Buffer.emitWithWord, Buffer.emitWord]) rfl
    (by rw [length_littleEndian, wide]) ran

theorem grows_emitVarAccess {op : Op} {slot : Slot} {foreign : Bool}
    (wide : op.width = if foreign then 4 else 2)
    (ran : emitVarAccess op slot foreign before = .ok () after) : Grows before after [] [] := by
  cases foreign with
  | false =>
      exact grows_write op (littleEndian 2 slot.index.toNat) (by simp [Buffer.emitWord]) rfl
        (by rw [length_littleEndian, wide]; rfl) ran
  | true =>
      exact grows_write op (littleEndian 2 slot.context.toNat ++ littleEndian 2 slot.index.toNat)
        (by simp [Buffer.emitWord]) rfl
        (by rw [List.length_append, length_littleEndian, length_littleEndian, wide]; rfl) ran

/-- An instruction of a family that names a slot. -/
theorem grows_access {family : Ty → Bool → Option Op} {slot : Slot} {error : CompileError}
    (wide : ∀ {foreign op}, family slot.ty foreign = some op →
      op.width = if foreign then 4 else 2)
    (ran : (do
      let foreign ← isForeign slot
      match family slot.ty foreign with
      | some op => emitVarAccess op slot foreign
      | none => throw error : EmitM Unit) before = .ok () after) : Grows before after [] [] := by
  obtain ⟨foreign, _, asked, ran⟩ := exists_of_bind_eq_ok ran
  cases asked
  cases found : family slot.ty (slot.context != before.scopes.current.id) with
  | none =>
      simp only [found] at ran
      cases ran
  | some op =>
      simp only [found] at ran
      exact grows_emitVarAccess (wide found) ran

theorem grows_emitLoad {slot : Slot} (ran : emitLoad slot before = .ok () after) :
    Grows before after [] [] :=
  grows_access (fun found => (Op.width_of_load? found).1) ran

theorem grows_emitStore {slot : Slot} (ran : emitStore slot before = .ok () after) :
    Grows before after [] [] :=
  grows_access (fun found => (Op.width_of_store? found).1) ran

theorem grows_emitJump {site : Site} (ran : emitJump before = .ok site after) :
    Grows before after [site.hole] [] := by
  obtain ⟨rfl, rfl⟩ := eq_of_writeWith ran
  refine ⟨rfl, ((Buffer.Writes.opcode before.buffer .jump).trans (.reserveWord _)).imp ?_⟩
  rintro code ⟨opcode, -⟩
  rw [buffer_withBuffer, Buffer.size_emitJump]
  exact .single opcode

theorem grows_emitJumpTo {target : Nat} (ran : emitJumpTo target before = .ok () after) :
    Grows before after [] [] := by
  unfold emitJumpTo at ran
  split at ran
  · cases ran
  · exact grows_emitWithWord rfl ran

theorem grows_emitBranch {op : Op} {pending : PendingBranch} (isBranch : op.isBranch = true)
    (ran : emitBranch op before = .ok pending after) :
    Grows before after pending.holes pending.sites ∧ pending.Full := by
  obtain ⟨rfl, rfl⟩ := eq_of_writeWith ran
  refine ⟨⟨rfl, (((Buffer.Writes.opcode before.buffer op).trans (.reserveWord _)).trans
    (.reserveWord _)).imp ?_⟩, List.cons_ne_nil _ _, List.cons_ne_nil _ _⟩
  rintro code ⟨⟨opcode, -⟩, -⟩
  rw [buffer_withBuffer, Buffer.size_emitBranch]
  have width : op.length = 5 := by rw [Op.length, Op.width_of_isBranch isBranch]
  refine ⟨[(before.buffer.size, op)], .cons opcode (width ▸ .nil), fun site member => ?_⟩
  refine ⟨_, List.mem_singleton_self _, isBranch, ?_⟩
  rcases List.mem_cons.mp member with rfl | member
  · exact .inl (Buffer.size_emit before.buffer op)
  · obtain rfl := List.mem_singleton.mp member
    refine .inr ((Buffer.size_reserveWord _).trans ?_)
    rw [Buffer.size_emit]

/-- Patching fills holes and writes no instruction. -/
theorem grows_patch {opened : List Hole} {sites patched : List Site} {target : Nat}
    (rest : List Hole) (inside : before.buffer.Inside) (grows : Grows before middle opened sites)
    (among : opened.Perm (patched.map Site.hole ++ rest))
    (ran : patch patched target middle = .ok () after) : Grows before after rest sites := by
  have filled := (grows.writes.perm among).patchTargets target inside
  unfold patch at ran
  rw [onBuffer_apply] at ran
  cases patching : Buffer.patchTargets patched target middle.buffer with
  | ok result buffer =>
      rw [patching] at filled ran
      cases ran
      refine ⟨grows.fault, filled.2.imp fun code known => ?_⟩
      rw [buffer_withBuffer, filled.1]
      exact known.1
  | error error buffer =>
      rw [patching] at ran
      cases ran

/-- Both cases of a condition are led to their targets. -/
theorem grows_lead {pending : PendingBranch} {sites : List Site} {onTrue onFalse : Nat}
    {trueDone : Emitter} (rest : List Hole) (inside : before.buffer.Inside)
    (grows : Grows before middle (rest ++ pending.holes) sites)
    (trueLed : patch pending.trueSites onTrue middle = .ok () trueDone)
    (falseLed : patch pending.falseSites onFalse trueDone = .ok () after) :
    Grows before after rest sites := by
  have afterTrue := grows_patch (rest ++ pending.falseSites.map Site.hole) inside grows (by
    simp only [PendingBranch.holes, List.map_append]
    exact List.perm_append_comm_assoc _ _ _) trueLed
  exact grows_patch rest inside afterTrue List.perm_append_comm falseLed

/-- Names and slots are no code. -/
theorem grows_onScopes {α : Type} {change : Scopes → Option (α × Scopes)} {error : CompileError}
    {result : α} (blindly : Scopes.Blindly change)
    (ran : onScopes change error before = .ok result after) : Grows before after [] [] := by
  obtain ⟨scopes, changed, rfl⟩ := exists_of_onScopes_eq_ok ran
  exact .of_buffer_eq rfl (blindly _ _ _ changed).2.1

theorem grows_convert {source target : Ty} {position : Position}
    (ran : convert source target none position before = .ok () after) :
    Grows before after [] [] := by
  unfold convert at ran
  split at ran
  · cases ran
    exact .refl before
  · cases conversion : Op.convert? source target with
    | none =>
        simp only [conversion] at ran
        cases ran
    | some op =>
        simp only [conversion] at ran
        exact grows_emit (width_of_convert conversion) ran

/-- A condition that becomes a number has no open sites left. -/
theorem grows_materialize {pending : PendingBranch} {numeric : Numeric} {sites : List Site}
    (inside : before.buffer.Inside) (grows : Grows before middle pending.holes sites)
    (ran : materialize pending numeric middle = .ok () after) : Grows before after [] sites := by
  have ran := eq_ok_of_offset ran
  obtain ⟨_, oneDone, one, ran⟩ := exists_of_bind_eq_ok ran
  obtain ⟨join, jumpDone, jump, ran⟩ := exists_of_bind_eq_ok ran
  have ran := eq_ok_of_offset ran
  obtain ⟨_, zeroDone, zero, ran⟩ := exists_of_bind_eq_ok ran
  have ran := eq_ok_of_offset ran
  obtain ⟨_, joinDone, joined, ran⟩ := exists_of_bind_eq_ok ran
  obtain ⟨_, trueDone, trueLed, falseLed⟩ := exists_of_bind_eq_ok ran
  have written := ((grows.trans (grows_emit (by cases numeric <;> rfl) one)).trans
    (grows_emitJump jump)).trans (grows_emit (by cases numeric <;> rfl) zero)
  -- The jump over the zero is filled first, then the sites of the condition.
  have afterJoin := grows_patch pending.holes inside written (by grind) joined
  exact (grows_lead [] inside afterJoin trueLed falseLed).mono (by simp)

theorem grows_resolve {pending : PendingBranch} {sites : List Site} {target : Nat}
    (inside : before.buffer.Inside) (grows : Grows before middle pending.holes sites)
    (ran : onBuffer (pending.resolve target) middle = .ok () after) :
    Grows before after [] sites := by
  rw [onBuffer_resolve] at ran
  obtain ⟨_, trueDone, trueLed, falseLed⟩ := exists_of_bind_eq_ok ran
  exact grows_lead [] inside grows trueLed falseLed

/-- An expression has been compiled.  Its code has whole instructions, and the holes in it are the
sites that it leaves. -/
structure Leaves (before : Emitter) (compiled : Compiled) (after : Emitter) : Prop where
  grows : Grows before after compiled.holes compiled.sites
  full : compiled.Full

theorem Leaves.materializeValue {compiled : Compiled} {ty : Ty} (inside : before.buffer.Inside)
    (leaves : Leaves before compiled middle)
    (ran : materializeValue compiled middle = .ok ty after) : Grows before after [] [] := by
  cases compiled with
  | value own =>
      cases ran
      exact leaves.grows
  | branch pending =>
      obtain ⟨_, _, materialized, done⟩ := exists_of_bind_eq_ok ran
      cases done
      exact (grows_materialize inside leaves.grows materialized).mono (List.nil_subset _)

theorem Leaves.coerce {compiled : Compiled} {target : Ty} {position : Position}
    (inside : before.buffer.Inside) (leaves : Leaves before compiled middle)
    (ran : coerce compiled target position middle = .ok () after) : Grows before after [] [] := by
  cases compiled with
  | value source => exact leaves.grows.trans (grows_convert ran)
  | branch pending =>
      cases target with
      | int | double =>
          exact (grows_materialize inside leaves.grows ran).mono (List.nil_subset _)
      | void =>
          have resolved := eq_ok_of_offset ran
          exact (grows_resolve inside leaves.grows resolved).mono (List.nil_subset _)
      | logic | string | invalid => cases ran

theorem Leaves.branchOnValue {compiled : Compiled} {position : Position} {pending : PendingBranch}
    (leaves : Leaves before compiled middle)
    (ran : branchOnValue compiled position middle = .ok pending after) :
    Leaves before (.branch pending) after := by
  cases compiled with
  | branch own =>
      cases ran
      exact leaves
  | value ty =>
      cases ty with
      | int =>
          obtain ⟨_, zeroDone, zero, branched⟩ := exists_of_bind_eq_ok ran
          obtain ⟨grows, full⟩ := grows_emitBranch rfl branched
          exact ⟨(leaves.grows.trans (grows_emit rfl zero)).trans grows, full⟩
      | double =>
          obtain ⟨_, zeroDone, zero, ran⟩ := exists_of_bind_eq_ok ran
          obtain ⟨_, compareDone, compared, ran⟩ := exists_of_bind_eq_ok ran
          obtain ⟨_, intDone, intZero, branched⟩ := exists_of_bind_eq_ok ran
          obtain ⟨grows, full⟩ := grows_emitBranch rfl branched
          exact ⟨(((leaves.grows.trans (grows_emit rfl zero)).trans (grows_emit rfl compared)).trans
            (grows_emit rfl intZero)).trans grows, full⟩
      | logic | string | void | invalid => cases ran

/-- Once a reserved byte is filled with an opcode, it is an instruction in the row. -/
theorem grows_patchOpSite {converter : Op} (bare : converter.width = 0)
    (inside : before.buffer.Inside)
    (behind : Grows (before.withBuffer before.buffer.reserveOp.2) middle [] [])
    (ran : onBuffer (Buffer.patchOpSite before.buffer.reserveOp.1 converter) middle =
      .ok () after) : Grows before after [] [] := by
  have both := (Buffer.Writes.reserveOp before.buffer).trans behind.writes
  have patched : Buffer.patchOpSite before.buffer.reserveOp.1 converter middle.buffer =
      .ok () (middle.buffer.filled before.buffer.size [converter.toByte]) :=
    Buffer.patchOpSite_eq converter (both.within _ List.mem_cons_self).2.2
  rw [onBuffer_apply, patched] at ran
  cases ran
  refine ⟨behind.fault, (both.filled inside [converter.toByte] rfl).imp ?_⟩
  rintro code ⟨⟨-, spells⟩, opcode⟩
  rw [buffer_withBuffer, Buffer.size_filled]
  rw [buffer_withBuffer, Buffer.size_reserveOp] at spells
  have first := Spells.single opcode
  rw [Op.length, bare] at first
  exact first.append spells

/-- Between the two operands there is either nothing, or a byte for the conversion of the left one.
In the second case the byte is filled once the right operand is written, since the types are those
that were expected. -/
theorem grows_convertLeft {op : BinOp} {leftTy rightTy predicted : Ty} {position : Position}
    {site : Option Site} {reserved written : Emitter} (inside : before.buffer.Inside)
    (expected : predicted = .double → rightTy = .double)
    (reserves : reserveConversion leftTy predicted before = .ok site reserved)
    (right : reserved.buffer.Inside → Grows reserved written [] [])
    (ran : convertLeft op leftTy (Ty.common leftTy rightTy) position site written = .ok () after) :
    Grows before after [] [] := by
  unfold reserveConversion at reserves
  split at reserves
  case isFalse =>
      cases reserves
      unfold convertLeft at ran
      dsimp only at ran
      split at ran
      · cases ran
        exact right inside
      · cases ran
  case isTrue widens =>
      obtain ⟨rfl, widened⟩ := widens
      obtain rfl : rightTy = .double := by
        apply expected
        cases predicted <;> first | rfl | cases widened
      obtain ⟨place, _, reserves, done⟩ := exists_of_bind_eq_ok reserves
      cases done
      obtain ⟨rfl, rfl⟩ := eq_of_writeWith reserves
      exact grows_patchOpSite rfl inside (right inside.reserveOp) ran

/-- Both operands of an operator are written as values, and no site is left open. -/
theorem grows_emitOperands {op : BinOp} {position leftPosition rightPosition : Position}
    {predicted ty : Ty} {left right : Expr} (inside : before.buffer.Inside)
    (foreseen : ∀ ty, before.typing right = .ok ty → predicted = ty.asValue)
    (leftLeaves : ∀ {compiled after}, emitExpr left before = .ok compiled after →
      Leaves before compiled after)
    (rightLeaves : ∀ {start compiled after}, start.buffer.Inside →
      emitExpr right start = .ok compiled after → Leaves start compiled after)
    (ran : emitOperands op position predicted (emitExpr left) leftPosition (emitExpr right)
      rightPosition before = .ok ty after) : Grows before after [] [] := by
  obtain ⟨leftCompiled, leftDone, leftRan, ran⟩ := exists_of_bind_eq_ok ran
  obtain ⟨leftTy, leftValued, leftValue, ran⟩ := exists_of_bind_eq_ok ran
  obtain ⟨site, reserved, reserves, ran⟩ := exists_of_bind_eq_ok ran
  obtain ⟨rightCompiled, rightDone, rightRan, ran⟩ := exists_of_bind_eq_ok ran
  obtain ⟨rightTy, rightValued, rightValue, ran⟩ := exists_of_bind_eq_ok ran
  obtain ⟨common, _, foundCommon, ran⟩ := exists_of_bind_eq_ok ran
  obtain ⟨_, leftConverted, convertsLeft, ran⟩ := exists_of_bind_eq_ok ran
  obtain ⟨_, rightConverted, convertsRight, done⟩ := exists_of_bind_eq_ok ran
  cases done
  unfold numericType at foundCommon
  split at foundCommon
  case isFalse => cases foundCommon
  case isTrue =>
      cases foundCommon
      have leftGrows := (leftLeaves leftRan).materializeValue inside leftValue
      have sameTypes : reserved.typing = before.typing := by
        rw [KeepsTypes.of_coding (.reserveConversion _ _) _ _ _ reserves,
          KeepsTypes.of_coding (.materializeValue _) _ _ _ leftValue,
          KeepsTypes.emitExpr left _ _ _ leftRan]
      have rightTyped := typing_of_emitExpr right rightRan
      rw [sameTypes] at rightTyped
      have expected : predicted = .double → rightTy = .double := by
        intro isDouble
        rw [foreseen _ rightTyped] at isDouble
        rw [valueTy_of_materializeValue rightValue]
        cases rightCompiled with
        | branch pending => cases isDouble
        | value own => cases own <;> first | rfl | cases isDouble
      have converted := grows_convertLeft (leftGrows.inside inside) expected reserves
        (fun reservedInside => (rightLeaves reservedInside rightRan).materializeValue
          reservedInside rightValue) convertsLeft
      exact (leftGrows.trans converted).trans (grows_convert convertsRight)

/-- The sites of a connective are those of its operands, except those that lead to the right one. -/
theorem leaves_emitLogical {op : Connective} {left right : EmitM PendingBranch}
    {compiled : Compiled} (inside : before.buffer.Inside)
    (leftLeaves : ∀ {pending after}, left before = .ok pending after →
      Leaves before (.branch pending) after)
    (rightLeaves : ∀ {start pending after}, start.buffer.Inside →
      right start = .ok pending after → Leaves start (.branch pending) after)
    (ran : emitLogical op left right before = .ok compiled after) :
    Leaves before compiled after := by
  obtain ⟨leftBranch, leftDone, leftRan, ran⟩ := exists_of_bind_eq_ok ran
  have ran := eq_ok_of_offset ran
  obtain ⟨leftGrows, leftFull⟩ := leftLeaves leftRan
  cases op with
  | and =>
      obtain ⟨_, patchedDone, patched, ran⟩ := exists_of_bind_eq_ok ran
      obtain ⟨rightBranch, rightDone, rightRan, done⟩ := exists_of_bind_eq_ok ran
      cases done
      have led := grows_patch (leftBranch.falseSites.map Site.hole) inside leftGrows
        (by simp [Compiled.holes, PendingBranch.holes]) patched
      obtain ⟨rightGrows, rightFull⟩ := rightLeaves (led.inside inside) rightRan
      have grows := (led.trans rightGrows).perm (PendingBranch.perm_holes_conj _ _)
      exact ⟨grows.mono (PendingBranch.sites_conj_subset _ _), rightFull.1,
        List.append_ne_nil_of_left_ne_nil leftFull.2 _⟩
  | or =>
      obtain ⟨_, patchedDone, patched, ran⟩ := exists_of_bind_eq_ok ran
      obtain ⟨rightBranch, rightDone, rightRan, done⟩ := exists_of_bind_eq_ok ran
      cases done
      have led := grows_patch (leftBranch.trueSites.map Site.hole) inside leftGrows
        (by simpa only [Compiled.holes, PendingBranch.holes, List.map_append] using
          List.perm_append_comm) patched
      obtain ⟨rightGrows, rightFull⟩ := rightLeaves (led.inside inside) rightRan
      have grows := (led.trans rightGrows).perm (PendingBranch.perm_holes_disj _ _)
      exact ⟨grows.mono (PendingBranch.sites_disj_subset _ _),
        List.append_ne_nil_of_left_ne_nil leftFull.1 _, rightFull.2⟩

theorem leaves_emitNegation {compiled result : Compiled} {position : Position}
    (inside : before.buffer.Inside) (leaves : Leaves before compiled middle)
    (ran : emitNegation compiled position middle = .ok result after) :
    Leaves before result after := by
  obtain ⟨ty, valued, isValue, ran⟩ := exists_of_bind_eq_ok ran
  cases isNumber : Numeric.ofTy? ty with
  | none =>
      simp only [isNumber] at ran
      cases ran
  | some numeric =>
      simp only [isNumber] at ran
      obtain ⟨_, minusDone, minusOne, ran⟩ := exists_of_bind_eq_ok ran
      obtain ⟨_, timesDone, times, done⟩ := exists_of_bind_eq_ok ran
      cases done
      have grows := ((leaves.materializeValue inside isValue).trans
        (grows_emit (by cases numeric <;> rfl) minusOne)).trans
          (grows_emit (by cases numeric <;> rfl) times)
      exact ⟨grows, trivial⟩

theorem leaves_emitArithmetic {op : ArithOp} {ty : Ty} {position : Position} {compiled : Compiled}
    (operands : Grows before middle [] [])
    (ran : emitArithmetic op ty position middle = .ok compiled after) :
    Leaves before compiled after := by
  unfold emitArithmetic at ran
  cases instr : op.instr? ty with
  | none =>
      simp only [instr] at ran
      cases ran
  | some code =>
      simp only [instr] at ran
      obtain ⟨_, _, emitted, done⟩ := exists_of_bind_eq_ok ran
      cases done
      exact ⟨operands.trans (grows_emit (width_of_instr instr) emitted), trivial⟩

theorem leaves_emitComparison {op : Comparison} {ty : Ty} {compiled : Compiled}
    (operands : Grows before middle [] [])
    (ran : emitComparison op ty middle = .ok compiled after) : Leaves before compiled after := by
  obtain ⟨_, _, compared, ran⟩ := exists_of_bind_eq_ok ran
  obtain ⟨_, _, zero, ran⟩ := exists_of_bind_eq_ok ran
  obtain ⟨pending, _, branched, done⟩ := exists_of_bind_eq_ok ran
  cases done
  obtain ⟨grows, full⟩ := grows_emitBranch op.isBranch_branchOp branched
  have bare : (if ty = .double then Op.dCmp else Op.iCmp).width = 0 := by split <;> rfl
  have written := (operands.trans (grows_emit bare compared)).trans (grows_emit rfl zero)
  exact ⟨written.trans grows, full⟩

mutual

/-- Every expression keeps the account of its sites. -/
theorem leaves_emitExpr : (expr : Expr) → {before after : Emitter} → {compiled : Compiled} →
    before.buffer.Inside → emitExpr expr before = .ok compiled after → Leaves before compiled after
  | .int _ value, before, after, compiled, inside, ran => by
      obtain ⟨_, _, written, done⟩ := exists_of_bind_eq_ok ran
      cases done
      exact ⟨grows_write .iLoad (littleEndian 8 value.toUInt64.toNat) (by simp [Buffer.emitInt]) rfl
        (length_littleEndian _ _) written, trivial⟩
  | .double _ value, before, after, compiled, inside, ran => by
      obtain ⟨_, _, written, done⟩ := exists_of_bind_eq_ok ran
      cases done
      exact ⟨grows_write .dLoad (littleEndian 8 value.bits.toNat) (by simp [Buffer.emitDouble]) rfl
        (length_littleEndian _ _) written, trivial⟩
  | .string _ value, before, after, compiled, inside, ran => by
      obtain ⟨id, interned, added, ran⟩ := exists_of_bind_eq_ok ran
      obtain ⟨_, _, emitted, done⟩ := exists_of_bind_eq_ok ran
      cases done
      obtain ⟨image, -, rfl⟩ := exists_of_onImage_eq_ok added
      have grows := grows_emitWithWord rfl emitted
      exact ⟨⟨grows.fault, grows.writes⟩, trivial⟩
  | .load _ _, before, after, compiled, inside, ran => by
      obtain ⟨slot, _, resolved, ran⟩ := exists_of_bind_eq_ok ran
      obtain ⟨_, _, loaded, done⟩ := exists_of_bind_eq_ok ran
      cases done
      obtain rfl := (eq_of_ask_eq_ok resolved).symm
      exact ⟨grows_emitLoad loaded, trivial⟩
  | .binary _ (.logic connective) left right, before, after, compiled, inside, ran => by
      refine leaves_emitLogical inside (fun leftRan => ?_) (fun startInside rightRan => ?_) ran
      · obtain ⟨_, _, operandRan, branched⟩ := exists_of_bind_eq_ok leftRan
        exact (leaves_emitExpr left inside operandRan).branchOnValue branched
      · obtain ⟨_, _, operandRan, branched⟩ := exists_of_bind_eq_ok rightRan
        exact (leaves_emitExpr right startInside operandRan).branchOnValue branched
  | .binary _ (.compare _) left right, before, after, compiled, inside, ran => by
      obtain ⟨predicted, _, predicts, ran⟩ := exists_of_bind_eq_ok ran
      obtain ⟨rfl, foreseen⟩ := foreseen_of_predictedType predicts
      obtain ⟨ty, _, operandsRan, compared⟩ := exists_of_bind_eq_ok ran
      have operands := grows_emitOperands inside foreseen
        (fun leftRan => leaves_emitExpr left inside leftRan)
        (fun startInside rightRan => leaves_emitExpr right startInside rightRan) operandsRan
      exact leaves_emitComparison operands compared
  | .binary _ (.arith _) left right, before, after, compiled, inside, ran => by
      obtain ⟨predicted, _, predicts, ran⟩ := exists_of_bind_eq_ok ran
      obtain ⟨rfl, foreseen⟩ := foreseen_of_predictedType predicts
      obtain ⟨ty, _, operandsRan, computed⟩ := exists_of_bind_eq_ok ran
      have operands := grows_emitOperands inside foreseen
        (fun leftRan => leaves_emitExpr left inside leftRan)
        (fun startInside rightRan => leaves_emitExpr right startInside rightRan) operandsRan
      exact leaves_emitArithmetic operands computed
  | .unary _ .not operand, before, after, compiled, inside, ran => by
      obtain ⟨_, _, operandRan, ran⟩ := exists_of_bind_eq_ok ran
      obtain ⟨pending, _, branched, done⟩ := exists_of_bind_eq_ok ran
      cases done
      obtain ⟨grows, full⟩ := (leaves_emitExpr operand inside operandRan).branchOnValue branched
      exact ⟨(grows.perm (List.perm_append_comm.map _)).mono List.perm_append_comm.subset, full.2,
        full.1⟩
  | .unary _ .neg operand, before, after, compiled, inside, ran => by
      obtain ⟨_, _, operandRan, negated⟩ := exists_of_bind_eq_ok ran
      exact leaves_emitNegation inside (leaves_emitExpr operand inside operandRan) negated
  | .call _ _ args, before, after, compiled, inside, ran => by
      obtain ⟨_, _, found, ran⟩ := exists_of_bind_eq_ok ran
      obtain rfl := (eq_of_ask_eq_ok found).symm
      obtain ⟨_, _, argsRan, ran⟩ := exists_of_bind_eq_ok ran
      obtain ⟨_, _, called, done⟩ := exists_of_bind_eq_ok ran
      cases done
      exact ⟨(grows_emitArgs args _ inside argsRan).trans (grows_emitWithWord rfl called), trivial⟩

theorem grows_emitArgs : (args : List Expr) → (types : List Ty) → {before after : Emitter} →
    before.buffer.Inside → emitArgs args types before = .ok () after → Grows before after [] []
  | [], _, before, after, inside, ran => by
      cases ran
      exact .refl before
  | arg :: args, types, before, after, inside, ran => by
      obtain ⟨_, _, restRan, ran⟩ := exists_of_bind_eq_ok ran
      obtain ⟨compiled, _, argRan, coerced⟩ := exists_of_bind_eq_ok ran
      have rest := grows_emitArgs args types.tail inside restRan
      have argInside := rest.inside inside
      exact rest.trans ((leaves_emitExpr arg argInside argRan).coerce argInside coerced)

end

theorem grows_emitAs {expr : Expr} {ty : Ty} (inside : before.buffer.Inside)
    (ran : emitAs expr ty before = .ok () after) : Grows before after [] [] := by
  obtain ⟨_, _, compiles, coerced⟩ := exists_of_bind_eq_ok ran
  exact (leaves_emitExpr expr inside compiles).coerce inside coerced

theorem grows_emitCondition {expr : Expr} {pending : PendingBranch}
    (inside : before.buffer.Inside) (ran : emitCondition expr before = .ok pending after) :
    Grows before after pending.holes pending.sites := by
  obtain ⟨_, _, compiles, branched⟩ := exists_of_bind_eq_ok ran
  exact ((leaves_emitExpr expr inside compiles).branchOnValue branched).grows

end Emitter

/-- A condition has opened exactly its sites.  They are new, none is listed twice, at least one
leads each way, and each is an operand of a two-way branch among the instructions that were
appended. -/
structure PendingBranch.Opens (pending : PendingBranch) (before after : Buffer) : Prop where
  open_iff : ∀ offset, offset ∈ after.openSites ↔
    offset ∈ before.openSites ∨ ∃ site ∈ pending.sites, site.offset = offset
  onTrue : pending.trueSites ≠ []
  onFalse : pending.falseSites ≠ []
  nodup : (pending.sites.map Site.offset).Nodup
  fresh : ∀ site ∈ pending.sites, site.offset ∉ before.openSites
  operands : ∃ instrs, Consecutive before.size instrs ∧
    after.toList = before.toList ++ instrs.flatMap Instr.encode ∧
    ∀ site ∈ pending.sites, ∃ instr ∈ instrs, instr.op.isBranch = true ∧
      (site.offset = instr.offset + 1 ∨ site.offset = instr.offset + 3)

namespace Emitter

/-- The account that is kept while an expression is compiled, as one of open sites. -/
theorem Leaves.opens {before after : Emitter} {pending : PendingBranch}
    (leaves : Leaves before (.branch pending) after) (inside : before.buffer.Inside) :
    pending.Opens before.buffer after.buffer where
  open_iff offset := by
    rw [leaves.grows.writes.open_iff]
    refine or_congr_right ⟨?_, ?_⟩
    · rintro ⟨hole, member, rfl⟩
      obtain ⟨site, among, rfl⟩ := List.mem_map.mp member
      exact ⟨site, among, rfl⟩
    · rintro ⟨site, among, rfl⟩
      exact ⟨site.hole, List.mem_map_of_mem among, rfl⟩
  onTrue := leaves.full.1
  onFalse := leaves.full.2
  nodup := by
    have apart := leaves.grows.writes.apart
    simp only [Compiled.holes, PendingBranch.holes, List.pairwise_map] at apart
    rw [List.Nodup, List.pairwise_map]
    refine apart.imp fun holesApart same => ?_
    simp only [Hole.Apart, Site.hole, same] at holesApart
    omega
  fresh site member old := by
    have within := leaves.grows.writes.within site.hole (List.mem_map_of_mem member)
    have below := inside _ old
    simp only [Site.hole] at within
    omega
  operands := by
    obtain ⟨row, opcodes, isOperand⟩ := leaves.grows.writes.ensures_toList.2
    obtain ⟨instrs, consecutive, spelled, listed⟩ :=
      opcodes.exists_consecutive (Buffer.length_toList _).symm
    obtain ⟨bytes, appended⟩ := leaves.grows.writes.exists_append
    refine ⟨instrs, consecutive, ?_, fun site member => ?_⟩
    · rw [← spelled, appended, ← Buffer.length_toList, List.drop_left]
    · obtain ⟨entry, found, isBranch, place⟩ := isOperand site member
      rw [← listed] at found
      obtain ⟨instr, among, rfl⟩ := List.mem_map.mp found
      exact ⟨instr, among, isBranch, place⟩

end Emitter

end Backpatch
