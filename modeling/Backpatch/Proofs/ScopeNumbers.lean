import Backpatch.Proofs.FunctionTable

/-!
# Scope numbers of functions

Every block of a program takes the next scope number, and a function with a body has the number of
the block that is its body.  There are as many numbers as words of 16 bits; after the last one they
begin again.  So two functions can have one number only if there are more blocks than numbers.
-/

namespace Backpatch

theorem Routine.Fits.scopeId_eq_iff {natives otherNatives : List String}
    {occurrence other : Occurrence} {routine otherRoutine : Routine}
    (fits : routine.Fits natives occurrence) (otherFits : otherRoutine.Fits otherNatives other)
    (isBlock : occurrence.definition.block?.isSome)
    (otherIsBlock : other.definition.block?.isSome) :
    routine.scopeId = otherRoutine.scopeId ↔
      occurrence.entered % 65536 = other.entered % 65536 := by
  rw [fits.scopeId isBlock, otherFits.scopeId otherIsBlock, ← UInt16.toNat_inj,
    UInt16.toNat_ofNat', UInt16.toNat_ofNat']

/-- Two functions with bodies have the same scope number exactly if the numbers of blocks entered
before their bodies, which are different and less than the number of all blocks, have the same
remainder modulo 65536.  So they have different scope numbers in a program of at most 65536
blocks. -/
theorem Program.scopeId_eq_iff_of_compile {program : Program} {options : Options} {image : Image}
    {index otherIndex : Nat} {occurrence other : Occurrence}
    (compiles : program.compile options = .ok image)
    (found : program.registered[index]? = some occurrence)
    (otherFound : program.registered[otherIndex]? = some other)
    (distinct : index ≠ otherIndex) (isBlock : occurrence.definition.block?.isSome)
    (otherIsBlock : other.definition.block?.isSome) :
    ∃ routine otherRoutine, image.routines[index]? = some routine ∧
      image.routines[otherIndex]? = some otherRoutine ∧
      occurrence.entered ≠ other.entered ∧
      occurrence.entered < program.blockCount ∧ other.entered < program.blockCount ∧
      (routine.scopeId = otherRoutine.scopeId ↔
        occurrence.entered % 65536 = other.entered % 65536) ∧
      (program.blockCount ≤ 65536 → routine.scopeId ≠ otherRoutine.scopeId) := by
  have lists := lists_of_compile compiles
  obtain ⟨routine, lookup, fits⟩ := lists.exists_routine found
  obtain ⟨otherRoutine, otherLookup, otherFits⟩ := lists.exists_routine otherFound
  have differ := entered_ne found otherFound distinct isBlock otherIsBlock
  have small := entered_lt (List.mem_of_getElem? found) isBlock
  have otherSmall := entered_lt (List.mem_of_getElem? otherFound) otherIsBlock
  have same := fits.scopeId_eq_iff otherFits isBlock otherIsBlock
  refine ⟨routine, otherRoutine, lookup, otherLookup, differ, small, otherSmall, same, ?_⟩
  intro few
  rw [Ne, same, Nat.mod_eq_of_lt (by omega), Nat.mod_eq_of_lt (by omega)]
  exact differ

theorem Program.scopeId_eq_iff_of_compile_halving :
    ∃ image routine otherRoutine, halving.compile .default = .ok image ∧
      image.routines[0]? = some routine ∧ image.routines[1]? = some otherRoutine ∧
      routine.scopeId ≠ otherRoutine.scopeId := by
  obtain ⟨image, compiles⟩ := halving_compiles
  obtain ⟨routine, otherRoutine, lookup, otherLookup, -, -, -, -, differ⟩ :=
    scopeId_eq_iff_of_compile compiles (show halving.registered[0]? = some ⟨_, _, _⟩ from rfl)
      (show halving.registered[1]? = some ⟨_, _, _⟩ from rfl) Nat.zero_ne_one rfl rfl
  exact ⟨image, routine, otherRoutine, compiles, lookup, otherLookup, differ (by decide)⟩

/-- A block with a function that does nothing. -/
def Stmt.idle : Stmt :=
  .block ⟨[], [⟨"f", .void, [], .block .empty, 1⟩], []⟩

/-- A program with a number of empty blocks and, in the block after them, a function:

    void main() {
      {} {} … {}
      { void f() {} }
    }
-/
def Program.spaced (count : Nat) : Program where
  top := ⟨"main", .void, [], .block ⟨[], [], List.replicate count (.block .empty) ++ [.idle]⟩, 0⟩

theorem Stmt.registeredAll_replicate_append (path : Path) (index entered count : Nat)
    (stmts : List Stmt) :
    registeredAll path index entered (List.replicate count (.block .empty) ++ stmts) =
      registeredAll path (index + count) (entered + count) stmts := by
  induction count generalizing index entered with
  | zero => rfl
  | succ count ih =>
      rw [List.replicate_succ, List.cons_append, registeredAll, ih, Nat.add_right_comm index,
        Nat.add_right_comm entered]
      rfl

theorem Program.registered_spaced (count : Nat) :
    (spaced count).registered = [⟨[], 0, (spaced count).top⟩,
      ⟨[.function 0, .stmt count 0], count + 2, ⟨"f", .void, [], .block .empty, 1⟩⟩] := by
  change _ :: Stmt.registeredAll [] 0 1 _ = _
  rw [Stmt.registeredAll_replicate_append, Nat.zero_add, Nat.add_comm 1 count]
  rfl

namespace Emitter

/-- Entering blocks and leaving them takes their scope numbers. -/
def skip (emitter : Emitter) (count : Nat) : Emitter :=
  { emitter with
    scopes :=
      { emitter.scopes with nextScope := emitter.scopes.nextScope + UInt16.ofNat count } }

theorem skip_zero (emitter : Emitter) : emitter.skip 0 = emitter := by
  simp [skip]

theorem skip_skip (emitter : Emitter) (first second : Nat) :
    (emitter.skip first).skip second = emitter.skip (first + second) := by
  simp [skip, UInt16.ofNat_add, UInt16.add_assoc]

variable (options : Options) {emitter : Emitter} {id : UInt16}

theorem block_empty (inside : emitter.scopes.current.bodyScope = some id) :
    Strict.block options .empty emitter = .ok () (emitter.skip 1) := by
  -- The function has its scope already, so entering the block leaves it as it is.
  obtain ⟨image, ⟨⟨_, _, _, bodyScope, _, _, _⟩, _, _⟩, fault⟩ := emitter
  cases inside
  rfl

theorem stmts_replicate_append (inside : emitter.scopes.current.bodyScope = some id) (count : Nat)
    (stmts : List Stmt) :
    Strict.stmts options (List.replicate count (.block .empty) ++ stmts) emitter =
      Strict.stmts options stmts (emitter.skip count) := by
  induction count generalizing emitter with
  | zero => rw [skip_zero, List.replicate_zero, List.nil_append]
  | succ count ih =>
      rw [List.replicate_succ, List.cons_append, Strict.stmts, bind_apply, Strict.stmt,
        block_empty options inside]
      have still : (emitter.skip 1).scopes.current.bodyScope = some id := inside
      change Strict.stmts options _ (emitter.skip 1) = _
      rw [ih still, skip_skip, Nat.add_comm]

/-- The state in which the body of the top-level function has been entered. -/
def begun (program : Program) : Emitter :=
  { start program with scopes := (start program).scopes.enterBlock.2 }

/-- After the empty blocks the rest of the program is compiled. -/
theorem run_spaced (count : Nat) :
    Strict.run options (.spaced count) =
      (do
        Strict.stmts options [.idle]
        modify fun emitter => { emitter with scopes := emitter.scopes.exitBlock }
        emit .ret
        Strict.finish : EmitM Unit) ((begun (.spaced count)).skip count) := by
  have inside : (begun (.spaced count)).scopes.current.bodyScope = some 0 := rfl
  have body : Strict.body options (Program.spaced count).top (start (.spaced count)) =
      (do
        Strict.block options ⟨[], [], List.replicate count (.block .empty) ++ [.idle]⟩
        emit .ret : EmitM Unit) (start (.spaced count)) := rfl
  have block : Strict.block options ⟨[], [], List.replicate count (.block .empty) ++ [.idle]⟩
        (start (.spaced count)) =
      (do
        Strict.stmts options (List.replicate count (.block .empty) ++ [.idle])
        modify fun emitter => { emitter with scopes := emitter.scopes.exitBlock } : EmitM Unit)
          (begun (.spaced count)) := rfl
  simp only [Strict.run, bind_apply, body, block, stmts_replicate_append options inside]
  cases Strict.stmts options [.idle] ((begun (.spaced count)).skip count) <;> rfl

end Emitter

theorem Program.spaced_compiles : ∃ image, (spaced 65534).compile .default = .ok image := by
  rw [compile_eq_emit, emit_eq_run, Emitter.run_spaced]
  exact exists_of_isOk (by decide +kernel)

/-- The function after 65534 empty blocks has the scope number of the top-level function. -/
theorem Program.spaced_share_scopeId :
    ∃ image routine otherRoutine, (spaced 65534).compile .default = .ok image ∧
      image.routines[0]? = some routine ∧ routine.name = "main" ∧
      image.routines[1]? = some otherRoutine ∧ otherRoutine.name = "f" ∧
      routine.scopeId = otherRoutine.scopeId := by
  obtain ⟨image, compiles⟩ := spaced_compiles
  have lists := lists_of_compile compiles
  have registered := registered_spaced 65534
  obtain ⟨routine, lookup, fits⟩ := lists.exists_routine (show _[0]? = _ by rw [registered]; rfl)
  obtain ⟨otherRoutine, otherLookup, otherFits⟩ :=
    lists.exists_routine (show _[1]? = _ by rw [registered]; rfl)
  exact ⟨image, routine, otherRoutine, compiles, lookup, fits.name, otherLookup, otherFits.name,
    (fits.scopeId_eq_iff otherFits rfl rfl).mpr rfl⟩

end Backpatch
