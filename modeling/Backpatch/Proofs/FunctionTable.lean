import Backpatch.Proofs.TableGrowth

/-!
# The table of functions

A program that is compiled loses no function and gets none twice: its routines are the functions
that are defined anywhere in it, in the order in which they are numbered, and each of them has code
that ends with a return.
-/

namespace Backpatch

/-- The code of a routine reads to its end, where it returns. -/
theorem RoutineCode.instructions_eq {image : Image} {definition : Definition} {routine : Routine}
    (routineCode : RoutineCode image definition routine)
    (registered : image.routine? definition.1.function = some routine) :
    ∃ stop instrs, routine.code.size = stop + 1 ∧
      routine.code.instructions = .ok (instrs ++ [⟨stop, .ret, []⟩]) := by
  obtain ⟨stop, length, checks, ret⟩ := routineCode.body.checks registered
  obtain ⟨instrs, marks, reads, -⟩ := checks.settle ret
  exact ⟨stop, instrs, length, Buffer.instructions_of_reads (length ▸ reads)⟩

theorem Image.Realizes.instructions_eq {image : Image} {program : Program} {index : Nat}
    {routine : Routine} (realizes : image.Realizes program)
    (lookup : image.routines[index]? = some routine) :
    ∃ stop instrs, routine.code.size = stop + 1 ∧
      routine.code.instructions = .ok (instrs ++ [⟨stop, .ret, []⟩]) := by
  obtain ⟨definition, found, routineCode⟩ := realizes.definition lookup
  exact routineCode.instructions_eq (realizes.routine?_function found ▸ lookup)

/-- A function definition has one number only. -/
theorem Program.existsUnique_of_functionAt? {program : Program} {path : Path} {definition : FnDef}
    (found : program.functionAt? path = some definition) :
    ∃! index : Nat, program.registered[index]?.map (·.path) = some path := by
  obtain ⟨index, entered, listed⟩ := exists_of_functionAt? found
  have here : (program.registered.map (·.path))[index]? = some path := by
    rw [List.getElem?_map, listed, Option.map_some]
  refine ⟨index, List.getElem?_map.symm.trans here, fun other same => ?_⟩
  have there : (program.registered.map (·.path))[other]? = some path :=
    List.getElem?_map.trans same
  obtain ⟨inside, -⟩ := List.getElem?_eq_some_iff.mp there
  exact (List.getElem?_inj inside program.nodup_registered).mp (there.trans here.symm)

/-- The routines of a compiled program are the functions defined anywhere in it.  The top-level
function has the first number and is the entry.  The functions of a block have consecutive numbers;
those inside them come later, and those in the statements of the block last.  Every routine has the
name and the signature of its function, and code that is read to its end, where it returns. -/
theorem Program.routines_of_compile {program : Program} {options : Options} {image : Image}
    (compiles : program.compile options = .ok image) :
    image.entry = 0 ∧ program.registered[0]? = some ⟨[], 0, program.top⟩ ∧
    image.routines.size = program.registered.length ∧
    (∀ path definition, program.functionAt? path = some definition →
      ∃! index : Nat, program.registered[index]?.map (·.path) = some path) ∧
    (∀ path block, program.blockAt? path = some block →
      ∃ first, ∀ (index : Nat) definition, block.functions[index]? = some definition →
        ∃ entered, program.registered[first + index]? =
          some ⟨.function index :: path, entered, definition⟩) ∧
    ∀ (index : Nat) occurrence, program.registered[index]? = some occurrence →
      program.functionAt? occurrence.path = some occurrence.definition ∧
      ∃ routine, image.routines[index]? = some routine ∧
        routine.id.map UInt16.toNat = some index ∧
        routine.name = occurrence.definition.name ∧
        routine.signature = occurrence.definition.signature ∧
        ∃ stop instrs, routine.code.size = stop + 1 ∧
          routine.code.instructions = .ok (instrs ++ [⟨stop, .ret, []⟩]) := by
  have lists := lists_of_compile compiles
  have realizes := realizes_of_emit (program.compile_eq_emit options ▸ compiles)
  refine ⟨lists.entry, rfl, ?_, fun _ _ => existsUnique_of_functionAt?,
    fun _ _ => consecutive_of_blockAt?, fun index occurrence listed => ?_⟩
  · rw [lists.routines.length_eq, Array.length_toList]
  · obtain ⟨routine, lookup, fits⟩ := lists.exists_routine listed
    exact ⟨program.has_registered occurrence (List.mem_of_getElem? listed), routine, lookup,
      lists.consistent.numbered index routine lookup, fits.name, fits.signature,
      realizes.instructions_eq lookup⟩

theorem Program.halving_compiles : ∃ image, halving.compile .default = .ok image := by
  obtain ⟨image, emitted⟩ := halving_emits
  exact ⟨image, (halving.compile_eq_emit .default).trans emitted⟩

theorem Program.routines_of_compile_halving :
    ∃ image, halving.compile .default = .ok image ∧ image.entry = 0 ∧ image.routines.size = 2 ∧
      ∃ routine, image.routines[1]? = some routine ∧ routine.name = "half" := by
  obtain ⟨image, compiles⟩ := halving_compiles
  obtain ⟨entry, -, size, -, -, each⟩ := routines_of_compile compiles
  obtain ⟨-, routine, lookup, -, name, -⟩ := each 1 _ rfl
  exact ⟨image, compiles, entry, size, routine, lookup, name⟩

end Backpatch
