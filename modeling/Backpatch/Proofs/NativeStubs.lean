import Backpatch.Proofs.Decoding
import Backpatch.Proofs.TableGrowth

/-!
# Functions that stand for native ones

A function that stands for a native one is compiled to a call of it and a return.  The native is
known by its symbol: functions with one symbol share one native, and it has the signature of that
one of them which is compiled first.
-/

namespace Backpatch

/-- The symbol of the native that a function stands for. -/
def FnDef.symbol? : FnDef → Option String
  | ⟨_, _, _, .native symbol, _⟩ => some symbol
  | ⟨_, _, _, .block _, _⟩ => none

/-- The function that is compiled first of those that stand for the native of a symbol. -/
def Program.firstFor? (program : Program) (symbol : String) : Option Occurrence :=
  program.compiled.find? fun occurrence => occurrence.definition.symbol? == some symbol

theorem Buffer.instructions_stub (id : UInt16) :
    (Buffer.stub id).instructions =
      .ok [⟨0, .callNative, littleEndian 2 id.toNat⟩, ⟨3, .ret, []⟩] := by
  refine instructions_of_splits ⟨.cons rfl (length_littleEndian _ _) (.cons rfl rfl .nil), ?_⟩
  simp [Instr.encode, stub, emitWithWord, emitWord, append, emit, empty, ofBytes]

section

variable {options : Options} {symbol : String}

theorem FnDef.native?_eq_some {definition : FnDef} {native : Native}
    (stands : definition.native? options = some native) :
    native.signature = definition.signature ∧
      options.address? native.name = some native.address := by
  obtain ⟨name, returnType, params, body, position⟩ := definition
  cases body with
  | block body => cases stands
  | native other =>
      obtain ⟨address, bound, rfl⟩ := Option.map_eq_some_iff.mp stands
      exact ⟨rfl, bound⟩

/-- A function stands for a native of a name if its symbol is that name. -/
theorem FnDef.any_native? {address : UInt64} (bound : options.address? symbol = some address)
    (definition : FnDef) :
    (definition.native? options).any (·.name == symbol) =
      (definition.symbol? == some symbol) := by
  obtain ⟨name, returnType, params, body, position⟩ := definition
  cases body with
  | block body => rfl
  | native other =>
      simp only [FnDef.native?, FnDef.symbol?, Option.any_map]
      by_cases same : other = symbol
      · rw [same, bound]
        simp
      · cases options.address? other <;> simp [same]

/-- Of natives of one name the first is kept. -/
theorem Native.find?_foldl_insertNew (symbol : String) (natives added : List Native) :
    (added.foldl insertNew natives).find? (·.name == symbol) =
      (natives ++ added).find? (·.name == symbol) := by
  induction added generalizing natives with
  | nil => rw [List.foldl_nil, List.append_nil]
  | cons native added ih =>
      rw [List.foldl_cons, ih, insertNew]
      split
      case isFalse => rw [List.append_assoc, List.singleton_append]
      case isTrue listed =>
          rw [List.find?_append, List.find?_append]
          by_cases named : native.name = symbol
          -- If the native is the one looked for, an earlier one of its name is found instead.
          · obtain ⟨earlier, member, same⟩ := List.mem_map.mp listed
            have isSome : (natives.find? (·.name == symbol)).isSome :=
              List.find?_isSome.mpr ⟨earlier, member, beq_iff_eq.mpr (same.trans named)⟩
            rw [Option.or_of_isSome isSome, Option.or_of_isSome isSome]
          · rw [List.find?_cons_of_neg (by simpa using named)]

theorem Native.find?_of_nodup {natives : List Native} {native : Native} {position : Nat}
    (distinct : (natives.map (·.name)).Nodup) (found : natives[position]? = some native) :
    natives.find? (·.name == native.name) = some native := by
  obtain ⟨inside, rfl⟩ := List.getElem?_eq_some_iff.mp found
  refine List.find?_eq_some_iff_getElem.mpr ⟨beq_self_eq_true _, position, inside, rfl, ?_⟩
  intro earlier before
  have differ := List.pairwise_iff_getElem.mp distinct earlier position
    (by rw [List.length_map]; omega) (by rwa [List.length_map]) before
  simpa using differ

/-- The native that has a symbol for its name has the signature of the function that is compiled
first. -/
theorem Image.Lists.native?_eq {image : Image} {program : Program} {id : UInt16}
    (lists : image.Lists options program) (named : image.nativeNames[id.toNat]? = some symbol) :
    ∃ first address, program.firstFor? symbol = some first ∧
      options.address? symbol = some address ∧
      image.native? id = some ⟨symbol, first.definition.signature, address⟩ := by
  rw [Image.nativeNames, List.getElem?_map] at named
  obtain ⟨native, found, rfl⟩ := Option.map_eq_some_iff.mp named
  have kept := Native.find?_of_nodup lists.consistent.natives found
  rw [lists.natives, Options.collect, Native.find?_foldl_insertNew, List.nil_append,
    List.find?_filterMap] at kept
  obtain ⟨first, isFirst, stands⟩ := Option.bind_eq_some_iff.mp kept
  obtain ⟨signature, bound⟩ := FnDef.native?_eq_some stands
  simp only [FnDef.any_native? bound] at isFirst
  refine ⟨first, native.address, isFirst, bound, ?_⟩
  rw [Image.native?, ← Array.getElem?_toList, found, ← signature]

end

/-- A function that stands for a native one is compiled to a call of the native and a return.  The
native has the symbol for its name, the address that the options give to it, and the signature of
the function that is compiled first of those with this symbol; so it has the signature of the
function itself exactly if the two signatures are the same. -/
theorem Program.native_of_compile {program : Program} {options : Options} {image : Image}
    {index : Nat} {occurrence : Occurrence} {symbol : String}
    (compiles : program.compile options = .ok image)
    (found : program.registered[index]? = some occurrence)
    (isNative : occurrence.definition.body = .native symbol) :
    ∃ routine id first address, image.routines[index]? = some routine ∧
      routine.code.instructions =
        .ok [⟨0, .callNative, littleEndian 2 id.toNat⟩, ⟨3, .ret, []⟩] ∧
      program.firstFor? symbol = some first ∧
      options.address? symbol = some address ∧
      image.native? id = some ⟨symbol, first.definition.signature, address⟩ ∧
      (image.native? id = some ⟨symbol, occurrence.definition.signature, address⟩ ↔
        first.definition.signature = occurrence.definition.signature) := by
  have lists := lists_of_compile compiles
  obtain ⟨routine, lookup, fits⟩ := lists.exists_routine found
  obtain ⟨id, named, code⟩ := fits.stub symbol isNative
  obtain ⟨first, address, isFirst, bound, native⟩ := lists.native?_eq named
  refine ⟨routine, id, first, address, lookup, ?_, isFirst, bound, native, ?_⟩
  · rw [code, Buffer.instructions_stub]
  · rw [native]
    simp

/-- A program with two functions that stand for one native and have different signatures:

    void main() {
      int f(int a) native "s";
      void g() native "s";
    }
-/
def Program.twins : Program where
  top := ⟨"main", .void, [], .block
    ⟨[], [⟨"f", .int, [⟨"a", .int⟩], .native "s", 1⟩, ⟨"g", .void, [], .native "s", 2⟩], []⟩, 0⟩

def Options.twins : Options :=
  Options.default.bind "s" 5

theorem Program.twins_compiles : ∃ image, twins.compile .twins = .ok image :=
  exists_of_isOk (by decide +kernel)

theorem Program.native_of_compile_twins :
    ∃ image routine id, twins.compile .twins = .ok image ∧ image.routines[1]? = some routine ∧
      routine.code.instructions =
        .ok [⟨0, .callNative, littleEndian 2 id.toNat⟩, ⟨3, .ret, []⟩] ∧
      image.native? id = some ⟨"s", .ofDecls .int [⟨"a", .int⟩], 5⟩ := by
  obtain ⟨image, compiles⟩ := twins_compiles
  obtain ⟨routine, id, first, address, lookup, code, isFirst, bound, -, native⟩ :=
    native_of_compile compiles (show twins.registered[1]? = some ⟨_, _, _⟩ from rfl) rfl
  cases isFirst
  cases bound
  exact ⟨image, routine, id, compiles, lookup, code, native.mpr rfl⟩

/-- The native that the second function calls does not have the signature of this function. -/
theorem Program.twins_share_native :
    ∃ image routine id native, twins.compile .twins = .ok image ∧
      image.routines[2]? = some routine ∧ routine.name = "g" ∧
      routine.code.instructions =
        .ok [⟨0, .callNative, littleEndian 2 id.toNat⟩, ⟨3, .ret, []⟩] ∧
      image.native? id = some native ∧ native.name = "s" ∧
      native.signature ≠ routine.signature := by
  obtain ⟨image, compiles⟩ := twins_compiles
  have lists := lists_of_compile compiles
  obtain ⟨routine, lookup, fits⟩ :=
    lists.exists_routine (show twins.registered[2]? = some ⟨_, _, _⟩ from rfl)
  obtain ⟨id, named, code⟩ := fits.stub "s" rfl
  obtain ⟨first, address, isFirst, -, native⟩ := lists.native?_eq named
  cases isFirst
  refine ⟨image, routine, id, _, compiles, lookup, fits.name, ?_, native, rfl, ?_⟩
  · rw [code, Buffer.instructions_stub]
  · rw [fits.signature]
    change Signature.ofDecls .int [⟨"a", .int⟩] ≠ Signature.ofDecls .void []
    decide

end Backpatch
