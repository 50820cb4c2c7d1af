import Backpatch.Proofs.References
import Backpatch.Proofs.Undeclared

/-!
# Lexical scoping

In a compiled program every name refers to its innermost declaration, and a program with a name that
has none is not compiled.  A variable is named without its function in the code of the function to
which it belongs, and with it in the functions inside.
-/

namespace Backpatch

/-- A variable is named in the short form just if it belongs to the function of the place; else it
belongs to one of the functions around that. -/
def Reference.Owned (place : Place) : Reference → Prop
  | load slot cross | store slot cross =>
      slot.context = place.function ∧ cross = false ∨ slot.context ∈ place.ancestors ∧ cross = true
  | call _ => True

namespace Place

variable {place inner : Place} {slot : Slot} {name : String} {reference : Reference}

/-- Two places in one function. -/
structure Beside (inner place : Place) : Prop where
  function : inner.function = place.function
  ancestors : inner.ancestors = place.ancestors

theorem Beside.owned (beside : inner.Beside place) (owned : reference.Owned inner) :
    reference.Owned place := by
  cases reference with
  | load | store => rwa [Reference.Owned, beside.function, beside.ancestors] at owned
  | call => trivial

theorem beside_behind (place : Place) (env : Env) : (place.behind env).Beside place :=
  ⟨rfl, rfl⟩

theorem beside_inside (place : Place) (vars : List VarDecl) (functions : List FnDef) :
    (place.inside vars functions).Beside place := by
  refine ⟨rfl, ?_⟩
  simp [ancestors, inside, past, declareBlock, layer]

theorem ancestors_ne (member : slot.context ∈ place.ancestors) : slot.context ≠ place.function := by
  rw [ancestors, List.mem_filter] at member
  simpa using member.2

theorem owned_of_context (known : slot.context = place.function ∨ slot.context ∈ place.ancestors) :
    (place.loadOf slot).Owned place ∧ (place.storeOf slot).Owned place := by
  rcases known with own | outer
  · simp [Reference.Owned, loadOf, storeOf, own]
  · simp [Reference.Owned, loadOf, storeOf, outer, ancestors_ne outer]

theorem owned_of_load? (found : place.load? name = some reference) : reference.Owned place := by
  obtain ⟨slot, resolved, rfl⟩ := Option.map_eq_some_iff.mp found
  exact (owned_of_context (context_of_var? resolved)).1

theorem owned_of_store? (found : place.store? name = some reference) : reference.Owned place := by
  obtain ⟨slot, resolved, rfl⟩ := Option.map_eq_some_iff.mp found
  exact (owned_of_context (context_of_var? resolved)).2

theorem context_of_bound? (found : place.bound? name = some slot) :
    slot.context = place.function := by
  obtain ⟨bounded, -, rfl⟩ := Option.map_eq_some_iff.mp found
  rfl

theorem owned_of_call? (found : place.call? name = some reference) : reference.Owned place := by
  obtain ⟨callee, -, rfl⟩ := Option.map_eq_some_iff.mp found
  trivial

end Place

mutual

theorem Expr.owned_references (place : Place) {reference : Reference} : (expr : Expr) →
    some reference ∈ expr.references place → reference.Owned place
  | .int .., member | .double .., member | .string .., member => by
      rw [Expr.references] at member
      cases member
  | .load _ name, member => by
      rw [Expr.references] at member
      exact Place.owned_of_load? (List.mem_singleton.mp member).symm
  | .binary _ _ left right, member => by
      rw [Expr.references] at member
      rcases List.mem_append.mp member with inLeft | inRight
      · exact left.owned_references place inLeft
      · exact right.owned_references place inRight
  | .unary _ _ operand, member => by
      rw [Expr.references] at member
      exact operand.owned_references place member
  | .call _ name args, member => by
      rw [Expr.references] at member
      rcases List.mem_append.mp member with inArgs | isCall
      · exact Expr.owned_referencesAll place args inArgs
      · exact Place.owned_of_call? (List.mem_singleton.mp isCall).symm

theorem Expr.owned_referencesAll (place : Place) {reference : Reference} : (args : List Expr) →
    some reference ∈ Expr.referencesAll place args → reference.Owned place
  | [], member => by
      rw [Expr.referencesAll] at member
      cases member
  | arg :: args, member => by
      rw [Expr.referencesAll] at member
      rcases List.mem_append.mp member with inRest | inFirst
      · exact Expr.owned_referencesAll place args inRest
      · exact arg.owned_references place inFirst

end

mutual

theorem Stmt.owned_references {reference : Reference} (place : Place) : (stmt : Stmt) →
    some reference ∈ stmt.references place → reference.Owned place
  | .store _ name op value, member => by
      rw [Stmt.references, List.mem_append, List.mem_append] at member
      rcases member with (isLoad | inValue) | isStore
      · split at isLoad
        · exact Place.owned_of_load? (List.mem_singleton.mp isLoad).symm
        · cases isLoad
      · exact value.owned_references place inValue
      · exact Place.owned_of_store? (List.mem_singleton.mp isStore).symm
  | .ifElse cond thenBlock none, member => by
      rw [Stmt.references, List.mem_append] at member
      rcases member with inThen | inCond
      · exact thenBlock.owned_references place inThen
      · exact cond.owned_references place inCond
  | .ifElse cond thenBlock (some elseBlock), member => by
      rw [Stmt.references, List.mem_append, List.mem_append] at member
      rcases member with (inThen | inElse) | inCond
      · exact thenBlock.owned_references place inThen
      · exact (place.beside_behind _).owned (elseBlock.owned_references _ inElse)
      · exact cond.owned_references place inCond
  | .whileDo cond body, member => by
      rw [Stmt.references, List.mem_append] at member
      rcases member with inCond | inBody
      · exact cond.owned_references place inCond
      · exact body.owned_references place inBody
  | .forRange _ name low high body, member => by
      rw [Stmt.references] at member
      simp only [List.mem_append, List.mem_cons, List.not_mem_nil, or_false] at member
      rcases member with ((((inLow | isStore) | inHigh) | isBoundStore | isLoad | isBoundLoad) |
        inBody) | isReload | isNext
      · exact low.owned_references place inLow
      · exact Place.owned_of_store? isStore.symm
      · exact high.owned_references place inHigh
      · obtain ⟨bound, found, rfl⟩ := Option.map_eq_some_iff.mp isBoundStore.symm
        exact (Place.owned_of_context (.inl (Place.context_of_bound? found))).2
      · exact Place.owned_of_load? isLoad.symm
      · obtain ⟨bound, found, rfl⟩ := Option.map_eq_some_iff.mp isBoundLoad.symm
        exact (Place.owned_of_context (.inl (Place.context_of_bound? found))).1
      · exact (place.beside_behind _).owned (body.owned_references _ inBody)
      · exact Place.owned_of_load? isReload.symm
      · exact Place.owned_of_store? isNext.symm
  | .print _ args, member => by
      rw [Stmt.references, List.mem_flatMap] at member
      obtain ⟨arg, -, inArg⟩ := member
      exact arg.owned_references place inArg
  | .ret _ none, member => by
      rw [Stmt.references] at member
      cases member
  | .ret _ (some value), member => by
      rw [Stmt.references] at member
      exact value.owned_references place member
  | .expr value, member => by
      rw [Stmt.references] at member
      exact value.owned_references place member
  | .block body, member => by
      rw [Stmt.references] at member
      exact body.owned_references place member

theorem Stmt.owned_referencesAll {reference : Reference} (place : Place) : (stmts : List Stmt) →
    some reference ∈ Stmt.referencesAll place stmts → reference.Owned place
  | [], member => by
      rw [Stmt.referencesAll] at member
      cases member
  | stmt :: stmts, member => by
      rw [Stmt.referencesAll, List.mem_append] at member
      rcases member with inFirst | inRest
      · exact stmt.owned_references place inFirst
      · exact (place.beside_behind _).owned (Stmt.owned_referencesAll _ stmts inRest)

theorem Block.owned_references {reference : Reference} (place : Place) : (block : Block) →
    some reference ∈ block.references place → reference.Owned place
  | ⟨vars, functions, stmts⟩, member => by
      rw [Block.references] at member
      exact (place.beside_inside vars functions).owned (Stmt.owned_referencesAll _ stmts member)

end

theorem FnDef.owned_references {reference : Reference} (place : Place) (definition : FnDef)
    (member : some reference ∈ definition.references place) : reference.Owned place := by
  obtain ⟨name, returnType, params, body, position⟩ := definition
  cases body with
  | native symbol => cases member
  | block block =>
      rw [FnDef.references, List.mem_append, List.mem_map] at member
      rcases member with ⟨slot, isParam, same⟩ | inBody
      · cases same
        exact (Place.owned_of_context (.inl (Slot.between_numbered isParam).1)).2
      · exact block.owned_references place inBody

/-- In a compiled program, names are resolved by lexical scoping.  The code of every function
refers, in the order of the function's text, to the variables and functions that are found by
searching the layers around each name from the inside out.  A variable of the function itself is
named in the short form, and one of a function around it together with that function.  If a name
that the compilation comes to has no declaration around it, the program is rejected for that name,
and no name is reported as undefined for another reason. -/
theorem Program.compile_resolves_lexically (program : Program) (options : Options) :
    (∀ image, program.compile options = .ok image →
      image.routines.size = program.places.length ∧
      ∀ index place definition, program.places[index]? = some (place, definition) →
        place.function = UInt16.ofNat index ∧
        ∃ routine instrs, image.routines[index]? = some routine ∧ routine.name = definition.name ∧
          routine.code.instructions = .ok instrs ∧
          (instrs.filterMap (·.reference? place.function)).map some = definition.references place ∧
          ∀ reference ∈ instrs.filterMap (·.reference? place.function), reference.Owned place) ∧
    (∀ name position, program.compile options = .error (.undefinedVariable name position) ↔
      ∃ place emitter, program.Reaches options place (.var position name) emitter ∧
        place.var? name = none) ∧
    ∀ name position, program.compile options = .error (.undefinedFunction name position) ↔
      ∃ place count emitter, program.Reaches options place (.callee position name count) emitter ∧
        place.callee? name = none := by
  refine ⟨fun image compiled => ?_, fun _ _ => compile_eq_undefinedVariable_iff,
    fun _ _ => compile_eq_undefinedFunction_iff⟩
  rw [program.compile_eq_emit] at compiled
  have realizes := realizes_of_emit compiled
  refine ⟨?_, fun index place definition found => ?_⟩
  · rw [realizes.size, ← program.map_places, List.length_map]
  · obtain ⟨function, routine, instrs, lookup, sameName, decoded, references⟩ :=
      realizes.references found
    refine ⟨function, routine, instrs, lookup, sameName, decoded, references, ?_⟩
    intro reference member
    refine definition.owned_references place ?_
    rw [← references]
    exact List.mem_map_of_mem member

/-- A program that only prints a value. -/
def Program.printing (value : Expr) : Program where
  top := ⟨"main", .void, [], .block ⟨[], [], [.print 1 [value]]⟩, 0⟩

/-- The inner function of the example has a variable of the outer one by its number and the number
of the outer function; a name that is declared nowhere is reported. -/
theorem Program.compile_resolves_lexically_halving :
    (∃ image place definition routine instrs, halving.compile .default = .ok image ∧
      halving.places[1]? = some (place, definition) ∧ image.routines[1]? = some routine ∧
      routine.code.instructions = .ok instrs ∧
      instrs.filterMap (·.reference? 1) =
        [.store ⟨1, 0, .double⟩ false, .load ⟨0, 0, .double⟩ true, .load ⟨1, 0, .double⟩ false,
          .store ⟨0, 0, .double⟩ true, .load ⟨0, 0, .double⟩ true]) ∧
    (∃ place emitter, (printing (.load 2 "x")).Reaches .default place (.var 2 "x") emitter ∧
      place.var? "x" = none) ∧
    ∃ place count emitter,
      (printing (.call 2 "f" [])).Reaches .default place (.callee 2 "f" count) emitter ∧
        place.callee? "f" = none := by
  refine ⟨?_, ?_, ?_⟩
  · obtain ⟨image, emitted⟩ := halving_emits
    have compiled : halving.compile .default = .ok image := by
      rw [halving.compile_eq_emit, emitted]
    obtain ⟨-, resolves⟩ := (compile_resolves_lexically halving .default).1 image compiled
    obtain ⟨-, routine, instrs, lookup, -, decoded, references, -⟩ := resolves 1 _ _ rfl
    refine ⟨image, _, _, routine, instrs, compiled, rfl, lookup, decoded, ?_⟩
    exact (List.map_inj_right fun _ _ => Option.some.inj).mp references
  · exact ((compile_resolves_lexically _ _).2.1 "x" 2).mp (by rfl)
  · exact ((compile_resolves_lexically _ _).2.2 "f" 2).mp (by rfl)

end Backpatch
