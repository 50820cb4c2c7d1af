import Backpatch.Proofs.GivenSlots

/-!
# Variables that names can mean

Around every part to which a compilation comes stand the declarations of the blocks and functions
that are open there.  Whatever a name means at such a place is a parameter or a variable that is
listed for one of the functions of the program.  In a compilation that succeeds, all functions of
the program are come to.
-/

namespace Backpatch

open Emitter

variable {program : Program} {options : Options} {place inner : Place} {part : Part}
  {emitter : Emitter} {α : Type}

/-- Parameters and variables, but not the bounds of loops. -/
def Storage.isNamed : Storage → Bool
  | param _ | var _ => true
  | bound .. => false

/-- The slot is that of a parameter or a variable of the program. -/
def Program.Declares (program : Program) (slot : Slot) : Prop :=
  ∃ placed ∈ program.places, ∃ owner : Storage,
    (owner, slot) ∈ placed.2.allocations placed.1 ∧ owner.isNamed = true

theorem Storage.exists_mem_slots {function : UInt16} {taken : List Ty} {owners : List Storage}
    {slot : Slot} (numbered : slot ∈ Slot.numbered function taken (owners.map ty)) :
    ∃ owner ∈ owners, (owner, slot) ∈ slots function taken owners := by
  rw [← map_snd_slots] at numbered
  obtain ⟨⟨owner, _⟩, member, rfl⟩ := List.mem_map.mp numbered
  refine ⟨owner, ?_, member⟩
  rw [← map_fst_slots function taken owners]
  exact List.mem_map_of_mem member

/-- How the declarations around a part are related to those around a part in it. -/
def Part.Opens (place : Place) (part : Part) (inner : Place) (sub : Part) : Prop :=
  inner.layers = place.layers ∨
    (∃ vars functions stmts, part = .block ⟨vars, functions, stmts⟩ ∧
      inner.layers = place.layer vars functions :: place.layers) ∨
    ∃ definition id, part = .function definition id ∧ inner = place.enter id.toNat definition ∧
      sub = .body definition

/-- All parts in a script stand among the same declarations. -/
abbrev Script.Remains (options : Options) (place : Place) (script : Script α) (emitter : Emitter) :
    Prop :=
  script.Always options (fun inner _ _ => inner.layers = place.layers) emitter

theorem Expr.remains_script (expr : Expr) :
    (expr.script place).Remains options place emitter := by
  cases expr with
  | int | double | string => trivial
  | load | call => simp [Expr.script, Script.Always, Script.done]
  | binary position op left right =>
      cases op with
      | arith | compare => simp [Expr.script, Script.Always, Script.operation]
      | logic connective =>
          cases connective <;> simp [Expr.script, Script.Always, Script.condition, Script.done]
  | unary position op operand =>
      cases op <;> simp [Expr.script, Script.Always, Script.condition, Script.done]

theorem Stmt.remains_script (stmt : Stmt) :
    (stmt.script place).Remains options place emitter := by
  cases stmt with
  | store position name op value =>
      refine ⟨rfl, fun slot _ _ => ?_⟩
      cases op.update? with
      | none => simp [Script.Always, Script.converted]
      | some arith =>
          cases instrEq : arith.instr? slot.ty <;>
            simp [instrEq, Script.Always, Script.converted]
  | forRange position name low high body =>
      refine ⟨rfl, fun slot _ _ => ?_⟩
      cases number : Numeric.ofTy? slot.ty <;>
        simp [number, Script.Always, Script.converted, Place.behind]
  | ret position value =>
      cases value with
      | none => trivial
      | some value =>
          intro state _ _
          dsimp only
          split
          · trivial
          · simp [Script.Always, Script.converted]
  | expr value =>
      refine ⟨rfl, fun compiled _ _ => ?_⟩
      cases compiled with
      | branch pending => simp [Script.Always]
      | value ty => cases ty <;> trivial
  | ifElse | whileDo | print | block =>
      simp [Stmt.script, Script.Always, Script.condition, Script.done, Place.behind]

theorem Script.Always.imp {holds weaker : Place → Part → Emitter → Prop} {script : Script α}
    (always : script.Always options holds emitter)
    (implies : ∀ place part emitter, holds place part emitter → weaker place part emitter) :
    script.Always options weaker emitter := by
  induction script generalizing emitter with
  | last => trivial
  | step action next ih => exact fun result after ran => ih result (always result after ran)
  | visit place part next ih =>
      exact ⟨implies _ _ _ always.1, fun result after ran => ih result (always.2 result after ran)⟩

theorem Script.Remains.opens {script : Script α} (remains : script.Remains options place emitter) :
    script.Always options (fun inner sub _ => part.Opens place inner sub) emitter :=
  Script.Always.imp remains fun _ _ _ => .inl

theorem Part.opens_script (part : Part) :
    (part.script options place).Always options (fun inner sub _ => part.Opens place inner sub)
      emitter := by
  cases part with
  | var | callee => trivial
  | expr value => exact value.remains_script.opens
  | stmt statement => exact statement.remains_script.opens
  | args values types =>
      refine Script.Remains.opens ?_
      cases values <;> simp [script, Script.Always, Script.converted, Script.done]
  | prints values =>
      refine Script.Remains.opens ?_
      cases values with
      | nil => trivial
      | cons arg rest =>
          refine ⟨rfl, fun _ _ _ ty _ _ => ?_⟩
          cases member : Op.print? ty <;> simp [member, Script.Always, Script.done]
  | stmts statements =>
      refine Script.Remains.opens ?_
      cases statements <;> simp [script, Script.Always, Script.done, Place.behind]
  | otherwise body =>
      refine Script.Remains.opens ?_
      cases body <;> simp [script, Script.Always, Script.done]
  | functions definitions ids =>
      refine Script.Remains.opens ?_
      cases definitions with
      | nil => trivial
      | cons => cases ids <;> simp [script, Script.Always, Script.done, Place.past]
  | body definition =>
      refine Script.Remains.opens ?_
      obtain ⟨name, returnType, params, _ | _, position⟩ := definition <;>
        simp [script, Script.Always]
  | block body =>
      obtain ⟨vars, functions, stmts⟩ := body
      refine fun _ _ _ ids _ _ => ⟨?_, fun _ _ _ => ⟨?_, fun _ _ _ => trivial⟩⟩ <;>
        exact .inr (.inl ⟨vars, functions, stmts, rfl, rfl⟩)
  | function definition id =>
      exact fun _ _ _ => ⟨.inr (.inr ⟨definition, id, rfl, rfl, rfl⟩), fun _ _ _ => trivial⟩

/-- Whatever a name means at a place is a parameter or a variable of the program. -/
def Program.Explains (program : Program) (place : Place) : Prop :=
  ∀ name slot, place.var? name = some slot → program.Declares slot

theorem Program.Explains.of_layers (explains : program.Explains place)
    (same : inner.layers = place.layers) : program.Explains inner := by
  intro name slot found
  refine explains name slot ?_
  rwa [Place.var?, same] at found

/-- Of the declarations in a further layer, each is one for which a function lists its slot. -/
theorem Program.Explains.cons (explains : program.Explains place) {layer : Layer}
    {placed : PlacedDef} {owners : List Storage} (layers : inner.layers = layer :: place.layers)
    (types : layer.vars.map (·.2) = owners.map Storage.ty)
    (named : ∀ owner ∈ owners, owner.isNamed = true) (member : placed ∈ program.places)
    (listed : Storage.slots layer.function layer.taken owners ⊆ placed.2.allocations placed.1) :
    program.Explains inner := by
  intro name slot found
  rw [Place.var?_of_layers layers, Option.or_eq_some_iff] at found
  rcases found with own | ⟨-, outer⟩
  · have numbered := layer.mem_numbered_of_var? own
    rw [types] at numbered
    obtain ⟨owner, isOwner, entry⟩ := Storage.exists_mem_slots numbered
    exact ⟨placed, member, owner, listed entry, named owner isOwner⟩
  · exact explains name slot outer

theorem Program.Explains.enter (explains : program.Explains place) {id : Nat} {definition : FnDef}
    {body : Block} (isBlock : definition.body = .block body)
    (member : (place.enter id definition, definition) ∈ program.places) :
    program.Explains (place.enter id definition) := by
  obtain ⟨name, returnType, params, _, position⟩ := definition
  cases isBlock
  have types : (params.map fun param => (param.name, param.ty)).map (·.2) =
      (params.map Storage.param).map Storage.ty := by
    rw [Storage.map_ty_params, List.map_map]
    rfl
  refine explains.cons rfl types (by simp [Storage.isNamed]) member ?_
  rw [FnDef.allocations]
  exact List.subset_append_left _ _

theorem Part.not_meets_native {definition : FnDef} {symbol : String}
    {sub : Part} {middle : Emitter} (isNative : definition.body = .native symbol) :
    ¬((Part.body definition).script options place).Meets options inner sub middle emitter := by
  obtain ⟨name, returnType, params, _, position⟩ := definition
  cases isNative
  have never : ((Part.body ⟨name, returnType, params, .native symbol, position⟩).script options
      place).Always options (fun _ _ _ => False) emitter := fun _ _ _ => trivial
  exact fun meets => meets.of_always never

/-- A compilation comes to every part at a place at which names mean parameters and variables of the
program.  Only a function that stands for a native one has parameters without slots. -/
theorem Program.Reaches.explains (reaches : program.Reaches options place part emitter)
    (notNative : ∀ definition symbol, part = .body definition → definition.body ≠ .native symbol) :
    program.Explains place := by
  induction reaches with
  | start =>
      cases isBlock : program.top.body with
      | native symbol => exact absurd isBlock (notNative _ _ rfl)
      | block body =>
          refine Program.Explains.enter ?_ isBlock List.mem_cons_self
          rintro name slot ⟨⟩
  | inside outer meets ih =>
      have explains := ih fun definition symbol isBody isNative =>
        Part.not_meets_native isNative (isBody ▸ meets)
      rcases meets.of_always (Part.opens_script _) with
        same | ⟨vars, functions, stmts, rfl, layers⟩ | ⟨definition, id, rfl, rfl, rfl⟩
      · exact explains.of_layers same
      · obtain ⟨-, placed, member, entries⟩ := outer.located
        rw [Block.allocations, List.append_subset] at entries
        refine explains.cons layers ?_ ?_ member entries.1
        · rw [Storage.map_ty_vars, Place.layer, List.map_map]
          rfl
        · simp [Storage.isNamed]
      · cases isBlock : definition.body with
        | native symbol => exact absurd isBlock (notNative _ _ rfl)
        | block body => exact explains.enter isBlock outer.located.1

/-- The listed functions have all been compiled in the course of a compilation. -/
def Program.CompletesAll (program : Program) (options : Options) (places : List PlacedDef) : Prop :=
  ∀ placed ∈ places, ∃ emitter, program.Completes options placed.1 (.body placed.2) emitter

namespace Program.CompletesAll

theorem nil : program.CompletesAll options [] :=
  fun _ member => absurd member List.not_mem_nil

theorem append {places more : List PlacedDef} (first : program.CompletesAll options places)
    (second : program.CompletesAll options more) : program.CompletesAll options (places ++ more) :=
  fun placed member => (List.mem_append.mp member).elim (first placed) (second placed)

theorem cons {definition : FnDef} {places : List PlacedDef}
    (completes : program.Completes options place (.body definition) emitter)
    (rest : program.CompletesAll options places) :
    program.CompletesAll options ((place, definition) :: places) := by
  intro placed member
  rcases List.mem_cons.mp member with rfl | member
  · exact ⟨emitter, completes⟩
  · exact rest placed member

end Program.CompletesAll

mutual

theorem Stmt.completesAll {place : Place} {emitter : Emitter} : (stmt : Stmt) →
    program.Completes options place (.stmt stmt) emitter →
    program.CompletesAll options (stmt.places place)
  | .ifElse cond thenBlock none, completes => by
      rw [Stmt.places]
      obtain ⟨_, inThen⟩ := completes.inThen
      exact thenBlock.completesAll inThen
  | .ifElse cond thenBlock (some elseBlock), completes => by
      rw [Stmt.places]
      obtain ⟨_, inThen⟩ := completes.inThen
      obtain ⟨_, inElse⟩ := completes.inElse
      exact (thenBlock.completesAll inThen).append (elseBlock.completesAll inElse)
  | .whileDo cond body, completes => by
      rw [Stmt.places]
      obtain ⟨_, inBody⟩ := completes.inWhile
      exact body.completesAll inBody
  | .forRange position name low high body, completes => by
      rw [Stmt.places]
      obtain ⟨_, inBody⟩ := completes.inFor
      exact body.completesAll inBody
  | .block body, completes => by
      rw [Stmt.places]
      obtain ⟨_, inBody⟩ := completes.inBlock
      exact body.completesAll inBody
  | .store .., _ | .print .., _ | .ret .., _ | .expr .., _ => by
      rw [Stmt.places]
      exact .nil

theorem Stmt.completesAllIn {place : Place} {emitter : Emitter} : (stmts : List Stmt) →
    program.Completes options place (.stmts stmts) emitter →
    program.CompletesAll options (Stmt.placesAll place stmts)
  | [], _ => by
      rw [Stmt.placesAll]
      exact .nil
  | stmt :: stmts, completes => by
      rw [Stmt.placesAll]
      obtain ⟨_, inFirst⟩ := completes.inFirst
      obtain ⟨_, inRest⟩ := completes.inRest
      exact (stmt.completesAll inFirst).append (Stmt.completesAllIn stmts inRest)

theorem Block.completesAll {place : Place} {emitter : Emitter} : (block : Block) →
    program.Completes options place (.block block) emitter →
    program.CompletesAll options (block.places place)
  | ⟨vars, functions, stmts⟩, completes => by
      rw [Block.places]
      obtain ⟨_, inFunctions⟩ := completes.inFunctions
      obtain ⟨_, inStmts⟩ := completes.inStmts
      obtain ⟨own, nested⟩ := FnDef.completesAllIn place.defined functions inFunctions
      exact (own.append nested).append (Stmt.completesAllIn stmts inStmts)

theorem FnDef.completesAllIn {place : Place} {emitter : Emitter} (first : Nat) :
    (definitions : List FnDef) →
    program.Completes options place (.functions definitions (FnDef.numbers first definitions))
      emitter →
    program.CompletesAll options (FnDef.placedEntries place first definitions) ∧
      program.CompletesAll options (FnDef.placesAll place first definitions)
  | [], _ => by
      rw [FnDef.placesAll]
      exact ⟨.nil, .nil⟩
  | definition :: definitions, completes => by
      rw [FnDef.placesAll]
      obtain ⟨_, inBody⟩ := completes.inFirstBody
      obtain ⟨_, inRest⟩ := completes.inRestFunctions
      obtain ⟨own, nested⟩ := FnDef.completesAllIn (first + 1) definitions inRest
      exact ⟨own.cons inBody, (definition.completesAll inBody).append nested⟩

theorem FnDef.completesAll {place : Place} {emitter : Emitter} : (definition : FnDef) →
    program.Completes options place (.body definition) emitter →
    program.CompletesAll options (definition.places place)
  | ⟨name, returnType, params, .block body, position⟩, completes => by
      rw [FnDef.places]
      obtain ⟨_, inBody⟩ := completes.inBody
      exact body.completesAll inBody
  | ⟨_, _, _, .native _, _⟩, _ => by
      rw [FnDef.places]
      exact .nil

end

/-- If a compilation succeeds, it has come to all functions of the program. -/
theorem Program.completesAll_places {image : Image}
    (compiled : program.compile options = .ok image) :
    program.CompletesAll options program.places := by
  have start := completes_start compiled
  exact (program.top.completesAll start).cons start

/-- In a compiled program, names mean parameters and variables of the program where a function
begins. -/
theorem Program.explains_of_mem_places {image : Image} {definition : FnDef} {body : Block}
    (compiled : program.compile options = .ok image)
    (member : (place, definition) ∈ program.places) (isBlock : definition.body = .block body) :
    program.Explains place := by
  obtain ⟨emitter, reaches, -⟩ := completesAll_places compiled _ member
  refine reaches.explains fun other symbol same isNative => ?_
  cases same
  cases isBlock.symm.trans isNative

end Backpatch
