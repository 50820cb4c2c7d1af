import Backpatch.Proofs.ReachedStates
import Backpatch.Proofs.SlotAllocation

/-!
# Slots that a compilation gives out

In the course of a compilation parameters, variables and the bounds of loops get their slots.  This
file proves that they get the slots that are listed for their functions, and that in a compilation
that succeeds all that is listed gets its slot.
-/

namespace Backpatch

open Emitter

variable {program : Program} {options : Options} {place inner : Place} {part sub : Part}
  {emitter middle after : Emitter} {α : Type}

theorem Place.enter_toNat_ofNat (place : Place) (id : Nat) (definition : FnDef) :
    place.enter (UInt16.ofNat id).toNat definition = place.enter id definition := by
  simp only [enter, UInt16.ofNat_toNat]

/-- Functions of the program, and entries of the list of one of them. -/
def Program.Covers (program : Program) (places : List PlacedDef)
    (entries : List (Storage × Slot)) : Prop :=
  places ⊆ program.places ∧
    ∃ placed ∈ program.places, entries ⊆ placed.2.allocations placed.1

/-- What needs a slot in a part is listed for its function. -/
def Part.Located (program : Program) (place : Place) : Part → Prop
  | .stmt statement => program.Covers (statement.places place) (statement.allocations place)
  | .stmts statements =>
      program.Covers (Stmt.placesAll place statements) (Stmt.allocationsAll place statements)
  | .block inner => program.Covers (inner.places place) (inner.allocations place)
  | .otherwise (some inner) => program.Covers (inner.places place) (inner.allocations place)
  | .functions definitions ids =>
      ∃ first, ids = FnDef.numbers first definitions ∧
        FnDef.placedEntries place first definitions ⊆ program.places ∧
        FnDef.placesAll place first definitions ⊆ program.places
  | .function definition id =>
      (place.enter id.toNat definition, definition) ∈ program.places ∧
        definition.places (place.enter id.toNat definition) ⊆ program.places
  | .body definition =>
      (place, definition) ∈ program.places ∧ definition.places place ⊆ program.places
  | _ => True

theorem Program.Covers.mono {places more : List PlacedDef} {entries further : List (Storage × Slot)}
    (covers : program.Covers more further) (fewer : places ⊆ more) (less : entries ⊆ further) :
    program.Covers places entries := by
  obtain ⟨inside, placed, member, listed⟩ := covers
  exact ⟨List.Subset.trans fewer inside, placed, member, List.Subset.trans less listed⟩

/-- The parts in a script are located. -/
abbrev Script.Locates (program : Program) (options : Options) (script : Script α)
    (emitter : Emitter) : Prop :=
  script.Always options (fun inner sub _ => sub.Located program inner) emitter

theorem Expr.locates_script (expr : Expr) :
    (expr.script place).Locates program options emitter := by
  cases expr with
  | int | double | string => trivial
  | load | call => simp [Expr.script, Script.Always, Script.done, Part.Located]
  | binary position op left right =>
      cases op with
      | arith | compare => simp [Expr.script, Script.Always, Script.operation, Part.Located]
      | logic connective =>
          cases connective <;>
            simp [Expr.script, Script.Always, Script.condition, Script.done, Part.Located]
  | unary position op operand =>
      cases op <;>
        simp [Expr.script, Script.Always, Script.condition, Script.done, Part.Located]

theorem Stmt.locates_script (stmt : Stmt) (located : (Part.stmt stmt).Located program place) :
    (stmt.script place).Locates program options emitter := by
  cases stmt with
  | store position name op value =>
      refine ⟨trivial, fun slot _ _ => ?_⟩
      cases op.update? with
      | none => simp [Script.Always, Script.converted, Part.Located]
      | some arith =>
          cases instrEq : arith.instr? slot.ty with
          | none => simp [instrEq, Script.Always]
          | some instr => simp [instrEq, Script.Always, Script.converted, Part.Located]
  | ifElse cond thenBlock elseBlock =>
      simp only [Part.Located] at located
      cases elseBlock with
      | none =>
          rw [Stmt.places, Stmt.allocations] at located
          simp [Stmt.script, Script.Always, Script.condition, Part.Located, located]
      | some elseBlock =>
          rw [Stmt.places, Stmt.allocations] at located
          have first := located.mono (List.subset_append_left _ _) (List.subset_append_left _ _)
          have second := located.mono (List.subset_append_right _ _) (List.subset_append_right _ _)
          simp [Stmt.script, Script.Always, Script.condition, Part.Located, first, second]
  | whileDo cond body =>
      simp only [Part.Located] at located
      rw [Stmt.places, Stmt.allocations] at located
      simp [Stmt.script, Script.Always, Script.condition, Part.Located, located]
  | forRange position name low high body =>
      simp only [Part.Located] at located
      rw [Stmt.places, Stmt.allocations] at located
      have inBody := located.mono (List.Subset.refl _) (List.subset_append_right _ _)
      refine ⟨trivial, fun slot _ _ => ?_⟩
      cases number : Numeric.ofTy? slot.ty with
      | none => simp [number, Script.Always]
      | some numeric =>
          simp [number, Script.Always, Script.converted, Part.Located, inBody]
  | print position args => simp [Stmt.script, Script.Always, Part.Located, Script.done]
  | ret position value =>
      cases value with
      | none => trivial
      | some value =>
          intro state _ _
          dsimp only
          split
          · trivial
          · simp [Script.Always, Script.converted, Part.Located]
  | expr value =>
      refine ⟨trivial, fun compiled _ _ => ?_⟩
      cases compiled with
      | branch pending => simp [Script.Always]
      | value ty => cases ty <;> trivial
  | block body =>
      simp only [Part.Located] at located
      rw [Stmt.places, Stmt.allocations] at located
      simp [Stmt.script, Script.Always, Part.Located, Script.done, located]

theorem Part.Located.locates_script {part : Part} (located : part.Located program place)
    (begins : part.Begins place emitter) :
    (part.script options place).Locates program options emitter := by
  cases part with
  | var | callee => trivial
  | expr value => exact value.locates_script
  | stmt statement => exact statement.locates_script located
  | args values types =>
      cases values <;>
        simp [script, Script.Always, Script.converted, Script.done, Located]
  | prints values =>
      cases values with
      | nil => trivial
      | cons arg rest =>
          refine ⟨trivial, fun _ _ _ ty _ _ => ?_⟩
          cases member : Op.print? ty <;> simp [member, Script.Always, Script.done, Located]
  | stmts statements =>
      cases statements with
      | nil => trivial
      | cons first rest =>
          simp only [Located] at located
          rw [Stmt.placesAll, Stmt.allocationsAll] at located
          have here := located.mono (List.subset_append_left _ _) (List.subset_append_left _ _)
          have later := located.mono (List.subset_append_right _ _) (List.subset_append_right _ _)
          simp [script, Script.Always, Script.done, Located, here, later]
  | block inner =>
      obtain ⟨vars, definitions, statements⟩ := inner
      simp only [Located] at located
      rw [Block.places, Block.allocations] at located
      have entered : Ready place.toEnv emitter.entered := Ready.entered begins
      rintro _ _ ⟨⟩ ids declared ran
      obtain ⟨rfl, -⟩ := (achieves_declareBlock vars definitions entered).of_run ran
      have here := List.Subset.trans (List.subset_append_left _ _) located.1
      refine ⟨⟨_, rfl, ?_, ?_⟩, fun _ _ _ => ⟨?_, fun _ _ _ => trivial⟩⟩
      · exact List.Subset.trans (List.subset_append_left _ _) here
      · exact List.Subset.trans (List.subset_append_right _ _) here
      · exact located.mono (List.subset_append_right _ _) (List.subset_append_right _ _)
  | otherwise inner =>
      cases inner with
      | none => trivial
      | some inner => exact ⟨located, fun _ _ _ => trivial⟩
  | functions definitions ids =>
      obtain ⟨first, rfl, entries, nested⟩ := located
      cases definitions with
      | nil => trivial
      | cons definition definitions =>
          rw [FnDef.placedEntries, List.cons_subset] at entries
          rw [FnDef.placesAll, List.append_subset] at nested
          refine ⟨?_, fun _ _ _ => ⟨⟨first + 1, rfl, entries.2, nested.2⟩, fun _ _ _ => trivial⟩⟩
          simp only [Located, Place.enter_toNat_ofNat]
          exact ⟨entries.1, nested.1⟩
  | function definition id =>
      rintro _ _ ⟨⟩
      exact ⟨located, fun _ _ _ => trivial⟩
  | body definition =>
      obtain ⟨name, returnType, params, body, position⟩ := definition
      cases body with
      | native symbol => simp [script, Script.Always]
      | block inner =>
          obtain ⟨member, nested⟩ := located
          rintro _ _ -
          refine ⟨⟨?_, _, member, ?_⟩, fun _ _ _ => trivial⟩
          · rwa [FnDef.places] at nested
          · exact List.subset_append_right _ _

theorem Program.Reaches.located (reaches : program.Reaches options place part emitter) :
    part.Located program place := by
  induction reaches with
  | start => exact ⟨List.mem_cons_self, List.subset_cons_self _ _⟩
  | inside outer meets ih => exact meets.of_always (ih.locates_script outer.begins)

/-- In the course of a compilation something gets a slot: a parameter when those before it have
been stored, a variable when those before it in its block have been declared, and the bound of a
loop when the variable of the loop is known to be a number. -/
inductive Program.Gives (program : Program) (options : Options) : Storage → Slot → Prop
  | param {place : Place} {name : String} {returnType : Ty} {params : List ParamDecl} {body : Block}
      {position : Position} {emitter middle : Emitter} {index : Nat} {param : ParamDecl}
      {slot : Slot} {scopes : Scopes}
      (reaches : program.Reaches options place
        (.body ⟨name, returnType, params, .block body, position⟩) emitter)
      (stored : (params.take index).forM (emitParam position) emitter = .ok () middle)
      (here : params[index]? = some param)
      (given : middle.scopes.declareParam? param.name param.ty = some (slot, scopes)) :
      Gives program options (.param param) slot
  | var {place : Place} {vars : List VarDecl} {functions : List FnDef} {stmts : List Stmt}
      {emitter middle : Emitter} {index : Nat} {var : VarDecl} {slot : Slot} {scopes : Scopes}
      (reaches : program.Reaches options place (.block ⟨vars, functions, stmts⟩) emitter)
      (declared : (vars.take index).forM declareVar emitter.entered = .ok () middle)
      (here : vars[index]? = some var)
      (given : middle.scopes.declare? var.name var.ty = some (slot, scopes)) :
      Gives program options (.var var) slot
  | bound {place : Place} {position : Position} {name : String} {low high : Expr} {body : Block}
      {emitter : Emitter} {loop slot : Slot} {numeric : Numeric} {scopes : Scopes}
      (reaches : program.Reaches options place (.stmt (.forRange position name low high body))
        emitter)
      (resolved : emitter.scopes.resolve? name .outward = some loop)
      (number : Numeric.ofTy? loop.ty = some numeric)
      (given : emitter.scopes.allocateHidden? loop.ty = some (slot, scopes)) :
      Gives program options (.bound position name loop.ty) slot

theorem Env.next_foldl_declare (env : Env) (name : α → String) (ty : α → Ty) (items : List α)
    (next : Ty) :
    (items.foldl (fun env item => env.declare (name item) (ty item)) env).next next =
      ⟨env.function, UInt16.ofNat ((env.taken ++ items.map ty).count next), next⟩ := by
  rw [Env.next, env.function_foldl_declare name ty, env.taken_foldl_declare name ty]

namespace Scopes

variable {scopes later : Scopes} {name : String} {ty : Ty} {slot : Slot}

theorem allocate?_of_declareParam? (given : scopes.declareParam? name ty = some (slot, later)) :
    ∃ context, scopes.current.allocate? ty = some (slot, context) := by
  simp only [declareParam?, Option.bind_eq_bind, Option.bind_eq_some_iff] at given
  obtain ⟨⟨_, context⟩, allocates, same⟩ := given
  cases same
  exact ⟨context, allocates⟩

theorem allocate?_of_declare? (given : scopes.declare? name ty = some (slot, later)) :
    ∃ context, scopes.current.allocate? ty = some (slot, context) := by
  unfold declare? at given
  split at given
  case h_1 => cases given
  case h_2 =>
      simp only [Option.bind_eq_bind, Option.bind_eq_some_iff] at given
      obtain ⟨⟨_, context⟩, allocates, same⟩ := given
      cases same
      exact ⟨context, allocates⟩

theorem allocate?_of_allocateHidden? (given : scopes.allocateHidden? ty = some (slot, later)) :
    ∃ context, scopes.current.allocate? ty = some (slot, context) := by
  simp only [allocateHidden?, Option.bind_eq_bind, Option.bind_eq_some_iff] at given
  obtain ⟨⟨_, context⟩, allocates, same⟩ := given
  cases same
  exact ⟨context, allocates⟩

end Scopes

section

variable {index : Nat} {slot : Slot} {scopes : Scopes}

theorem Program.Reaches.getElem?_params {name : String} {returnType : Ty} {params : List ParamDecl}
    {body : Block} {position : Position} {param : ParamDecl}
    (reaches : program.Reaches options place
      (.body ⟨name, returnType, params, .block body, position⟩) emitter)
    (stored : (params.take index).forM (emitParam position) emitter = .ok () middle)
    (here : params[index]? = some param)
    (given : middle.scopes.declareParam? param.name param.ty = some (slot, scopes)) :
    (Storage.slots place.function [] (params.map .param))[index]? = some (.param param, slot) := by
  obtain ⟨env, ready, entered, untaken, ⟨noBlocks, -⟩, -⟩ := reaches.begins
  have wrote := (achieves_emitParams (params.take index) ready noBlocks).of_run stored
  obtain ⟨context, allocates⟩ := Scopes.allocate?_of_declareParam? given
  obtain ⟨-, -, rfl, -⟩ := wrote.ready.allocate?_eq_some allocates
  have function : env.function = place.function := by
    rw [← env.function_foldl_declare ParamDecl.name ParamDecl.ty params]
    exact congrArg (·.function) entered
  rw [env.next_foldl_declare ParamDecl.name ParamDecl.ty, untaken, function,
    Storage.getElem?_slots _ _ fun _ => rfl, here]
  rfl

theorem Program.Reaches.getElem?_vars {vars : List VarDecl} {functions : List FnDef}
    {stmts : List Stmt} {var : VarDecl}
    (reaches : program.Reaches options place (.block ⟨vars, functions, stmts⟩) emitter)
    (declared : (vars.take index).forM declareVar emitter.entered = .ok () middle)
    (here : vars[index]? = some var)
    (given : middle.scopes.declare? var.name var.ty = some (slot, scopes)) :
    (Storage.slots place.function place.taken (vars.map .var))[index]? = some (.var var, slot) := by
  have entered : Ready place.toEnv emitter.entered := Ready.entered reaches.begins
  have wrote := ((achieves_declareVars (vars.take index) entered).of_run declared).2
  obtain ⟨context, allocates⟩ := Scopes.allocate?_of_declare? given
  obtain ⟨-, -, rfl, -⟩ := wrote.ready.allocate?_eq_some allocates
  rw [Env.next_foldl_declare _ VarDecl.name VarDecl.ty, Storage.getElem?_slots _ _ fun _ => rfl,
    here]
  rfl

theorem Program.Reaches.slots_bound {position : Position} {name : String} {low high : Expr}
    {body : Block} {loop : Slot}
    (reaches : program.Reaches options place (.stmt (.forRange position name low high body))
      emitter)
    (resolved : emitter.scopes.resolve? name .outward = some loop)
    (given : emitter.scopes.allocateHidden? loop.ty = some (slot, scopes)) :
    Storage.slots place.function place.taken
        ((place.loopType? name).map (.bound position name)).toList =
      [(.bound position name loop.ty, slot)] := by
  have ready : Ready place.toEnv emitter := reaches.begins
  obtain ⟨context, allocates⟩ := Scopes.allocate?_of_allocateHidden? given
  obtain ⟨-, -, rfl, -⟩ := ready.allocate?_eq_some allocates
  have found : place.loopType? name = some loop.ty := by
    rw [Place.loopType?, ← show emitter.scopes.resolve? name .outward = place.var? name from
      ready.var name, resolved]
    rfl
  rw [found]
  rfl

/-- Whatever gets a slot in a compilation is listed with this slot for one of the functions. -/
theorem Program.Gives.exists_mem {owner : Storage} (gives : program.Gives options owner slot) :
    ∃ placed ∈ program.places, (owner, slot) ∈ placed.2.allocations placed.1 := by
  cases gives with
  | param reaches stored here given =>
      obtain ⟨member, -⟩ := reaches.located
      have listed := List.mem_of_getElem? (reaches.getElem?_params stored here given)
      exact ⟨_, member, List.mem_append_left _ listed⟩
  | var reaches declared here given =>
      obtain ⟨-, placed, member, entries⟩ := reaches.located
      have listed := List.mem_of_getElem? (reaches.getElem?_vars declared here given)
      refine ⟨placed, member, entries ?_⟩
      rw [Block.allocations]
      exact List.mem_append_left _ listed
  | bound reaches resolved number given =>
      obtain ⟨-, placed, member, entries⟩ := reaches.located
      refine ⟨placed, member, entries ?_⟩
      rw [Stmt.allocations, reaches.slots_bound resolved given]
      exact List.mem_append_left _ List.mem_cons_self

end

theorem exists_of_forM_eq_ok {action : α → EmitM Unit} {items : List α} {index : Nat} {item : α}
    (ran : items.forM action emitter = .ok () after) (here : items[index]? = some item) :
    ∃ middle later, (items.take index).forM action emitter = .ok () middle ∧
      action item middle = .ok () later := by
  induction items generalizing emitter index with
  | nil => simp at here
  | cons first items ih =>
      obtain ⟨_, next, began, rest⟩ := exists_of_bind_eq_ok ran
      cases index with
      | zero =>
          cases here
          exact ⟨emitter, next, rfl, began⟩
      | succ index =>
          obtain ⟨middle, later, before, ran⟩ := ih rest here
          refine ⟨middle, later, ?_, ran⟩
          change (action first >>= fun _ => (items.take index).forM action) emitter = _
          rw [bind_apply, began]
          exact before

theorem resolve?_of_resolveVar_eq_ok {name : String} {position : Position} {slot : Slot}
    (ran : resolveVar name position emitter = .ok slot after) :
    emitter.scopes.resolve? name .outward = some slot ∧ emitter = after := by
  unfold resolveVar ask at ran
  cases found : emitter.scopes.resolve? name .outward with
  | none =>
      simp only [found] at ran
      cases ran
  | some resolved =>
      simp only [found] at ran
      cases ran
      exact ⟨rfl, rfl⟩

/-- All listed entries are given out, and so are those of the listed functions. -/
structure Program.Serves (program : Program) (options : Options) (places : List PlacedDef)
    (entries : List (Storage × Slot)) : Prop where
  own : ∀ entry ∈ entries, program.Gives options entry.1 entry.2
  nested : ∀ placed ∈ places, ∀ entry ∈ placed.2.allocations placed.1,
    program.Gives options entry.1 entry.2

namespace Program.Serves

variable {places more : List PlacedDef} {entries further : List (Storage × Slot)}

theorem nil : program.Serves options [] [] :=
  ⟨by simp, by simp⟩

theorem append (first : program.Serves options places entries)
    (second : program.Serves options more further) :
    program.Serves options (places ++ more) (entries ++ further) where
  own entry member := (List.mem_append.mp member).elim (first.own entry) (second.own entry)
  nested placed member :=
    (List.mem_append.mp member).elim (first.nested placed) (second.nested placed)

end Program.Serves

theorem Program.Completes.gives_params {name : String} {returnType : Ty} {params : List ParamDecl}
    {body : Block} {position : Position}
    (completes : program.Completes options place
      (.body ⟨name, returnType, params, .block body, position⟩) emitter) :
    program.Serves options [] (Storage.slots place.function [] (params.map .param)) := by
  obtain ⟨reaches, result, after, ran⟩ := completes
  refine ⟨fun entry member => ?_, by simp⟩
  obtain ⟨index, param, here, found⟩ := Storage.exists_of_mem_slots member
  rw [← Part.run_script options place] at ran
  obtain ⟨_, _, stored, -⟩ := exists_of_bind_eq_ok ran
  obtain ⟨middle, later, before, storing⟩ := exists_of_forM_eq_ok stored here
  obtain ⟨slot, _, declaring, -⟩ := exists_of_bind_eq_ok storing
  obtain ⟨scopes, given, -⟩ := exists_of_onScopes_eq_ok declaring
  cases found.symm.trans (reaches.getElem?_params before here given)
  exact .param reaches before here given

theorem Program.Completes.gives_vars {vars : List VarDecl} {functions : List FnDef}
    {stmts : List Stmt}
    (completes : program.Completes options place (.block ⟨vars, functions, stmts⟩) emitter) :
    program.Serves options [] (Storage.slots place.function place.taken (vars.map .var)) := by
  obtain ⟨reaches, result, after, ran⟩ := completes
  refine ⟨fun entry member => ?_, by simp⟩
  obtain ⟨index, var, here, found⟩ := Storage.exists_of_mem_slots member
  rw [← Part.run_script options place] at ran
  obtain ⟨_, _, ⟨⟩, ran⟩ := exists_of_bind_eq_ok ran
  obtain ⟨_, _, declaringAll, -⟩ := exists_of_bind_eq_ok ran
  obtain ⟨_, _, declaringVars, -⟩ := exists_of_bind_eq_ok declaringAll
  obtain ⟨middle, later, before, declaringVar⟩ := exists_of_forM_eq_ok declaringVars here
  obtain ⟨slot, _, declaring, -⟩ := exists_of_bind_eq_ok declaringVar
  obtain ⟨scopes, given, -⟩ := exists_of_onScopes_eq_ok declaring
  cases found.symm.trans (reaches.getElem?_vars before here given)
  exact .var reaches before here given

theorem Program.Completes.gives_bound {position : Position} {name : String} {low high : Expr}
    {body : Block}
    (completes : program.Completes options place (.stmt (.forRange position name low high body))
      emitter) :
    program.Serves options []
      (Storage.slots place.function place.taken
        ((place.loopType? name).map (.bound position name)).toList) := by
  obtain ⟨reaches, result, after, ran⟩ := completes
  rw [← Part.run_script options place] at ran
  obtain ⟨loop, middle, resolving, ran⟩ := exists_of_bind_eq_ok ran
  obtain ⟨resolved, rfl⟩ := resolve?_of_resolveVar_eq_ok resolving
  cases number : Numeric.ofTy? loop.ty with
  | none =>
      simp only [number] at ran
      cases ran
  | some numeric =>
      simp only [number] at ran
      obtain ⟨slot, _, allocating, -⟩ := exists_of_bind_eq_ok ran
      obtain ⟨scopes, given, -⟩ := exists_of_onScopes_eq_ok allocating
      rw [reaches.slots_bound resolved given]
      refine ⟨fun entry member => ?_, by simp⟩
      cases List.mem_singleton.mp member
      exact .bound reaches resolved number given

/-- A loop that is compiled has come to its body. -/
theorem Stmt.includes_forRange {position : Position} {name : String} {low high : Expr}
    {body : Block} :
    ((Stmt.forRange position name low high body).script place).Includes options
      (place.behind (place.toEnv.hide name)) (.block body) emitter := by
  refine .visit fun slot _ _ => ?_
  cases Numeric.ofTy? slot.ty with
  | none => rintro _ _ ⟨⟩
  | some numeric =>
      repeat first
        | exact Script.Includes.here
        | refine Script.Includes.step fun _ _ _ => ?_
        | refine Script.Includes.visit fun _ _ _ => ?_

namespace Program.Completes

variable {cond low high : Expr} {thenBlock elseBlock body : Block} {otherwise : Option Block}
  {stmt : Stmt} {stmts : List Stmt} {vars : List VarDecl} {definition : FnDef}
  {definitions : List FnDef}

theorem inThen
    (completes : program.Completes options place (.stmt (.ifElse cond thenBlock otherwise))
      emitter) :
    ∃ middle, program.Completes options place (.block thenBlock) middle :=
  completes.inside (.step fun _ _ _ => .step fun _ _ _ => .here)

theorem inElse
    (completes : program.Completes options place (.stmt (.ifElse cond thenBlock (some elseBlock)))
      emitter) :
    ∃ middle, program.Completes options (place.behind (thenBlock.pass place.toEnv))
      (.block elseBlock) middle := by
  obtain ⟨_, second⟩ := completes.inside (.step fun _ _ _ => .step fun _ _ _ =>
    .visit fun _ _ _ => .step fun _ _ _ => .step fun _ _ _ => .here)
  exact second.inside .here

theorem inWhile
    (completes : program.Completes options place (.stmt (.whileDo cond body)) emitter) :
    ∃ middle, program.Completes options place (.block body) middle :=
  completes.inside (.step fun _ _ _ => .visit fun _ _ _ => .step fun _ _ _ => .step fun _ _ _ =>
    .here)

theorem inFor {position : Position} {name : String}
    (completes : program.Completes options place (.stmt (.forRange position name low high body))
      emitter) :
    ∃ middle, program.Completes options (place.behind (place.toEnv.hide name)) (.block body)
      middle :=
  completes.inside Stmt.includes_forRange

theorem inBlock (completes : program.Completes options place (.stmt (.block body)) emitter) :
    ∃ middle, program.Completes options place (.block body) middle :=
  completes.inside .here

theorem inFirst (completes : program.Completes options place (.stmts (stmt :: stmts)) emitter) :
    ∃ middle, program.Completes options place (.stmt stmt) middle :=
  completes.inside .here

theorem inRest (completes : program.Completes options place (.stmts (stmt :: stmts)) emitter) :
    ∃ middle, program.Completes options (place.behind (stmt.pass place.toEnv)) (.stmts stmts)
      middle :=
  completes.inside (.visit fun _ _ _ => .here)

theorem inFunctions
    (completes : program.Completes options place (.block ⟨vars, definitions, stmts⟩) emitter) :
    ∃ middle, program.Completes options (place.declareBlock vars definitions)
      (.functions definitions (FnDef.numbers place.defined definitions)) middle := by
  have entered : Ready place.toEnv emitter.entered := Ready.entered completes.1.begins
  refine completes.inside (.step ?_)
  rintro _ _ ⟨⟩
  -- The functions are compiled under the numbers that their declaration has given them.
  refine .step fun ids declared ran => ?_
  obtain ⟨rfl, -⟩ := (achieves_declareBlock vars definitions entered).of_run ran
  exact .here

theorem inStmts
    (completes : program.Completes options place (.block ⟨vars, definitions, stmts⟩) emitter) :
    ∃ middle, program.Completes options (place.inside vars definitions) (.stmts stmts) middle :=
  completes.inside (.step fun _ _ _ => .step fun _ _ _ => .visit fun _ _ _ => .here)

theorem inFirstBody {number : Nat}
    (completes : program.Completes options place
      (.functions (definition :: definitions) (FnDef.numbers number (definition :: definitions)))
      emitter) :
    ∃ middle, program.Completes options (place.enter number definition) (.body definition)
      middle := by
  obtain ⟨_, inFirst⟩ := completes.inside .here
  obtain ⟨middle, inBody⟩ := inFirst.inside (.step fun _ _ _ => .here)
  -- The number went through a word on the way, which does not change the place.
  rw [Place.enter_toNat_ofNat] at inBody
  exact ⟨middle, inBody⟩

theorem inRestFunctions {number : Nat}
    (completes : program.Completes options place
      (.functions (definition :: definitions) (FnDef.numbers number (definition :: definitions)))
      emitter) :
    ∃ middle, program.Completes options (place.past definition.count)
      (.functions definitions (FnDef.numbers (number + 1) definitions)) middle :=
  completes.inside (.visit fun _ _ _ => .here)

theorem inBody {name : String} {returnType : Ty} {params : List ParamDecl} {position : Position}
    (completes : program.Completes options place
      (.body ⟨name, returnType, params, .block body, position⟩) emitter) :
    ∃ middle, program.Completes options place (.block body) middle :=
  completes.inside (.step fun _ _ _ => .here)

end Program.Completes

mutual

theorem Stmt.serves {place : Place} {emitter : Emitter} : (stmt : Stmt) →
    program.Completes options place (.stmt stmt) emitter →
    program.Serves options (stmt.places place) (stmt.allocations place)
  | .ifElse cond thenBlock none, completes => by
      rw [Stmt.places, Stmt.allocations]
      obtain ⟨_, inThen⟩ := completes.inThen
      exact thenBlock.serves inThen
  | .ifElse cond thenBlock (some elseBlock), completes => by
      rw [Stmt.places, Stmt.allocations]
      obtain ⟨_, inThen⟩ := completes.inThen
      obtain ⟨_, inElse⟩ := completes.inElse
      exact (thenBlock.serves inThen).append (elseBlock.serves inElse)
  | .whileDo cond body, completes => by
      rw [Stmt.places, Stmt.allocations]
      obtain ⟨_, inBody⟩ := completes.inWhile
      exact body.serves inBody
  | .forRange position name low high body, completes => by
      rw [Stmt.places, Stmt.allocations]
      obtain ⟨_, inBody⟩ := completes.inFor
      exact completes.gives_bound.append (body.serves inBody)
  | .block body, completes => by
      rw [Stmt.places, Stmt.allocations]
      obtain ⟨_, inBody⟩ := completes.inBlock
      exact body.serves inBody
  | .store .., _ | .print .., _ | .ret .., _ | .expr .., _ => by
      rw [Stmt.places, Stmt.allocations]
      exact .nil

theorem Stmt.servesAll {place : Place} {emitter : Emitter} : (stmts : List Stmt) →
    program.Completes options place (.stmts stmts) emitter →
    program.Serves options (Stmt.placesAll place stmts) (Stmt.allocationsAll place stmts)
  | [], _ => by
      rw [Stmt.placesAll, Stmt.allocationsAll]
      exact .nil
  | stmt :: stmts, completes => by
      rw [Stmt.placesAll, Stmt.allocationsAll]
      obtain ⟨_, inFirst⟩ := completes.inFirst
      obtain ⟨_, inRest⟩ := completes.inRest
      exact (stmt.serves inFirst).append (Stmt.servesAll stmts inRest)

theorem Block.serves {place : Place} {emitter : Emitter} : (block : Block) →
    program.Completes options place (.block block) emitter →
    program.Serves options (block.places place) (block.allocations place)
  | ⟨vars, functions, stmts⟩, completes => by
      rw [Block.places, Block.allocations]
      obtain ⟨_, inFunctions⟩ := completes.inFunctions
      obtain ⟨_, inStmts⟩ := completes.inStmts
      have functionsServed := FnDef.servesAll place.defined functions inFunctions
      have stmtsServed := Stmt.servesAll stmts inStmts
      exact (functionsServed.1.append functionsServed.2).append
        (completes.gives_vars.append stmtsServed)

theorem FnDef.servesAll {place : Place} {emitter : Emitter} (first : Nat) :
    (definitions : List FnDef) →
    program.Completes options place (.functions definitions (FnDef.numbers first definitions))
      emitter →
    program.Serves options (FnDef.placedEntries place first definitions) [] ∧
      program.Serves options (FnDef.placesAll place first definitions) []
  | [], _ => by
      rw [FnDef.placesAll]
      exact ⟨.nil, .nil⟩
  | definition :: definitions, completes => by
      rw [FnDef.placesAll]
      obtain ⟨_, inBody⟩ := completes.inFirstBody
      obtain ⟨_, inRest⟩ := completes.inRestFunctions
      obtain ⟨own, nested⟩ := definition.serves inBody
      obtain ⟨others, nestedInOthers⟩ := FnDef.servesAll (first + 1) definitions inRest
      exact ⟨own.append others, nested.append nestedInOthers⟩

theorem FnDef.serves {place : Place} {emitter : Emitter} : (definition : FnDef) →
    program.Completes options place (.body definition) emitter →
    program.Serves options [(place, definition)] [] ∧
      program.Serves options (definition.places place) []
  | ⟨name, returnType, params, .block body, position⟩, completes => by
      rw [FnDef.places]
      obtain ⟨_, inBody⟩ := completes.inBody
      have served := completes.gives_params.append (body.serves inBody)
      refine ⟨⟨by simp, fun placed member => ?_⟩, by simp, served.nested⟩
      cases List.mem_singleton.mp member
      exact served.own
  | ⟨_, _, _, .native _, _⟩, _ => by
      rw [FnDef.places]
      exact ⟨⟨by simp, by simp [FnDef.allocations]⟩, .nil⟩

end

/-- If a compilation succeeds, the slots that are given out are just the listed ones. -/
theorem Program.gives_iff {image : Image} (compiled : program.compile options = .ok image)
    {owner : Storage} {slot : Slot} :
    program.Gives options owner slot ↔
      ∃ placed ∈ program.places, (owner, slot) ∈ placed.2.allocations placed.1 := by
  refine ⟨fun gives => gives.exists_mem, ?_⟩
  rintro ⟨placed, member, listed⟩
  obtain ⟨own, nested⟩ := program.top.serves (completes_start compiled)
  exact (own.append nested).nested placed member _ listed

/-- In a compiled program, slots are allocated exactly.  Parameters, variables and bounds of loops
get the slots that are listed for their functions, and nothing else gets a slot.  A compiled
function declares as many slots of a type as it has parameters, variables and loops of that type;
these have the numbers from zero on in the order of the list, which begins with the parameters. -/
theorem Program.compile_allocates_exactly (program : Program) (options : Options) (image : Image)
    (compiled : program.compile options = .ok image) :
    (∀ owner slot, program.Gives options owner slot ↔
      ∃ placed ∈ program.places, (owner, slot) ∈ placed.2.allocations placed.1) ∧
    ∀ index place name returnType params body position,
      program.places[index]? =
        some (place, ⟨name, returnType, params, .block body, position⟩) →
      ∃ routine entries, image.routines[index]? = some routine ∧ routine.name = name ∧
        entries = FnDef.allocations place ⟨name, returnType, params, .block body, position⟩ ∧
        (∀ entry ∈ entries,
          entry.2.context = UInt16.ofNat index ∧ entry.2.ty = entry.1.ty) ∧
        params.map .param <+: entries.map (·.1) ∧
        ∀ ty, ty.isStorable →
          (routine.frame.count ty).toNat =
            (params.map (·.ty)).count ty + (body.declarations.map (·.ty)).count ty +
              (body.loopTypes place).count ty ∧
          (entries.filter (·.1.ty = ty)).map (·.2.index.toNat) =
            List.range (routine.frame.count ty).toNat := by
  refine ⟨fun _ _ => gives_iff compiled, ?_⟩
  intro index place name returnType params body position found
  rw [program.compile_eq_emit] at compiled
  have listed := getElem?_definitions found
  obtain ⟨routine, lookup, routineCode⟩ := (realizes_of_emit compiled).routine index _ listed
  have inOrder := inOrder_allocations found
  rw [show place.function = _ from program.function_definition listed] at inOrder
  refine ⟨routine, _, lookup, routineCode.name, rfl, fun _ => inOrder.slot_eq, ?_, ?_⟩
  · rw [FnDef.allocations, List.map_append, Storage.map_fst_slots]
    exact List.prefix_append _ _
  · intro ty isStorable
    have count : (routine.frame.count ty).toNat = (body.pass place.toEnv).taken.count ty :=
      routineCode.frame ty isStorable
    rw [count]
    refine ⟨?_, inOrder.map_index ?_⟩
    · rw [inOrder.taken, List.nil_append, FnDef.count_allocations]
    · rw [← count]
      exact Nat.le_of_lt (UInt16.toNat_lt _)

/-- The outer function of the example declares two slots for integers: the first one is for its
variable, the second one for the bound of the loop over it. -/
theorem Program.compile_allocates_exactly_halving :
    ∃ image routine, halving.compile .default = .ok image ∧ image.routines[0]? = some routine ∧
      (routine.frame.count .int).toNat = 2 ∧ (routine.frame.count .double).toNat = 1 ∧
      halving.Gives .default (.var ⟨"i", .int, 1⟩) ⟨0, 0, .int⟩ ∧
      halving.Gives .default (.bound 10 "i" .int) ⟨0, 1, .int⟩ := by
  obtain ⟨image, emitted⟩ := halving_emits
  have compiled : halving.compile .default = .ok image := by
    rw [halving.compile_eq_emit, emitted]
  obtain ⟨gives, allocates⟩ := compile_allocates_exactly halving .default image compiled
  obtain ⟨routine, entries, lookup, -, -, -, -, counts⟩ := allocates 0 _ _ _ _ _ _ rfl
  refine ⟨image, routine, compiled, lookup, (counts .int rfl).1, (counts .double rfl).1, ?_, ?_⟩
  · exact (gives _ _).mpr ⟨_, .head _, .head _⟩
  · exact (gives _ _).mpr ⟨_, .head _, .tail _ (.tail _ (.head _))⟩

end Backpatch
