import Backpatch.Proofs.FirstError

/-!
# Renaming

The variables of a program may be given other names, and so may its functions, as long as different
names stay different.  This file carries a renaming through everything in which names occur:
programs and errors, images and scopes, and the state of a compilation.  Looking something up under
its new name in what has been renamed then finds what the old name found, and declaring it there
does what was done before.

Symbols of natives and string literals are not names in this sense, and stay as they are.
-/

namespace Backpatch

/-- New names for variables and parameters, and for functions. -/
structure Renaming where
  var : String → String
  function : String → String
  var_injective : Function.Injective var
  function_injective : Function.Injective function

namespace NameMap

open Std (ExtTreeMap)

variable {α : Type} {change : String → String} {map other : NameMap α} {name : String}

/-- The map with its entries under new names. -/
def rename (change : String → String) (map : NameMap α) : NameMap α :=
  .ofList (map.toList.map fun entry => (change entry.1, entry.2))

theorem rename_empty : rename change (∅ : NameMap α) = ∅ := by
  simp [rename]

theorem getElem?_rename_eq_none (absent : ∀ old, change old = name → map[old]? = none) :
    (rename change map)[name]? = none := by
  refine ExtTreeMap.getElem?_ofList_of_contains_eq_false ?_
  rw [Bool.eq_false_iff, ne_eq, List.contains_iff_mem]
  intro member
  obtain ⟨_, renamed, rfl⟩ := List.mem_map.mp member
  obtain ⟨entry, listed, rfl⟩ := List.mem_map.mp renamed
  have found : map[entry.1]? = some entry.2 := ExtTreeMap.mem_toList_iff_getElem?_eq_some.mp listed
  rw [absent entry.1 rfl] at found
  cases found

variable (injective : Function.Injective change)

include injective

/-- A new name stands for what the old one stood for. -/
theorem getElem?_rename (map : NameMap α) (name : String) :
    (rename change map)[change name]? = map[name]? := by
  cases found : map[name]? with
  | none =>
      refine getElem?_rename_eq_none fun old same => ?_
      rw [injective same, found]
  | some value =>
      have listed : (name, value) ∈ map.toList :=
        ExtTreeMap.mem_toList_iff_getElem?_eq_some.mpr found
      refine ExtTreeMap.getElem?_ofList_of_mem Std.ReflCmp.compare_self ?_
        (List.mem_map_of_mem listed)
      refine List.pairwise_map.mpr (ExtTreeMap.distinct_keys_toList.imp fun different same => ?_)
      rw [Std.LawfulEqCmp.compare_eq_iff_eq] at different same
      exact different (injective same)

/-- Only new names stand for something. -/
theorem getElem?_rename_eq_some {value : α} :
    (rename change map)[name]? = some value ↔
      ∃ old, change old = name ∧ map[old]? = some value := by
  constructor
  · intro found
    by_cases isNew : ∃ old, change old = name
    · obtain ⟨old, rfl⟩ := isNew
      exact ⟨old, rfl, (getElem?_rename injective map old).symm.trans found⟩
    · rw [getElem?_rename_eq_none fun old same => absurd ⟨old, same⟩ isNew] at found
      cases found
  · rintro ⟨old, rfl, found⟩
    rw [getElem?_rename injective, found]

/-- A map is known by what the new names stand for, if there are no other names in it. -/
theorem eq_rename (here : ∀ name, other[change name]? = map[name]?)
    (elsewhere : ∀ name, (∀ old, change old ≠ name) → other[name]? = none) :
    other = rename change map := by
  refine ExtTreeMap.ext_getElem? fun name => ?_
  by_cases isNew : ∃ old, change old = name
  · obtain ⟨old, rfl⟩ := isNew
    rw [here, getElem?_rename injective]
  · have never : ∀ old, change old ≠ name := fun old same => isNew ⟨old, same⟩
    rw [elsewhere name never, getElem?_rename_eq_none fun old same => absurd same (never old)]

theorem contains_rename (map : NameMap α) (name : String) :
    (rename change map).contains (change name) = map.contains name := by
  rw [ExtTreeMap.contains_eq_isSome_getElem?, ExtTreeMap.contains_eq_isSome_getElem?,
    getElem?_rename injective]

theorem insert_rename (map : NameMap α) (name : String) (value : α) :
    (rename change map).insert (change name) value = rename change (map.insert name value) := by
  refine eq_rename injective (fun other => ?_) fun other never => ?_
  · simp only [ExtTreeMap.getElem?_insert, getElem?_rename injective,
      Std.LawfulEqCmp.compare_eq_iff_eq, injective.eq_iff]
  · simp only [ExtTreeMap.getElem?_insert, Std.LawfulEqCmp.compare_eq_iff_eq, if_neg (never name)]
    exact getElem?_rename_eq_none fun old same => absurd same (never old)

theorem insertIfNew_rename (map : NameMap α) (name : String) (value : α) :
    (rename change map).insertIfNew (change name) value =
      rename change (map.insertIfNew name value) := by
  refine eq_rename injective (fun other => ?_) fun other never => ?_
  · simp only [ExtTreeMap.getElem?_insertIfNew, getElem?_rename injective,
      Std.LawfulEqCmp.compare_eq_iff_eq, injective.eq_iff, ExtTreeMap.mem_iff_contains,
      contains_rename injective]
  · simp only [ExtTreeMap.getElem?_insertIfNew, Std.LawfulEqCmp.compare_eq_iff_eq, never name,
      false_and, if_false]
    exact getElem?_rename_eq_none fun old same => absurd same (never old)

end NameMap

def ParamDecl.rename (naming : Renaming) (param : ParamDecl) : ParamDecl :=
  { param with name := naming.var param.name }

def VarDecl.rename (naming : Renaming) (var : VarDecl) : VarDecl :=
  { var with name := naming.var var.name }

mutual

def Expr.rename (naming : Renaming) : Expr → Expr
  | .int position value => .int position value
  | .double position value => .double position value
  | .string position value => .string position value
  | .load position name => .load position (naming.var name)
  | .binary position op left right =>
      .binary position op (left.rename naming) (right.rename naming)
  | .unary position op operand => .unary position op (operand.rename naming)
  | .call position name args =>
      .call position (naming.function name) (Expr.renameAll naming args)

def Expr.renameAll (naming : Renaming) : List Expr → List Expr
  | [] => []
  | expr :: exprs => expr.rename naming :: Expr.renameAll naming exprs

end

mutual

def Stmt.rename (naming : Renaming) : Stmt → Stmt
  | .store position name op value =>
      .store position (naming.var name) op (value.rename naming)
  | .ifElse cond thenBlock none =>
      .ifElse (cond.rename naming) (thenBlock.rename naming) none
  | .ifElse cond thenBlock (some elseBlock) =>
      .ifElse (cond.rename naming) (thenBlock.rename naming) (some (elseBlock.rename naming))
  | .whileDo cond body => .whileDo (cond.rename naming) (body.rename naming)
  | .forRange position name low high body =>
      .forRange position (naming.var name) (low.rename naming) (high.rename naming)
        (body.rename naming)
  | .print position args => .print position (Expr.renameAll naming args)
  | .ret position value => .ret position (value.map (·.rename naming))
  | .expr value => .expr (value.rename naming)
  | .block body => .block (body.rename naming)

def Stmt.renameAll (naming : Renaming) : List Stmt → List Stmt
  | [] => []
  | stmt :: stmts => stmt.rename naming :: Stmt.renameAll naming stmts

def Block.rename (naming : Renaming) : Block → Block
  | ⟨vars, functions, stmts⟩ =>
      ⟨vars.map (·.rename naming), FnDef.renameAll naming functions,
        Stmt.renameAll naming stmts⟩

def FnDef.renameAll (naming : Renaming) : List FnDef → List FnDef
  | [] => []
  | definition :: definitions =>
      definition.rename naming :: FnDef.renameAll naming definitions

def FnDef.rename (naming : Renaming) : FnDef → FnDef
  | ⟨name, returnType, params, .block body, position⟩ =>
      ⟨naming.function name, returnType, params.map (·.rename naming),
        .block (body.rename naming), position⟩
  | ⟨name, returnType, params, .native symbol, position⟩ =>
      ⟨naming.function name, returnType, params.map (·.rename naming), .native symbol, position⟩

end

/-- The program with new names for its variables, parameters and functions. -/
def Program.rename (naming : Renaming) (program : Program) : Program :=
  ⟨program.top.rename naming⟩

/-- Parameters are renamed; what the function returns is called as before. -/
def Signature.rename (naming : Renaming) (signature : Signature) : Signature :=
  { signature with
    params := signature.params.map fun param => { param with name := naming.var param.name } }

/-- A routine with its name and the names of its parameters changed. -/
def Routine.rename (naming : Renaming) (routine : Routine) : Routine :=
  { routine with
    name := naming.function routine.name
    signature := routine.signature.rename naming }

/-- A native with the names of its parameters changed. -/
def Native.rename (naming : Renaming) (native : Native) : Native :=
  { native with signature := native.signature.rename naming }

/-- An image with the names of routines and parameters changed, and the index of routines with
them. -/
def Image.rename (naming : Renaming) (image : Image) : Image :=
  { image with
    routines := image.routines.map (·.rename naming)
    routineIds := NameMap.rename naming.function image.routineIds
    natives := image.natives.map (·.rename naming) }

def Misuse.rename (naming : Renaming) : Misuse → Misuse
  | tooManyVariables ty name => tooManyVariables ty (naming.var name)
  | undeclarable name ty => undeclarable (naming.var name) ty
  | badLoopVariable name ty => badLoopVariable (naming.var name) ty
  | misuse => misuse

/-- An error that tells the new names. -/
def CompileError.rename (naming : Renaming) : CompileError → CompileError
  | undefinedFunction name position => undefinedFunction (naming.function name) position
  | parameterCountMismatch name expected got position =>
      parameterCountMismatch (naming.function name) expected got position
  | undefinedVariable name position => undefinedVariable (naming.var name) position
  | invalidOperation misuse position => invalidOperation (misuse.rename naming) position
  | duplicateFunction name position => duplicateFunction (naming.function name) position
  | error => error

def BlockScope.rename (naming : Renaming) (block : BlockScope) : BlockScope where
  vars := NameMap.rename naming.var block.vars
  functions := NameMap.rename naming.function block.functions

def Context.rename (naming : Renaming) (context : Context) : Context :=
  { context with
    params := NameMap.rename naming.var context.params
    blocks := context.blocks.map (·.rename naming) }

def Scopes.rename (naming : Renaming) (scopes : Scopes) : Scopes :=
  { scopes with
    current := scopes.current.rename naming
    enclosing := scopes.enclosing.map (·.rename naming) }

def Emitter.rename (naming : Renaming) (emitter : Emitter) : Emitter where
  image := emitter.image.rename naming
  scopes := emitter.scopes.rename naming
  fault := emitter.fault.map (·.rename naming)

section

variable (naming : Renaming)

@[simp]
theorem Emitter.image_rename (emitter : Emitter) :
    (emitter.rename naming).image = emitter.image.rename naming :=
  rfl

@[simp]
theorem Emitter.scopes_rename (emitter : Emitter) :
    (emitter.rename naming).scopes = emitter.scopes.rename naming :=
  rfl

theorem Expr.position_rename (expr : Expr) : (expr.rename naming).position = expr.position := by
  cases expr <;> rw [Expr.rename] <;> rfl

theorem Expr.length_renameAll (exprs : List Expr) :
    (Expr.renameAll naming exprs).length = exprs.length := by
  induction exprs with
  | nil => rw [Expr.renameAll]
  | cons expr exprs ih => rw [Expr.renameAll, List.length_cons, List.length_cons, ih]

theorem Signature.ofDecls_rename (returnType : Ty) (params : List ParamDecl) :
    Signature.ofDecls returnType (params.map (·.rename naming)) =
      (Signature.ofDecls returnType params).rename naming := by
  simp [Signature.ofDecls, Signature.of, Signature.rename, ParamDecl.rename, Function.comp_def]

theorem FnDef.rename_eq (definition : FnDef) :
    (definition.rename naming).name = naming.function definition.name ∧
      (definition.rename naming).returnType = definition.returnType ∧
      (definition.rename naming).signature = definition.signature.rename naming ∧
      (definition.rename naming).position = definition.position := by
  obtain ⟨name, returnType, params, body, position⟩ := definition
  have signature := Signature.ofDecls_rename naming returnType params
  cases body <;> rw [FnDef.rename] <;> exact ⟨rfl, rfl, signature, rfl⟩

theorem CompileError.rename_of_isNameless {error : CompileError}
    (nameless : error.isNameless = true) : error.rename naming = error := by
  cases error with
  | invalidOperation misuse position =>
      cases misuse <;> first | rfl | cases nameless
  | undefinedFunction | parameterCountMismatch | undefinedVariable | duplicateFunction =>
      cases nameless
  | invalidConversion | unresolvedNative | internal | invariant => rfl

theorem storageError_rename (name : String) (ty : Ty) (position : Position) :
    storageError (naming.var name) ty position =
      (storageError name ty position).rename naming := by
  unfold storageError
  split <;> rfl

theorem Context.var?_rename (context : Context) (name : String) :
    (context.rename naming).var? (naming.var name) = context.var? name := by
  simp only [Context.var?, Context.rename, BlockScope.rename, List.findSome?_map,
    Function.comp_def, NameMap.getElem?_rename naming.var_injective]

theorem Context.function?_rename (context : Context) (name : String) :
    (context.rename naming).function? (naming.function name) = context.function? name := by
  simp only [Context.function?, Context.rename, BlockScope.rename, List.findSome?_map,
    Function.comp_def, NameMap.getElem?_rename naming.function_injective]

theorem Scopes.resolve?_rename (scopes : Scopes) (name : String) (lookup : Lookup) :
    (scopes.rename naming).resolve? (naming.var name) lookup = scopes.resolve? name lookup := by
  cases lookup <;> simp only [Scopes.resolve?, Scopes.rename, List.findSome?_map,
    Function.comp_def, Context.var?_rename]

theorem Scopes.function?_rename (scopes : Scopes) (name : String) :
    (scopes.rename naming).function? (naming.function name) = scopes.function? name := by
  simp only [Scopes.function?, Scopes.rename, List.findSome?_map, Function.comp_def,
    Context.function?_rename]

theorem Image.routine?_rename (image : Image) (id : UInt16) :
    (image.rename naming).routine? id = (image.routine? id).map (·.rename naming) :=
  Array.getElem?_map

theorem resolveFunction?_rename (scopes : Scopes) (image : Image) (name : String) :
    resolveFunction? (scopes.rename naming) (image.rename naming) (naming.function name) =
      resolveFunction? scopes image name := by
  have entry : (image.rename naming).entryRoutine? =
      image.entryRoutine?.map (·.rename naming) := image.routine?_rename naming image.entry
  rw [resolveFunction?, resolveFunction?, scopes.function?_rename, entry]
  cases image.entryRoutine? with
  | none => rfl
  | some routine =>
      have same : (naming.function routine.name == naming.function name) =
          (routine.name == name) := by
        rw [Bool.eq_iff_iff, beq_iff_eq, beq_iff_eq, naming.function_injective.eq_iff]
      simp only [Option.map_some, Option.filter_some, Routine.rename, same]
      split <;> rfl

theorem resultType?_rename (scopes : Scopes) (image : Image) (name : String) :
    resultType? (scopes.rename naming) (image.rename naming) (naming.function name) =
      resultType? scopes image name := by
  rw [resultType?, resultType?, resolveFunction?_rename]
  cases resolveFunction? scopes image name with
  | none => rfl
  | some id =>
      simp only [Option.bind_eq_bind, Option.bind_some, image.routine?_rename]
      cases image.routine? id <;> rfl

theorem Expr.typeOf_rename (scopes : Scopes) (image : Image) (expr : Expr) :
    (expr.rename naming).typeOf (scopes.rename naming) (image.rename naming) =
      (expr.typeOf scopes image).mapError (·.rename naming) := by
  induction expr using Expr.typeOf.induct scopes image with
  | case1 | case2 | case3 =>
      rw [Expr.rename, Expr.typeOf, Expr.typeOf]
      rfl
  | case4 position name slot found =>
      simp only [Expr.rename, Expr.typeOf, scopes.resolve?_rename, found]
      rfl
  | case5 position name missing =>
      simp only [Expr.rename, Expr.typeOf, scopes.resolve?_rename, missing]
      rfl
  | case6 position op left right leftIh rightIh =>
      rw [Expr.rename, Expr.typeOf, Expr.typeOf, leftIh, rightIh]
      cases left.typeOf scopes image with
      | error error => rfl
      | ok ty => cases right.typeOf scopes image <;> rfl
  | case7 position op operand ih =>
      rw [Expr.rename, Expr.typeOf, Expr.typeOf, ih]
      cases operand.typeOf scopes image <;> rfl
  | case8 position name args ty found =>
      simp only [Expr.rename, Expr.typeOf, resultType?_rename, found]
      rfl
  | case9 position name args missing =>
      simp only [Expr.rename, Expr.typeOf, resultType?_rename, missing]
      rfl

theorem Context.allocate?_rename (context : Context) (ty : Ty) :
    (context.rename naming).allocate? ty =
      (context.allocate? ty).map fun result => (result.1, result.2.rename naming) := by
  simp only [Context.allocate?, Context.rename]
  cases context.frame.allocate? ty <;> rfl

namespace Scopes

theorem declareParam?_rename (scopes : Scopes) (name : String) (ty : Ty) :
    (scopes.rename naming).declareParam? (naming.var name) ty =
      (scopes.declareParam? name ty).map fun result => (result.1, result.2.rename naming) := by
  have allocates := scopes.current.allocate?_rename naming ty
  simp only [declareParam?, Scopes.rename, allocates]
  cases scopes.current.allocate? ty with
  | none => rfl
  | some result =>
      obtain ⟨slot, context⟩ := result
      simp [Context.rename, NameMap.insert_rename naming.var_injective]

theorem declare?_rename (scopes : Scopes) (name : String) (ty : Ty) :
    (scopes.rename naming).declare? (naming.var name) ty =
      (scopes.declare? name ty).map fun result => (result.1, result.2.rename naming) := by
  have allocates := scopes.current.allocate?_rename naming ty
  have renamed : (scopes.current.rename naming).blocks =
      scopes.current.blocks.map (·.rename naming) := rfl
  simp only [declare?, Scopes.rename, allocates, renamed]
  cases scopes.current.blocks with
  | nil => rfl
  | cons block blocks =>
      cases scopes.current.allocate? ty with
      | none => rfl
      | some result =>
          simp [Context.rename, BlockScope.rename, NameMap.insert_rename naming.var_injective]

theorem allocateHidden?_rename (scopes : Scopes) (ty : Ty) :
    (scopes.rename naming).allocateHidden? ty =
      (scopes.allocateHidden? ty).map fun result => (result.1, result.2.rename naming) := by
  have allocates := scopes.current.allocate?_rename naming ty
  simp only [allocateHidden?, Scopes.rename, allocates]
  cases scopes.current.allocate? ty <;> rfl

theorem declareFunction?_rename (scopes : Scopes) (name : String) (id : UInt16) :
    (scopes.rename naming).declareFunction? (naming.function name) id =
      (scopes.declareFunction? name id).map (·.rename naming) := by
  obtain ⟨⟨_, _, _, _, _, _, blocks⟩, enclosing, nextScope⟩ := scopes
  cases blocks with
  | nil => rfl
  | cons block blocks =>
      have known := NameMap.contains_rename naming.function_injective block.functions name
      simp only [declareFunction?, Scopes.rename, Context.rename, List.map_cons, BlockScope.rename,
        known, NameMap.insert_rename naming.function_injective]
      split <;> rfl

theorem push_rename (scopes : Scopes) (id : UInt16) (returnType : Ty) :
    (scopes.rename naming).push (.start id returnType) =
      (scopes.push (.start id returnType)).rename naming := by
  simp [push, Scopes.rename, Context.rename, Context.start, NameMap.rename_empty]

theorem enterBlock_rename (scopes : Scopes) :
    (scopes.rename naming).enterBlock.2 = scopes.enterBlock.2.rename naming := by
  simp [enterBlock, Scopes.rename, Context.rename, BlockScope.rename, BlockScope.empty,
    NameMap.rename_empty]

theorem exitBlock_rename (scopes : Scopes) :
    (scopes.rename naming).exitBlock = scopes.exitBlock.rename naming := by
  simp [exitBlock, Scopes.rename, Context.rename, List.map_tail]

theorem top_rename (scopes : Scopes) :
    (scopes.rename naming).top = scopes.top.rename naming := by
  simp [top, Scopes.rename, List.getLastD_eq_getLast?, Option.getD_map]

theorem pop?_rename (scopes : Scopes) :
    (scopes.rename naming).pop? =
      scopes.pop?.map fun result => (result.1.rename naming, result.2.rename naming) := by
  obtain ⟨current, enclosing, nextScope⟩ := scopes
  cases enclosing <;> rfl

end Scopes

theorem Image.modifyRoutine_rename (image : Image) (id : UInt16) {change : Routine → Routine}
    (same : ∀ routine, change (routine.rename naming) = (change routine).rename naming) :
    (image.rename naming).modifyRoutine id change =
      (image.modifyRoutine id change).rename naming := by
  have routines : (image.routines.map (·.rename naming)).modify id.toNat change =
      (image.routines.modify id.toNat change).map (·.rename naming) := by
    refine Array.ext_getElem? fun index => ?_
    simp only [Array.getElem?_modify, Array.getElem?_map]
    split
    · simp only [Option.map_map, Function.comp_def, same]
    · rfl
  exact congrArg (fun routines => { image.rename naming with routines := routines }) routines

end

/-- The answer of a run with another result, another error and another state. -/
def mapAnswer {ε σ α ε' σ' β : Type} (result : α → β) (error : ε → ε') (state : σ → σ') :
    EStateM.Result ε σ α → EStateM.Result ε' σ' β
  | .ok value after => .ok (result value) (state after)
  | .error cause after => .error (error cause) (state after)

namespace Image

variable (naming : Renaming) (image : Image)

theorem addRoutine_rename (name : String) (signature : Signature) :
    addRoutine (.declare (naming.function name) (signature.rename naming)) (image.rename naming) =
      mapAnswer id id (·.rename naming) (addRoutine (.declare name signature) image) := by
  have names := NameMap.insertIfNew_rename naming.function_injective image.routineIds name
    (.ofNat image.routines.size)
  simp only [addRoutine, Routine.declare, Routine.assignId, Image.rename, Array.size_map, names]
  split
  · rfl
  · simp [mapAnswer, Routine.rename]

theorem internConstant_rename (value : String) :
    internConstant value (image.rename naming) =
      mapAnswer id id (·.rename naming) (internConstant value image) := by
  simp only [internConstant, Image.rename]
  cases image.constantIds[value]? with
  | some id => rfl
  | none =>
      by_cases full : image.constants.size > maxId
      · simp only [full, if_true]
        rfl
      · simp only [full, if_false]
        rfl

theorem internNative_rename (native : Native) :
    internNative (native.rename naming) (image.rename naming) =
      mapAnswer id id (·.rename naming) (internNative native image) := by
  simp only [internNative, Image.rename, Native.rename, Array.size_map]
  cases image.nativeIds[native.name]? with
  | some id => rfl
  | none =>
      by_cases full : image.natives.size > maxId
      · simp only [full, if_true]
        rfl
      · simp [full, mapAnswer]

end Image

end Backpatch
