import Backpatch.Proofs.PlainActions
import Backpatch.Proofs.ReachedStates

/-!
# Names without a declaration

A compilation reports a name as undefined if it comes to the name at a place around which nothing
declares it, and for no other reason.
-/

namespace Backpatch

/-- Errors that report a name without a declaration. -/
def CompileError.isUndefined : CompileError → Bool
  | undefinedVariable .. | undefinedFunction .. => true
  | _ => false

theorem CompileError.isUndefined_of_isNameless {error : CompileError}
    (nameless : error.isNameless = true) : error.isUndefined = false := by
  cases error with
  | undefinedVariable | undefinedFunction => cases nameless
  | _ => rfl

namespace Emitter

variable {α β : Type}

/-- The action does not fail for lack of a declaration. -/
def NameFree (action : EmitM α) : Prop :=
  ∀ emitter error after, action emitter = .error error after → error.isUndefined = false

namespace NameFree

theorem bind {action : EmitM α} {next : α → EmitM β} (first : NameFree action)
    (rest : ∀ result, NameFree (next result)) : NameFree (action >>= next) := by
  intro emitter error after failed
  rw [bind_apply] at failed
  cases run : action emitter with
  | ok result middle =>
      rw [run] at failed
      exact rest result middle error after failed
  | error other middle =>
      rw [run] at failed
      cases failed
      exact first emitter error after run

theorem pure (result : α) : NameFree (pure result : EmitM α) :=
  fun _ _ _ failed => nomatch failed

theorem throw {error : CompileError} (other : error.isUndefined = false) :
    NameFree (throw error : EmitM α) := by
  rintro _ _ _ ⟨⟩
  exact other

@[simp]
theorem get : NameFree (MonadState.get : EmitM Emitter) :=
  fun _ _ _ failed => nomatch failed

@[simp]
theorem modify (change : Emitter → Emitter) : NameFree (modify change : EmitM Unit) :=
  fun _ _ _ failed => nomatch failed

theorem onBuffer (action : BufferM α) : NameFree (Emitter.onBuffer action) := by
  intro emitter error after failed
  rw [onBuffer_apply] at failed
  split at failed
  case h_1 => cases failed
  case h_2 =>
      cases failed
      rfl

@[simp]
theorem onImage (action : ImageM α) : NameFree (Emitter.onImage action) := by
  intro emitter error after failed
  unfold Emitter.onImage at failed
  dsimp only at failed
  split at failed
  case h_1 => cases failed
  case h_2 =>
      cases failed
      rfl

theorem onScopes (change : Scopes → Option (α × Scopes)) {error : CompileError}
    (other : error.isUndefined = false) : NameFree (Emitter.onScopes change error) := by
  intro emitter error after failed
  unfold Emitter.onScopes at failed
  dsimp only at failed
  split at failed
  case h_1 => cases failed
  case h_2 =>
      cases failed
      exact other

theorem ask {question : Emitter → Except CompileError α}
    (other : ∀ emitter error, question emitter = .error error → error.isUndefined = false) :
    NameFree (Emitter.ask question) := by
  intro emitter error after failed
  unfold Emitter.ask at failed
  split at failed
  case h_1 => cases failed
  case h_2 refused =>
      cases failed
      exact other _ _ refused

theorem forM {action : α → EmitM Unit} (each : ∀ item, NameFree (action item)) (items : List α) :
    NameFree (items.forM action) := by
  induction items with
  | nil => exact pure ()
  | cons item items ih => exact (each item).bind fun _ => ih

/-- An action that only writes code looks up no name. -/
@[simp]
theorem of_coding {action : EmitM α} (coding : Coding action) : NameFree action := by
  induction coding with
  | pure result => exact pure result
  | throw nameless => exact throw (CompileError.isUndefined_of_isNameless nameless)
  | bind _ _ ihFirst ihRest => exact ihFirst.bind ihRest
  | observe question => exact get.bind fun _ => pure _
  | onBuffer action => exact onBuffer action

/-- A type that cannot be found is no error. -/
@[simp]
theorem predictedType (expr : Expr) : NameFree (predictedType expr) := by
  refine ask fun emitter error refused => ?_
  split at refused <;> cases refused

theorem isUndefined_storageError (name : String) (ty : Ty) (position : Position) :
    (storageError name ty position).isUndefined = false := by
  unfold storageError
  split <;> rfl

@[simp]
theorem declareBlock (vars : List VarDecl) (functions : List FnDef) :
    NameFree (declareBlock vars functions) := by
  refine (forM (fun _ => ?_) vars).bind fun _ => ?_
  · exact (onScopes _ (isUndefined_storageError _ _ _)).bind fun _ => pure _
  · induction functions with
    | nil => exact pure _
    | cons definition definitions ih =>
        rw [List.mapM_cons]
        refine NameFree.bind ?_ fun _ => ih.bind fun _ => pure _
        exact (onImage _).bind fun _ => (onScopes _ rfl).bind fun _ => pure _

@[simp]
theorem emitParam (position : Position) (param : ParamDecl) : NameFree (emitParam position param) :=
  (onScopes _ (isUndefined_storageError _ _ _)).bind fun slot => of_coding (.emitStore slot)

@[simp]
theorem emitNativeCall (options : Options) (position : Position) (signature : Signature)
    (symbol : String) : NameFree (emitNativeCall options position signature symbol) := by
  unfold Emitter.emitNativeCall
  cases options.address? symbol with
  | none => exact throw rfl
  | some address => exact (onImage _).bind fun _ => of_coding (.emitWithWord _ _)

theorem isUndefined_storeFault? {context : Context} {image : Image} {error : CompileError}
    (fault : storeFault? context image = some error) : error.isUndefined = false := by
  unfold storeFault? at fault
  split at fault
  · cases fault
    rfl
  · split at fault
    · cases fault
      rfl
    · split at fault <;> cases fault
      rfl

theorem storeRoutine (context : Context) : NameFree (storeRoutine context) := by
  refine (ask fun emitter error refused => ?_).bind fun _ => modify _
  split at refused
  case h_1 fault =>
      cases refused
      exact isUndefined_storeFault? fault
  case h_2 => cases refused

@[simp]
theorem closeFunction : NameFree Strict.closeFunction := by
  refine (ask fun emitter error refused => ?_).bind fun _ => ?_
  · split at refused
    case h_1 fault =>
        cases refused
        unfold Strict.closingFault? at fault
        split at fault
        · cases fault
          rfl
        · exact isUndefined_storeFault? fault
    case h_2 => cases refused
  · exact (onScopes _ rfl).bind fun context => storeRoutine context

theorem finish : NameFree Strict.finish :=
  get.bind fun _ => storeRoutine _

end NameFree

end Emitter

open Emitter

variable {options : Options} {place inner : Place} {part sub : Part}
  {emitter middle after : Emitter} {error : CompileError} {α : Type} {bound : Nat}

/-- A measure of parts, by which the parts in a part are smaller. -/
noncomputable def Part.weight : Part → Nat
  | .var .. | .callee .. => 0
  | .expr value => sizeOf value
  | .args values _ | .prints values => sizeOf values
  | .stmt statement => sizeOf statement
  | .stmts statements => sizeOf statements
  | .block inner => sizeOf inner
  | .otherwise inner => sizeOf inner
  | .functions definitions _ => sizeOf definitions
  | .function definition _ => sizeOf definition
  | .body definition => sizeOf definition.body

/-- Between its parts a script looks up no name, and the parts are smaller than a bound. -/
def Script.Descends (bound : Nat) {α : Type} : Script α → Prop
  | last action => NameFree action
  | step action next => NameFree action ∧ ∀ result, (next result).Descends bound
  | visit _ part next => part.weight < bound ∧ ∀ result, (next result).Descends bound

/-- A script that fails for lack of a declaration has come to a part that does. -/
theorem Script.Descends.exists_meets {script : Script α} (descends : script.Descends bound)
    (failed : script.run options emitter = .error error after)
    (undefined : error.isUndefined = true) :
    ∃ inner sub middle last, script.Meets options inner sub middle emitter ∧ sub.weight < bound ∧
      sub.action options middle = .error error last := by
  induction script generalizing emitter with
  | last action =>
      have := descends _ _ _ failed
      simp [undefined] at this
  | step action next ih =>
      rw [Script.run, bind_apply] at failed
      cases ran : action emitter with
      | error other middle =>
          rw [ran] at failed
          cases failed
          have := descends.1 _ _ _ ran
          simp [undefined] at this
      | ok result middle =>
          rw [ran] at failed
          obtain ⟨inner, sub, reached, last, meets, found⟩ := ih result (descends.2 result) failed
          exact ⟨inner, sub, reached, last, .step ran meets, found⟩
  | visit place part next ih =>
      rw [Script.run, bind_apply] at failed
      cases ran : part.action options emitter with
      | error other middle =>
          rw [ran] at failed
          cases failed
          exact ⟨place, part, emitter, after, .here, descends.1, ran⟩
      | ok result middle =>
          rw [ran] at failed
          obtain ⟨inner, sub, reached, last, meets, found⟩ := ih result (descends.2 result) failed
          exact ⟨inner, sub, reached, last, .visit ran meets, found⟩

theorem Expr.descends_script (expr : Expr) (place : Place) :
    (expr.script place).Descends (sizeOf expr) := by
  cases expr with
  | int | double => exact .of_coding ((Coding.write _).bind fun _ => .pure _)
  | string =>
      exact (NameFree.onImage _).bind fun _ =>
        .of_coding ((Coding.emitWithWord _ _).bind fun _ => .pure _)
  | load position name =>
      simp +arith [Expr.script, Script.Descends, Script.done, Part.weight]
  | binary position op left right =>
      cases op with
      | arith | compare =>
          simp +arith [Expr.script, Script.operation, Script.Descends, Part.weight]
      | logic connective =>
          cases connective <;>
            simp +arith [Expr.script, Script.condition, Script.Descends, Script.done, Part.weight]
  | unary position op operand =>
      cases op <;>
        simp +arith [Expr.script, Script.condition, Script.Descends, Script.done, Part.weight]
  | call position name args =>
      simp +arith [Expr.script, Script.Descends, Script.done, Part.weight]

theorem Stmt.descends_script (stmt : Stmt) (place : Place) :
    (stmt.script place).Descends (sizeOf stmt) := by
  cases stmt with
  | store position name op value =>
      refine ⟨by simp +arith [Part.weight], fun slot => ?_⟩
      cases op.update? with
      | none => simp +arith [Script.converted, Script.Descends, Part.weight]
      | some arith =>
          cases instrEq : arith.instr? slot.ty with
          | none => simpa [instrEq, Script.Descends] using NameFree.throw rfl
          | some instr => simp +arith [instrEq, Script.converted, Script.Descends, Part.weight]
  | ifElse cond thenBlock elseBlock | whileDo cond body =>
      simp +arith [Stmt.script, Script.condition, Script.Descends, Part.weight]
  | forRange position name low high body =>
      refine ⟨by simp +arith [Part.weight], fun slot => ?_⟩
      cases number : Numeric.ofTy? slot.ty with
      | none => simpa [number, Script.Descends] using NameFree.throw rfl
      | some numeric =>
          have room := NameFree.onScopes (·.allocateHidden? slot.ty)
            (NameFree.isUndefined_storageError name slot.ty position)
          simp +arith [number, Script.converted, Script.Descends, Part.weight, room]
  | print position args | block body =>
      simp +arith [Stmt.script, Script.Descends, Script.done, Part.weight]
  | ret position value =>
      cases value with
      | none =>
          refine NameFree.get.bind fun emitter => ?_
          dsimp only
          split
          · exact .of_coding (.emit .ret)
          · exact .throw rfl
      | some value =>
          refine ⟨.get, fun emitter => ?_⟩
          dsimp only
          split
          · exact NameFree.throw rfl
          · simp +arith [Script.converted, Script.Descends, Part.weight]
  | expr value =>
      refine ⟨by simp +arith [Part.weight], fun compiled => ?_⟩
      cases compiled with
      | branch pending => simp [Script.Descends]
      | value ty => cases ty <;> simp [Script.Descends, Script.done]

/-- A part is a name, or the names in it are looked up in smaller parts. -/
theorem Part.descends_script (options : Options) (place : Place) (part : Part)
    (larger : part.weight ≠ 0) : (part.script options place).Descends part.weight := by
  cases part with
  | var | callee => exact absurd rfl larger
  | expr value => exact value.descends_script place
  | stmt statement => exact statement.descends_script place
  | args values types =>
      cases values <;>
        simp +arith [script, Script.converted, Script.Descends, Script.done, weight]
  | prints values =>
      cases values with
      | nil => exact .pure ()
      | cons arg rest =>
          refine ⟨by simp +arith [weight], fun _ => ?_⟩
          refine ⟨.of_coding (.materializeValue _), fun ty => ?_⟩
          cases member : Op.print? ty with
          | none => simpa [member, Script.Descends] using NameFree.throw rfl
          | some op => simp +arith [member, Script.Descends, Script.done, weight]
  | stmts statements =>
      cases statements <;> simp +arith [script, Script.Descends, Script.done, weight]
  | block inner =>
      obtain ⟨vars, definitions, statements⟩ := inner
      simp +arith [script, Script.Descends, weight]
  | otherwise inner =>
      cases inner <;> simp +arith [script, Script.Descends, Script.done, weight]
  | functions definitions ids =>
      cases definitions with
      | nil => exact .pure ()
      | cons definition definitions =>
          cases ids <;> simp +arith [script, Script.Descends, Script.done, weight]
  | function definition id =>
      obtain ⟨name, returnType, params, body, position⟩ := definition
      simp +arith [script, Script.Descends, weight]
  | body definition =>
      obtain ⟨name, returnType, params, body, position⟩ := definition
      cases body with
      | native symbol => simp [script, Script.Descends]
      | block inner =>
          refine ⟨.forM (.emitParam position) params, fun _ => ?_⟩
          simp +arith [Script.Descends, weight]

theorem Part.eq_of_weight_eq_zero {part : Part} (least : part.weight = 0) :
    (∃ position name, part = .var position name) ∨
      ∃ position name count, part = .callee position name count := by
  cases part with
  | var position name => exact .inl ⟨position, name, rfl⟩
  | callee position name count => exact .inr ⟨position, name, count, rfl⟩
  | expr value => cases value <;> simp [weight] at least
  | args values | prints values => cases values <;> simp [weight] at least
  | stmt statement => cases statement <;> simp [weight] at least
  | stmts statements => cases statements <;> simp [weight] at least
  | block inner => cases inner; simp [weight] at least
  | otherwise inner => cases inner <;> simp [weight] at least
  | functions definitions => cases definitions <;> simp [weight] at least
  | function definition => cases definition; simp [weight] at least
  | body definition =>
      obtain ⟨_, _, _, body, _⟩ := definition
      cases body <;> simp [weight] at least

variable {program : Program}

/-- A part that fails for lack of a declaration fails at a name in it. -/
theorem Program.Reaches.exists_name (reaches : program.Reaches options place part emitter)
    (failed : part.action options emitter = .error error after)
    (undefined : error.isUndefined = true) :
    ∃ inner sub middle last, program.Reaches options inner sub middle ∧ sub.weight = 0 ∧
      sub.action options middle = .error error last := by
  induction size : part.weight using Nat.strongRecOn generalizing part place emitter after with
  | ind size ih =>
      subst size
      by_cases isName : part.weight = 0
      · exact ⟨place, part, emitter, after, reaches, isName, failed⟩
      · rw [← part.run_script options place] at failed
        obtain ⟨inner, sub, middle, last, meets, smaller, fails⟩ :=
          (part.descends_script options place isName).exists_meets failed undefined
        exact ih sub.weight smaller (reaches.inside meets) fails rfl

theorem Emitter.Ready.resolveVar_eq (ready : Ready place.toEnv emitter) (name : String)
    (position : Position) :
    resolveVar name position emitter =
      match place.var? name with
      | some slot => .ok slot emitter
      | none => .error (.undefinedVariable name position) emitter := by
  have var : emitter.scopes.resolve? name .outward = place.var? name := ready.var name
  simp only [resolveVar, ask, var]
  cases place.var? name <;> rfl

theorem Emitter.Ready.callee_eq (ready : Ready place.toEnv emitter) (name : String) (count : Nat)
    (position : Position) :
    Emitter.callee name count position emitter =
      match place.callee? name with
      | some (id, signature) =>
          if count = signature.params.length then .ok (id, signature)
          else .error (.parameterCountMismatch name signature.params.length count position)
      | none => .error (.undefinedFunction name position) := by
  have known : emitter.callee? name = place.callee? name := ready.callee name
  rw [← known]
  unfold Emitter.callee Emitter.callee?
  cases resolved : resolveFunction? emitter.scopes emitter.image name with
  | none => rfl
  | some id =>
      obtain ⟨routine, found⟩ := Option.isSome_iff_exists.mp (ready.registered name id resolved)
      simp [found]

/-- A compilation that fails for lack of a declaration has come to the name that lacks one. -/
theorem Program.exists_name_of_compile (failed : program.compile options = .error error)
    (undefined : error.isUndefined = true) :
    ∃ place part emitter last, program.Reaches options place part emitter ∧ part.weight = 0 ∧
      part.action options emitter = .error error last := by
  rw [program.compile_eq_emit, program.emit_eq_run, Strict.run, bind_apply] at failed
  cases ran : Strict.body options program.top (start program) with
  | ok result done =>
      rw [ran] at failed
      cases finished : Strict.finish done with
      | ok result last =>
          simp only [finished] at failed
          cases failed
      | error other last =>
          simp only [finished] at failed
          cases failed
          have := NameFree.finish _ _ _ finished
          simp [undefined] at this
  | error other last =>
      rw [ran] at failed
      cases failed
      exact Program.Reaches.start.exists_name ran undefined

theorem Program.Reaches.eq_of_var_error {position : Position} {name : String}
    (reaches : program.Reaches options place (.var position name) emitter)
    (fails : resolveVar name position emitter = .error error after) :
    error = .undefinedVariable name position ∧ place.var? name = none := by
  have ready : Ready place.toEnv emitter := reaches.begins
  rw [ready.resolveVar_eq] at fails
  cases found : place.var? name with
  | some slot => simp [found] at fails
  | none =>
      simp only [found] at fails
      cases fails
      exact ⟨rfl, rfl⟩

theorem Program.Reaches.eq_of_callee_error {position : Position} {name : String} {count : Nat}
    (reaches : program.Reaches options place (.callee position name count) emitter)
    (fails : ask (Emitter.callee name count position) emitter = .error error after)
    (undefined : error.isUndefined = true) :
    error = .undefinedFunction name position ∧ place.callee? name = none := by
  have ready : Ready place.toEnv emitter := reaches.begins
  unfold ask at fails
  rw [ready.callee_eq] at fails
  cases found : place.callee? name with
  | some callee =>
      simp only [found] at fails
      split at fails
      case h_1 => cases fails
      case h_2 refused =>
          split at refused
          case isTrue => cases refused
          case isFalse =>
              cases refused
              cases fails
              cases undefined
  | none =>
      simp only [found] at fails
      cases fails
      exact ⟨rfl, rfl⟩

/-- A variable is reported as undefined just if the compilation comes to its name at a place around
which no variable or parameter of that name is declared. -/
theorem Program.compile_eq_undefinedVariable_iff {name : String} {position : Position} :
    program.compile options = .error (.undefinedVariable name position) ↔
      ∃ place emitter, program.Reaches options place (.var position name) emitter ∧
        place.var? name = none := by
  constructor
  · intro failed
    obtain ⟨place, part, emitter, last, reaches, least, fails⟩ := exists_name_of_compile failed rfl
    rcases Part.eq_of_weight_eq_zero least with ⟨_, _, rfl⟩ | ⟨_, _, _, rfl⟩
    · obtain ⟨same, undeclared⟩ := reaches.eq_of_var_error fails
      cases same
      exact ⟨place, emitter, reaches, undeclared⟩
    · cases (reaches.eq_of_callee_error fails rfl).1
  · rintro ⟨place, emitter, reaches, undeclared⟩
    have ready : Ready place.toEnv emitter := reaches.begins
    have fails := ready.resolveVar_eq name position
    rw [undeclared] at fails
    exact reaches.compile_eq_error fails

/-- A function is reported as undefined just if the compilation comes to its name at a place around
which no block defines a function of that name, and the top-level function has another one. -/
theorem Program.compile_eq_undefinedFunction_iff {name : String} {position : Position} :
    program.compile options = .error (.undefinedFunction name position) ↔
      ∃ place count emitter, program.Reaches options place (.callee position name count) emitter ∧
        place.callee? name = none := by
  constructor
  · intro failed
    obtain ⟨place, part, emitter, last, reaches, least, fails⟩ := exists_name_of_compile failed rfl
    rcases Part.eq_of_weight_eq_zero least with ⟨_, _, rfl⟩ | ⟨_, _, count, rfl⟩
    · cases (reaches.eq_of_var_error fails).1
    · obtain ⟨same, undeclared⟩ := reaches.eq_of_callee_error fails rfl
      cases same
      exact ⟨place, count, emitter, reaches, undeclared⟩
  · rintro ⟨place, count, emitter, reaches, undeclared⟩
    have ready : Ready place.toEnv emitter := reaches.begins
    have refused := ready.callee_eq name count position
    rw [undeclared] at refused
    have fails : (Part.callee position name count).action options emitter =
        .error (.undefinedFunction name position) emitter := by
      rw [Part.action, ask, refused]
    exact reaches.compile_eq_error fails

end Backpatch
