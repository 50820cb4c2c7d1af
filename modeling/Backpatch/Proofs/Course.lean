import Backpatch.Proofs.Checked
import Backpatch.Proofs.Places

/-!
# The course of a compilation

A compilation is made of the compilations of smaller parts: a statement comes to its expressions
and blocks, a block to its functions and statements, an expression to its operands and to the names
in it.  This file writes down for every part what is done before, between and after the smaller
ones, together with the place at which each of them stands, and proves that this is what the
compiler does.

A part is reached by a compilation if everything before it went well.  When a part that is reached
fails, the whole compilation fails, and with the same error.
-/

namespace Backpatch

open Emitter

/-- What a compilation comes to. -/
inductive Part
  /-- A name that stands for a variable. -/
  | var (position : Position) (name : String)
  /-- A name that stands for a function, called with a number of arguments. -/
  | callee (position : Position) (name : String) (count : Nat)
  | expr (value : Expr)
  | args (values : List Expr) (types : List Ty)
  | prints (values : List Expr)
  | stmt (statement : Stmt)
  | stmts (statements : List Stmt)
  | block (body : Block)
  /-- The second way of a conditional, which may lack. -/
  | otherwise (body : Option Block)
  /-- The functions of a block under their numbers. -/
  | functions (definitions : List FnDef) (ids : List UInt16)
  | function (definition : FnDef) (id : UInt16)
  /-- The code of a function that has been begun. -/
  | body (definition : FnDef)

namespace Part

/-- What is known of a part that has been compiled. -/
abbrev Result : Part → Type
  | var .. => Slot
  | callee .. => UInt16 × Signature
  | expr .. => Compiled
  | _ => Unit

/-- Compile a part up to the first error. -/
def action (options : Options) : (part : Part) → EmitM part.Result
  | var position name => resolveVar name position
  | callee position name count => ask (Emitter.callee name count position)
  | expr value => emitExpr value
  | args values types => emitArgs values types
  | prints values => values.forM emitPrint
  | stmt statement => Strict.stmt options statement
  | stmts statements => Strict.stmts options statements
  | block inner => Strict.block options inner
  | otherwise none => pure ()
  | otherwise (some inner) => Strict.block options inner
  | functions definitions ids => Strict.functions options definitions ids
  | function definition id =>
      Strict.function id definition.returnType (Strict.body options definition)
  | body definition => Strict.body options definition

end Part

/-- A compilation in which the smaller parts are told apart from what is done between them. -/
inductive Script : Type → Type 1
  | last {α : Type} (action : EmitM α) : Script α
  | step {α β : Type} (action : EmitM β) (next : β → Script α) : Script α
  | visit {α : Type} (place : Place) (part : Part) (next : part.Result → Script α) : Script α

namespace Script

variable {α : Type}

/-- Nothing is left to be done. -/
def done (result : α) : Script α :=
  last (pure result)

/-- The compilation as one action. -/
def run (options : Options) {α : Type} : Script α → EmitM α
  | last action => action
  | step action next => action >>= fun result => (next result).run options
  | visit _ part next => part.action options >>= fun result => (next result).run options

/-- An expression, as a value of the given type. -/
def converted (place : Place) (value : Expr) (ty : Ty) (next : Script α) : Script α :=
  visit place (.expr value) fun compiled =>
  step (coerce compiled ty value.position) fun _ => next

/-- An expression whose value decides between two ways. -/
def condition (place : Place) (value : Expr) (next : PendingBranch → Script α) : Script α :=
  visit place (.expr value) fun compiled =>
  step (branchOnValue compiled value.position) next

/-- An operator on two values of their common type. -/
def operation (place : Place) (op : BinOp) (position : Position) (left right : Expr)
    (finish : Ty → EmitM Compiled) : Script Compiled :=
  step (predictedType right) fun predicted =>
  visit place (.expr left) fun compiled =>
  step (materializeValue compiled) fun leftTy =>
  step (reserveConversion leftTy predicted) fun site =>
  visit place (.expr right) fun compiled =>
  step (materializeValue compiled) fun rightTy =>
  step (numericType op leftTy rightTy position) fun common =>
  step (convertLeft op leftTy common left.position site) fun _ =>
  step (convert rightTy common none right.position) fun _ =>
  last (finish common)

end Script

open Script in
/-- How an expression at a place is compiled. -/
def Expr.script (place : Place) : Expr → Script Compiled
  | .load position name =>
      visit place (.var position name) fun slot =>
      step (emitLoad slot) fun _ =>
      done (.value slot.ty)
  | .binary _ (.logic connective) left right =>
      condition place left fun leftBranch =>
      step offset fun rightStart =>
      step
        (match connective with
        | .and => patch leftBranch.trueSites rightStart
        | .or => patch leftBranch.falseSites rightStart) fun _ =>
      condition place right fun rightBranch =>
      match connective with
      | .and => done (.branch (leftBranch.conj rightBranch))
      | .or => done (.branch (leftBranch.disj rightBranch))
  | .binary position (.compare comparison) left right =>
      operation place (.compare comparison) position left right (emitComparison comparison)
  | .binary position (.arith arith) left right =>
      operation place (.arith arith) position left right (emitArithmetic arith · position)
  | .unary _ .not operand =>
      condition place operand fun pending =>
      done (.branch pending.negate)
  | .unary position .neg operand =>
      visit place (.expr operand) fun compiled =>
      last (emitNegation compiled position)
  | .call position name args =>
      visit place (.callee position name args.length) fun (id, signature) =>
      visit place (.args args (signature.params.map (·.ty))) fun _ =>
      step (emitWithWord .call id) fun _ =>
      done (.value signature.returnType)
  | literal => last (emitExpr literal)

open Script in
/-- How a statement at a place is compiled. -/
def Stmt.script (place : Place) : Stmt → Script Unit
  | .store position name op value =>
      visit place (.var position name) fun slot =>
      match op.update? with
      | none =>
          converted place value slot.ty <|
          last (emitStore slot)
      | some arith =>
          match arith.instr? slot.ty with
          | none => last (throw (.invalidOperation (.noUpdate arith slot.ty) position))
          | some instr =>
              step (emitLoad slot) fun _ =>
              converted place value slot.ty <|
              step (emit instr) fun _ =>
              last (emitStore slot)
  | .ifElse cond thenBlock elseBlock =>
      let behind := place.behind ((Stmt.ifElse cond thenBlock elseBlock).pass place.toEnv)
      step emitJump fun toCond =>
      step offset fun thenStart =>
      visit place (.block thenBlock) fun _ =>
      step emitJump fun thenExit =>
      step offset fun elseStart =>
      visit (place.behind (thenBlock.pass place.toEnv)) (.otherwise elseBlock) fun _ =>
      step emitJump fun elseExit =>
      step offset fun condStart =>
      step (patch [toCond] condStart) fun _ =>
      condition behind cond fun pending =>
      step (patch pending.trueSites thenStart) fun _ =>
      step (patch pending.falseSites elseStart) fun _ =>
      step offset fun done =>
      last (patch [thenExit, elseExit] done)
  | .whileDo cond body =>
      step offset fun condStart =>
      condition place cond fun pending =>
      step offset fun bodyStart =>
      visit place (.block body) fun _ =>
      step (emitJumpTo condStart) fun _ =>
      step offset fun exit =>
      step (patch pending.trueSites bodyStart) fun _ =>
      last (patch pending.falseSites exit)
  | .forRange position name low high body =>
      let hidden := place.behind (place.toEnv.hide name)
      visit place (.var position name) fun slot =>
      match Numeric.ofTy? slot.ty with
      | none => last (throw (.invalidOperation (.badLoopVariable name slot.ty) position))
      | some numeric =>
          step (onScopes (·.allocateHidden? slot.ty)
            (storageError name slot.ty position)) fun bound =>
          converted hidden low slot.ty <|
          step (emitStore slot) fun _ =>
          converted hidden high slot.ty <|
          step (emitStore bound) fun _ =>
          step offset fun head =>
          step (emitLoad slot) fun _ =>
          step (emitLoad bound) fun _ =>
          step (emit numeric.compareOp) fun _ =>
          step (emit .iLoad0) fun _ =>
          step (emitBranch .ifICmpLe) fun pending =>
          step offset fun bodyStart =>
          visit hidden (.block body) fun _ =>
          step (emitLoad slot) fun _ =>
          step (emit numeric.oneOp) fun _ =>
          step (emit numeric.addOp) fun _ =>
          step (emitStore slot) fun _ =>
          step (emitJumpTo head) fun _ =>
          step offset fun exit =>
          step (patch pending.trueSites bodyStart) fun _ =>
          last (patch pending.falseSites exit)
  | .print _ args => visit place (.prints args) done
  | .ret position none => last (emitReturn none position)
  | .ret position (some value) =>
      step get fun emitter =>
      if emitter.scopes.current.returnType = .void then
        last (throw (.invalidOperation .unexpectedResult position))
      else
        converted place value emitter.scopes.current.returnType <|
        last (emit .ret)
  | .expr value =>
      visit place (.expr value) fun compiled =>
      match compiled with
      | .value .void => done ()
      | .value _ => last (emit .pop)
      | .branch pending =>
          step offset fun next =>
          last (onBuffer (pending.resolve next))
  | .block body => visit place (.block body) done

open Script in
/-- How a part at a place is compiled. -/
def Part.script (options : Options) (place : Place) : (part : Part) → Script part.Result
  | .var position name => last (resolveVar name position)
  | .callee position name count => last (ask (Emitter.callee name count position))
  | .expr value => value.script place
  | .args [] _ => done ()
  | .args (arg :: rest) types =>
      visit place (.args rest types.tail) fun _ =>
      converted place arg (types.headD .invalid) (done ())
  | .prints [] => done ()
  | .prints (arg :: rest) =>
      visit place (.expr arg) fun compiled =>
      step (materializeValue compiled) fun ty =>
      match Op.print? ty with
      | none => last (throw (.invalidOperation (.unprintable ty) arg.position))
      | some op =>
          step (emit op) fun _ =>
          visit place (.prints rest) done
  | .stmt statement => statement.script place
  | .stmts [] => done ()
  | .stmts (first :: rest) =>
      visit place (.stmt first) fun _ =>
      visit (place.behind (first.pass place.toEnv)) (.stmts rest) done
  | .block ⟨vars, definitions, statements⟩ =>
      step (modify fun emitter => { emitter with scopes := emitter.scopes.enterBlock.2 }) fun _ =>
      step (declareBlock vars definitions) fun ids =>
      visit (place.declareBlock vars definitions) (.functions definitions ids) fun _ =>
      visit (place.inside vars definitions) (.stmts statements) fun _ =>
      last (modify fun emitter => { emitter with scopes := emitter.scopes.exitBlock })
  | .otherwise none => done ()
  | .otherwise (some inner) => visit place (.block inner) done
  | .functions (definition :: definitions) (id :: ids) =>
      visit place (.function definition id) fun _ =>
      visit (place.past definition.count) (.functions definitions ids) done
  | .functions _ _ => done ()
  | .function definition id =>
      step (modify fun emitter =>
        { emitter with scopes := emitter.scopes.push (.start id definition.returnType) }) fun _ =>
      visit (place.enter id.toNat definition) (.body definition) fun _ =>
      last Strict.closeFunction
  | .body ⟨_, _, params, .block inner, position⟩ =>
      step (params.forM (emitParam position)) fun _ =>
      visit place (.block inner) fun _ =>
      last (emit .ret)
  | .body ⟨_, returnType, params, .native symbol, position⟩ =>
      step (emitNativeCall options position (.ofDecls returnType params) symbol) fun _ =>
      last (emit .ret)

theorem Expr.run_script (options : Options) (place : Place) (expr : Expr) :
    (expr.script place).run options = emitExpr expr := by
  cases expr with
  | int | double | string => rfl
  | load position name =>
      rw [emitExpr]
      rfl
  | binary position op left right =>
      cases op with
      | arith | compare =>
          rw [emitExpr]
          simp only [emitOperands, bind_assoc]
          rfl
      | logic connective =>
          rw [emitExpr]
          cases connective <;> simp only [emitLogical, bind_assoc] <;> rfl
  | unary position op operand =>
      cases op with
      | not =>
          rw [emitExpr]
          rfl
      | neg =>
          rw [emitExpr]
          rfl
  | call position name args =>
      rw [emitExpr]
      rfl

theorem Stmt.run_script (options : Options) (place : Place) (stmt : Stmt) :
    (stmt.script place).run options = Strict.stmt options stmt := by
  cases stmt with
  | store position name op value =>
      rw [Strict.stmt, emitAssignment, Stmt.script, Script.run]
      refine bind_congr fun slot => ?_
      cases op.update? with
      | none =>
          simp only [emitAs, bind_assoc]
          rfl
      | some arith =>
          dsimp only
          cases arith.instr? slot.ty with
          | none => rfl
          | some instr =>
              simp only [emitAs, bind_assoc]
              rfl
  | ifElse cond thenBlock elseBlock =>
      cases elseBlock <;> rw [Strict.stmt] <;> simp only [emitIf, emitCondition, bind_assoc] <;> rfl
  | whileDo cond body =>
      rw [Strict.stmt]
      simp only [emitWhile, emitCondition, bind_assoc]
      rfl
  | forRange position name low high body =>
      rw [Strict.stmt, emitFor, Stmt.script, Script.run]
      refine bind_congr fun slot => ?_
      cases Numeric.ofTy? slot.ty with
      | none => rfl
      | some numeric =>
          simp only [emitAs, bind_assoc]
          rfl
  | print position args =>
      rw [Strict.stmt]
      exact bind_pure _
  | ret position value =>
      cases value with
      | none => rw [Strict.stmt]; rfl
      | some value =>
          rw [Strict.stmt, emitReturn, Stmt.script, Script.run]
          refine bind_congr fun emitter => ?_
          dsimp only
          split
          · rfl
          · simp only [emitAs, bind_assoc]
            rfl
  | expr value =>
      rw [Strict.stmt, emitDiscarded, Stmt.script, Script.run]
      refine bind_congr fun compiled => ?_
      cases compiled with
      | branch pending => rfl
      | value ty => cases ty <;> rfl
  | block body =>
      rw [Strict.stmt]
      exact bind_pure _

/-- Following the script of a part is compiling it. -/
theorem Part.run_script (options : Options) (place : Place) (part : Part) :
    (part.script options place).run options = part.action options := by
  cases part with
  | var | callee => rfl
  | expr value => exact value.run_script options place
  | stmt statement => exact statement.run_script options place
  | args values types =>
      cases values with
      | nil => rw [action, emitArgs]; rfl
      | cons arg rest =>
          rw [action, emitArgs]
          refine bind_congr fun _ => bind_congr fun _ => bind_pure _
  | prints values =>
      cases values with
      | nil => rfl
      | cons arg rest =>
          change _ = emitPrint arg >>= fun _ => rest.forM emitPrint
          simp only [emitPrint, bind_assoc]
          refine bind_congr fun compiled => bind_congr fun ty => ?_
          dsimp only
          cases Op.print? ty with
          | none => rfl
          | some op => exact bind_congr fun _ => bind_pure _
  | stmts statements =>
      cases statements with
      | nil => rw [action, Strict.stmts]; rfl
      | cons first rest =>
          rw [action, Strict.stmts]
          exact bind_congr fun _ => bind_pure _
  | block inner =>
      obtain ⟨vars, definitions, statements⟩ := inner
      rw [action, Strict.block]
      rfl
  | otherwise inner =>
      cases inner with
      | none => rfl
      | some inner => exact bind_pure _
  | functions definitions ids =>
      cases definitions with
      | nil =>
          rw [action, Strict.functions]
          · rfl
          · rintro _ _ _ _ ⟨⟩
      | cons definition definitions =>
          cases ids with
          | nil =>
              rw [action, Strict.functions]
              · rfl
              · rintro _ _ _ _ _ ⟨⟩
          | cons id ids =>
              rw [action, Strict.functions]
              exact bind_congr fun _ => bind_pure _
  | function definition id => rfl
  | body definition =>
      obtain ⟨name, returnType, params, _ | _, position⟩ := definition <;>
        rw [action, Strict.body] <;> rfl

/-- Following a script from a state, one comes to the given part. -/
inductive Script.Meets (options : Options) (inner : Place) (sub : Part) (middle : Emitter)
    {α : Type} : Script α → Emitter → Prop
  | here {next : sub.Result → Script α} :
      Meets options inner sub middle (.visit inner sub next) middle
  | step {β : Type} {action : EmitM β} {next : β → Script α} {emitter after : Emitter} {result : β}
      (ran : action emitter = .ok result after)
      (later : Meets options inner sub middle (next result) after) :
      Meets options inner sub middle (.step action next) emitter
  | visit {place : Place} {part : Part} {next : part.Result → Script α} {emitter after : Emitter}
      {result : part.Result} (ran : part.action options emitter = .ok result after)
      (later : Meets options inner sub middle (next result) after) :
      Meets options inner sub middle (.visit place part next) emitter

/-- The compilation of a program comes to a part at a place: all that is compiled before the part
has been compiled, which has led to the given state. -/
inductive Program.Reaches (program : Program) (options : Options) : Place → Part → Emitter → Prop
  | start :
      Reaches program options (program.outsidePlace.enter 0 program.top) (.body program.top)
        (.start program)
  | inside {place inner : Place} {part sub : Part} {emitter middle : Emitter}
      (outer : Reaches program options place part emitter)
      (meets : (part.script options place).Meets options inner sub middle emitter) :
      Reaches program options inner sub middle

variable {options : Options} {place inner : Place} {part sub : Part}
  {emitter middle after : Emitter} {error : CompileError} {α β : Type}

/-- A script fails if one comes to a part that fails. -/
theorem Script.Meets.run_eq_error {script : Script α}
    (meets : script.Meets options inner sub middle emitter)
    (fails : sub.action options middle = .error error after) :
    script.run options emitter = .error error after := by
  induction meets with
  | here => rw [Script.run, bind_apply, fails]
  | step ran _ ih | visit ran _ ih =>
      rw [Script.run, bind_apply, ran]
      exact ih

/-- A compilation fails if it comes to a part that fails, and with the error of that part. -/
theorem Program.Reaches.compile_eq_error {program : Program}
    (reaches : program.Reaches options place part emitter)
    (fails : part.action options emitter = .error error after) :
    program.compile options = .error error := by
  induction reaches with
  | start =>
      have body : Strict.body options program.top (.start program) = .error error after := fails
      rw [program.compile_eq_emit, program.emit_eq_run, Strict.run, bind_apply, body]
  | inside outer meets ih =>
      refine ih ?_
      rw [← Part.run_script]
      exact meets.run_eq_error fails

theorem Emitter.exists_of_bind_eq_ok {action : EmitM α} {next : α → EmitM β} {result : β}
    (ran : (action >>= next) emitter = .ok result after) :
    ∃ first middle, action emitter = .ok first middle ∧ next first middle = .ok result after := by
  rw [bind_apply] at ran
  cases began : action emitter with
  | ok first middle =>
      rw [began] at ran
      exact ⟨first, middle, rfl, ran⟩
  | error error middle =>
      rw [began] at ran
      cases ran

theorem Emitter.exists_of_onImage_eq_ok {action : ImageM α} {result : α}
    (ran : onImage action emitter = .ok result after) :
    ∃ image, action emitter.image = .ok result image ∧
      after = { emitter with image := image } := by
  unfold onImage at ran
  dsimp only at ran
  split at ran
  case h_1 image done =>
      cases ran
      exact ⟨image, done, rfl⟩
  case h_2 => cases ran

theorem Emitter.exists_of_onScopes_eq_ok {change : Scopes → Option (α × Scopes)}
    {error : CompileError} {result : α}
    (ran : onScopes change error emitter = .ok result after) :
    ∃ scopes, change emitter.scopes = some (result, scopes) ∧
      after = { emitter with scopes := scopes } := by
  unfold onScopes at ran
  dsimp only at ran
  split at ran
  case h_1 scopes changed =>
      cases ran
      exact ⟨scopes, changed, rfl⟩
  case h_2 => cases ran

/-- Following a script from a state without an error, one comes to the given part, and it is
compiled. -/
def Script.Includes (options : Options) (inner : Place) (sub : Part) (script : Script α)
    (emitter : Emitter) : Prop :=
  ∀ result after, script.run options emitter = .ok result after →
    ∃ middle subResult subAfter, script.Meets options inner sub middle emitter ∧
      sub.action options middle = .ok subResult subAfter

namespace Script.Includes

theorem here {next : sub.Result → Script α} :
    (Script.visit inner sub next).Includes options inner sub emitter := by
  intro result after ran
  obtain ⟨first, middle, began, -⟩ := exists_of_bind_eq_ok ran
  exact ⟨emitter, first, middle, .here, began⟩

theorem step {action : EmitM β} {next : β → Script α}
    (later : ∀ result after, action emitter = .ok result after →
      (next result).Includes options inner sub after) :
    (Script.step action next).Includes options inner sub emitter := by
  intro result after ran
  obtain ⟨first, middle, began, rest⟩ := exists_of_bind_eq_ok ran
  obtain ⟨start, subResult, subAfter, meets, compiled⟩ := later first middle began result after rest
  exact ⟨start, subResult, subAfter, .step began meets, compiled⟩

theorem visit {next : part.Result → Script α}
    (later : ∀ result after, part.action options emitter = .ok result after →
      (next result).Includes options inner sub after) :
    (Script.visit place part next).Includes options inner sub emitter := by
  intro result after ran
  obtain ⟨first, middle, began, rest⟩ := exists_of_bind_eq_ok ran
  obtain ⟨start, subResult, subAfter, meets, compiled⟩ := later first middle began result after rest
  exact ⟨start, subResult, subAfter, .visit began meets, compiled⟩

end Script.Includes

/-- A part is compiled without an error in the course of a compilation. -/
def Program.Completes (program : Program) (options : Options) (place : Place) (part : Part)
    (emitter : Emitter) : Prop :=
  program.Reaches options place part emitter ∧
    ∃ result after, part.action options emitter = .ok result after

theorem Program.Completes.inside {program : Program}
    (completes : program.Completes options place part emitter)
    (includes : (part.script options place).Includes options inner sub emitter) :
    ∃ middle, program.Completes options inner sub middle := by
  obtain ⟨reaches, result, after, ran⟩ := completes
  rw [← Part.run_script options place] at ran
  obtain ⟨middle, subResult, subAfter, meets, compiled⟩ := includes result after ran
  exact ⟨middle, .inside reaches meets, subResult, subAfter, compiled⟩

theorem Program.completes_start {program : Program} {image : Image}
    (compiled : program.compile options = .ok image) :
    program.Completes options (program.outsidePlace.enter 0 program.top) (.body program.top)
      (.start program) := by
  rw [program.compile_eq_emit, program.emit_eq_run] at compiled
  refine ⟨.start, ?_⟩
  cases ran : Strict.body options program.top (.start program) with
  | ok result after => exact ⟨result, after, ran⟩
  | error error after =>
      rw [Strict.run, bind_apply, ran] at compiled
      cases compiled

end Backpatch
