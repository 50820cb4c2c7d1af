import Backpatch.Proofs.PlainActions

/-!
# Compiling up to the first error

A compilation keeps the first error that it meets and goes on: later statements are skipped, open
functions are closed, and jumps around a failed block are still written and patched.  This file
gives the compiler that stops at once, and proves that the two have the same answer for every
program: the same image, or the same error.

Stopping has an advantage beside its simplicity.  A run that fails ends in the state in which the
error was met, so one can say what the state was like.  For that reason a finished function is
checked here before it is closed and not after.
-/

namespace Backpatch

namespace Emitter

variable {α β : Type}

namespace Strict

/-- Why the current function cannot be ended. -/
def closingFault? (emitter : Emitter) : Option CompileError :=
  if emitter.scopes.enclosing.isEmpty then some (.invariant .contextUnderflow)
  else storeFault? emitter.scopes.current emitter.image

/-- End the current function; an error is met while the function is still open. -/
def closeFunction : EmitM Unit := do
  ask fun emitter =>
    match closingFault? emitter with
    | some error => .error error
    | none => .ok ()
  Emitter.closeFunction

/-- Compile a function inside the current one, with its code given by an action. -/
def function (id : UInt16) (returnType : Ty) (body : EmitM Unit) : EmitM Unit := do
  modify fun emitter =>
    { emitter with scopes := emitter.scopes.push (.start id returnType) }
  body
  closeFunction

mutual

def stmt (options : Options) : Stmt → EmitM Unit
  | .store position name op value => emitAssignment position name op value
  | .ifElse cond thenBlock none => emitIf cond (block options thenBlock) (pure ())
  | .ifElse cond thenBlock (some elseBlock) =>
      emitIf cond (block options thenBlock) (block options elseBlock)
  | .whileDo cond body => emitWhile cond (block options body)
  | .forRange position name low high body =>
      emitFor position name low high (block options body)
  | .print _ args => args.forM emitPrint
  | .ret position value => emitReturn value position
  | .expr value => emitDiscarded value
  | .block body => block options body

def stmts (options : Options) : List Stmt → EmitM Unit
  | [] => pure ()
  | first :: rest => do
      stmt options first
      stmts options rest

def block (options : Options) : Block → EmitM Unit
  | ⟨vars, functions, statements⟩ => do
      modify fun emitter => { emitter with scopes := emitter.scopes.enterBlock.2 }
      let ids ← declareBlock vars functions
      Strict.functions options functions ids
      stmts options statements
      modify fun emitter => { emitter with scopes := emitter.scopes.exitBlock }

def functions (options : Options) : List FnDef → List UInt16 → EmitM Unit
  | definition :: definitions, id :: ids => do
      function id definition.returnType (body options definition)
      functions options definitions ids
  | _, _ => pure ()
termination_by structural definitions => definitions

def body (options : Options) : FnDef → EmitM Unit
  | ⟨_, _, params, .block statements, position⟩ => do
      params.forM (emitParam position)
      block options statements
      emit .ret
  | ⟨_, returnType, params, .native symbol, position⟩ => do
      emitNativeCall options position (.ofDecls returnType params) symbol
      emit .ret

end

/-- Put the code of the top-level function into the image. -/
def finish : EmitM Unit := do
  storeRoutine (← get).scopes.top

end Strict

/-- The state in which the compilation of a program begins: its top-level function has the first
number and is open. -/
def start (program : Program) : Emitter where
  image :=
    { Image.empty with
      routineIds := Image.empty.routineIds.insertIfNew program.top.name 0
      routines := #[{ Routine.declare program.top.name program.top.signature with id := some 0 }] }
  scopes := .start (.start 0 program.top.returnType)
  fault := none

/-- Compile a program up to the first error. -/
def Strict.run (options : Options) (program : Program) : EStateM.Result CompileError Emitter Unit :=
  (do Strict.body options program.top; Strict.finish : EmitM Unit) (start program)

theorem bind_apply (action : EmitM α) (next : α → EmitM β) (emitter : Emitter) :
    (action >>= next) emitter =
      match action emitter with
      | .ok result after => next result after
      | .error error after => .error error after := by
  change EStateM.bind action next emitter = _
  rw [EStateM.bind]
  cases action emitter <;> rfl

/-- The first error of a run: the one that is kept, else the one with which the run ends. -/
def firstError : EStateM.Result CompileError Emitter α → Option CompileError
  | .ok _ emitter => emitter.fault
  | .error error emitter => emitter.fault.or (some error)

/-- The second action does what the first one does, but stops at the first error; and the first one
changes no error that is already kept. -/
structure Latches (latched strict : EmitM α) : Prop where
  agrees : ∀ emitter, emitter.fault = none →
    match strict emitter with
    | .ok result after => after.fault = none ∧ latched emitter = .ok result after
    | .error error _ => firstError (latched emitter) = some error
  keeps : ∀ emitter error, emitter.fault = some error →
    firstError (latched emitter) = some error

namespace Latches

theorem bind {latched strict : EmitM α} {latchedNext strictNext : α → EmitM β}
    (first : Latches latched strict)
    (next : ∀ result, Latches (latchedNext result) (strictNext result)) :
    Latches (latched >>= latchedNext) (strict >>= strictNext) where
  agrees emitter noFault := by
    have agreesFirst := first.agrees emitter noFault
    simp only [bind_apply]
    cases strictRun : strict emitter with
    | ok result after =>
        rw [strictRun] at agreesFirst
        obtain ⟨afterNoFault, latchedRun⟩ := agreesFirst
        rw [latchedRun]
        exact (next result).agrees after afterNoFault
    | error error after =>
        rw [strictRun] at agreesFirst
        cases latchedRun : latched emitter with
        | ok result kept =>
            rw [latchedRun] at agreesFirst
            exact (next result).keeps kept error agreesFirst
        | error other kept =>
            rw [latchedRun] at agreesFirst
            exact agreesFirst
  keeps emitter error faulty := by
    have keepsFirst := first.keeps emitter error faulty
    simp only [bind_apply]
    cases latchedRun : latched emitter with
    | ok result kept =>
        rw [latchedRun] at keepsFirst
        exact (next result).keeps kept error keepsFirst
    | error other kept =>
        rw [latchedRun] at keepsFirst
        exact keepsFirst

/-- A run that ends without an error has not met one. -/
theorem eq_ok {latched strict : EmitM α} (latches : Latches latched strict)
    {before after : Emitter} {result : α} (ran : latched before = .ok result after)
    (noFault : after.fault = none) : strict before = .ok result after := by
  cases began : before.fault with
  | some error =>
      have kept := latches.keeps before error began
      rw [ran, firstError, noFault] at kept
      cases kept
  | none =>
      have agrees := latches.agrees before began
      cases strictRun : strict before with
      | ok strictResult strictAfter =>
          rw [strictRun] at agrees
          exact agrees.2.symm.trans ran
      | error error strictAfter =>
          rw [strictRun, ran, firstError, noFault] at agrees
          cases agrees

theorem refl {action : EmitM α}
    (untouched : ∀ emitter,
      match action emitter with
      | .ok _ after => after.fault = emitter.fault
      | .error _ after => after.fault = emitter.fault) :
    Latches action action where
  agrees emitter noFault := by
    have same := untouched emitter
    cases run : action emitter with
    | ok result after =>
        rw [run] at same
        exact ⟨same.trans noFault, rfl⟩
    | error error after =>
        rw [run] at same
        simp only [firstError]
        rw [same, noFault]
        rfl
  keeps emitter error faulty := by
    have same := untouched emitter
    cases run : action emitter with
    | ok result after =>
        rw [run] at same
        exact same.trans faulty
    | error other after =>
        rw [run] at same
        simp only [firstError]
        rw [same, faulty]
        rfl

theorem latch {latched strict : EmitM α} (default : α) (inner : Latches latched strict) :
    Latches (Emitter.latch default latched) strict where
  agrees emitter noFault := by
    have agreesInner := inner.agrees emitter noFault
    cases strictRun : strict emitter with
    | ok result after =>
        rw [strictRun] at agreesInner
        obtain ⟨afterNoFault, latchedRun⟩ := agreesInner
        exact ⟨afterNoFault, by rw [Emitter.latch, latchedRun]⟩
    | error error after =>
        rw [strictRun] at agreesInner
        simp only [Emitter.latch]
        cases latchedRun : latched emitter <;> rw [latchedRun] at agreesInner <;> exact agreesInner
  keeps emitter error faulty := by
    have keepsInner := inner.keeps emitter error faulty
    simp only [Emitter.latch]
    cases latchedRun : latched emitter <;> rw [latchedRun] at keepsInner <;> exact keepsInner

theorem unlessFailed {latched strict : EmitM Unit} (inner : Latches latched strict) :
    Latches (Emitter.unlessFailed latched) strict where
  agrees emitter noFault := by
    have skipped : Emitter.unlessFailed latched emitter = latched emitter := by
      simp [Emitter.unlessFailed, noFault]
    rw [skipped]
    exact inner.agrees emitter noFault
  keeps emitter error faulty := by
    simp [Emitter.unlessFailed, faulty, firstError]

theorem pure (result : α) : Latches (pure result : EmitM α) (pure result) :=
  refl fun _ => rfl

theorem throw (error : CompileError) : Latches (throw error : EmitM α) (throw error) :=
  refl fun _ => rfl

theorem onBuffer (action : BufferM α) :
    Latches (Emitter.onBuffer action) (Emitter.onBuffer action) := by
  refine refl fun emitter => ?_
  rw [onBuffer_apply]
  cases action emitter.buffer <;> rfl

theorem onImage (action : ImageM α) :
    Latches (Emitter.onImage action) (Emitter.onImage action) := by
  refine refl fun emitter => ?_
  simp only [Emitter.onImage]
  cases action emitter.image <;> rfl

theorem onScopes (change : Scopes → Option (α × Scopes)) (error : CompileError) :
    Latches (Emitter.onScopes change error) (Emitter.onScopes change error) := by
  refine refl fun emitter => ?_
  simp only [Emitter.onScopes]
  cases change emitter.scopes <;> rfl

theorem ask (question : Emitter → Except CompileError α) :
    Latches (Emitter.ask question) (Emitter.ask question) := by
  refine refl fun emitter => ?_
  simp only [Emitter.ask]
  cases question emitter <;> rfl

theorem modify (change : Emitter → Emitter)
    (untouched : ∀ emitter, (change emitter).fault = emitter.fault) :
    Latches (modify change : EmitM Unit) (modify change) :=
  refl fun emitter => untouched emitter

theorem of_plain {action : EmitM α} (plain : Plain action) : Latches action action := by
  induction plain with
  | pure result => exact pure result
  | throw error => exact throw error
  | bind _ _ ihFirst ihRest => exact ihFirst.bind ihRest
  | get => exact refl fun _ => rfl
  | ask question => exact ask question
  | onBuffer action => exact onBuffer action
  | constant value => exact onImage _
  | onScopes error => exact onScopes _ error

theorem after_plain {action : EmitM α} {latchedNext strictNext : α → EmitM β}
    (plain : Plain action) (next : ∀ result, Latches (latchedNext result) (strictNext result)) :
    Latches (action >>= latchedNext) (action >>= strictNext) :=
  (of_plain plain).bind next

theorem emitIf (cond : Expr) {latchedThen strictThen latchedElse strictElse : EmitM Unit}
    (thenBlock : Latches latchedThen strictThen) (elseBlock : Latches latchedElse strictElse) :
    Latches (emitIf cond latchedThen latchedElse) (emitIf cond strictThen strictElse) :=
  after_plain .emitJump fun _ => after_plain .offset fun _ => thenBlock.bind fun _ =>
    after_plain .emitJump fun _ => after_plain .offset fun _ => elseBlock.bind fun _ =>
      of_plain <| Plain.emitJump.bind fun _ => Plain.offset.bind fun _ =>
        (Plain.patch _ _).bind fun _ => (Plain.emitCondition cond).bind fun _ =>
          (Plain.patch _ _).bind fun _ => (Plain.patch _ _).bind fun _ =>
            Plain.offset.bind fun _ => .patch _ _

theorem emitWhile (cond : Expr) {latched strict : EmitM Unit} (body : Latches latched strict) :
    Latches (emitWhile cond latched) (emitWhile cond strict) :=
  after_plain .offset fun _ => after_plain (.emitCondition cond) fun _ =>
    after_plain .offset fun _ => body.bind fun _ =>
      of_plain <| (Plain.emitJumpTo _).bind fun _ => Plain.offset.bind fun _ =>
        (Plain.patch _ _).bind fun _ => .patch _ _

theorem emitFor (position : Position) (name : String) (low high : Expr)
    {latched strict : EmitM Unit} (body : Latches latched strict) :
    Latches (emitFor position name low high latched) (emitFor position name low high strict) := by
  refine (ask _).bind fun slot => ?_
  cases Numeric.ofTy? slot.ty with
  | none => exact throw _
  | some numeric =>
      exact after_plain (.allocateHidden _ _) fun bound => after_plain (.emitAs low _) fun _ =>
        after_plain (.emitStore slot) fun _ => after_plain (.emitAs high _) fun _ =>
          after_plain (.emitStore bound) fun _ => after_plain .offset fun _ =>
            after_plain (.emitLoad slot) fun _ => after_plain (.emitLoad bound) fun _ =>
              after_plain (.emit _) fun _ => after_plain (.emit _) fun _ =>
                after_plain (.emitBranch _) fun _ => after_plain .offset fun _ =>
                  body.bind fun _ => of_plain <| (Plain.emitLoad slot).bind fun _ =>
                    (Plain.emit _).bind fun _ => (Plain.emit _).bind fun _ =>
                      (Plain.emitStore slot).bind fun _ => (Plain.emitJumpTo _).bind fun _ =>
                        Plain.offset.bind fun _ => (Plain.patch _ _).bind fun _ => .patch _ _

theorem declareFunction (definition : FnDef) :
    Latches (declareFunction definition) (declareFunction definition) :=
  (onImage _).bind fun _ => (onScopes _ _).bind fun _ => pure _

theorem declareFunctions (definitions : List FnDef) :
    Latches (definitions.mapM Emitter.declareFunction)
      (definitions.mapM Emitter.declareFunction) := by
  induction definitions with
  | nil => exact pure _
  | cons definition definitions ih =>
      rw [List.mapM_cons]
      exact (declareFunction definition).bind fun _ => ih.bind fun _ => pure _

theorem declareBlock (vars : List VarDecl) (functions : List FnDef) :
    Latches (declareBlock vars functions) (declareBlock vars functions) :=
  after_plain (.forM .declareVar vars) fun _ => declareFunctions functions

theorem emitNativeCall (options : Options) (position : Position) (signature : Signature)
    (symbol : String) :
    Latches (emitNativeCall options position signature symbol)
      (emitNativeCall options position signature symbol) := by
  unfold Emitter.emitNativeCall
  cases options.address? symbol with
  | none => exact throw _
  | some address => exact (onImage _).bind fun _ => of_plain (.emitWithWord _ _)

theorem storeRoutine (context : Context) :
    Latches (storeRoutine context) (storeRoutine context) :=
  (ask _).bind fun _ => modify _ fun _ => rfl

/-- Checking a function before it is closed finds the errors that checking it afterwards does. -/
theorem closeFunction_eq (emitter : Emitter) :
    match Strict.closingFault? emitter with
    | none => Strict.closeFunction emitter = Emitter.closeFunction emitter
    | some error =>
        Strict.closeFunction emitter = .error error emitter ∧
          ∃ after, Emitter.closeFunction emitter = .error error after ∧
            after.fault = emitter.fault := by
  obtain ⟨image, ⟨current, enclosing, nextScope⟩, fault⟩ := emitter
  cases enclosing with
  | nil => exact ⟨rfl, _, rfl, rfl⟩
  | cons outer enclosing =>
      have faultEq : Strict.closingFault? ⟨image, ⟨current, outer :: enclosing, nextScope⟩, fault⟩ =
          storeFault? current image := rfl
      rw [faultEq]
      cases stored : storeFault? current image with
      | none =>
          simp only [Strict.closeFunction, bind_apply, Emitter.ask, faultEq, stored]
      | some error =>
          refine ⟨?_, ⟨image, ⟨outer, enclosing, nextScope⟩, fault⟩, ?_, rfl⟩
          · simp only [Strict.closeFunction, bind_apply, Emitter.ask, faultEq, stored]
          · simp only [Emitter.closeFunction, bind_apply, Emitter.onScopes, Scopes.pop?,
              Emitter.storeRoutine, Emitter.ask, stored]

theorem closeFunction : Latches Emitter.closeFunction Strict.closeFunction where
  agrees emitter noFault := by
    have plain : Latches Emitter.closeFunction Emitter.closeFunction :=
      (onScopes _ _).bind fun context => storeRoutine context
    have compared := closeFunction_eq emitter
    cases faultEq : Strict.closingFault? emitter with
    | none =>
        rw [faultEq] at compared
        rw [compared]
        exact plain.agrees emitter noFault
    | some error =>
        rw [faultEq] at compared
        obtain ⟨strictRun, after, latchedRun, sameFault⟩ := compared
        rw [strictRun, latchedRun]
        simp only [firstError]
        rw [sameFault, noFault]
        rfl
  keeps :=
    ((onScopes _ _).bind fun context => storeRoutine context).keeps

theorem emitFunction (id : UInt16) (returnType : Ty) {latched strict : EmitM Unit}
    (body : Latches latched strict) :
    Latches (emitFunction id returnType latched) (Strict.function id returnType strict) := by
  refine unlessFailed ?_
  refine (modify _ ?_).bind fun _ => body.bind fun _ => latch () closeFunction
  exact fun _ => rfl

mutual

theorem emitStmt (options : Options) :
    (stmt : Stmt) → Latches (emitStmt options stmt) (Strict.stmt options stmt)
  | .store _ _ _ _ => of_plain (.emitAssignment _ _ _ _)
  | .ifElse cond thenBlock none => emitIf cond (emitBlock options thenBlock) (pure ())
  | .ifElse cond thenBlock (some elseBlock) =>
      emitIf cond (emitBlock options thenBlock) (emitBlock options elseBlock)
  | .whileDo cond body => emitWhile cond (emitBlock options body)
  | .forRange _ _ _ _ body => emitFor _ _ _ _ (emitBlock options body)
  | .print _ args => of_plain (.forM .emitPrint args)
  | .ret _ _ => of_plain (.emitReturn _ _)
  | .expr value => of_plain (.emitDiscarded value)
  | .block body => emitBlock options body

theorem emitStmts (options : Options) :
    (stmts : List Stmt) → Latches (emitStmts options stmts) (Strict.stmts options stmts)
  | [] => pure ()
  | stmt :: stmts =>
      (unlessFailed (latch () (emitStmt options stmt))).bind fun _ => emitStmts options stmts

theorem emitBlock (options : Options) :
    (block : Block) → Latches (emitBlock options block) (Strict.block options block)
  | ⟨vars, functions, stmts⟩ => by
      refine unlessFailed ?_
      refine (modify _ ?_).bind fun _ => (latch [] (declareBlock vars functions)).bind fun ids =>
        (emitFunctions options functions ids).bind fun _ =>
          (emitStmts options stmts).bind fun _ => modify _ ?_
      · exact fun _ => rfl
      · exact fun _ => rfl

theorem emitFunctions (options : Options) :
    (definitions : List FnDef) → (ids : List UInt16) →
      Latches (emitFunctions options definitions ids) (Strict.functions options definitions ids)
  | definition :: definitions, id :: ids =>
      (emitFunction id definition.returnType (emitBody options definition)).bind fun _ =>
        emitFunctions options definitions ids
  | [], _ => pure ()
  | _ :: _, [] => pure ()

theorem emitBody (options : Options) :
    (definition : FnDef) → Latches (emitBody options definition) (Strict.body options definition)
  | ⟨_, _, params, .block block, position⟩ =>
      (latch () (of_plain (.forM (.emitParam position) params))).bind fun _ =>
        (emitBlock options block).bind fun _ => unlessFailed (of_plain (.emit .ret))
  | ⟨_, _, _, .native _, _⟩ =>
      (latch () (emitNativeCall _ _ _ _)).bind fun _ => unlessFailed (of_plain (.emit .ret))

end

end Latches

/-- The action has a result in every state. -/
def Total (action : EmitM α) : Prop :=
  ∀ emitter, ∃ result after, action emitter = .ok result after

namespace Total

theorem bind {action : EmitM α} {next : α → EmitM β} (first : Total action)
    (rest : ∀ result, Total (next result)) : Total (action >>= next) := by
  intro emitter
  obtain ⟨result, after, run⟩ := first emitter
  simp only [bind_apply, run]
  exact rest result after

theorem latch (default : α) (action : EmitM α) : Total (Emitter.latch default action) := by
  intro emitter
  simp only [Emitter.latch]
  cases action emitter with
  | ok result after => exact ⟨_, _, rfl⟩
  | error error after => exact ⟨_, _, rfl⟩

theorem unlessFailed {action : EmitM Unit} (inner : Total action) :
    Total (Emitter.unlessFailed action) := by
  intro emitter
  simp only [Emitter.unlessFailed]
  split
  · exact ⟨_, _, rfl⟩
  · exact inner emitter

theorem modify (change : Emitter → Emitter) : Total (modify change : EmitM Unit) :=
  fun _ => ⟨_, _, rfl⟩

theorem emitStmts (options : Options) (stmts : List Stmt) : Total (emitStmts options stmts) := by
  induction stmts with
  | nil => exact fun _ => ⟨_, _, rfl⟩
  | cons stmt stmts ih => exact (unlessFailed (latch () _)).bind fun _ => ih

mutual

theorem emitBlock (options : Options) : (block : Block) → Total (emitBlock options block)
  | ⟨_, functions, stmts⟩ =>
      unlessFailed ((modify _).bind fun _ => (latch [] _).bind fun ids =>
        (emitFunctions options functions ids).bind fun _ =>
          (emitStmts options stmts).bind fun _ => modify _)

theorem emitFunctions (options : Options) :
    (definitions : List FnDef) → (ids : List UInt16) →
      Total (emitFunctions options definitions ids)
  | definition :: definitions, _ :: ids =>
      (unlessFailed ((modify _).bind fun _ => (emitBody options definition).bind fun _ =>
        latch () _)).bind fun _ => emitFunctions options definitions ids
  | [], _ => fun _ => ⟨_, _, rfl⟩
  | _ :: _, [] => fun _ => ⟨_, _, rfl⟩

theorem emitBody (options : Options) :
    (definition : FnDef) → Total (emitBody options definition)
  | ⟨_, _, _, .block block, _⟩ =>
      (latch () _).bind fun _ => (emitBlock options block).bind fun _ =>
        unlessFailed fun _ => ⟨_, _, rfl⟩
  | ⟨_, _, _, .native _, _⟩ =>
      (latch () _).bind fun _ => unlessFailed fun _ => ⟨_, _, rfl⟩

end

end Total

theorem get_apply (emitter : Emitter) :
    (MonadState.get : EmitM Emitter) emitter = .ok emitter emitter :=
  rfl

theorem finish_of_fault_none {emitter : Emitter} (noFault : emitter.fault = none) :
    finish emitter = Strict.finish emitter := by
  simp only [finish, Strict.finish, bind_apply, get_apply, noFault]

theorem finish_of_fault_some {emitter : Emitter} {error : CompileError}
    (faulty : emitter.fault = some error) : finish emitter = .error error emitter := by
  simp only [finish, bind_apply, get_apply, faulty]
  rfl

end Emitter

theorem Program.emit_eq_start (program : Program) (options : Options) :
    program.emit options =
      match (do Emitter.emitBody options program.top; Emitter.finish : EmitM Unit)
        (Emitter.start program) with
      | .ok _ emitter => .ok emitter.image
      | .error error _ => .error error :=
  rfl

/-- Compiling a program gives what compiling it up to the first error gives. -/
theorem Program.emit_eq_run (program : Program) (options : Options) :
    program.emit options =
      match Emitter.Strict.run options program with
      | .ok _ emitter => .ok emitter.image
      | .error error _ => .error error := by
  rw [emit_eq_start]
  have agrees := (Emitter.Latches.emitBody options program.top).agrees (Emitter.start program) rfl
  simp only [Emitter.Strict.run, Emitter.bind_apply]
  cases strictRun : Emitter.Strict.body options program.top (Emitter.start program) with
  | ok result after =>
      rw [strictRun] at agrees
      obtain ⟨noFault, latchedRun⟩ := agrees
      simp only [latchedRun, Emitter.finish_of_fault_none noFault]
  | error error after =>
      rw [strictRun] at agrees
      obtain ⟨result, kept, latchedRun⟩ :=
        Emitter.Total.emitBody options program.top (Emitter.start program)
      rw [latchedRun] at agrees
      simp only [latchedRun, Emitter.finish_of_fault_some agrees]

/-- Keeping the first error and going on has the result of stopping at once: for a whole program,
and for every statement, block and nested function in any state.  What is still written, patched
and closed around a block that has failed cannot change the error, nor can anything that runs when
an error is already kept. -/
theorem Program.emit_stops_at_first_error (program : Program) (options : Options) :
    (program.emit options =
      match Emitter.Strict.run options program with
      | .ok _ emitter => .ok emitter.image
      | .error error _ => .error error) ∧
    (∀ stmt, Emitter.Latches (Emitter.emitStmt options stmt) (Emitter.Strict.stmt options stmt)) ∧
    (∀ block,
      Emitter.Latches (Emitter.emitBlock options block) (Emitter.Strict.block options block)) ∧
    ∀ id definition,
      Emitter.Latches
        (Emitter.emitFunction id definition.returnType (Emitter.emitBody options definition))
        (Emitter.Strict.function id definition.returnType
          (Emitter.Strict.body options definition)) := by
  refine ⟨program.emit_eq_run options, ?_, ?_, fun id definition => ?_⟩
  · exact Emitter.Latches.emitStmt options
  · exact Emitter.Latches.emitBlock options
  · exact Emitter.Latches.emitFunction id definition.returnType
      (Emitter.Latches.emitBody options definition)

end Backpatch
