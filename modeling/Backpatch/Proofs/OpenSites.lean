import Backpatch.Program.Equality
import Backpatch.Proofs.ExpressionSites
import Backpatch.Proofs.Plans

/-!
# The account of open sites

Expressions keep the account of the sites that they open and fill.  This file carries it through
statements and blocks: one that is compiled without an error leaves the open sites as they were.
The functions inside a block have code of their own, and leave that of the current function alone.

The account needs open sites to lie inside the code.  A compilation begins with none, and every
small action of its plan keeps them there, so the account is right at all moments of it.
-/

namespace Backpatch

namespace Emitter

variable {before middle after : Emitter}

/-- The account of a whole action is balanced: it opens no site that it does not fill. -/
def Balanced (action : EmitM Unit) : Prop :=
  ∀ before after, before.fault = none → before.buffer.Inside → action before = .ok () after →
    Grows before after [] []

namespace Balanced

theorem pure : Balanced (pure ()) := by
  intro before after _ _ ran
  cases ran
  exact .refl before

theorem bind {action next : EmitM Unit} (first : Balanced action) (second : Balanced next) :
    Balanced (action >>= fun _ => next) := by
  intro before after noFault inside ran
  obtain ⟨_, middle, began, ran⟩ := exists_of_bind_eq_ok ran
  have grows := first before middle noFault inside began
  exact grows.trans (second middle after (grows.fault.trans noFault) (grows.inside inside) ran)

theorem forM {α : Type} {action : α → EmitM Unit} (each : ∀ item, Balanced (action item))
    (items : List α) : Balanced (items.forM action) := by
  induction items with
  | nil => exact pure
  | cons item items ih => exact (each item).bind ih

theorem emitAssignment (position : Position) (name : String) (op : StoreOp) (value : Expr) :
    Balanced (emitAssignment position name op value) := by
  intro before after _ inside ran
  obtain ⟨slot, _, resolved, ran⟩ := exists_of_bind_eq_ok ran
  obtain rfl := (eq_of_ask_eq_ok resolved).symm
  cases update : op.update? with
  | none =>
      simp only [update] at ran
      obtain ⟨_, _, valued, stored⟩ := exists_of_bind_eq_ok ran
      exact (grows_emitAs inside valued).trans (grows_emitStore stored)
  | some arith =>
      simp only [update] at ran
      cases instr : arith.instr? slot.ty with
      | none =>
          simp only [instr] at ran
          cases ran
      | some code =>
          simp only [instr] at ran
          obtain ⟨_, _, loaded, ran⟩ := exists_of_bind_eq_ok ran
          obtain ⟨_, _, valued, ran⟩ := exists_of_bind_eq_ok ran
          obtain ⟨_, _, computed, stored⟩ := exists_of_bind_eq_ok ran
          have load := grows_emitLoad loaded
          exact ((load.trans (grows_emitAs (load.inside inside) valued)).trans
            (grows_emit (width_of_instr instr) computed)).trans (grows_emitStore stored)

theorem emitPrint (arg : Expr) : Balanced (emitPrint arg) := by
  intro before after _ inside ran
  obtain ⟨_, _, compiles, ran⟩ := exists_of_bind_eq_ok ran
  obtain ⟨ty, _, valued, ran⟩ := exists_of_bind_eq_ok ran
  have value := (leaves_emitExpr arg inside compiles).materializeValue inside valued
  cases printed : Op.print? ty with
  | none =>
      simp only [printed] at ran
      cases ran
  | some op =>
      simp only [printed] at ran
      have bare : op.width = 0 := by cases ty <;> cases printed <;> rfl
      exact value.trans (grows_emit bare ran)

theorem emitReturn (value : Option Expr) (position : Position) :
    Balanced (emitReturn value position) := by
  intro before after _ inside ran
  obtain ⟨_, _, asked, ran⟩ := exists_of_bind_eq_ok ran
  cases asked
  cases value with
  | none =>
      dsimp only at ran
      split at ran
      · exact grows_emit rfl ran
      · cases ran
  | some value =>
      dsimp only at ran
      split at ran
      · cases ran
      · obtain ⟨_, _, valued, returned⟩ := exists_of_bind_eq_ok ran
        exact (grows_emitAs inside valued).trans (grows_emit rfl returned)

theorem emitDiscarded (value : Expr) : Balanced (emitDiscarded value) := by
  intro before after _ inside ran
  obtain ⟨compiled, _, compiles, ran⟩ := exists_of_bind_eq_ok ran
  have leaves := leaves_emitExpr value inside compiles
  cases compiled with
  | branch pending =>
      have resolved := eq_ok_of_offset ran
      exact (grows_resolve inside leaves.grows resolved).mono (List.nil_subset _)
  | value ty =>
      cases ty with
      | void =>
          cases ran
          exact leaves.grows
      | logic | int | double | string | invalid => exact leaves.grows.trans (grows_emit rfl ran)

theorem emitIf {thenBlock elseBlock : EmitM Unit} (cond : Expr) (thenBalanced : Balanced thenBlock)
    (elseBalanced : Balanced elseBlock) : Balanced (emitIf cond thenBlock elseBlock) := by
  intro before after noFault inside ran
  obtain ⟨toCond, jumped, jump, ran⟩ := exists_of_bind_eq_ok ran
  have ran := eq_ok_of_offset ran
  obtain ⟨_, thenDone, thenRan, ran⟩ := exists_of_bind_eq_ok ran
  obtain ⟨thenExit, thenJumped, thenJump, ran⟩ := exists_of_bind_eq_ok ran
  have ran := eq_ok_of_offset ran
  obtain ⟨_, elseDone, elseRan, ran⟩ := exists_of_bind_eq_ok ran
  obtain ⟨elseExit, elseJumped, elseJump, ran⟩ := exists_of_bind_eq_ok ran
  have ran := eq_ok_of_offset ran
  obtain ⟨_, condBefore, condLed, ran⟩ := exists_of_bind_eq_ok ran
  obtain ⟨pending, condDone, condRan, ran⟩ := exists_of_bind_eq_ok ran
  obtain ⟨_, trueDone, trueLed, ran⟩ := exists_of_bind_eq_ok ran
  obtain ⟨_, falseDone, falseLed, ran⟩ := exists_of_bind_eq_ok ran
  have joined := eq_ok_of_offset ran
  have start := grows_emitJump jump
  have thenGrows := start.trans (thenBalanced _ _ (start.fault.trans noFault)
    (start.inside inside) thenRan)
  have thenEnd := thenGrows.trans (grows_emitJump thenJump)
  have elseGrows := thenEnd.trans (elseBalanced _ _ (thenEnd.fault.trans noFault)
    (thenEnd.inside inside) elseRan)
  have elseEnd := elseGrows.trans (grows_emitJump elseJump)
  -- The jump to the condition is led first; the exits stay open until all is written.
  have atCond := grows_patch [thenExit.hole, elseExit.hole] inside elseEnd (by simp) condLed
  have afterCond := atCond.trans (grows_emitCondition (atCond.inside inside) condRan)
  have led := grows_lead [thenExit.hole, elseExit.hole] inside afterCond trueLed falseLed
  exact (grows_patch [] inside led (by simp) joined).mono (List.nil_subset _)

theorem emitWhile {body : EmitM Unit} (cond : Expr) (bodyBalanced : Balanced body) :
    Balanced (emitWhile cond body) := by
  intro before after noFault inside ran
  have ran := eq_ok_of_offset ran
  obtain ⟨pending, condDone, condRan, ran⟩ := exists_of_bind_eq_ok ran
  have ran := eq_ok_of_offset ran
  obtain ⟨_, bodyDone, bodyRan, ran⟩ := exists_of_bind_eq_ok ran
  obtain ⟨_, looped, loop, ran⟩ := exists_of_bind_eq_ok ran
  have ran := eq_ok_of_offset ran
  obtain ⟨_, trueDone, trueLed, falseLed⟩ := exists_of_bind_eq_ok ran
  have condGrows := grows_emitCondition inside condRan
  have bodyGrows := condGrows.trans (bodyBalanced _ _ (condGrows.fault.trans noFault)
    (condGrows.inside inside) bodyRan)
  have written := bodyGrows.trans (grows_emitJumpTo loop)
  have closed : Grows before looped ([] ++ pending.holes) _ := written.perm (by simp)
  exact (grows_lead [] inside closed trueLed falseLed).mono (List.nil_subset _)

theorem emitFor {body : EmitM Unit} (position : Position) (name : String) (low high : Expr)
    (bodyBalanced : Balanced body) : Balanced (emitFor position name low high body) := by
  intro before after noFault inside ran
  obtain ⟨slot, _, resolved, ran⟩ := exists_of_bind_eq_ok ran
  obtain rfl := (eq_of_ask_eq_ok resolved).symm
  cases isNumber : Numeric.ofTy? slot.ty with
  | none =>
      simp only [isNumber] at ran
      cases ran
  | some numeric =>
      simp only [isNumber] at ran
      obtain ⟨bound, allocated, hidden, ran⟩ := exists_of_bind_eq_ok ran
      obtain ⟨_, lowDone, lowRan, ran⟩ := exists_of_bind_eq_ok ran
      obtain ⟨_, lowStored, lowStore, ran⟩ := exists_of_bind_eq_ok ran
      obtain ⟨_, highDone, highRan, ran⟩ := exists_of_bind_eq_ok ran
      obtain ⟨_, highStored, highStore, ran⟩ := exists_of_bind_eq_ok ran
      have ran := eq_ok_of_offset ran
      obtain ⟨_, slotLoaded, slotLoad, ran⟩ := exists_of_bind_eq_ok ran
      obtain ⟨_, boundLoaded, boundLoad, ran⟩ := exists_of_bind_eq_ok ran
      obtain ⟨_, compared, compare, ran⟩ := exists_of_bind_eq_ok ran
      obtain ⟨_, zeroLoaded, zero, ran⟩ := exists_of_bind_eq_ok ran
      obtain ⟨pending, branched, branch, ran⟩ := exists_of_bind_eq_ok ran
      have ran := eq_ok_of_offset ran
      obtain ⟨_, bodyDone, bodyRan, ran⟩ := exists_of_bind_eq_ok ran
      obtain ⟨_, againLoaded, againLoad, ran⟩ := exists_of_bind_eq_ok ran
      obtain ⟨_, oneLoaded, one, ran⟩ := exists_of_bind_eq_ok ran
      obtain ⟨_, added, add, ran⟩ := exists_of_bind_eq_ok ran
      obtain ⟨_, againStored, againStore, ran⟩ := exists_of_bind_eq_ok ran
      obtain ⟨_, looped, loop, ran⟩ := exists_of_bind_eq_ok ran
      have ran := eq_ok_of_offset ran
      obtain ⟨_, trueDone, trueLed, falseLed⟩ := exists_of_bind_eq_ok ran
      have start := grows_onScopes (Scopes.blindly_allocateHidden? slot.ty) hidden
      have lowGrows := (start.trans (grows_emitAs (start.inside inside) lowRan)).trans
        (grows_emitStore lowStore)
      have highGrows := (lowGrows.trans (grows_emitAs (lowGrows.inside inside) highRan)).trans
        (grows_emitStore highStore)
      have compareGrows := ((highGrows.trans (grows_emitLoad slotLoad)).trans
        (grows_emitLoad boundLoad)).trans (grows_emit (by cases numeric <;> rfl) compare)
      have branchGrows := (compareGrows.trans (grows_emit rfl zero)).trans
        (grows_emitBranch rfl branch).1
      have bodyGrows := branchGrows.trans (bodyBalanced _ _ (branchGrows.fault.trans noFault)
        (branchGrows.inside inside) bodyRan)
      have addGrows := ((bodyGrows.trans (grows_emitLoad againLoad)).trans
        (grows_emit (by cases numeric <;> rfl) one)).trans
          (grows_emit (by cases numeric <;> rfl) add)
      have written := (addGrows.trans (grows_emitStore againStore)).trans (grows_emitJumpTo loop)
      have closed : Grows before looped ([] ++ pending.holes) _ := written.perm (by simp)
      exact (grows_lead [] inside closed trueLed falseLed).mono (List.nil_subset _)

end Balanced

theorem grows_declareVar {var : VarDecl} (ran : declareVar var before = .ok () after) :
    Grows before after [] [] := by
  obtain ⟨_, _, declared, done⟩ := exists_of_bind_eq_ok ran
  cases done
  exact grows_onScopes (Scopes.blindly_declare? var.name var.ty) declared

theorem grows_declareFunction {definition : FnDef} {id : UInt16}
    (ran : declareFunction definition before = .ok id after) : Grows before after [] [] := by
  obtain ⟨number, _, added, ran⟩ := exists_of_bind_eq_ok ran
  obtain ⟨image, -, rfl⟩ := exists_of_onImage_eq_ok added
  obtain ⟨_, _, declared, done⟩ := exists_of_bind_eq_ok ran
  cases done
  have grows := grows_onScopes (Scopes.blindly_declareFunction? definition.name id) declared
  exact ⟨grows.fault, grows.writes⟩

theorem grows_declareFunctions (definitions : List FnDef) {before after : Emitter}
    {ids : List UInt16} (ran : definitions.mapM declareFunction before = .ok ids after) :
    Grows before after [] [] := by
  induction definitions generalizing before ids with
  | nil =>
      cases ran
      exact .refl _
  | cons definition definitions ih =>
      rw [List.mapM_cons] at ran
      obtain ⟨_, _, declared, ran⟩ := exists_of_bind_eq_ok ran
      obtain ⟨_, _, rest, done⟩ := exists_of_bind_eq_ok ran
      cases done
      exact (grows_declareFunction declared).trans (ih rest)

theorem grows_declareBlock {vars : List VarDecl} {functions : List FnDef} {ids : List UInt16}
    (noFault : before.fault = none) (inside : before.buffer.Inside)
    (ran : declareBlock vars functions before = .ok ids after) : Grows before after [] [] := by
  obtain ⟨_, middle, declaredVars, declaredFunctions⟩ := exists_of_bind_eq_ok ran
  have balanced : Balanced (vars.forM declareVar) :=
    .forM (fun _ _ _ _ _ declared => grows_declareVar declared) vars
  exact (balanced before middle noFault inside declaredVars).trans
    (grows_declareFunctions functions declaredFunctions)

/-- Functions inside the current one leave it as it is, however they end. -/
theorem current_of_emitFunctions (options : Options) : (definitions : List FnDef) →
    (ids : List UInt16) → {before after : Emitter} →
    emitFunctions options definitions ids before = .ok () after →
    after.scopes.current = before.scopes.current
  | definition :: definitions, id :: ids, before, after, ran => by
      obtain ⟨_, middle, began, rest⟩ := exists_of_bind_eq_ok ran
      have keeps : before.image.Keeps (fun _ => True) before.image := .refl _ _
      obtain ⟨closed, closes, current, -⟩ :=
        Confined.emitFunction definition.returnType (Total.emitBody options definition)
          (Confined.emitBody options definition) (.inl trivial) before keeps
      rw [closes] at began
      cases began
      rw [current_of_emitFunctions options definitions ids rest, current]
  | [], _, before, after, ran => by
      cases ran
      rfl
  | _ :: _, [], before, after, ran => by
      cases ran
      rfl

theorem grows_functions {options : Options} {definitions : List FnDef} {ids : List UInt16}
    (noFault : before.fault = none)
    (ran : Strict.functions options definitions ids before = .ok () after) :
    Grows before after [] [] := by
  have agrees := (Latches.emitFunctions options definitions ids).agrees before noFault
  rw [ran] at agrees
  obtain ⟨stillNone, latchedRan⟩ := agrees
  exact .of_buffer_eq (stillNone.trans noFault.symm)
    (congrArg Context.buffer (current_of_emitFunctions options definitions ids latchedRan))

namespace Balanced

mutual

theorem stmt (options : Options) : (stmt : Stmt) → Balanced (Strict.stmt options stmt)
  | .store position name op value => emitAssignment position name op value
  | .ifElse cond thenBlock none => emitIf cond (block options thenBlock) pure
  | .ifElse cond thenBlock (some elseBlock) =>
      emitIf cond (block options thenBlock) (block options elseBlock)
  | .whileDo cond body => emitWhile cond (block options body)
  | .forRange position name low high body =>
      emitFor position name low high (block options body)
  | .print _ args => forM emitPrint args
  | .ret position value => emitReturn value position
  | .expr value => emitDiscarded value
  | .block body => block options body

theorem stmts (options : Options) : (stmts : List Stmt) → Balanced (Strict.stmts options stmts)
  | [] => pure
  | first :: rest => (stmt options first).bind (stmts options rest)

theorem block (options : Options) : (block : Block) → Balanced (Strict.block options block)
  | ⟨vars, functions, statements⟩ => by
      intro before after noFault inside ran
      obtain ⟨_, entered, enters, ran⟩ := exists_of_bind_eq_ok ran
      obtain ⟨ids, declared, declares, ran⟩ := exists_of_bind_eq_ok ran
      obtain ⟨_, defined, defines, ran⟩ := exists_of_bind_eq_ok ran
      obtain ⟨_, written, writes, exits⟩ := exists_of_bind_eq_ok ran
      have start : Grows before entered [] [] := by
        cases enters
        exact .of_buffer_eq rfl rfl
      have declaredGrows := start.trans
        (grows_declareBlock (start.fault.trans noFault) (start.inside inside) declares)
      have definedGrows := declaredGrows.trans
        (grows_functions (declaredGrows.fault.trans noFault) defines)
      have writtenGrows := definedGrows.trans (stmts options statements defined written
        (definedGrows.fault.trans noFault) (definedGrows.inside inside) writes)
      have exited : Grows written after [] [] := by
        cases exits
        exact .of_buffer_eq rfl rfl
      exact writtenGrows.trans exited

end

end Balanced

/-- A statement or a block during which no error is kept leaves the open sites as they were; after
an earlier error it is skipped. -/
theorem openSites_of_latches {latched strict : EmitM Unit} (latches : Latches latched strict)
    (balanced : Balanced strict) (inside : before.buffer.Inside)
    (ran : unlessFailed latched before = .ok () after) (noError : after.fault = before.fault) :
    after.buffer.openSites = before.buffer.openSites := by
  cases fault : before.fault with
  | some error =>
      unfold unlessFailed at ran
      rw [fault] at ran
      cases ran
      rfl
  | none =>
      rw [fault] at noError
      have strictRan := latches.unlessFailed.eq_ok ran noError
      exact (balanced before after fault inside strictRan).openSites_eq

theorem unlessFailed_emitBlock (options : Options) (block : Block) :
    unlessFailed (emitBlock options block) = emitBlock options block := by
  have twice : ∀ action : EmitM Unit, unlessFailed (unlessFailed action) = unlessFailed action := by
    intro action
    funext emitter
    by_cases failed : emitter.fault.isSome <;> simp [unlessFailed, failed]
  cases block
  exact twice _

/-- The state in which an action with a table ends, whether it succeeds or fails. -/
def Caching.ending {α : Type} : EStateM.Result CompileError Caching α → Caching
  | .ok _ state => state
  | .error _ state => state

theorem Caching.ending_attach {α : Type} (types : TypeTable)
    (result : EStateM.Result CompileError Emitter α) :
    (ending (attach types result)).emitter = Emitter.ending result := by
  cases result <;> rfl

/-- Open sites lie inside the code at all moments of a plan, and when it ends. -/
theorem Plan.inside {α : Type} {action : EmitM α} (plan : Plan action) {state : Caching}
    (inside : state.emitter.Inside) :
    (Caching.ending (plan.run state)).emitter.Inside ∧
      ∀ moment ∈ plan.moments state, moment.state.emitter.Inside := by
  induction plan generalizing state with
  | act orderly =>
      constructor
      · rw [run, Caching.ending_attach]
        exact orderly state.emitter inside
      · rintro moment member
        obtain rfl := List.mem_singleton.mp member
        exact inside
  | bind first rest ihFirst ihRest =>
      obtain ⟨firstEnds, firstMoments⟩ := ihFirst inside
      cases ran : first.run state with
      | ok result after =>
          rw [ran] at firstEnds
          obtain ⟨restEnds, restMoments⟩ := ihRest result firstEnds
          simp only [run, moments, Caching.bind_apply, ran, List.mem_append]
          exact ⟨restEnds, fun moment member =>
            member.elim (firstMoments moment) (restMoments moment)⟩
      | error error after =>
          rw [ran] at firstEnds
          simp only [run, moments, Caching.bind_apply, ran, List.append_nil]
          exact ⟨firstEnds, firstMoments⟩
  | predict node operand =>
      constructor
      · simp only [run, Caching.predictedType]
        cases operand.typeOfMemo state.emitter.scopes state.emitter.image node state.types <;>
          exact inside
      · intro moment member
        obtain rfl := List.mem_singleton.mp member
        exact inside
  | expr node value code ih =>
      obtain ⟨ends, through⟩ := ih inside
      refine ⟨ends, fun moment member => ?_⟩
      rcases List.mem_cons.mp member with rfl | later
      · exact inside
      · exact through moment later
  | latch default inner ih =>
      obtain ⟨ends, through⟩ := ih inside
      refine ⟨?_, through⟩
      simp only [run, Caching.latch]
      cases ran : inner.run state <;> rw [ran] at ends <;> exact ends
  | unlessFailed inner ih =>
      simp only [run, moments]
      split
      · refine ⟨inside, fun moment member => ?_⟩
        obtain rfl := List.mem_singleton.mp member
        exact inside
      · exact ih inside

end Emitter

namespace Program

open Emitter

variable (program : Program) (options : Options)

theorem inside_of_moment {moment : Moment} (passed : moment ∈ program.moments options) :
    moment.state.emitter.Inside :=
  ((program.plan options).inside (inside_start program)).2 moment passed

/-- The account of open sites is right from every state that a compilation passes through.  An
expression that leaves a value has changed nothing in it.  One that leaves a condition has added the
sites of the condition and no other.  A statement or a block during which no error is kept has
changed nothing. -/
theorem openSites_of_moment {moment : Moment} (passed : moment ∈ program.moments options) :
    (∀ expr ty after, emitExpr expr moment.state.emitter = .ok (.value ty) after →
      after.buffer.openSites = moment.state.emitter.buffer.openSites) ∧
    (∀ expr pending after, emitExpr expr moment.state.emitter = .ok (.branch pending) after →
      pending.Opens moment.state.emitter.buffer after.buffer) ∧
    (∀ stmt after,
      unlessFailed (latch () (emitStmt options stmt)) moment.state.emitter = .ok () after →
      after.fault = moment.state.emitter.fault →
      after.buffer.openSites = moment.state.emitter.buffer.openSites) ∧
    (∀ block after, emitBlock options block moment.state.emitter = .ok () after →
      after.fault = moment.state.emitter.fault →
      after.buffer.openSites = moment.state.emitter.buffer.openSites) := by
  have inside := (program.inside_of_moment options passed).buffer
  refine ⟨fun expr ty after ran => ?_, fun expr pending after ran => ?_,
    fun stmt after ran noError => ?_, fun block after ran noError => ?_⟩
  · exact (leaves_emitExpr expr inside ran).grows.openSites_eq
  · exact (leaves_emitExpr expr inside ran).opens inside
  · have latches := (Latches.emitStmt options stmt).latch ()
    exact openSites_of_latches latches (.stmt options stmt) inside ran noError
  · rw [← unlessFailed_emitBlock] at ran
    exact openSites_of_latches (.emitBlock options block) (.block options block) inside ran noError

/-- A condition with a connective. -/
def guard : Expr :=
  .binary 3 (.logic .and) (.binary 4 (.compare .lt) (.load 5 "i") (.int 6 5))
    (.binary 7 (.compare .gt) (.load 8 "i") (.int 9 1))

/-- A program in which a condition is compiled while two jumps are open:

    void main() { int i; if (i < 5 && i > 1) print(i); }
-/
def guarded : Program where
  top := ⟨"main", .void, [], .block ⟨[⟨"i", .int, 1⟩], [],
    [.ifElse guard ⟨[], [], [.print 10 [.load 11 "i"]]⟩ none]⟩, 0⟩

theorem guarded_openSites_of_moment :
    ∃ moment ∈ guarded.moments .default, moment.next = some ([0, 0, 1, 0], guard) ∧
      moment.state.emitter.buffer.openSites.toList = [8, 11] ∧
      ∃ after, emitExpr guard moment.state.emitter = .ok (.branch ⟨[⟨47⟩], [⟨30⟩, ⟨49⟩]⟩) after ∧
        PendingBranch.Opens ⟨[⟨47⟩], [⟨30⟩, ⟨49⟩]⟩ moment.state.emitter.buffer after.buffer := by
  have found : ∃ moment ∈ guarded.moments .default,
      moment.next = some ([0, 0, 1, 0], guard) ∧
        moment.state.emitter.buffer.openSites.toList = [8, 11] ∧
        EStateM.run' (emitExpr guard) moment.state.emitter =
          some (.branch ⟨[⟨47⟩], [⟨30⟩, ⟨49⟩]⟩) := by
    decide +kernel
  obtain ⟨moment, passed, next, opened, leaves⟩ := found
  obtain ⟨after, ran⟩ := exists_of_run' leaves
  exact ⟨moment, passed, next, opened, after, ran,
    (openSites_of_moment guarded .default passed).2.1 _ _ after ran⟩

end Program

end Backpatch
