import Backpatch.Proofs.Course

/-!
# The states in which parts are compiled

Whenever a compilation comes to a part, the state fits the place at which the part stands: names
mean in the state what they mean at the place, and as many slots and numbers are taken.
-/

namespace Backpatch

open Emitter

variable {options : Options} {place inner : Place} {part sub : Part}
  {emitter middle after : Emitter} {α β : Type}

/-- Every part that one comes to, following a script from a state, has a property. -/
def Script.Always (options : Options) (holds : Place → Part → Emitter → Prop) {α : Type} :
    Script α → Emitter → Prop
  | last _, _ => True
  | step action next, emitter =>
      ∀ result after, action emitter = .ok result after → (next result).Always options holds after
  | visit place part next, emitter =>
      holds place part emitter ∧
        ∀ result after, part.action options emitter = .ok result after →
          (next result).Always options holds after

theorem Script.Meets.of_always {holds : Place → Part → Emitter → Prop} {script : Script α}
    (meets : script.Meets options inner sub middle emitter)
    (always : script.Always options holds emitter) : holds inner sub middle := by
  induction meets with
  | here => exact always.1
  | step ran _ ih => exact ih (always _ _ ran)
  | visit ran _ ih => exact ih (always.2 _ _ ran)

theorem Emitter.Achieves.of_run {action : EmitM α} {post : α → Emitter → Prop} {result : α}
    (achieves : Achieves action emitter post) (ran : action emitter = .ok result after) :
    post result after := by
  unfold Achieves at achieves
  rwa [ran] at achieves

/-- The state fits the place at which the compilation of a part begins. -/
def Part.Begins (place : Place) (emitter : Emitter) : Part → Prop
  | .args values types => Ready place.toEnv emitter ∧ values.length = types.length
  | .functions definitions ids =>
      Ready place.toEnv emitter ∧ ∃ first, ids = FnDef.numbers first definitions ∧
        emitter.image.Registers first definitions ∧
        emitter.image.natives.size + definitions.length ≤ emitter.image.routines.size ∧
        first + definitions.length ≤ emitter.image.routines.size
  | .function definition id =>
      Ready place.toEnv emitter ∧
        (∃ routine, emitter.image.routine? id = some routine ∧ routine.name = definition.name ∧
          routine.signature = definition.signature) ∧
        emitter.image.natives.size < emitter.image.routines.size
  | .body definition =>
      ∃ env, Ready env emitter ∧
        definition.params.foldl (fun env param => env.declare param.name param.ty) env =
          place.toEnv ∧
        env.taken = [] ∧ (emitter.scopes.current.blocks = [] ∧ emitter.buffer = .empty) ∧
        emitter.image.natives.size < emitter.image.routines.size
  | _ => Ready place.toEnv emitter

/-- The parts in a script begin in states that fit their places. -/
abbrev Script.Fits (options : Options) (script : Script α) (emitter : Emitter) : Prop :=
  script.Always options (fun place part emitter => part.Begins place emitter) emitter

namespace Script.Fits

theorem step {action : EmitM β} {next : β → Script α} {post : β → Emitter → Prop}
    (achieves : Achieves action emitter post)
    (rest : ∀ result after, post result after → (next result).Fits options after) :
    (Script.step action next).Fits options emitter :=
  fun result after ran => rest result after (achieves.of_run ran)

theorem visit {next : part.Result → Script α} {post : part.Result → Emitter → Prop}
    (begins : part.Begins place emitter) (achieves : Achieves (part.action options) emitter post)
    (rest : ∀ result after, post result after → (next result).Fits options after) :
    (Script.visit place part next).Fits options emitter :=
  ⟨begins, fun result after ran => rest result after (achieves.of_run ran)⟩

theorem offset {next : Nat → Script α} (rest : (next emitter.buffer.size).Fits options emitter) :
    (Script.step Emitter.offset next).Fits options emitter := by
  rintro _ _ ⟨⟩
  exact rest

theorem modify {change : Emitter → Emitter} {next : Unit → Script α}
    (rest : (next ()).Fits options (change emitter)) :
    (Script.step (modify change) next).Fits options emitter := by
  rintro _ _ ⟨⟩
  exact rest

theorem var {position : Position} {name : String} {next : Slot → Script α}
    (ready : Ready place.toEnv emitter)
    (rest : ∀ slot, place.var? name = some slot → (next slot).Fits options emitter) :
    (Script.visit place (.var position name) next).Fits options emitter := by
  have resolved : Achieves (resolveVar name position) emitter fun slot after =>
      place.var? name = some slot ∧ emitter = after := by
    rw [← bind_pure (resolveVar name position)]
    exact achieves_resolveVar ready fun slot found => .pure ⟨found, rfl⟩
  refine visit ready resolved ?_
  rintro slot _ ⟨found, rfl⟩
  exact rest slot found

theorem converted {value : Expr} {ty : Ty} {next : Script α} (ready : Ready place.toEnv emitter)
    (rest : ∀ after, (Wrote place.toEnv emitter after [] fun _ _ => True) →
      next.Fits options after) :
    (Script.converted place value ty next).Fits options emitter := by
  refine visit ready (achieves_emitExpr value ready) fun compiled middle emits => ?_
  refine step (achieves_coerce ready emits.wrote) fun _ after wrote => ?_
  exact rest after (wrote.imp fun _ _ _ => trivial)

theorem condition {value : Expr} {next : PendingBranch → Script α}
    (ready : Ready place.toEnv emitter)
    (rest : ∀ pending after, (Wrote place.toEnv emitter after pending.holes fun _ _ => True) →
      (next pending).Fits options after) :
    (Script.condition place value next).Fits options emitter := by
  refine visit ready (achieves_emitExpr value ready) fun compiled middle emits => ?_
  refine step (achieves_branchOnValue emits.wrote) fun pending after wrote => ?_
  exact rest pending after (wrote.imp fun _ _ _ => trivial)

theorem operation {op : BinOp} {position : Position} {left right : Expr}
    {finish : Ty → EmitM Compiled} (ready : Ready place.toEnv emitter) :
    (Script.operation place op position left right finish).Fits options emitter := by
  have predicts : Achieves (predictedType right) emitter fun _ after => emitter = after := by
    rw [← bind_pure (predictedType right)]
    exact achieves_predictedType fun predicted _ => .pure rfl
  refine step predicts ?_
  rintro predicted _ rfl
  refine visit ready (achieves_emitExpr left ready) fun compiled middle emits => ?_
  refine step (achieves_materializeValue ready emits.wrote) ?_
  rintro leftTy leftDone ⟨-, leftWrote⟩
  refine step (achieves_reserveConversion leftWrote.ready) fun site reserved reserves => ?_
  have reservedReady : Ready place.toEnv reserved := by
    cases site with
    | none => exact reserves.2 ▸ leftWrote.ready
    | some site => exact reserves.2.2.2.ready
  refine visit reservedReady (achieves_emitExpr right reservedReady) fun _ _ _ => ?_
  simp [Script.Always]

end Script.Fits

theorem Expr.fits_script (expr : Expr) (ready : Ready place.toEnv emitter) :
    (expr.script place).Fits options emitter := by
  cases expr with
  | int | double | string => trivial
  | load position name =>
      refine .var ready fun slot _ => ?_
      simp [Script.Always, Script.done]
  | binary position op left right =>
      cases op with
      | arith | compare => exact .operation ready
      | logic connective =>
          refine .condition ready fun leftBranch leftDone leftWrote => .offset ?_
          cases connective with
          | and =>
              refine .step (achieves_patch (leftBranch.falseSites.map Site.hole) ready leftWrote
                (by simp [PendingBranch.holes]) (Nat.le_refl _)) ?_
              rintro _ patched ⟨-, patchedWrote⟩
              exact .condition patchedWrote.ready fun _ _ _ => trivial
          | or =>
              refine .step (achieves_patch (leftBranch.trueSites.map Site.hole) ready leftWrote
                (by simpa [PendingBranch.holes] using List.perm_append_comm) (Nat.le_refl _)) ?_
              rintro _ patched ⟨-, patchedWrote⟩
              exact .condition patchedWrote.ready fun _ _ _ => trivial
  | unary position op operand =>
      cases op with
      | not => exact .condition ready fun _ _ _ => trivial
      | neg => exact .visit ready (achieves_emitExpr operand ready) fun _ _ _ => trivial
  | call position name args =>
      have resolved : Achieves (ask (callee name args.length position)) emitter
          fun answer after => args.length = answer.2.params.length ∧ emitter = after := by
        rw [← bind_pure (ask (callee name args.length position))]
        exact achieves_callee ready fun id signature _ count => .pure ⟨count, rfl⟩
      refine .visit ready resolved ?_
      rintro ⟨id, signature⟩ _ ⟨count, rfl⟩
      have counts : args.length = (signature.params.map (·.ty)).length := by simpa using count
      refine .visit ⟨ready, counts⟩ (achieves_emitArgs args _ counts ready) fun _ _ _ => ?_
      simp [Script.Always, Script.done]

theorem Stmt.pass_ifElse (env : Env) (cond : Expr) (thenBlock : Block) (elseBlock : Option Block) :
    (Stmt.ifElse cond thenBlock elseBlock).pass env =
      elseBlock.elim (thenBlock.pass env) (·.pass (thenBlock.pass env)) := by
  cases elseBlock <;> rw [Stmt.pass] <;> rfl

theorem achieves_otherwise {env : Env} (body : Option Block) (ready : Ready env emitter) :
    Achieves ((Part.otherwise body).action options) emitter fun _ after =>
      Wrote (body.elim env (·.pass env)) emitter after [] fun _ _ => True := by
  cases body with
  | none => exact .pure (.refl ready)
  | some body =>
      exact (achieves_block options body ready).imp fun _ _ emits =>
        Wrote.imp emits fun _ _ _ => trivial

theorem Stmt.fits_script (stmt : Stmt) (ready : Ready place.toEnv emitter) :
    (stmt.script place).Fits options emitter := by
  cases stmt with
  | store position name op value =>
      refine .var ready fun slot resolved => ?_
      cases op.update? with
      | none => exact .converted ready fun _ _ => trivial
      | some arith =>
          dsimp only
          cases arith.instr? slot.ty with
          | none => trivial
          | some instr =>
              refine .step (achieves_loadVar ready resolved) fun _ loaded loadWrote => ?_
              refine .converted loadWrote.ready fun _ _ => ?_
              simp [Script.Always]
  | ifElse cond thenBlock elseBlock =>
      refine .step (achieves_emitJump ready) ?_
      rintro toCond thenStart ⟨-, toCondWrote⟩
      refine .offset (.visit toCondWrote.ready
        (achieves_block options thenBlock toCondWrote.ready) fun _ thenStop thenWrote => ?_)
      refine .step (achieves_emitJump thenWrote.ready) ?_
      rintro thenExit elseStart ⟨-, thenExitWrote⟩
      have elseReady : Ready (place.behind (thenBlock.pass place.toEnv)).toEnv elseStart := by
        rw [Place.toEnv_behind_block]
        exact thenExitWrote.ready
      refine .offset (.visit elseReady (achieves_otherwise elseBlock thenExitWrote.ready)
        fun _ elseStop elseWrote => ?_)
      refine .step (achieves_emitJump elseWrote.ready) ?_
      rintro elseExit condStart ⟨-, elseExitWrote⟩
      have blocksWrote := (((toCondWrote.trans thenWrote).trans thenExitWrote).trans
        elseWrote).trans elseExitWrote
      refine .offset (.step (achieves_patch [thenExit.hole, elseExit.hole] ready blocksWrote
        (.refl _) (Nat.le_refl _)) ?_)
      rintro _ condReady ⟨-, condReadyWrote⟩
      refine .condition ?_ fun _ _ _ => ?_
      · rw [Place.toEnv_behind_stmt, Stmt.pass_ifElse]
        exact condReadyWrote.ready
      · simp [Script.Always]
  | whileDo cond body =>
      refine .offset (.condition ready fun pending bodyStart condWrote => .offset ?_)
      refine .visit condWrote.ready (achieves_block options body condWrote.ready) fun _ _ _ => ?_
      simp [Script.Always]
  | forRange position name low high body =>
      refine .var ready fun slot resolved => ?_
      cases Numeric.ofTy? slot.ty with
      | none => trivial
      | some numeric =>
          refine .step (achieves_allocateHidden ready resolved ?_) ?_
          · unfold storageError
            split <;> rfl
          rintro _ allocated ⟨-, rfl, -, boundOwns, hiddenWrote⟩
          have isStorable := (ready.storable name slot resolved).1
          -- Behind the hidden slot, the names are those of the place.
          have hiddenReady := hiddenWrote.ready
          rw [← Place.toEnv_behind_hide] at hiddenReady
          have resolvedIn : (place.behind (place.toEnv.hide name)).toEnv.var name = some slot :=
            resolved
          refine .converted hiddenReady fun _ lowWrote => ?_
          refine .step (achieves_storeVar lowWrote.ready resolvedIn) fun _ _ slotWrote => ?_
          refine .converted slotWrote.ready fun _ highWrote => ?_
          have initWrote := (lowWrote.trans slotWrote).trans highWrote
          refine .step (achieves_emitStore initWrote.ready isStorable
            (boundOwns.of_extends initWrote.extension)) fun _ _ boundWrote => .offset ?_
          refine .step (achieves_loadVar boundWrote.ready resolvedIn) fun _ _ loadWrote => ?_
          have headWrote := (initWrote.trans boundWrote).trans loadWrote
          refine .step (achieves_emitLoad headWrote.ready isStorable
            (boundOwns.of_extends headWrote.extension)) fun _ _ loadedWrote => ?_
          refine .step (achieves_emit loadedWrote.ready (by cases numeric <;> rfl)) ?_
          rintro _ _ ⟨-, compareWrote⟩
          refine .step (achieves_emit compareWrote.ready rfl) ?_
          rintro _ _ ⟨-, zeroWrote⟩
          refine .step (achieves_emitBranch zeroWrote.ready rfl) ?_
          rintro pending bodyStart ⟨-, branchWrote⟩
          refine .offset (.visit branchWrote.ready (achieves_block options body branchWrote.ready)
            fun _ _ _ => ?_)
          simp [Script.Always]
  | print position args => exact ⟨ready, fun _ _ _ => trivial⟩
  | ret position value =>
      cases value with
      | none => trivial
      | some value =>
          rintro _ _ ⟨⟩
          dsimp only
          split
          · trivial
          · exact Script.Fits.converted ready fun _ _ => trivial
  | expr value =>
      refine .visit ready (achieves_emitExpr value ready) fun compiled _ _ => ?_
      cases compiled with
      | branch pending => simp [Script.Always]
      | value ty => cases ty <;> trivial
  | block body => exact ⟨ready, fun _ _ _ => trivial⟩

theorem Part.Begins.achieves_function {definition : FnDef} {id : UInt16}
    (begins : (Part.function definition id).Begins place emitter) :
    Achieves ((Part.function definition id).action options) emitter fun _ after =>
      EmitsFunction place.toEnv id.toNat definition emitter after := by
  obtain ⟨ready, ⟨routine, found, declared⟩, room⟩ := begins
  have same : UInt16.ofNat id.toNat = id := UInt16.ofNat_toNat
  have pushed : Ready _ (emitter.pushed id definition.returnType) :=
    ready.pushed (Option.isSome_of_eq_some found)
  rw [← same] at found pushed
  have compiled := Emitter.achieves_function ready ⟨routine, found, declared⟩
    (achieves_body options definition pushed rfl rfl ⟨rfl, rfl⟩ room)
  rw [same] at compiled
  exact compiled

/-- If a part begins in a state that fits, so do the parts in it. -/
theorem Part.Begins.fits_script {part : Part} (begins : part.Begins place emitter) :
    (part.script options place).Fits options emitter := by
  cases part with
  | var | callee => trivial
  | expr value => exact value.fits_script begins
  | stmt statement => exact statement.fits_script begins
  | args values types =>
      obtain ⟨ready, count⟩ := begins
      cases values with
      | nil => trivial
      | cons arg rest =>
          cases types with
          | nil => cases count
          | cons ty types =>
              have counts : rest.length = types.length := Nat.succ.inj count
              refine .visit ⟨ready, counts⟩ (achieves_emitArgs rest types counts ready)
                fun _ _ wrote => ?_
              exact .converted wrote.ready fun _ _ => trivial
  | prints values =>
      cases values with
      | nil => trivial
      | cons arg rest =>
          refine .visit begins (achieves_emitExpr arg begins) fun compiled _ emits => ?_
          refine .step (achieves_materializeValue begins emits.wrote) ?_
          rintro ty _ ⟨-, valueWrote⟩
          cases member : Op.print? ty with
          | none => trivial
          | some op =>
              refine Script.Fits.step (achieves_emit valueWrote.ready (width_of_print member)) ?_
              rintro _ _ ⟨-, printWrote⟩
              exact ⟨printWrote.ready, fun _ _ _ => trivial⟩
  | stmts statements =>
      cases statements with
      | nil => trivial
      | cons first rest =>
          refine .visit begins (achieves_stmt options first begins) fun _ _ wrote => ?_
          have ready := Wrote.ready wrote
          rw [← Place.toEnv_behind_stmt] at ready
          exact ⟨ready, fun _ _ _ => trivial⟩
  | block inner =>
      obtain ⟨vars, definitions, statements⟩ := inner
      have entered : Ready place.toEnv emitter.entered := Ready.entered begins
      refine .modify (.step (achieves_declareBlock vars definitions entered) ?_)
      rintro _ declared ⟨rfl, -, natives, registers, declares⟩
      have ready := declares.ready
      have counted : declared.image.routines.size = place.defined + definitions.length := by
        rw [ready.defined, Env.defined_declareBlock]
        rfl
      have slack : declared.image.natives.size + definitions.length ≤
          declared.image.routines.size := by
        have natives_le := Nat.le_trans natives entered.image.natives_le
        have defined : emitter.entered.image.routines.size = place.defined := entered.defined
        omega
      rw [← Place.toEnv_declareBlock] at ready
      have bound := Nat.le_of_eq counted.symm
      refine .visit ⟨ready, _, rfl, registers, slack, bound⟩
        (achieves_functions options definitions ready registers slack bound)
        fun _ compiled emits => ?_
      exact ⟨emits.ready, fun _ _ _ => trivial⟩
  | otherwise inner =>
      cases inner with
      | none => trivial
      | some inner => exact ⟨begins, fun _ _ _ => trivial⟩
  | functions definitions ids =>
      obtain ⟨ready, first, rfl, registers, slack, bound⟩ := begins
      cases definitions with
      | nil => trivial
      | cons definition definitions =>
          rw [List.length_cons] at slack bound
          have here : (Part.function definition (UInt16.ofNat first)).Begins place emitter :=
            ⟨ready, registers.1, by omega⟩
          refine .visit here here.achieves_function fun _ middle one => ?_
          have balanced := one.extension.balanced
          have size_le := one.extension.size_le
          rw [List.length_singleton] at balanced
          have later := one.extension.registers registers.2
          exact ⟨⟨one.ready, first + 1, rfl, later, by omega, by omega⟩, fun _ _ _ => trivial⟩
  | function definition id =>
      obtain ⟨ready, ⟨routine, found, -⟩, room⟩ := begins
      refine .modify ?_
      refine ⟨⟨_, ready.pushed (Option.isSome_of_eq_some found), ?_, rfl, ⟨rfl, rfl⟩, room⟩,
        fun _ _ _ => trivial⟩
      rw [Place.toEnv_enter, Env.enter, UInt16.ofNat_toNat]
  | body definition =>
      obtain ⟨name, returnType, params, body, position⟩ := definition
      obtain ⟨env, ready, entered, -, ⟨noBlocks, -⟩, -⟩ := begins
      cases body with
      | native symbol => simp [Part.script, Script.Always]
      | block inner =>
          refine .step (achieves_emitParams params ready noBlocks) fun _ _ wrote => ?_
          have ready := wrote.ready
          rw [show _ = place.toEnv from entered] at ready
          exact ⟨ready, fun _ _ _ => trivial⟩

theorem Part.begins_start (program : Program) :
    (Part.body program.top).Begins (program.outsidePlace.enter 0 program.top)
      (Emitter.start program) := by
  refine ⟨program.outermost, ready_start program, ?_, rfl, ⟨rfl, rfl⟩, Nat.zero_lt_one⟩
  rw [Place.toEnv_enter]
  rfl

/-- A compilation comes to every part in a state that fits the place of the part. -/
theorem Program.Reaches.begins {program : Program}
    (reaches : program.Reaches options place part emitter) : part.Begins place emitter := by
  induction reaches with
  | start => exact Part.begins_start program
  | inside _ meets ih => exact meets.of_always ih.fits_script

end Backpatch
