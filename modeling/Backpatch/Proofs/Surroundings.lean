import Backpatch.Proofs.TableGrowth

/-!
# The surroundings of a nested function

A function inside another is compiled while the other one is half written, on the same state, and
the compilation of the inner one goes on to its end when it meets an error.  This file proves that
it leaves alone what does not belong to the inner function.  The functions around it are open as
before, with the code that they had, and nothing that the image had before is changed but the
routine of the inner function.

The argument is about the whole of a compilation inside the inner function: whatever it does, it
does to the current function, or to routines that it has added itself.
-/

namespace Backpatch

namespace Image

/-- All that an image has is still there under the same numbers and names.  Only the routines at the
given indices may have been compiled in between, which leaves their declarations as they were. -/
structure Keeps (changed : Nat → Prop) (before after : Image) : Prop where
  version : after.version = before.version
  entry : after.entry = before.entry
  routines : ∀ (index : Nat) routine, before.routines[index]? = some routine →
    ∃ later, after.routines[index]? = some later ∧ later.id = routine.id ∧
      later.name = routine.name ∧ later.signature = routine.signature ∧
      (¬changed index → later = routine)
  constants : before.constants.toList <+: after.constants.toList
  natives : before.natives.toList <+: after.natives.toList
  routineIds : ∀ (name : String) id, before.routineIds[name]? = some id →
    after.routineIds[name]? = some id
  constantIds : ∀ (value : String) id, before.constantIds[value]? = some id →
    after.constantIds[value]? = some id
  nativeIds : ∀ (name : String) id, before.nativeIds[name]? = some id →
    after.nativeIds[name]? = some id

theorem getElem?_insert_of_known {ids : NameMap UInt16} {name other : String} {id fresh : UInt16}
    (absent : ids[name]? = none) (known : ids[other]? = some id) :
    (ids.insert name fresh)[other]? = some id := by
  rw [Std.ExtTreeMap.getElem?_insert, if_neg, known]
  intro same
  rw [Std.LawfulEqCmp.compare_eq_iff_eq.mp same, known] at absent
  cases absent

theorem getElem?_insertIfNew_of_known {ids : NameMap UInt16} {name other : String}
    {id fresh : UInt16} (known : ids[other]? = some id) :
    (ids.insertIfNew name fresh)[other]? = some id := by
  rw [Std.ExtTreeMap.getElem?_insertIfNew, if_neg, known]
  rintro ⟨same, absent⟩
  rw [Std.LawfulEqCmp.compare_eq_iff_eq.mp same, Std.ExtTreeMap.mem_iff_isSome_getElem?,
    known] at absent
  exact absent rfl

namespace Keeps

variable {changed : Nat → Prop} {base image : Image}

theorem refl (changed : Nat → Prop) (image : Image) : image.Keeps changed image where
  version := rfl
  entry := rfl
  routines _ routine found := ⟨routine, found, rfl, rfl, rfl, fun _ => rfl⟩
  constants := List.prefix_rfl
  natives := List.prefix_rfl
  routineIds _ _ := id
  constantIds _ _ := id
  nativeIds _ _ := id

theorem size_le (keeps : base.Keeps changed image) : base.routines.size ≤ image.routines.size := by
  refine Nat.le_of_not_lt fun fewer => ?_
  obtain ⟨_, found, -⟩ := keeps.routines _ _ (Array.getElem?_eq_getElem fewer)
  exact Nat.lt_irrefl _ (Array.getElem?_eq_some_iff.mp found).1

theorem pushRoutine (keeps : base.Keeps changed image) (routine : Routine) :
    base.Keeps changed (image.pushRoutine routine) :=
  { keeps with
    routines := fun index old found => by
      obtain ⟨later, foundLater, same⟩ := keeps.routines index old found
      have inside := (Array.getElem?_eq_some_iff.mp foundLater).1
      exact ⟨later, (Array.getElem?_push_lt inside).trans
        ((Array.getElem?_eq_getElem inside).symm.trans foundLater), same⟩
    routineIds := fun name id known =>
      getElem?_insertIfNew_of_known (keeps.routineIds name id known) }

theorem pushConstant {value : String} (keeps : base.Keeps changed image)
    (absent : image.constantIds[value]? = none) :
    base.Keeps changed (image.pushConstant value) :=
  { keeps with
    constants := keeps.constants.trans (by simp [Image.pushConstant])
    constantIds := fun other id known =>
      getElem?_insert_of_known absent (keeps.constantIds other id known) }

theorem pushNative {native : Native} (keeps : base.Keeps changed image)
    (absent : image.nativeIds[native.name]? = none) :
    base.Keeps changed (image.pushNative native) :=
  { keeps with
    natives := keeps.natives.trans (by simp [Image.pushNative])
    nativeIds := fun name id known =>
      getElem?_insert_of_known absent (keeps.nativeIds name id known) }

/-- Whatever is asked of an image, and whether there is room for it or not, what was in the image is
kept. -/
theorem imageOf {addition : Addition} {result : EStateM.Result CodeError Image UInt16}
    (keeps : base.Keeps changed image) (outcome : addition.Outcome image result) :
    base.Keeps changed (Backpatch.imageOf result) := by
  cases outcome with
  | newRoutine => exact keeps.pushRoutine _
  | newConstant absent => exact keeps.pushConstant absent
  | newNative absent => exact keeps.pushNative absent
  | _ => exact keeps

/-- A function may be compiled if it is one of the given ones, or if the image did not have it. -/
theorem modifyRoutine (keeps : base.Keeps changed image) {id : UInt16} (context : Context)
    (free : changed id.toNat ∨ base.routines.size ≤ id.toNat) :
    base.Keeps changed (image.modifyRoutine id (Routine.finish context)) :=
  { keeps with
    routines := fun index old found => by
      obtain ⟨later, foundLater, sameId, sameName, sameSignature, same⟩ :=
        keeps.routines index old found
      rw [Image.modifyRoutine, Array.getElem?_modify]
      split
      case isTrue here =>
          refine ⟨later.finish context, by rw [foundLater, Option.map_some], sameId, sameName,
            sameSignature, fun unchanged => ?_⟩
          have inside := (Array.getElem?_eq_some_iff.mp found).1
          subst here
          exact (free.elim unchanged (Nat.not_le_of_lt inside)).elim
      case isFalse => exact ⟨later, foundLater, sameId, sameName, sameSignature, same⟩ }

end Keeps

end Image

namespace Emitter

variable {α β : Type} {changed : Nat → Prop} {base : Image} {options : Options}

/-- The state in which an action ends, whether it succeeds or fails. -/
def ending : EStateM.Result CompileError Emitter α → Emitter
  | .ok _ emitter => emitter
  | .error _ emitter => emitter

/-- The same function is open as before, inside the same ones, and the image has what a given one
has. -/
structure Spares (changed : Nat → Prop) (base : Image) (before after : Emitter) : Prop where
  id : after.scopes.current.id = before.scopes.current.id
  enclosing : after.scopes.enclosing = before.scopes.enclosing
  image : base.Keeps changed after.image

/-- However it ends, the action changes neither the functions around the current one nor what a
given image has. -/
def Confined (changed : Nat → Prop) (base : Image) (action : EmitM α) : Prop :=
  ∀ before, base.Keeps changed before.image → Spares changed base before (ending (action before))

theorem Spares.of_stays {before after : Emitter} (stays : before.scopes.Stays after.scopes)
    (image : base.Keeps changed after.image) : Spares changed base before after :=
  ⟨stays.id, stays.enclosing, image⟩

theorem Spares.trans {before middle after : Emitter} (one : Spares changed base before middle)
    (two : Spares changed base middle after) : Spares changed base before after :=
  ⟨two.id.trans one.id, two.enclosing.trans one.enclosing, two.image⟩

namespace Confined

/-- The rest of an action may use what the beginning has found out. -/
theorem bind_of_ran {action : EmitM α} {next : α → EmitM β} (first : Confined changed base action)
    (rest : ∀ before result after, base.Keeps changed before.image →
      action before = .ok result after → Confined changed base (next result)) :
    Confined changed base (action >>= next) := by
  intro before keeps
  have began := first before keeps
  rw [bind_apply]
  cases ran : action before with
  | ok result after =>
      rw [ran] at began
      exact began.trans (rest before result after keeps ran after began.image)
  | error error after =>
      rw [ran] at began
      exact began

theorem bind {action : EmitM α} {next : α → EmitM β} (first : Confined changed base action)
    (rest : ∀ result, Confined changed base (next result)) :
    Confined changed base (action >>= next) :=
  first.bind_of_ran fun _ result _ _ _ => rest result

theorem onImage (addition : Addition) :
    Confined changed base (Emitter.onImage addition.perform) := by
  intro before keeps
  have kept := keeps.imageOf (addition.outcome before.image)
  simp only [Emitter.onImage]
  cases ran : addition.perform before.image with
  | ok | error =>
      rw [ran] at kept
      exact ⟨rfl, rfl, kept⟩

theorem onScopes {change : Scopes → Option (α × Scopes)} (error : CompileError)
    (stays : ∀ scopes result later, change scopes = some (result, later) → scopes.Stays later) :
    Confined changed base (Emitter.onScopes change error) := by
  intro before keeps
  simp only [Emitter.onScopes]
  split
  case h_1 changes => exact .of_stays (stays _ _ _ changes) keeps
  case h_2 => exact ⟨rfl, rfl, keeps⟩

theorem of_plain {action : EmitM α} (plain : Plain action) : Confined changed base action := by
  induction plain with
  | pure | throw | get => exact fun before keeps => ⟨rfl, rfl, keeps⟩
  | bind _ _ ihFirst ihRest => exact ihFirst.bind ihRest
  | ask question =>
      intro before keeps
      unfold Emitter.ask
      split <;> exact ⟨rfl, rfl, keeps⟩
  | onBuffer action =>
      intro before keeps
      rw [onBuffer_apply]
      split <;> exact ⟨rfl, rfl, keeps⟩
  | constant value => exact onImage (.constant value)
  | onScopes error stays => exact onScopes error stays

theorem enterBlock : Confined changed base
    (modify fun emitter => { emitter with scopes := emitter.scopes.enterBlock.2 } : EmitM Unit) :=
  fun _ keeps => ⟨rfl, rfl, keeps⟩

theorem exitBlock : Confined changed base
    (modify fun emitter => { emitter with scopes := emitter.scopes.exitBlock } : EmitM Unit) :=
  fun _ keeps => ⟨rfl, rfl, keeps⟩

theorem latch {action : EmitM α} (default : α) (inner : Confined changed base action) :
    Confined changed base (Emitter.latch default action) := by
  intro before keeps
  have spares := inner before keeps
  simp only [Emitter.latch]
  cases ran : action before with
  | ok | error =>
      rw [ran] at spares
      exact ⟨spares.id, spares.enclosing, spares.image⟩

theorem unlessFailed {action : EmitM Unit} (inner : Confined changed base action) :
    Confined changed base (Emitter.unlessFailed action) := by
  intro before keeps
  unfold Emitter.unlessFailed
  split
  · exact ⟨rfl, rfl, keeps⟩
  · exact inner before keeps

theorem declareFunction (definition : FnDef) :
    Confined changed base (declareFunction definition) := by
  have added : Confined changed base (Emitter.onImage
      (Image.addRoutine (.declare definition.name definition.signature))) :=
    onImage (.routine (.declare definition.name definition.signature))
  refine added.bind fun id =>
    (onScopes _ fun scopes result later changes => ?_).bind fun _ => of_plain (.pure id)
  obtain ⟨scopes, declared, same⟩ := Option.map_eq_some_iff.mp changes
  cases same
  exact Scopes.stays_of_declareFunction? declared

/-- A function that is declared gets a number that was free. -/
theorem size_le_of_declareFunction {definition : FnDef} {before after : Emitter} {id : UInt16}
    (keeps : base.Keeps changed before.image)
    (ran : Emitter.declareFunction definition before = .ok id after) :
    base.routines.size ≤ id.toNat := by
  obtain ⟨number, middle, added, rest⟩ := exists_of_bind_eq_ok ran
  obtain ⟨image, numbered, rfl⟩ := exists_of_onImage_eq_ok added
  obtain ⟨_, _, _, finished⟩ := exists_of_bind_eq_ok rest
  cases finished
  have outcome : Addition.Outcome before.image
      (.routine (.declare definition.name definition.signature)) (.ok id image) :=
    numbered ▸ Addition.outcome (.routine _) before.image
  cases outcome with
  | newRoutine room =>
      rw [UInt16.toNat_ofNat_of_lt' (Nat.lt_succ_of_le room)]
      exact keeps.size_le

theorem declareFunctions (definitions : List FnDef) :
    Confined changed base (definitions.mapM Emitter.declareFunction) := by
  induction definitions with
  | nil => exact of_plain (.pure [])
  | cons definition definitions ih =>
      rw [List.mapM_cons]
      exact (declareFunction definition).bind fun id => ih.bind fun ids => of_plain (.pure _)

theorem size_le_of_declareFunctions (definitions : List FnDef) {before after : Emitter}
    {ids : List UInt16} (keeps : base.Keeps changed before.image)
    (ran : definitions.mapM Emitter.declareFunction before = .ok ids after) :
    ∀ id ∈ ids, base.routines.size ≤ id.toNat := by
  induction definitions generalizing before ids with
  | nil =>
      cases ran
      exact fun id member => absurd member List.not_mem_nil
  | cons definition definitions ih =>
      rw [List.mapM_cons] at ran
      obtain ⟨first, middle, declared, ran⟩ := exists_of_bind_eq_ok ran
      obtain ⟨rest, last, declaredRest, finished⟩ := exists_of_bind_eq_ok ran
      cases finished
      have spares := declareFunction definition before keeps
      rw [declared] at spares
      intro id member
      rcases List.mem_cons.mp member with rfl | member
      · exact size_le_of_declareFunction keeps declared
      · exact ih spares.image declaredRest id member

theorem declareBlock (vars : List VarDecl) (functions : List FnDef) :
    Confined changed base (declareBlock vars functions) :=
  (of_plain (.forM .declareVar vars)).bind fun _ => declareFunctions functions

theorem size_le_of_declareBlock {vars : List VarDecl} {functions : List FnDef}
    {before after : Emitter} {ids : List UInt16} (keeps : base.Keeps changed before.image)
    (ran : Emitter.latch [] (Emitter.declareBlock vars functions) before = .ok ids after) :
    ∀ id ∈ ids, base.routines.size ≤ id.toNat := by
  unfold Emitter.latch at ran
  split at ran
  case h_1 declared =>
      cases ran
      obtain ⟨_, middle, declaredVars, declared⟩ := exists_of_bind_eq_ok declared
      have spares := of_plain (.forM .declareVar vars) before keeps
      rw [declaredVars] at spares
      exact size_le_of_declareFunctions functions spares.image declared
  case h_2 =>
      cases ran
      exact fun id member => absurd member List.not_mem_nil

theorem emitNativeCall (position : Position) (signature : Signature) (symbol : String) :
    Confined changed base (emitNativeCall options position signature symbol) := by
  unfold Emitter.emitNativeCall
  cases options.address? symbol with
  | none => exact of_plain (.throw _)
  | some address =>
      have interned : Confined changed base
          (Emitter.onImage (Image.internNative ⟨symbol, signature, address⟩)) :=
        onImage (.native ⟨symbol, signature, address⟩)
      exact interned.bind fun id => of_plain (.emitWithWord _ id)

theorem closeFunction_eq {before : Emitter} {outer : Context} {enclosing : List Context}
    (enclosed : before.scopes.enclosing = outer :: enclosing) :
    closeFunction before = .ok () (before.closed outer enclosing) ∨
      ∃ error, closeFunction before = .error error
        { before with
          scopes := { before.scopes with current := outer, enclosing := enclosing } } := by
  unfold closeFunction
  simp only [bind_apply, Emitter.onScopes, Scopes.pop?, enclosed, storeRoutine, Emitter.ask]
  cases storeFault? before.scopes.current before.image with
  | none => exact .inl rfl
  | some error => exact .inr ⟨error, rfl⟩

/-- The end of a nested function gives back the function around it as it was kept. -/
theorem closeFunction {before : Emitter} {outer : Context} {enclosing : List Context}
    (enclosed : before.scopes.enclosing = outer :: enclosing)
    (keeps : base.Keeps changed before.image)
    (free : changed before.scopes.current.id.toNat ∨
      base.routines.size ≤ before.scopes.current.id.toNat) :
    ∃ after, Emitter.latch () Emitter.closeFunction before = .ok () after ∧
      after.scopes.current = outer ∧ after.scopes.enclosing = enclosing ∧
      base.Keeps changed after.image ∧
      (after.fault = none → after = before.closed outer enclosing) := by
  unfold Emitter.latch
  obtain closed | ⟨error, failed⟩ := closeFunction_eq enclosed
  · rw [closed]
    exact ⟨_, rfl, rfl, rfl, keeps.modifyRoutine _ free, fun _ => rfl⟩
  · rw [failed]
    refine ⟨_, rfl, rfl, rfl, keeps, fun noFault => ?_⟩
    cases (Option.or_eq_none_iff.mp noFault).2

theorem emitFunction {id : UInt16} (returnType : Ty) {body : EmitM Unit} (total : Total body)
    (inner : Confined changed base body)
    (free : changed id.toNat ∨ base.routines.size ≤ id.toNat) (before : Emitter)
    (keeps : base.Keeps changed before.image) :
    ∃ after, emitFunction id returnType body before = .ok () after ∧
      after.scopes.current = before.scopes.current ∧
      after.scopes.enclosing = before.scopes.enclosing ∧ base.Keeps changed after.image ∧
      (after.fault = none → ∃ inner, body (before.pushed id returnType) = .ok () inner ∧
        after.image = inner.image.modifyRoutine id (Routine.finish inner.scopes.current)) := by
  unfold Emitter.emitFunction Emitter.unlessFailed
  split
  case isTrue faulty =>
      refine ⟨before, rfl, rfl, rfl, keeps, fun noFault => ?_⟩
      rw [noFault] at faulty
      cases faulty
  case isFalse =>
      obtain ⟨_, middle, ran⟩ := total (before.pushed id returnType)
      have spares := inner (before.pushed id returnType) keeps
      rw [ran] at spares
      have enclosed : middle.scopes.enclosing = before.scopes.current :: before.scopes.enclosing :=
        spares.enclosing
      have sameId : middle.scopes.current.id = id := spares.id
      obtain ⟨after, closes, current, enclosing, kept, finished⟩ :=
        closeFunction enclosed spares.image (sameId.symm ▸ free)
      refine ⟨after, ?_, current, enclosing, kept, fun noFault => ⟨middle, ran, ?_⟩⟩
      · change (body >>= fun _ => Emitter.latch () Emitter.closeFunction)
          (before.pushed id returnType) = _
        rw [bind_apply, ran]
        exact closes
      · rw [finished noFault, ← sameId]
        rfl

theorem composes (changed : Nat → Prop) (base : Image) :
    Composes fun {_} action => Confined changed base action :=
  ⟨of_plain, bind⟩

mutual

theorem emitStmt (options : Options) : (stmt : Stmt) → Confined changed base (emitStmt options stmt)
  | .store _ _ _ _ => of_plain (.emitAssignment _ _ _ _)
  | .ifElse cond thenBlock none =>
      (composes changed base).emitIf cond (emitBlock options thenBlock) (of_plain (.pure ()))
  | .ifElse cond thenBlock (some elseBlock) =>
      (composes changed base).emitIf cond (emitBlock options thenBlock)
        (emitBlock options elseBlock)
  | .whileDo cond body => (composes changed base).emitWhile cond (emitBlock options body)
  | .forRange _ _ _ _ body => (composes changed base).emitFor _ _ _ _ (emitBlock options body)
  | .print _ args => of_plain (.forM .emitPrint args)
  | .ret _ _ => of_plain (.emitReturn _ _)
  | .expr value => of_plain (.emitDiscarded value)
  | .block body => emitBlock options body

theorem emitStmts (options : Options) :
    (stmts : List Stmt) → Confined changed base (emitStmts options stmts)
  | [] => of_plain (.pure ())
  | stmt :: stmts =>
      (unlessFailed (latch () (emitStmt options stmt))).bind fun _ => emitStmts options stmts

theorem emitBlock (options : Options) :
    (block : Block) → Confined changed base (emitBlock options block)
  | ⟨vars, functions, stmts⟩ => by
      refine unlessFailed (enterBlock.bind fun _ => ?_)
      refine (latch [] (declareBlock vars functions)).bind_of_ran
        fun before ids after keeps declared => ?_
      -- The numbers of the functions are new, so that compiling them changes nothing older.
      have fresh := size_le_of_declareBlock keeps declared
      exact (emitFunctions options functions ids fun id member => .inr (fresh id member)).bind
        fun _ => (emitStmts options stmts).bind fun _ => exitBlock

theorem emitFunctions (options : Options) :
    (definitions : List FnDef) → (ids : List UInt16) →
      (∀ id ∈ ids, changed id.toNat ∨ base.routines.size ≤ id.toNat) →
      Confined changed base (emitFunctions options definitions ids)
  | definition :: definitions, id :: ids, free => by
      have rest := emitFunctions options definitions ids fun other member =>
        free other (List.mem_cons_of_mem id member)
      refine bind (fun before keeps => ?_) fun _ => rest
      obtain ⟨after, ran, current, enclosing, kept, -⟩ :=
        emitFunction definition.returnType (Total.emitBody options definition)
          (emitBody options definition) (free id List.mem_cons_self) before keeps
      rw [ran]
      exact ⟨congrArg Context.id current, enclosing, kept⟩
  | [], _, _ => of_plain (.pure ())
  | _ :: _, [], _ => of_plain (.pure ())

theorem emitBody (options : Options) :
    (definition : FnDef) → Confined changed base (emitBody options definition)
  | ⟨_, _, params, .block block, position⟩ =>
      (latch () (of_plain (.forM (.emitParam position) params))).bind fun _ =>
        (emitBlock options block).bind fun _ => unlessFailed (of_plain (.emit .ret))
  | ⟨_, _, _, .native _, _⟩ =>
      (latch () (emitNativeCall _ _ _)).bind fun _ => unlessFailed (of_plain (.emit .ret))

end

end Confined

/-- A function that is compiled inside another leaves its surroundings alone, whether it can be
compiled or not.  The functions around it are as they were.  Of what the image had, only the routine
of the function is changed, and if there is no error it gets the code that was written for it. -/
theorem surroundings_of_emitFunction (options : Options) (definition : FnDef) (id : UInt16)
    (emitter : Emitter) :
    ∃ after,
      emitFunction id definition.returnType (emitBody options definition) emitter = .ok () after ∧
      after.scopes.current = emitter.scopes.current ∧
      after.scopes.enclosing = emitter.scopes.enclosing ∧
      emitter.image.Keeps (· = id.toNat) after.image ∧
      (after.fault = none → ∃ inner,
        emitBody options definition (emitter.pushed id definition.returnType) = .ok () inner ∧
        after.image = inner.image.modifyRoutine id (Routine.finish inner.scopes.current)) := by
  have keeps : emitter.image.Keeps (· = id.toNat) emitter.image := .refl _ _
  refine Confined.emitFunction definition.returnType (Total.emitBody options definition)
    (Confined.emitBody options definition) (.inl ?_) emitter keeps
  rfl

end Emitter

end Backpatch
