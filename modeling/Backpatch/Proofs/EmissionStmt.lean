import Backpatch.Proofs.EmissionExpr

/-!
# What is written for statements

Every action that compiles a statement achieves code of the form that the layout asks for, and
leaves the state fit for the place behind the statement.  Blocks inside a statement come in as
actions of which the same is assumed.
-/

namespace Backpatch

/-- The definitions have become finished routines of the image. -/
def Image.Compiles (image : Image) (definitions : List Definition) : Prop :=
  ∀ definition ∈ definitions, ∃ routine, image.routine? definition.1.function = some routine ∧
    RoutineCode image definition routine

theorem Image.compiles_nil (image : Image) : image.Compiles [] :=
  fun _ member => absurd member List.not_mem_nil

theorem Image.Compiles.append {image : Image} {first second : List Definition}
    (firstCompiled : image.Compiles first) (secondCompiled : image.Compiles second) :
    image.Compiles (first ++ second) := by
  intro definition member
  rcases List.mem_append.mp member with inFirst | inSecond
  · exact firstCompiled definition inFirst
  · exact secondCompiled definition inSecond

namespace Emitter

variable {env : Env} {before : Emitter}

/-- The code of a part is written, the definitions in it are compiled, and the state is one for the
place behind the part. -/
def EmitsPart (env later : Env) (part : StmtPart) (definitions : List Definition)
    (before after : Emitter) : Prop :=
  Wrote later before after [] fun final code =>
    StmtCode final code env part before.buffer.size after.buffer.size ∧ final.Compiles definitions

/-- A statement without blocks defines nothing. -/
theorem EmitsPart.ofWrote {env later : Env} {part : StmtPart} {after : Emitter}
    (wrote : Wrote later before after [] fun final code =>
      StmtCode final code env part before.buffer.size after.buffer.size) :
    EmitsPart env later part [] before after :=
  wrote.imp fun final _ stmtCode => ⟨stmtCode, final.compiles_nil⟩

theorem achieves_emitLoad {slot : Slot} (ready : Ready env before) (isStorable : slot.ty.isStorable)
    (owns : before.Owns slot) :
    Achieves (emitLoad slot) before fun _ after =>
      Wrote env before after [] fun final code =>
        AccessAt final code env.function Op.load? slot before.buffer.size after.buffer.size :=
  achieves_access accesses_load ready isStorable owns

theorem achieves_emitStore {slot : Slot} (ready : Ready env before)
    (isStorable : slot.ty.isStorable) (owns : before.Owns slot) :
    Achieves (emitStore slot) before fun _ after =>
      Wrote env before after [] fun final code =>
        AccessAt final code env.function Op.store? slot before.buffer.size after.buffer.size :=
  achieves_access accesses_store ready isStorable owns

theorem achieves_emitAssignment {position : Position} {name : String} {op : StoreOp} {value : Expr}
    (ready : Ready env before) :
    Achieves (emitAssignment position name op value) before fun _ after =>
      EmitsPart env env (.stmt (.store position name op value)) [] before after := by
  unfold emitAssignment
  refine achieves_resolveVar ready fun slot resolved => ?_
  obtain ⟨isStorable, owns⟩ := ready.storable name slot resolved
  cases op with
  | assign =>
      refine (achieves_emitAs value slot.ty ready).bind fun _ valueDone valueWrote => ?_
      refine (achieves_emitStore valueWrote.ready isStorable
        (owns.of_extends valueWrote.extension)).imp fun _ after storeWrote => ?_
      refine .ofWrote ((valueWrote.trans storeWrote).imp ?_)
      exact fun final code ⟨valueCode, store⟩ => .assign resolved valueCode store
  | increase | decrease =>
      dsimp only [StoreOp.update?]
      split
      case h_1 => exact .throw rfl
      case h_2 instr member =>
          refine (achieves_emitLoad ready isStorable owns).bind fun _ loaded loadWrote => ?_
          refine (achieves_emitAs value slot.ty loadWrote.ready).bind
            fun _ valueDone valueWrote => ?_
          refine (achieves_emit valueWrote.ready (width_of_instr member)).bind ?_
          rintro _ computed ⟨size, instrWrote⟩
          have extension := (loadWrote.extension.trans valueWrote.extension).trans
            instrWrote.extension
          refine (achieves_emitStore instrWrote.ready isStorable (owns.of_extends extension)).imp
            fun _ after storeWrote => ?_
          refine .ofWrote
            ((((loadWrote.trans valueWrote).trans instrWrote).trans storeWrote).imp ?_)
          rintro final code ⟨⟨⟨load, valueCode⟩, instrAt⟩, store⟩
          rw [size] at store
          exact .update resolved rfl member load valueCode instrAt store

theorem width_of_print {ty : Ty} {op : Op} (member : Op.print? ty = some op) : op.width = 0 := by
  cases ty <;> cases member <;> rfl

theorem achieves_emitPrint {arg : Expr} (ready : Ready env before) :
    Achieves (emitPrint arg) before fun _ after =>
      Wrote env before after [] fun final code =>
        ∃ ty op stop, ExprCode final code env.toNames (.operand arg ty) before.buffer.size stop ∧
          Op.print? ty = some op ∧ PlainAt code stop op ∧ after.buffer.size = stop + 1 := by
  unfold emitPrint
  refine (achieves_emitExpr arg ready).bind fun compiled middle emits => ?_
  refine (achieves_materializeValue ready emits.wrote).bind ?_
  rintro ty valueDone ⟨-, valueWrote⟩
  cases member : Op.print? ty with
  | none => exact .throw rfl
  | some op =>
      refine (achieves_emit valueWrote.ready (width_of_print member)).imp ?_
      rintro _ after ⟨size, wrote⟩
      exact (valueWrote.trans wrote).imp fun final code ⟨value, instr⟩ =>
        ⟨ty, op, _, value, member, instr, size⟩

theorem achieves_emitPrints (args : List Expr) (ready : Ready env before) :
    Achieves (args.forM emitPrint) before fun _ after =>
      Wrote env before after [] fun final code =>
        StmtCode final code env (.prints args) before.buffer.size after.buffer.size := by
  induction args generalizing before with
  | nil => exact .pure ((Wrote.refl ready).imp fun _ _ _ => .noPrints)
  | cons arg args ih =>
      refine (achieves_emitPrint ready).bind fun _ middle wrote => ?_
      refine (ih wrote.ready).imp fun _ after restWrote => ?_
      refine (wrote.trans restWrote).imp ?_
      rintro final code ⟨⟨ty, op, stop, value, member, instr, size⟩, rest⟩
      rw [size] at rest
      exact .prints value member instr rest

theorem achieves_emitReturn {value : Option Expr} {position : Position} (ready : Ready env before) :
    Achieves (emitReturn value position) before fun _ after =>
      EmitsPart env env (.stmt (.ret position value)) [] before after := by
  unfold emitReturn
  refine .get ?_
  rw [ready.returnType]
  cases value with
  | none =>
      dsimp only
      split
      case isTrue void =>
          refine (achieves_emit ready rfl).imp ?_
          rintro _ after ⟨size, wrote⟩
          refine .ofWrote (wrote.imp fun final code instr => ?_)
          rw [size]
          exact .returnVoid void instr
      case isFalse => exact .throw rfl
  | some value =>
      dsimp only
      split
      case isTrue => exact .throw rfl
      case isFalse notVoid =>
          refine (achieves_emitAs value env.returnType ready).bind
            fun _ valueDone valueWrote => ?_
          refine (achieves_emit valueWrote.ready rfl).imp ?_
          rintro _ after ⟨size, wrote⟩
          refine .ofWrote ((valueWrote.trans wrote).imp fun final code ⟨valueCode, instr⟩ => ?_)
          rw [size]
          exact .returnValue notVoid valueCode instr

theorem achieves_emitDiscarded {value : Expr} (ready : Ready env before) :
    Achieves (emitDiscarded value) before fun _ after =>
      EmitsPart env env (.stmt (.expr value)) [] before after := by
  unfold emitDiscarded
  refine (achieves_emitExpr value ready).bind fun compiled middle emits => ?_
  have wrote := emits.wrote
  cases compiled with
  | branch pending =>
      refine .offset ((achieves_resolve ready wrote).imp fun _ after resolved => ?_)
      exact .ofWrote (resolved.imp fun final code branch => .dropBranch branch)
  | value ty =>
      by_cases void : ty = .void
      · subst void
        exact .pure (.ofWrote (wrote.imp fun final code valueCode => .callVoid valueCode))
      · have dropped : Achieves (emit .pop) middle fun _ after =>
            EmitsPart env env (.stmt (.expr value)) [] before after := by
          refine (achieves_emit wrote.ready rfl).imp ?_
          rintro _ after ⟨size, popWrote⟩
          refine .ofWrote ((wrote.trans popWrote).imp fun final code ⟨valueCode, instr⟩ => ?_)
          rw [size]
          exact .dropValue void valueCode instr
        cases ty with
        | void => exact absurd rfl void
        | logic | int | double | string | invalid => exact dropped

/-- The state after the next slot of a type has been taken, with new names in the current
function. -/
def allocated (emitter : Emitter) (ty : Ty) (params : NameMap Slot) (blocks : List BlockScope) :
    Emitter :=
  let context := emitter.scopes.current
  let frame := context.frame.setCount (context.frame.count ty + 1) ty
  { emitter with
    scopes :=
      { emitter.scopes with
        current := { context with frame := frame, params := params, blocks := blocks } } }

section Allocation

variable {ty : Ty} {slot : Slot} {context : Context} {params : NameMap Slot}
  {blocks : List BlockScope}

/-- Taking a slot gives the next one of the environment. -/
theorem Ready.allocate?_eq_some (ready : Ready env before)
    (allocates : before.scopes.current.allocate? ty = some (slot, context)) :
    ty.isStorable ∧ env.taken.count ty < 65535 ∧ slot = env.next ty ∧
      context = (before.allocated ty before.scopes.current.params
        before.scopes.current.blocks).scopes.current := by
  unfold Context.allocate? Frame.allocate? at allocates
  dsimp only at allocates
  split at allocates
  case isFalse => cases allocates
  case isTrue room =>
      cases allocates
      have count := ready.frame ty room.1
      refine ⟨room.1, count ▸ room.2, ?_, rfl⟩
      rw [Env.next, ready.function, ← count, UInt16.ofNat_toNat]

theorem Ready.count_allocated (ready : Ready env before) (isStorable : ty.isStorable)
    (room : env.taken.count ty < 65535) (other : Ty) :
    ((before.allocated ty params blocks).scopes.current.frame.count other).toNat =
      (before.scopes.current.frame.count other).toNat + if other = ty then 1 else 0 := by
  have count := ready.frame ty isStorable
  have allocates : (before.allocated ty params blocks).scopes.current.frame.count other =
      if other = ty then before.scopes.current.frame.count ty + 1
      else before.scopes.current.frame.count other :=
    Frame.count_setCount isStorable _ _
  rw [allocates]
  split
  case isFalse => rfl
  case isTrue same =>
      have one : (1 : UInt16).toNat = 1 := rfl
      rw [same, UInt16.toNat_add, one]
      exact Nat.mod_eq_of_lt (by omega)

theorem Extends.allocated (ready : Ready env before) (isStorable : ty.isStorable)
    (room : env.taken.count ty < 65535)
    (noBlocks : blocks = [] ↔ before.scopes.current.blocks = [])
    (names : before.scopes.current.blocks ≠ [] →
      blocks.tail = before.scopes.current.blocks.tail ∧ params = before.scopes.current.params) :
    Extends [] before (before.allocated ty params blocks) := by
  refine { Extends.refl before with frame := fun other => ?_, noBlocks := noBlocks, names := names }
  rw [UInt16.le_iff_toNat_le, ready.count_allocated isStorable room]
  exact Nat.le_add_right _ _

theorem Ready.owns_allocated (ready : Ready env before) (isStorable : ty.isStorable)
    (room : env.taken.count ty < 65535) (owned : before.Owns slot ∨ slot = env.next ty) :
    (before.allocated ty params blocks).Owns slot := by
  have counts : ∀ other,
      ((before.allocated ty params blocks).scopes.current.frame.count other).toNat = _ :=
    ready.count_allocated isStorable room
  rcases owned with ⟨context, member, sameId, bound⟩ | rfl
  · rcases List.mem_cons.mp member with rfl | outer
    · refine ⟨_, List.mem_cons_self, sameId, ?_⟩
      rw [UInt16.lt_iff_toNat_lt] at bound ⊢
      rw [counts]
      omega
    · exact ⟨context, List.mem_cons_of_mem _ outer, sameId, bound⟩
  · refine ⟨_, List.mem_cons_self, ready.function, ?_⟩
    rw [UInt16.lt_iff_toNat_lt]
    dsimp only [Env.next]
    rw [counts, if_pos rfl, ready.frame ty isStorable, UInt16.toNat_ofNat',
      Nat.mod_eq_of_lt (by omega)]
    omega

theorem Ready.allocated {var : String → Option Slot} (ready : Ready env before)
    (isStorable : ty.isStorable) (room : env.taken.count ty < 65535)
    (resolves : ∀ name,
      (before.allocated ty params blocks).scopes.resolve? name .outward = var name)
    (fresh : ∀ name found, var name = some found → env.var name = some found ∨ found = env.next ty)
    (functions : ∀ name,
      (before.allocated ty params blocks).scopes.function? name = before.scopes.function? name) :
    Ready { env with var := var, taken := env.taken ++ [ty] }
      (before.allocated ty params blocks) := by
  have sameFunction : ∀ name,
      resolveFunction? (before.allocated ty params blocks).scopes
          (before.allocated ty params blocks).image name =
        resolveFunction? before.scopes before.image name := by
    intro name
    rw [resolveFunction?, functions]
    rfl
  refine
    { ready with
      var := resolves
      callee := fun name => ?_
      registered := fun name id found => ready.registered name id (sameFunction name ▸ found)
      storable := fun name found known => ?_
      frame := fun other otherStorable => ?_
      contexts := fun context member => ?_ }
  · refine Eq.trans ?_ (ready.callee name)
    unfold callee?
    rw [sameFunction]
    rfl
  · rcases fresh name found known with old | rfl
    · obtain ⟨oldStorable, owns⟩ := ready.storable name found old
      exact ⟨oldStorable, ready.owns_allocated isStorable room (.inl owns)⟩
    · exact ⟨isStorable, ready.owns_allocated isStorable room (.inr rfl)⟩
  · rcases List.mem_cons.mp member with rfl | outer
    · exact ready.contexts before.scopes.current List.mem_cons_self
    · exact ready.contexts context (List.mem_cons_of_mem _ outer)
  · rw [ready.count_allocated isStorable room, ready.frame other otherStorable, List.count_append,
      List.count_singleton]
    by_cases same : other = ty
    · simp [same]
    · simp [same, Ne.symm same]

end Allocation

theorem achieves_emitIf {cond : Expr} {thenBlock : Block} {elseBlock : Option Block} {later : Env}
    {elseDefinitions : List Definition} {thenAction elseAction : EmitM Unit}
    (thenEmits : ∀ middle, Ready env middle → Achieves thenAction middle fun _ after =>
      EmitsPart env (thenBlock.pass env) (.block thenBlock) (thenBlock.definitions env) middle
        after)
    (elseEmits : ∀ middle, Ready (thenBlock.pass env) middle →
      Achieves elseAction middle fun _ after =>
        EmitsPart (thenBlock.pass env) later (.otherwise elseBlock) elseDefinitions middle after)
    (sameNames : later.toNames = env.toNames) (ready : Ready env before) :
    Achieves (emitIf cond thenAction elseAction) before fun _ after =>
      EmitsPart env later (.stmt (.ifElse cond thenBlock elseBlock))
        (thenBlock.definitions env ++ elseDefinitions) before after := by
  unfold emitIf
  refine (achieves_emitJump ready).bind ?_
  rintro toCond thenStart ⟨thenStartSize, toCondWrote⟩
  refine .offset ((thenEmits thenStart toCondWrote.ready).bind fun _ thenStop thenWrote => ?_)
  refine (achieves_emitJump thenWrote.ready).bind ?_
  rintro thenExit elseStart ⟨elseStartSize, thenExitWrote⟩
  refine .offset ((elseEmits elseStart thenExitWrote.ready).bind fun _ elseStop elseWrote => ?_)
  refine (achieves_emitJump elseWrote.ready).bind ?_
  rintro elseExit condStart ⟨condStartSize, elseExitWrote⟩
  -- The condition stands behind both blocks, and the jump at the start leads to it.
  have blocksWrote := (((toCondWrote.trans thenWrote).trans thenExitWrote).trans elseWrote).trans
    elseExitWrote
  refine .offset ((achieves_patch [thenExit.hole, elseExit.hole] ready blocksWrote
    (.refl _) (Nat.le_refl _)).bind ?_)
  rintro _ condReady ⟨condReadySize, condReadyWrote⟩
  refine (achieves_emitCondition cond condReadyWrote.ready).bind
    fun pending condStop condWrote => ?_
  have thenLe := thenWrote.size_le
  have elseLe := elseWrote.size_le
  have condLe := condWrote.size_le
  refine (achieves_patch
    ([thenExit.hole, elseExit.hole] ++ pending.falseSites.map Site.hole) ready
    (condReadyWrote.trans condWrote) (by simp only [PendingBranch.holes, List.map_append]; grind)
    (by omega)).bind ?_
  rintro _ trueDone ⟨trueSize, trueWrote⟩
  refine (achieves_patch [thenExit.hole, elseExit.hole] ready trueWrote
    List.perm_append_comm (by omega)).bind ?_
  rintro _ falseDone ⟨falseSize, falseWrote⟩
  refine .offset ((achieves_patch [] ready falseWrote (.refl _) (Nat.le_refl _)).imp ?_)
  rintro _ after ⟨size, wrote⟩
  refine wrote.imp ?_
  rintro final code ⟨⟨⟨⟨⟨⟨⟨⟨⟨toCondJump, ⟨thenCode, thenCompiled⟩⟩, thenJump⟩,
    ⟨elseCode, elseCompiled⟩⟩, elseJump⟩, toCondTarget⟩, decides⟩, trueTargets⟩,
    falseTargets⟩, exitTargets⟩
  refine ⟨?_, thenCompiled.append elseCompiled⟩
  have condCode := decides _ _ trueTargets falseTargets
  have toCondAt := toCondJump _ (toCondTarget toCond List.mem_cons_self)
  have thenAt := thenJump _ (exitTargets thenExit List.mem_cons_self)
  have elseAt := elseJump _ (exitTargets elseExit (List.mem_cons_of_mem _ List.mem_cons_self))
  rw [sameNames] at condCode
  simp only [condReadySize, thenStartSize, elseStartSize, condStartSize, falseSize, trueSize]
    at toCondAt thenCode thenAt elseCode elseAt condCode
  rw [size, falseSize, trueSize]
  exact .ifElse toCondAt thenCode thenAt elseCode elseAt condCode

theorem achieves_emitWhile {cond : Expr} {body : Block} {action : EmitM Unit}
    (emits : ∀ middle, Ready env middle → Achieves action middle fun _ after =>
      EmitsPart env (body.pass env) (.block body) (body.definitions env) middle after)
    (ready : Ready env before) :
    Achieves (emitWhile cond action) before fun _ after =>
      EmitsPart env (body.pass env) (.stmt (.whileDo cond body)) (body.definitions env) before
        after := by
  unfold emitWhile
  refine .offset ((achieves_emitCondition cond ready).bind fun pending bodyStart condWrote => ?_)
  refine .offset ((emits bodyStart condWrote.ready).bind fun _ bodyStop bodyWrote => ?_)
  have condLe := condWrote.size_le
  have bodyLe := bodyWrote.size_le
  refine (achieves_emitJumpTo bodyWrote.ready (by omega)).bind ?_
  rintro _ exit ⟨exitSize, jumpWrote⟩
  refine .offset ((achieves_patch (pending.falseSites.map Site.hole) ready
    ((condWrote.trans bodyWrote).trans jumpWrote) (by simp [PendingBranch.holes]) (by omega)).bind
    ?_)
  rintro _ trueDone ⟨trueSize, trueWrote⟩
  refine (achieves_patch [] ready trueWrote (by simp) (by omega)).imp ?_
  rintro _ after ⟨size, wrote⟩
  refine wrote.imp ?_
  rintro final code ⟨⟨⟨⟨decides, ⟨bodyCode, compiled⟩⟩, again⟩, trueTargets⟩, falseTargets⟩
  have condCode := decides _ _ trueTargets falseTargets
  rw [exitSize] at condCode
  rw [size, trueSize, exitSize]
  exact ⟨.whileDo condCode bodyCode again, compiled⟩

theorem achieves_allocateHidden {name : String} {slot : Slot} {error : CompileError}
    (ready : Ready env before) (resolved : env.var name = some slot)
    (aboutProgram : error.isInternal = false) :
    Achieves (onScopes (·.allocateHidden? slot.ty) error) before fun bound after =>
      env.taken.count slot.ty < 65535 ∧ bound = env.next slot.ty ∧ after.buffer = before.buffer ∧
        after.Owns (env.next slot.ty) ∧ Wrote (env.hide name) before after [] fun _ _ => True := by
  refine .onScopes (fun bound scopes allocates => ?_) aboutProgram
  simp only [Scopes.allocateHidden?, Option.bind_eq_bind, Option.bind_eq_some_iff] at allocates
  obtain ⟨⟨_, context⟩, allocates, same⟩ := allocates
  cases same
  obtain ⟨isStorable, room, rfl, rfl⟩ := ready.allocate?_eq_some allocates
  refine ⟨room, rfl, rfl, ready.owns_allocated isStorable room (.inr rfl), ?_, ?_, ?_⟩
  · rw [Env.hide, resolved]
    exact ready.allocated isStorable room ready.var (fun _ _ => .inl) fun _ => rfl
  · exact .allocated ready isStorable room .rfl fun _ => ⟨rfl, rfl⟩
  · exact (Buffer.Writes.refl _).imp fun _ _ _ _ => trivial

section Loop

variable {name : String} {slot bound : Slot} {numeric : Numeric} {β : Type}
  {post : β → Emitter → Prop}

theorem achieves_loadVar (ready : Ready env before) (resolved : env.var name = some slot) :
    Achieves (emitLoad slot) before fun _ after =>
      Wrote env before after [] fun final code =>
        AccessAt final code env.function Op.load? slot before.buffer.size after.buffer.size :=
  achieves_emitLoad ready (ready.storable name slot resolved).1
    (ready.storable name slot resolved).2

theorem achieves_storeVar (ready : Ready env before) (resolved : env.var name = some slot) :
    Achieves (emitStore slot) before fun _ after =>
      Wrote env before after [] fun final code =>
        AccessAt final code env.function Op.store? slot before.buffer.size after.buffer.size :=
  achieves_emitStore ready (ready.storable name slot resolved).1
    (ready.storable name slot resolved).2

/-- The beginning of a loop over a range: both bounds are evaluated and stored. -/
theorem achieves_forInit {low high : Expr} {next : EmitM β} (ready : Ready env before)
    (resolved : env.var name = some slot) (boundTy : bound.ty = slot.ty)
    (boundOwns : before.Owns bound)
    (rest : ∀ after,
      (Wrote env before after [] fun final code => ∃ lowStop lowStored highStop,
        ExprCode final code env.toNames (.converted low slot.ty) before.buffer.size lowStop ∧
        AccessAt final code env.function Op.store? slot lowStop lowStored ∧
        ExprCode final code env.toNames (.converted high slot.ty) lowStored highStop ∧
        AccessAt final code env.function Op.store? bound highStop after.buffer.size) →
      Achieves next after post) :
    Achieves
      (do emitAs low slot.ty; emitStore slot; emitAs high slot.ty; emitStore bound; next)
      before post := by
  refine (achieves_emitAs low slot.ty ready).bind fun _ _ lowWrote => ?_
  refine (achieves_storeVar lowWrote.ready resolved).bind fun _ _ storeWrote => ?_
  refine (achieves_emitAs high slot.ty storeWrote.ready).bind fun _ _ highWrote => ?_
  have wrote := (lowWrote.trans storeWrote).trans highWrote
  have boundStorable : bound.ty.isStorable := boundTy ▸ (ready.storable name slot resolved).1
  refine (achieves_emitStore wrote.ready boundStorable (boundOwns.of_extends wrote.extension)).bind
    fun _ after boundWrote => rest after ((wrote.trans boundWrote).imp ?_)
  rintro final code ⟨⟨⟨lowCode, storeLow⟩, highCode⟩, storeBound⟩
  exact ⟨_, _, _, lowCode, storeLow, highCode, storeBound⟩

theorem achieves_forTest {next : PendingBranch → EmitM β} (ready : Ready env before)
    (resolved : env.var name = some slot) (boundTy : bound.ty = slot.ty)
    (boundOwns : before.Owns bound)
    (rest : ∀ pending after,
      (Wrote env before after pending.holes fun final code => ∃ slotLoaded boundLoaded,
        AccessAt final code env.function Op.load? slot before.buffer.size slotLoaded ∧
        AccessAt final code env.function Op.load? bound slotLoaded boundLoaded ∧
        PlainAt code boundLoaded numeric.compareOp ∧ PlainAt code (boundLoaded + 1) .iLoad0 ∧
        (∀ onTrue onFalse, (∀ site ∈ pending.trueSites, TargetAt code site onTrue) →
          (∀ site ∈ pending.falseSites, TargetAt code site onFalse) →
          BranchAt code (boundLoaded + 2) .ifICmpLe onTrue onFalse) ∧
        after.buffer.size = boundLoaded + 7) →
      Achieves (next pending) after post) :
    Achieves
      (do
        emitLoad slot
        emitLoad bound
        emit numeric.compareOp
        emit .iLoad0
        next (← emitBranch .ifICmpLe))
      before post := by
  refine (achieves_loadVar ready resolved).bind fun _ _ slotWrote => ?_
  have boundStorable : bound.ty.isStorable := boundTy ▸ (ready.storable name slot resolved).1
  refine (achieves_emitLoad slotWrote.ready boundStorable
    (boundOwns.of_extends slotWrote.extension)).bind fun _ _ boundWrote => ?_
  refine (achieves_emit boundWrote.ready (by cases numeric <;> rfl)).bind ?_
  rintro _ compared ⟨comparedSize, compareWrote⟩
  refine (achieves_emit compareWrote.ready rfl).bind ?_
  rintro _ zeroDone ⟨zeroSize, zeroWrote⟩
  refine (achieves_emitBranch zeroWrote.ready rfl).bind ?_
  rintro pending after ⟨size, branchWrote⟩
  refine rest pending after (((((slotWrote.trans boundWrote).trans compareWrote).trans
    zeroWrote).trans branchWrote).imp ?_)
  rintro final code ⟨⟨⟨⟨loadSlot, loadBound⟩, compare⟩, zero⟩, branch⟩
  rw [comparedSize] at zero
  rw [zeroSize, comparedSize] at branch
  exact ⟨_, _, loadSlot, loadBound, compare, zero, branch, by omega⟩

/-- The end of a loop over a range: one is added, and the loop goes on. -/
theorem achieves_forStep {head : Nat} {next : EmitM β} (ready : Ready env before)
    (resolved : env.var name = some slot) (reached : head ≤ before.buffer.size)
    (rest : ∀ after,
      (Wrote env before after [] fun final code => ∃ reloaded back,
        AccessAt final code env.function Op.load? slot before.buffer.size reloaded ∧
        PlainAt code reloaded numeric.oneOp ∧ PlainAt code (reloaded + 1) numeric.addOp ∧
        AccessAt final code env.function Op.store? slot (reloaded + 2) back ∧
        JumpAt code back head ∧ after.buffer.size = back + 3) →
      Achieves next after post) :
    Achieves
      (do
        emitLoad slot
        emit numeric.oneOp
        emit numeric.addOp
        emitStore slot
        emitJumpTo head
        next)
      before post := by
  refine (achieves_loadVar ready resolved).bind fun _ _ loadWrote => ?_
  refine (achieves_emit loadWrote.ready (by cases numeric <;> rfl)).bind ?_
  rintro _ oneDone ⟨oneSize, oneWrote⟩
  refine (achieves_emit oneWrote.ready (by cases numeric <;> rfl)).bind ?_
  rintro _ addDone ⟨addSize, addWrote⟩
  refine (achieves_storeVar addWrote.ready resolved).bind fun _ _ storeWrote => ?_
  have wrote := ((loadWrote.trans oneWrote).trans addWrote).trans storeWrote
  refine (achieves_emitJumpTo wrote.ready (Nat.le_trans reached wrote.size_le)).bind ?_
  rintro _ after ⟨size, jumpWrote⟩
  refine rest after ((wrote.trans jumpWrote).imp ?_)
  rintro final code ⟨⟨⟨⟨load, one⟩, add⟩, store⟩, jump⟩
  rw [oneSize] at add
  rw [addSize, oneSize] at store
  exact ⟨_, _, load, one, add, store, jump, size⟩

theorem achieves_emitFor {position : Position} {low high : Expr} {body : Block}
    {action : EmitM Unit}
    (emits : ∀ middle, Ready (env.hide name) middle → Achieves action middle fun _ after =>
      EmitsPart (env.hide name) (body.pass (env.hide name)) (.block body)
        (body.definitions (env.hide name)) middle after)
    (ready : Ready env before) :
    Achieves (emitFor position name low high action) before fun _ after =>
      EmitsPart env (body.pass (env.hide name)) (.stmt (.forRange position name low high body))
        (body.definitions (env.hide name)) before after := by
  unfold emitFor
  refine achieves_resolveVar ready fun slot resolved => ?_
  cases number : Numeric.ofTy? slot.ty with
  | none => exact .throw rfl
  | some numeric =>
      refine (achieves_allocateHidden ready resolved ?_).bind ?_
      · unfold storageError
        split <;> rfl
      rintro _ hidden ⟨available, rfl, sameBuffer, boundOwns, hiddenWrote⟩
      have names : (env.hide name).toNames = env.toNames := env.toNames_hide name
      have bodyNames : (body.pass (env.hide name)).toNames = env.toNames :=
        (body.toNames_pass _).trans names
      have resolvedIn : ∀ {inner : Env}, inner.toNames = env.toNames → inner.var name = some slot :=
        fun same => (congrArg (Names.var · name) same).trans resolved
      refine achieves_forInit hiddenWrote.ready (resolvedIn names) rfl boundOwns
        fun head initWrote => .offset ?_
      refine achieves_forTest initWrote.ready (resolvedIn names) rfl
        (boundOwns.of_extends initWrote.extension) fun pending bodyStart testWrote => .offset ?_
      refine (emits bodyStart testWrote.ready).bind fun _ bodyStop bodyWrote => ?_
      have testLe := testWrote.size_le
      have bodyLe := bodyWrote.size_le
      refine achieves_forStep bodyWrote.ready (resolvedIn bodyNames) (by omega)
        fun exit stepWrote => .offset ?_
      have stepLe := stepWrote.size_le
      refine (achieves_patch (pending.falseSites.map Site.hole) ready
        ((((hiddenWrote.trans initWrote).trans testWrote).trans bodyWrote).trans stepWrote)
        (by simp [PendingBranch.holes]) (by omega)).bind ?_
      rintro _ trueDone ⟨trueSize, trueWrote⟩
      refine (achieves_patch [] ready trueWrote (by simp) (by omega)).imp ?_
      rintro _ after ⟨size, wrote⟩
      refine wrote.imp ?_
      rintro final code ⟨⟨⟨⟨⟨⟨-, init⟩, test⟩, ⟨bodyCode, compiled⟩⟩, step⟩, trueTargets⟩,
        falseTargets⟩
      -- All sites are closed; the offsets still have to be those that the rule names.
      obtain ⟨lowStop, lowStored, highStop, lowCode, storeLow, highCode, storeBound⟩ := init
      obtain ⟨slotLoaded, boundLoaded, loadSlot, loadBound, compare, zero, branch, bodyStartSize⟩ :=
        test
      obtain ⟨reloaded, back, reload, one, add, storeNext, again, exitSize⟩ := step
      have branchAt := branch _ _ trueTargets falseTargets
      rw [names] at lowCode storeLow highCode storeBound loadSlot loadBound
      rw [bodyNames] at reload storeNext
      rw [bodyStartSize] at bodyCode branchAt
      rw [exitSize] at branchAt
      rw [sameBuffer] at lowCode
      rw [size, trueSize, exitSize]
      exact ⟨.forRange resolved number available lowCode storeLow highCode storeBound loadSlot
        loadBound compare zero branchAt bodyCode reload one add storeNext again, compiled⟩

end Loop

end Emitter

end Backpatch
