import Backpatch.Proofs.FirstError
import Backpatch.Proofs.Holes

/-!
# What the actions of the compiler achieve

The invariant of a compilation and the effect of its small actions.  A state fits an environment if
names mean in it what the environment says.  A state extends another one if what has been numbered
stays as it is.  An action *achieves* a condition if it either ends in a state with the condition,
or fails with an error that is about the program or about a capacity that is used up.

Code is written before everything it refers to is finished: the frame of a function is still growing
while its slots are used, and a routine is called before its code is there.  So what an action has
written is described in terms of any image to which the compilation may lead.
-/

namespace Backpatch

section Tables

variable {α : Type}

theorem getElem?_push_of_eq_some {items : Array α} {item found : α} {index : Nat}
    (lookup : items[index]? = some found) : (items.push item)[index]? = some found := by
  obtain ⟨inside, -⟩ := Array.getElem?_eq_some_iff.mp lookup
  rw [Array.getElem?_push, if_neg (Nat.ne_of_lt inside), lookup]

theorem toNat_ofNat_size {items : Array α} (room : ¬ items.size > Image.maxId) :
    (UInt16.ofNat items.size).toNat = items.size := by
  rw [UInt16.toNat_ofNat']
  exact Nat.mod_eq_of_lt (by unfold Image.maxId at room; omega)

theorem NameMap.getElem?_insert (map : NameMap α) (name other : String) (value : α) :
    (map.insert name value)[other]? = if name = other then some value else map[other]? := by
  rw [Std.ExtTreeMap.getElem?_insert]
  simp only [Std.LawfulEqCmp.compare_eq_iff_eq]

end Tables

namespace Emitter

variable {α β : Type}

/-- A capacity is used up, and the error says which one. -/
inductive Exhausted (emitter : Emitter) : CompileError → Prop
  | code {size : Nat} (far : Buffer.maxTarget < size) (written : size ≤ emitter.buffer.size) :
      Exhausted emitter (.internal (.codeTooLarge size))
  | functions (full : emitter.image.routines.size = 65536) :
      Exhausted emitter (.internal .tooManyFunctions)
  | constants (full : emitter.image.constants.size = 65536) :
      Exhausted emitter (.internal .tooManyConstants)

/-- The action ends in the given condition, or fails for a reason that is not its own fault. -/
def Achieves (action : EmitM α) (emitter : Emitter) (post : α → Emitter → Prop) : Prop :=
  match action emitter with
  | .ok result after => post result after
  | .error error after => error.isInternal = true → after.Exhausted error

namespace Achieves

variable {action : EmitM α} {next : α → EmitM β} {emitter : Emitter}
  {post : α → Emitter → Prop} {finalPost : β → Emitter → Prop}

theorem bind (first : Achieves action emitter post)
    (rest : ∀ result after, post result after → Achieves (next result) after finalPost) :
    Achieves (action >>= next) emitter finalPost := by
  unfold Achieves at first ⊢
  rw [bind_apply]
  cases run : action emitter with
  | ok result after =>
      rw [run] at first
      exact rest result after first
  | error error after =>
      rw [run] at first
      exact first

theorem imp {weaker : α → Emitter → Prop} (achieves : Achieves action emitter post)
    (weaken : ∀ result after, post result after → weaker result after) :
    Achieves action emitter weaker := by
  unfold Achieves at achieves ⊢
  cases run : action emitter with
  | ok result after =>
      rw [run] at achieves
      exact weaken result after achieves
  | error error after =>
      rw [run] at achieves
      exact achieves

theorem pure {result : α} (holds : post result emitter) :
    Achieves (pure result) emitter post :=
  holds

/-- An error about the program is never held against the compiler. -/
theorem throw {error : CompileError} (aboutProgram : error.isInternal = false) :
    Achieves (throw error : EmitM α) emitter post :=
  fun isInternal => absurd isInternal (by simp [aboutProgram])

theorem get {next : Emitter → EmitM β} (rest : Achieves (next emitter) emitter finalPost) :
    Achieves (MonadState.get >>= next) emitter finalPost :=
  rest

theorem offset {next : Nat → EmitM β}
    (rest : Achieves (next emitter.buffer.size) emitter finalPost) :
    Achieves (Emitter.offset >>= next) emitter finalPost :=
  rest

theorem modify {change : Emitter → Emitter} {next : EmitM β}
    (rest : Achieves next (change emitter) finalPost) :
    Achieves (do modify change; next) emitter finalPost :=
  rest

theorem onScopes {change : Scopes → Option (α × Scopes)} {error : CompileError}
    (changed : ∀ result scopes, change emitter.scopes = some (result, scopes) →
      post result { emitter with scopes := scopes })
    (aboutProgram : error.isInternal = false) :
    Achieves (Emitter.onScopes change error) emitter post := by
  unfold Achieves Emitter.onScopes
  dsimp only
  cases run : change emitter.scopes with
  | none => exact fun isInternal => absurd isInternal (by simp [aboutProgram])
  | some outcome => exact changed outcome.1 outcome.2 run

end Achieves

end Emitter

/-- The open functions, innermost first. -/
def Scopes.contexts (scopes : Scopes) : List Context :=
  scopes.current :: scopes.enclosing

/-- The holes of a condition that still has to be led somewhere. -/
def PendingBranch.holes (pending : PendingBranch) : List Hole :=
  (pending.trueSites ++ pending.falseSites).map Site.hole

/-- The tables of an image are not overfull, their indexes are right, and the routine with which the
program starts is there. -/
structure Image.Sound (image : Image) : Prop where
  routines_le : image.routines.size ≤ 65536
  constants_le : image.constants.size ≤ 65536
  natives_le : image.natives.size ≤ image.routines.size
  constantIds : ∀ (value : String) id,
    image.constantIds[value]? = some id → image.constant? id = some value
  nativeIds : ∀ (name : String) id, image.nativeIds[name]? = some id → (image.native? id).isSome
  entry : ∃ routine, image.entryRoutine? = some routine ∧ routine.id = some image.entry

namespace Emitter

/-- The function that a name means, with its signature. -/
def callee? (emitter : Emitter) (name : String) : Option (UInt16 × Signature) := do
  let id ← resolveFunction? emitter.scopes emitter.image name
  let routine ← emitter.image.routine? id
  return (id, routine.signature)

/-- The slot is one of an open function. -/
def Owns (emitter : Emitter) (slot : Slot) : Prop :=
  ∃ context ∈ emitter.scopes.contexts,
    context.id = slot.context ∧ slot.index < context.frame.count slot.ty

/-- The state is one in which names mean what an environment says. -/
structure Ready (env : Env) (emitter : Emitter) : Prop where
  image : emitter.image.Sound
  var : ∀ name, emitter.scopes.resolve? name .outward = env.var name
  callee : ∀ name, emitter.callee? name = env.callee name
  registered : ∀ name id, resolveFunction? emitter.scopes emitter.image name = some id →
    (emitter.image.routine? id).isSome
  storable : ∀ name slot, env.var name = some slot → slot.ty.isStorable ∧ emitter.Owns slot
  function : emitter.scopes.current.id = env.function
  returnType : emitter.scopes.current.returnType = env.returnType
  contexts : ∀ context ∈ emitter.scopes.contexts, (emitter.image.routine? context.id).isSome
  frame : ∀ ty, ty.isStorable → (emitter.scopes.current.frame.count ty).toNat = env.taken.count ty
  defined : emitter.image.routines.size = env.defined
  inside : ∀ offset ∈ emitter.buffer.openSites, offset < emitter.buffer.size

/-- What has been numbered or declared stays as it is, except the given routines, which may have got
their code. -/
structure Extends (compiled : List UInt16) (before after : Emitter) : Prop where
  enclosing : after.scopes.enclosing = before.scopes.enclosing
  id : after.scopes.current.id = before.scopes.current.id
  returnType : after.scopes.current.returnType = before.scopes.current.returnType
  frame : ∀ ty, before.scopes.current.frame.count ty ≤ after.scopes.current.frame.count ty
  noBlocks : after.scopes.current.blocks = [] ↔ before.scopes.current.blocks = []
  names : before.scopes.current.blocks ≠ [] →
    after.scopes.current.blocks.tail = before.scopes.current.blocks.tail ∧
      after.scopes.current.params = before.scopes.current.params
  version : after.image.version = before.image.version
  entry : after.image.entry = before.image.entry
  size_le : before.image.routines.size ≤ after.image.routines.size
  routines : ∀ id routine, id ∉ compiled → before.image.routine? id = some routine →
    after.image.routine? id = some routine
  declared : ∀ id routine, before.image.routine? id = some routine →
    ∃ later, after.image.routine? id = some later ∧ later.id = routine.id ∧
      later.name = routine.name ∧ later.signature = routine.signature
  constants : ∀ id value, before.image.constant? id = some value →
    after.image.constant? id = some value
  natives : ∀ id, (before.image.native? id).isSome → (after.image.native? id).isSome
  balanced : after.image.natives.size + before.image.routines.size ≤
    before.image.natives.size + after.image.routines.size + compiled.length

namespace Extends

variable {compiled moreCompiled : List UInt16} {before middle after : Emitter}

theorem refl (emitter : Emitter) : Extends [] emitter emitter where
  enclosing := rfl
  id := rfl
  returnType := rfl
  frame _ := UInt16.le_refl _
  noBlocks := .rfl
  names _ := ⟨rfl, rfl⟩
  version := rfl
  entry := rfl
  size_le := Nat.le_refl _
  routines _ _ _ found := found
  declared _ routine found := ⟨routine, found, rfl, rfl, rfl⟩
  constants _ _ found := found
  natives _ found := found
  balanced := Nat.le_refl _

theorem trans (first : Extends compiled before middle)
    (second : Extends moreCompiled middle after) :
    Extends (compiled ++ moreCompiled) before after where
  enclosing := second.enclosing.trans first.enclosing
  id := second.id.trans first.id
  returnType := second.returnType.trans first.returnType
  frame ty := UInt16.le_trans (first.frame ty) (second.frame ty)
  noBlocks := second.noBlocks.trans first.noBlocks
  names nonempty := by
    obtain ⟨firstTail, firstParams⟩ := first.names nonempty
    obtain ⟨secondTail, secondParams⟩ := second.names (mt first.noBlocks.mp nonempty)
    exact ⟨secondTail.trans firstTail, secondParams.trans firstParams⟩
  version := second.version.trans first.version
  entry := second.entry.trans first.entry
  size_le := Nat.le_trans first.size_le second.size_le
  routines id routine unchanged found := by
    rw [List.mem_append, not_or] at unchanged
    exact second.routines id routine unchanged.2 (first.routines id routine unchanged.1 found)
  declared id routine found := by
    obtain ⟨later, foundLater, sameId, sameName, sameSignature⟩ := first.declared id routine found
    obtain ⟨last, foundLast, lastId, lastName, lastSignature⟩ := second.declared id later foundLater
    exact ⟨last, foundLast, lastId.trans sameId, lastName.trans sameName,
      lastSignature.trans sameSignature⟩
  constants id value found := second.constants id value (first.constants id value found)
  natives id found := second.natives id (first.natives id found)
  balanced := by
    have := first.balanced
    have := second.balanced
    rw [List.length_append]
    omega

theorem isSome_routine? (extension : Extends compiled before after) {id : UInt16}
    (found : (before.image.routine? id).isSome) : (after.image.routine? id).isSome := by
  obtain ⟨routine, found⟩ := Option.isSome_iff_exists.mp found
  obtain ⟨later, foundLater, -⟩ := extension.declared id routine found
  exact Option.isSome_of_eq_some foundLater

theorem contexts (extension : Extends compiled before after)
    (registered : ∀ context ∈ before.scopes.contexts, (before.image.routine? context.id).isSome) :
    ∀ context ∈ after.scopes.contexts, (after.image.routine? context.id).isSome := by
  intro context member
  rcases List.mem_cons.mp member with rfl | outer
  · rw [extension.id]
    exact extension.isSome_routine? (registered _ List.mem_cons_self)
  · rw [extension.enclosing] at outer
    exact extension.isSome_routine? (registered context (List.mem_cons_of_mem _ outer))

end Extends

theorem Owns.of_extends {compiled : List UInt16} {before after : Emitter} {slot : Slot}
    (extension : Extends compiled before after) (owns : before.Owns slot) : after.Owns slot := by
  obtain ⟨context, member, sameId, bound⟩ := owns
  rcases List.mem_cons.mp member with rfl | outer
  · exact ⟨after.scopes.current, List.mem_cons_self, extension.id.trans sameId,
      UInt16.lt_of_lt_of_le bound (extension.frame slot.ty)⟩
  · refine ⟨context, List.mem_cons_of_mem _ ?_, sameId, bound⟩
    rw [extension.enclosing]
    exact outer

/-- The image is one to which the compilation may lead from a state.  Of the routines in the given
set, the code is finished. -/
structure Settled (final : Image) (finished : UInt16 → Prop) (emitter : Emitter) : Prop where
  constants : ∀ id value, emitter.image.constant? id = some value → final.constant? id = some value
  natives : ∀ id, (emitter.image.native? id).isSome → (final.native? id).isSome
  declared : ∀ id routine, emitter.image.routine? id = some routine →
    ∃ later, final.routine? id = some later ∧ later.name = routine.name ∧
      later.signature = routine.signature
  routines : ∀ id routine, finished id → emitter.image.routine? id = some routine →
    final.routine? id = some routine
  frames : ∀ context ∈ emitter.scopes.contexts, ∃ owner, final.routine? context.id = some owner ∧
    ∀ ty, context.frame.count ty ≤ owner.frame.count ty

theorem Settled.self {emitter : Emitter}
    (frames : ∀ context ∈ emitter.scopes.contexts,
      ∃ owner, emitter.image.routine? context.id = some owner ∧
        ∀ ty, context.frame.count ty ≤ owner.frame.count ty) :
    Settled emitter.image (fun _ => True) emitter where
  constants _ _ found := found
  natives _ found := found
  declared _ routine found := ⟨routine, found, rfl, rfl⟩
  routines _ _ _ found := found
  frames := frames

theorem Settled.of_extends {compiled : List UInt16} {before after : Emitter} {final : Image}
    {finished : UInt16 → Prop} (extension : Extends compiled before after)
    (settled : Settled final finished after) :
    Settled final (fun id => finished id ∧ id ∉ compiled) before where
  constants id value found := settled.constants id value (extension.constants id value found)
  natives id found := settled.natives id (extension.natives id found)
  declared id routine found := by
    obtain ⟨later, foundLater, -, sameName, sameSignature⟩ := extension.declared id routine found
    obtain ⟨last, foundLast, lastName, lastSignature⟩ := settled.declared id later foundLater
    exact ⟨last, foundLast, lastName.trans sameName, lastSignature.trans sameSignature⟩
  routines id routine isFinished found :=
    settled.routines id routine isFinished.1
      (extension.routines id routine isFinished.2 found)
  frames context member := by
    rcases List.mem_cons.mp member with rfl | outer
    · obtain ⟨owner, found, larger⟩ := settled.frames _ List.mem_cons_self
      rw [extension.id] at found
      exact ⟨owner, found, fun ty => UInt16.le_trans (extension.frame ty) (larger ty)⟩
    · refine settled.frames context (List.mem_cons_of_mem _ ?_)
      rw [extension.enclosing]
      exact outer

/-- The image is one to which the compilation may lead, and all routines numbered since an earlier
state are finished. -/
def Leads (final : Image) (before after : Emitter) : Prop :=
  ∃ finished : UInt16 → Prop,
    (∀ id, before.image.routines.size ≤ id.toNat → finished id) ∧ Settled final finished after

theorem Leads.first {final : Image} {before middle after : Emitter}
    (second : Extends [] middle after) (leads : Leads final before after) :
    Leads final before middle := by
  obtain ⟨finished, fresh, settled⟩ := leads
  exact ⟨_, fun id isFresh => ⟨fresh id isFresh, List.not_mem_nil⟩, settled.of_extends second⟩

theorem Leads.second {final : Image} {compiled : List UInt16} {before middle after : Emitter}
    (first : Extends compiled before middle) (leads : Leads final before after) :
    Leads final middle after := by
  obtain ⟨finished, fresh, settled⟩ := leads
  exact ⟨finished, fun id isFresh => fresh id (Nat.le_trans first.size_le isFresh), settled⟩

/-- From one state to another, code has been written that leaves the given holes open and, once they
are filled, has the given properties in every image to which the compilation leads.  Names then mean
what the environment says. -/
structure Wrote (env : Env) (before after : Emitter) (opened : List Hole)
    (facts : Image → List UInt8 → Prop) : Prop where
  ready : Ready env after
  extension : Extends [] before after
  writes : before.buffer.Writes after.buffer opened fun code =>
    ∀ final, Leads final before after → facts final code

namespace Wrote

variable {env later : Env} {before middle after : Emitter} {opened more : List Hole}
  {facts moreFacts : Image → List UInt8 → Prop}

theorem refl (ready : Ready env before) : Wrote env before before [] fun _ _ => True where
  ready := ready
  extension := .refl before
  writes := (Buffer.Writes.refl _).imp fun _ _ _ _ => trivial

theorem imp (wrote : Wrote env before after opened facts)
    (weaken : ∀ final code, facts final code → moreFacts final code) :
    Wrote env before after opened moreFacts where
  ready := wrote.ready
  extension := wrote.extension
  writes := wrote.writes.imp fun code known final leads => weaken final code (known final leads)

theorem trans (first : Wrote env before middle opened facts)
    (second : Wrote later middle after more moreFacts) :
    Wrote later before after (opened ++ more) fun final code =>
      facts final code ∧ moreFacts final code where
  ready := second.ready
  extension := first.extension.trans second.extension
  writes := (first.writes.trans second.writes).imp fun _ known final leads =>
    ⟨known.1 final (leads.first second.extension), known.2 final (leads.second first.extension)⟩

theorem perm (wrote : Wrote env before after opened facts) (same : opened.Perm more) :
    Wrote env before after more facts where
  ready := wrote.ready
  extension := wrote.extension
  writes := wrote.writes.perm same

theorem size_le (wrote : Wrote env before after opened facts) :
    before.buffer.size ≤ after.buffer.size :=
  wrote.writes.size_le

end Wrote

@[simp]
theorem buffer_withBuffer (emitter : Emitter) (buffer : Buffer) :
    (emitter.withBuffer buffer).buffer = buffer :=
  rfl

theorem Extends.withBuffer (emitter : Emitter) (buffer : Buffer) :
    Extends [] emitter (emitter.withBuffer buffer) :=
  { Extends.refl emitter with }

theorem Ready.withBuffer {env : Env} {emitter : Emitter} {buffer : Buffer}
    (ready : Ready env emitter)
    (inside : ∀ offset ∈ buffer.openSites, offset < buffer.size) :
    Ready env (emitter.withBuffer buffer) :=
  have extension := Extends.withBuffer emitter buffer
  { ready with
    storable := fun name slot found =>
      (ready.storable name slot found).imp_right (Owns.of_extends extension)
    contexts := extension.contexts ready.contexts
    inside := inside }

/-- A buffer has no open place beyond its end. -/
theorem Ready.inside_of_writes {env : Env} {emitter : Emitter} {buffer : Buffer}
    {opened : List Hole} {facts : List UInt8 → Prop} (ready : Ready env emitter)
    (writes : emitter.buffer.Writes buffer opened facts) :
    ∀ offset ∈ buffer.openSites, offset < buffer.size := by
  intro offset member
  rcases (writes.open_iff offset).mp member with old | ⟨hole, opens, rfl⟩
  · have := ready.inside offset old
    have := writes.size_le
    omega
  · have := writes.within hole opens
    omega

theorem Wrote.ofBuffer {env : Env} {emitter : Emitter} {buffer : Buffer} {opened : List Hole}
    {facts : List UInt8 → Prop} (ready : Ready env emitter)
    (writes : emitter.buffer.Writes buffer opened facts) :
    Wrote env emitter (emitter.withBuffer buffer) opened fun _ code => facts code where
  ready := ready.withBuffer (ready.inside_of_writes writes)
  extension := .withBuffer emitter buffer
  writes := writes.imp fun _ known _ _ => known

/-- Writing over holes of what has been written. -/
theorem Wrote.refill {env later : Env} {before middle : Emitter} {buffer : Buffer}
    {opened rest : List Hole} {facts : Image → List UInt8 → Prop} {moreFacts : List UInt8 → Prop}
    (wrote : Wrote later before middle opened facts) (ready : Ready env before)
    (writes : before.buffer.Writes buffer rest fun code =>
      (∀ final, Leads final before middle → facts final code) ∧ moreFacts code) :
    Wrote later before (middle.withBuffer buffer) rest fun final code =>
      facts final code ∧ moreFacts code where
  ready := wrote.ready.withBuffer (ready.inside_of_writes writes)
  extension := wrote.extension.trans (.withBuffer middle buffer)
  writes := writes.imp fun _ known final leads =>
    ⟨known.1 final (leads.first (.withBuffer middle buffer)), known.2⟩

section Buffers

variable {env later : Env} {emitter : Emitter}

theorem achieves_write {append : Buffer → Buffer} {facts : List UInt8 → Prop}
    (ready : Ready env emitter)
    (writes : emitter.buffer.Writes (append emitter.buffer) [] facts) :
    Achieves (write append) emitter fun _ after =>
      after.buffer = append emitter.buffer ∧ Wrote env emitter after [] fun _ code => facts code :=
  ⟨rfl, Wrote.ofBuffer ready writes⟩

theorem achieves_emit {op : Op} (ready : Ready env emitter) (plain : op.width = 0) :
    Achieves (emit op) emitter fun _ after =>
      after.buffer.size = emitter.buffer.size + 1 ∧
        Wrote env emitter after [] fun _ code => PlainAt code emitter.buffer.size op :=
  ⟨Buffer.size_emit _ _, Wrote.ofBuffer ready (.emit _ plain)⟩

theorem achieves_emitWithWord {op : Op} {word : UInt16} (ready : Ready env emitter)
    (wide : op.width = 2) :
    Achieves (emitWithWord op word) emitter fun _ after =>
      after.buffer.size = emitter.buffer.size + 3 ∧
        Wrote env emitter after [] fun _ code => WordAt code emitter.buffer.size op word :=
  ⟨Buffer.size_emitWithWord _ _ _, Wrote.ofBuffer ready (.emitWithWord _ word wide)⟩

theorem achieves_emitJump (ready : Ready env emitter) :
    Achieves emitJump emitter fun site after =>
      after.buffer.size = emitter.buffer.size + 3 ∧
        Wrote env emitter after [site.hole] fun _ code =>
          ∀ target, TargetAt code site target → JumpAt code emitter.buffer.size target :=
  ⟨Buffer.size_emitJump _, Wrote.ofBuffer ready (.emitJump _)⟩

theorem achieves_emitBranch {op : Op} (ready : Ready env emitter) (wide : op.width = 4) :
    Achieves (emitBranch op) emitter fun pending after =>
      after.buffer.size = emitter.buffer.size + 5 ∧
        Wrote env emitter after pending.holes fun _ code =>
          ∀ onTrue onFalse, (∀ site ∈ pending.trueSites, TargetAt code site onTrue) →
            (∀ site ∈ pending.falseSites, TargetAt code site onFalse) →
            BranchAt code emitter.buffer.size op onTrue onFalse :=
  ⟨Buffer.size_emitBranch _ _, Wrote.ofBuffer ready (.emitBranch _ wide)⟩

theorem achieves_patch {before middle : Emitter} {sites : List Site} {opened : List Hole}
    {target : Nat} {facts : Image → List UInt8 → Prop} (rest : List Hole) (ready : Ready env before)
    (wrote : Wrote later before middle opened facts)
    (among : opened.Perm (sites.map Site.hole ++ rest)) (reached : target ≤ middle.buffer.size) :
    Achieves (patch sites target) middle fun _ after =>
      after.buffer.size = middle.buffer.size ∧
        Wrote later before after rest fun final code =>
          facts final code ∧ ∀ site ∈ sites, TargetAt code site target := by
  unfold Achieves patch
  rw [onBuffer_apply]
  have patched := (wrote.writes.perm among).patchTargets target ready.inside
  cases run : Buffer.patchTargets sites target middle.buffer with
  | ok result buffer =>
      rw [run] at patched
      exact ⟨patched.1, wrote.refill ready patched.2⟩
  | error error buffer =>
      rw [run] at patched
      obtain ⟨rfl, far, sameSize⟩ := patched
      exact fun _ => .code far (by rw [buffer_withBuffer, sameSize]; exact reached)

theorem achieves_emitJumpTo {target : Nat} (ready : Ready env emitter)
    (reached : target ≤ emitter.buffer.size) :
    Achieves (emitJumpTo target) emitter fun _ after =>
      after.buffer.size = emitter.buffer.size + 3 ∧
        Wrote env emitter after [] fun _ code => JumpAt code emitter.buffer.size target := by
  unfold emitJumpTo
  split
  case isTrue far => exact fun _ => .code far reached
  case isFalse near =>
      refine (achieves_emitWithWord ready rfl).imp fun _ after ⟨size, wrote⟩ => ⟨size, ?_⟩
      refine wrote.imp fun _ code instr => ⟨by omega, ?_⟩
      have small : (UInt16.ofNat target).toNat = target := by
        rw [UInt16.toNat_ofNat']
        exact Nat.mod_eq_of_lt (by unfold Buffer.maxTarget at near; omega)
      simpa only [WordAt, small] using instr

end Buffers

section Variables

variable {env : Env} {emitter : Emitter}

theorem Settled.hasSlot {final : Image} {finished : UInt16 → Prop} {slot : Slot}
    (settled : Settled final finished emitter) (owns : emitter.Owns slot) : final.HasSlot slot := by
  obtain ⟨context, member, sameId, bound⟩ := owns
  obtain ⟨owner, found, larger⟩ := settled.frames context member
  exact ⟨owner, sameId ▸ found, UInt16.lt_of_lt_of_le bound (larger slot.ty)⟩

theorem achieves_resolveVar {name : String} {position : Position} {next : Slot → EmitM β}
    {post : β → Emitter → Prop} (ready : Ready env emitter)
    (rest : ∀ slot, env.var name = some slot → Achieves (next slot) emitter post) :
    Achieves (resolveVar name position >>= next) emitter post := by
  have resolved : Achieves (resolveVar name position) emitter fun slot after =>
      env.var name = some slot ∧ emitter = after := by
    unfold resolveVar Achieves Emitter.ask
    simp only [ready.var]
    cases found : env.var name with
    | none => exact fun isInternal => nomatch isInternal
    | some slot => exact ⟨rfl, rfl⟩
  refine resolved.bind ?_
  rintro slot _ ⟨found, rfl⟩
  exact rest slot found

/-- The instructions of a family name slots of all storable types, by one or by two numbers. -/
def Accesses (family : Ty → Bool → Option Op) : Prop :=
  ∀ ty foreign, ty.isStorable → ∃ op, family ty foreign = some op ∧
    op.width = if foreign then 4 else 2

theorem accesses_load : Accesses Op.load? := by
  intro ty foreign isStorable
  cases ty <;> cases foreign <;> first | exact ⟨_, rfl, rfl⟩ | cases isStorable

theorem accesses_store : Accesses Op.store? := by
  intro ty foreign isStorable
  cases ty <;> cases foreign <;> first | exact ⟨_, rfl, rfl⟩ | cases isStorable

theorem achieves_access {family : Ty → Bool → Option Op} {slot : Slot} {defect : Defect}
    (accesses : Accesses family) (ready : Ready env emitter) (isStorable : slot.ty.isStorable)
    (owns : emitter.Owns slot) :
    Achieves
      (do
        let foreign ← isForeign slot
        match family slot.ty foreign with
        | some op => emitVarAccess op slot foreign
        | none => throw (.invariant defect))
      emitter fun _ after =>
        Wrote env emitter after [] fun final code =>
          AccessAt final code env.function family slot emitter.buffer.size after.buffer.size := by
  change Achieves (match family slot.ty (slot.context != emitter.scopes.current.id) with
    | some op => emitVarAccess op slot (slot.context != emitter.scopes.current.id)
    | none => throw (.invariant defect)) emitter _
  rw [ready.function]
  cases foreign : slot.context != env.function with
  | false =>
      obtain ⟨op, member, width⟩ := accesses slot.ty false isStorable
      rw [member]
      refine (achieves_write ready (.emitWithWord _ slot.index width)).imp
        fun _ after ⟨written, wrote⟩ => ?_
      refine ⟨wrote.ready, wrote.extension, wrote.writes.imp fun code known final leads => ?_⟩
      rw [show after.buffer.size = emitter.buffer.size + 3 from
        written ▸ Buffer.size_emitWithWord _ op _]
      obtain ⟨finished, -, settled⟩ := leads.first wrote.extension
      exact .own (settled.hasSlot owns) (by simpa using foreign) member (known final leads)
  | true =>
      obtain ⟨op, member, width⟩ := accesses slot.ty true isStorable
      rw [member]
      refine (achieves_write ready (.emitWithWords _ slot.context slot.index width)).imp
        fun _ after ⟨written, wrote⟩ => ?_
      refine ⟨wrote.ready, wrote.extension, wrote.writes.imp fun code known final leads => ?_⟩
      rw [show after.buffer.size = emitter.buffer.size + 5 from
        written ▸ Buffer.size_emitWithWords _ op _ _]
      obtain ⟨finished, -, settled⟩ := leads.first wrote.extension
      exact .foreign (settled.hasSlot owns) (by simpa using foreign) member (known final leads)

end Variables

section Images

variable {env : Env} {image : Image} {scopes : Scopes} {fault : Option CompileError}

/-- A change of the other tables of the image does not matter for names. -/
theorem Ready.withImage {changed : Image} (ready : Ready env ⟨image, scopes, fault⟩)
    (sound : changed.Sound) (sameRoutines : changed.routines = image.routines)
    (sameEntry : changed.entry = image.entry) : Ready env ⟨changed, scopes, fault⟩ := by
  obtain ⟨version, entry, routines, routineIds, constants, constantIds, natives, nativeIds⟩ :=
    changed
  obtain rfl : routines = image.routines := sameRoutines
  obtain rfl : entry = image.entry := sameEntry
  exact { ready with image := sound }

theorem achieves_internConstant {emitter : Emitter} {value : String} (ready : Ready env emitter) :
    Achieves (onImage (Image.internConstant value)) emitter fun id after =>
      after.buffer = emitter.buffer ∧
        Wrote env emitter after [] fun final _ => final.constant? id = some value := by
  obtain ⟨image, scopes, fault⟩ := emitter
  have sound := ready.image
  unfold Achieves onImage Image.internConstant
  dsimp only at sound ⊢
  cases indexed : image.constantIds[value]? with
  | some id =>
      refine ⟨rfl, ready, .refl _, (Buffer.Writes.refl _).imp fun code _ final leads => ?_⟩
      obtain ⟨finished, -, settled⟩ := leads
      exact settled.constants id value (sound.constantIds value id indexed)
  | none =>
      dsimp only
      by_cases full : image.constants.size > Image.maxId
      · rw [if_pos full]
        exact fun _ => .constants (by
          have := sound.constants_le
          change image.constants.size = 65536
          unfold Image.maxId at full
          omega)
      · rw [if_neg full]
        have small := toNat_ofNat_size full
        -- The new constant is appended, so the others keep their numbers.
        have kept : ∀ (id : UInt16) other, image.constants[id.toNat]? = some other →
            (image.constants.push value)[id.toNat]? = some other :=
          fun id other found => getElem?_push_of_eq_some found
        refine ⟨rfl, ready.withImage ?_ rfl rfl, ?_, ?_⟩
        · refine { sound with constants_le := ?_, constantIds := ?_ }
          · simp only [Array.size_push]
            unfold Image.maxId at full
            omega
          · intro other id found
            rw [NameMap.getElem?_insert] at found
            split at found
            case isTrue same =>
                cases found
                rw [Image.constant?, small, Array.getElem?_push_size, same]
            case isFalse different => exact kept id other (sound.constantIds other id found)
        · exact { Extends.refl ⟨image, scopes, fault⟩ with constants := kept }
        · refine (Buffer.Writes.refl _).imp fun code _ final leads => ?_
          obtain ⟨finished, -, settled⟩ := leads
          refine settled.constants _ value ?_
          rw [Image.constant?, small, Array.getElem?_push_size]

end Images

end Emitter

end Backpatch
