import Backpatch.Proofs.Drafts

/-!
# Compiling side by side

Two compilations of the same expression are run side by side, from states that differ only in the
code of the functions that are being compiled.  As long as both go on, what they append to the code
of the current function is one draft at two places: the same instructions, with jump targets that
are counted from where each of them began.

A site that an action hands to the next ones is known by its gap in the draft.  Gaps are filled and
new ones come, but none disappears, so what is known of a site stays true while more is written.
-/

namespace Backpatch

namespace Op

theorem isJump_of_width {op : Op} (bare : op.width = 0) : op.isJump = false := by
  rw [isJump, Bool.or_eq_false_iff, beq_eq_false_iff_ne, ← Bool.not_eq_true]
  constructor
  · rintro rfl
    cases bare
  · intro isBranch
    rw [width_of_isBranch isBranch] at bare
    cases bare

theorem width_of_load? {ty : Ty} {cross : Bool} {op : Op} (member : load? ty cross = some op) :
    op.width = (if cross then 4 else 2) ∧ op.isJump = false := by
  cases ty <;> cases cross <;> cases member <;> exact ⟨rfl, rfl⟩

theorem width_of_store? {ty : Ty} {cross : Bool} {op : Op} (member : store? ty cross = some op) :
    op.width = (if cross then 4 else 2) ∧ op.isJump = false := by
  cases ty <;> cases cross <;> cases member <;> exact ⟨rfl, rfl⟩

end Op

def Context.blind (context : Context) : Context :=
  { context with buffer := .empty }

theorem Context.eq_of_blind {context other : Context} (blind : context.blind = other.blind)
    (buffer : context.buffer = other.buffer) : context = other := by
  cases context
  cases other
  cases buffer
  cases blind
  rfl

def Scopes.blind (scopes : Scopes) : Scopes where
  current := scopes.current.blind
  enclosing := scopes.enclosing.map Context.blind
  nextScope := scopes.nextScope

/-- The state without the code of the functions that are being compiled. -/
def Emitter.blind (emitter : Emitter) : Emitter :=
  { emitter with scopes := emitter.scopes.blind }

namespace Scopes

variable {scopes later : Scopes} {name : String} {ty : Ty}

theorem resolve?_blind (scopes : Scopes) (name : String) (lookup : Lookup) :
    scopes.blind.resolve? name lookup = scopes.resolve? name lookup := by
  cases lookup with
  | here => rfl
  | outward =>
      simp only [resolve?, blind, List.findSome?_map]
      rfl

theorem function?_blind (scopes : Scopes) (name : String) :
    scopes.blind.function? name = scopes.function? name := by
  simp only [function?, blind, List.findSome?_map]
  rfl

/-- A change of the scopes does not look at code, and it leaves alone the code of the current
function and the functions around it. -/
def Blindly {α : Type} (change : Scopes → Option (α × Scopes)) : Prop :=
  ∀ scopes result later, change scopes = some (result, later) →
    change scopes.blind = some (result, later.blind) ∧
      later.current.buffer = scopes.current.buffer ∧ later.enclosing = scopes.enclosing

theorem allocate?_blind {context later : Context} {slot : Slot}
    (given : context.allocate? ty = some (slot, later)) :
    context.blind.allocate? ty = some (slot, later.blind) ∧ later.buffer = context.buffer := by
  obtain ⟨⟨index, frame⟩, allocates, same⟩ := Option.bind_eq_some_iff.mp given
  cases same
  exact ⟨Option.bind_eq_some_iff.mpr ⟨_, allocates, rfl⟩, rfl⟩

theorem blindly_allocateHidden? (ty : Ty) : Blindly (·.allocateHidden? ty) := by
  intro scopes slot later given
  obtain ⟨⟨_, context⟩, allocates, same⟩ := Option.bind_eq_some_iff.mp given
  cases same
  obtain ⟨blind, buffer⟩ := allocate?_blind allocates
  exact ⟨Option.bind_eq_some_iff.mpr ⟨_, blind, rfl⟩, buffer, rfl⟩

theorem blindly_declareParam? (name : String) (ty : Ty) : Blindly (·.declareParam? name ty) := by
  intro scopes slot later given
  obtain ⟨⟨_, context⟩, allocates, same⟩ := Option.bind_eq_some_iff.mp given
  cases same
  obtain ⟨blind, buffer⟩ := allocate?_blind allocates
  exact ⟨Option.bind_eq_some_iff.mpr ⟨_, blind, rfl⟩, buffer, rfl⟩

theorem blindly_declare? (name : String) (ty : Ty) : Blindly (·.declare? name ty) := by
  intro scopes slot later given
  obtain ⟨⟨id, ty, buffer, bodyScope, frame, params, blocks⟩, enclosing, nextScope⟩ := scopes
  cases blocks with
  | nil => cases given
  | cons block blocks =>
      obtain ⟨⟨_, context⟩, allocates, same⟩ := Option.bind_eq_some_iff.mp given
      cases same
      obtain ⟨blind, buffer⟩ := allocate?_blind allocates
      exact ⟨Option.bind_eq_some_iff.mpr ⟨_, blind, rfl⟩, buffer, rfl⟩

theorem blindly_declareFunction? (name : String) (id : UInt16) :
    Blindly fun scopes => (scopes.declareFunction? name id).map ((), ·) := by
  intro scopes _ later given
  obtain ⟨_, declared, same⟩ := Option.map_eq_some_iff.mp given
  cases same
  obtain ⟨⟨id, ty, buffer, bodyScope, frame, params, blocks⟩, enclosing, nextScope⟩ := scopes
  cases blocks with
  | nil => cases declared
  | cons block blocks =>
      simp only [declareFunction?, Scopes.blind, Context.blind] at declared ⊢
      split at declared
      case isTrue => cases declared
      case isFalse absent =>
          cases declared
          rw [if_neg absent]
          exact ⟨rfl, rfl, rfl⟩

end Scopes

namespace Emitter

theorem resolveFunction?_blind (emitter : Emitter) (name : String) :
    resolveFunction? emitter.blind.scopes emitter.blind.image name =
      resolveFunction? emitter.scopes emitter.image name := by
  unfold resolveFunction?
  rw [blind, Scopes.function?_blind]

theorem typeOf_blind (emitter : Emitter) (expr : Expr) :
    expr.typeOf emitter.blind.scopes emitter.blind.image =
      expr.typeOf emitter.scopes emitter.image := by
  induction expr using Expr.typeOf.induct emitter.scopes emitter.image with
  | case1 | case2 | case3 => rfl
  | case4 | case5 =>
      simp only [Expr.typeOf]
      rw [blind, Scopes.resolve?_blind]
  | case6 _ _ left right leftIh rightIh => simp only [Expr.typeOf, leftIh, rightIh]
  | case7 _ _ operand ih => simp only [Expr.typeOf, ih]
  | case8 | case9 =>
      simp only [Expr.typeOf, resultType?, resolveFunction?_blind]
      rfl

theorem callee_blind (name : String) (count : Nat) (position : Position) (emitter : Emitter) :
    callee name count position emitter.blind = callee name count position emitter := by
  unfold callee
  rw [resolveFunction?_blind]
  rfl

/-- What a run builds on: the code of the current function and the functions around it. -/
structure Ground where
  buffer : Buffer
  enclosing : List Context
  inside : ∀ offset ∈ buffer.openSites, offset < buffer.size

/-- The ground of a function inside the current one. -/
def Ground.within (emitter : Emitter) : Ground where
  buffer := .empty
  enclosing := emitter.scopes.current :: emitter.scopes.enclosing
  inside _ member := absurd member Std.ExtTreeSet.not_mem_empty

/-- A run has written a draft on its ground. -/
structure Ground.Carries (ground : Ground) (shapes : List Shape) (emitter : Emitter) : Prop where
  code : ground.buffer.Continues shapes emitter.buffer
  enclosing : emitter.scopes.enclosing = ground.enclosing

/-- Two runs have written the same draft, each on its own ground, and agree on all but code. -/
structure Abreast (one two : Ground) (shapes : List Shape) (first second : Emitter) : Prop where
  blind : first.blind = second.blind
  first : one.Carries shapes first
  second : two.Carries shapes second

/-- The results of two runs are related by what has been written. -/
abbrev Kind (α : Type) : Type :=
  List Shape → α → α → Prop

/-- Equal results. -/
def Same {α : Type} : Kind α :=
  fun _ => Eq

variable {α β : Type} {one two : Ground} {shapes : List Shape}

/-- Two actions that succeed on runs that are abreast leave them abreast, with results of the given
kind.  At least the given draft has been written before. -/
def Alongside (one two : Ground) (shapes : List Shape) (kind : Kind α) (action other : EmitM α) :
    Prop :=
  ∀ current, Draft.Covers shapes current →
    ∀ first second, Abreast one two current first second →
      ∀ result firstAfter otherResult secondAfter, action first = .ok result firstAfter →
        other second = .ok otherResult secondAfter →
        ∃ later, Draft.Covers current later ∧ Abreast one two later firstAfter secondAfter ∧
          kind later result otherResult

/-- Places at the same distance from the beginning of the draft. -/
def OffsetAt (one two : Ground) (offset other : Nat) : Prop :=
  ∃ place, offset = one.buffer.size + place ∧ other = two.buffer.size + place

/-- Sites of the same gap. -/
def SiteAt (one two : Ground) (gap : Gap) (shapes : List Shape) (site other : Site) : Prop :=
  ∃ place ∈ Draft.gaps gap shapes,
    site.offset = one.buffer.size + place ∧ other.offset = two.buffer.size + place

theorem SiteAt.mono {gap : Gap} {later : List Shape} {site other : Site}
    (siteAt : SiteAt one two gap shapes site other) (covers : Draft.Covers shapes later) :
    SiteAt one two gap later site other := by
  obtain ⟨place, member, offsets⟩ := siteAt
  exact ⟨place, covers gap member, offsets⟩

end Emitter

/-- The sites of two conditions are related. -/
structure PendingBranch.Rel (related : Site → Site → Prop) (pending other : PendingBranch) :
    Prop where
  onTrue : List.Forall₂ related pending.trueSites other.trueSites
  onFalse : List.Forall₂ related pending.falseSites other.falseSites

/-- Values of the same type, or conditions with related sites. -/
inductive Compiled.Rel (related : Site → Site → Prop) : Compiled → Compiled → Prop
  | value (ty : Ty) : Rel related (.value ty) (.value ty)
  | branch {pending other : PendingBranch} (rel : pending.Rel related other) :
      Rel related (.branch pending) (.branch other)

theorem PendingBranch.Rel.imp {related weaker : Site → Site → Prop} {pending other : PendingBranch}
    (rel : pending.Rel related other)
    (weaken : ∀ site other, related site other → weaker site other) : pending.Rel weaker other :=
  ⟨rel.onTrue.imp weaken, rel.onFalse.imp weaken⟩

theorem Compiled.Rel.imp {related weaker : Site → Site → Prop} {compiled other : Compiled}
    (rel : compiled.Rel related other)
    (weaken : ∀ site other, related site other → weaker site other) :
    compiled.Rel weaker other := by
  cases rel with
  | value ty => exact .value ty
  | branch rel => exact .branch (rel.imp weaken)

namespace Emitter

variable {α β : Type} {one two : Ground} {shapes : List Shape}

/-- Conditions whose sites are the same gaps. -/
def BranchAt (one two : Ground) : Kind PendingBranch :=
  fun shapes => PendingBranch.Rel (SiteAt one two .target shapes)

/-- What expressions leave behind, with the same gaps as sites. -/
def CompiledAt (one two : Ground) : Kind Compiled :=
  fun shapes => Compiled.Rel (SiteAt one two .target shapes)

theorem BranchAt.mono {later : List Shape} {pending other : PendingBranch}
    (branch : BranchAt one two shapes pending other) (covers : Draft.Covers shapes later) :
    BranchAt one two later pending other :=
  branch.imp fun _ _ siteAt => siteAt.mono covers

namespace Alongside

variable {kind : Kind α} {last : Kind β} {action other : EmitM α} {next otherNext : α → EmitM β}

theorem pure {result otherResult : α}
    (related : ∀ later, Draft.Covers shapes later → kind later result otherResult) :
    Alongside one two shapes kind (pure result) (pure otherResult) := by
  rintro current covers first second abreast _ _ _ _ ⟨⟩ ⟨⟩
  exact ⟨current, .refl _, abreast, related current covers⟩

theorem same (result : α) : Alongside one two shapes Same (Pure.pure result) (Pure.pure result) :=
  pure fun _ _ => rfl

theorem throw_left {error : CompileError} :
    Alongside one two shapes kind (throw error) other := by
  rintro current covers first second abreast _ _ _ _ ⟨⟩

theorem throw_right {error : CompileError} :
    Alongside one two shapes kind action (throw error) := by
  rintro current covers first second abreast _ _ _ _ _ ⟨⟩

theorem bind (began : Alongside one two shapes kind action other)
    (rest : ∀ later, Draft.Covers shapes later → ∀ result otherResult,
      kind later result otherResult →
        Alongside one two later last (next result) (otherNext otherResult)) :
    Alongside one two shapes last (action >>= next) (other >>= otherNext) := by
  intro current covers first second abreast result after otherResult otherAfter ran otherRan
  obtain ⟨value, middle, ranFirst, ranRest⟩ := exists_of_bind_eq_ok ran
  obtain ⟨otherValue, otherMiddle, otherFirst, otherRest⟩ := exists_of_bind_eq_ok otherRan
  obtain ⟨between, grown, stillAbreast, related⟩ := began current covers first second abreast
    value middle otherValue otherMiddle ranFirst otherFirst
  obtain ⟨later, more, ended, kinds⟩ := rest between (covers.trans grown) value otherValue related
    between (.refl _) middle otherMiddle stillAbreast _ _ _ _ ranRest otherRest
  exact ⟨later, grown.trans more, ended, kinds⟩

/-- An action that opens no gap for the rest to fill. -/
theorem seq {related : α → α → Prop}
    (began : Alongside one two shapes (fun _ => related) action other)
    (rest : ∀ result otherResult, related result otherResult →
      Alongside one two shapes last (next result) (otherNext otherResult)) :
    Alongside one two shapes last (action >>= next) (other >>= otherNext) := by
  refine began.bind fun later covers result otherResult isRelated => ?_
  intro current more
  exact rest result otherResult isRelated current (covers.trans more)

/-- An action with the same result in both runs. -/
theorem andThen (began : Alongside one two shapes Same action other)
    (rest : ∀ result, Alongside one two shapes last (next result) (otherNext result)) :
    Alongside one two shapes last (action >>= next) (other >>= otherNext) :=
  began.seq fun result _ isSame => isSame ▸ rest result

theorem forM {γ : Type} {action : γ → EmitM Unit}
    (each : ∀ item, Alongside one two shapes Same (action item) (action item)) (items : List γ) :
    Alongside one two shapes Same (items.forM action) (items.forM action) := by
  induction items with
  | nil => exact same ()
  | cons item items ih => exact (each item).andThen fun _ => ih

/-- A question that is not about code. -/
theorem ask {question : Emitter → Except CompileError α}
    (blindly : ∀ emitter, question emitter.blind = question emitter) :
    Alongside one two shapes Same (ask question) (ask question) := by
  intro current covers first second abreast result after otherResult otherAfter ran otherRan
  have sameAnswer : question first = question second := by
    rw [← blindly first, abreast.blind, blindly second]
  unfold Emitter.ask at ran otherRan
  rw [← sameAnswer] at otherRan
  cases asked : question first with
  | error error =>
      rw [asked] at ran
      cases ran
  | ok answer =>
      rw [asked] at ran otherRan
      cases ran
      cases otherRan
      exact ⟨current, .refl _, abreast, rfl⟩

theorem offset : Alongside one two shapes (fun _ => OffsetAt one two) offset offset := by
  rintro current covers first second abreast _ _ _ _ ⟨⟩ ⟨⟩
  exact ⟨current, .refl _, abreast, Draft.size current, abreast.first.code.size_eq,
    abreast.second.code.size_eq⟩

theorem onImage (action : ImageM α) :
    Alongside one two shapes Same (onImage action) (onImage action) := by
  intro current covers first second abreast result after otherResult otherAfter ran otherRan
  obtain ⟨image, done, rfl⟩ := exists_of_onImage_eq_ok ran
  obtain ⟨otherImage, otherDone, rfl⟩ := exists_of_onImage_eq_ok otherRan
  have sameImage : first.blind.image = second.blind.image := congrArg Emitter.image abreast.blind
  change action first.blind.image = _ at done
  rw [sameImage] at done
  cases done.symm.trans otherDone
  obtain ⟨blind, ⟨code, enclosing⟩, ⟨otherCode, otherEnclosing⟩⟩ := abreast
  refine ⟨current, .refl _, ⟨?_, ⟨code, enclosing⟩, ⟨otherCode, otherEnclosing⟩⟩, rfl⟩
  exact congrArg (fun emitter : Emitter => { emitter with image := image }) blind

theorem onScopes {change : Scopes → Option (α × Scopes)} (blindly : Scopes.Blindly change)
    (error : CompileError) :
    Alongside one two shapes Same (onScopes change error) (onScopes change error) := by
  intro current covers first second abreast result after otherResult otherAfter ran otherRan
  obtain ⟨blind, ⟨code, enclosing⟩, ⟨otherCode, otherEnclosing⟩⟩ := abreast
  obtain ⟨scopes, changed, rfl⟩ := exists_of_onScopes_eq_ok ran
  obtain ⟨otherScopes, otherChanged, rfl⟩ := exists_of_onScopes_eq_ok otherRan
  obtain ⟨blindChanged, buffer, around⟩ := blindly _ _ _ changed
  obtain ⟨otherBlindChanged, otherBuffer, otherAround⟩ := blindly _ _ _ otherChanged
  have sameScopes : first.scopes.blind = second.scopes.blind := congrArg Emitter.scopes blind
  rw [sameScopes, otherBlindChanged] at blindChanged
  obtain ⟨rfl, sameLater⟩ := Prod.mk.inj (Option.some.inj blindChanged)
  refine ⟨current, .refl _, ⟨?_, ⟨?_, around.trans enclosing⟩,
    ⟨?_, otherAround.trans otherEnclosing⟩⟩, rfl⟩
  · change { first.blind with scopes := scopes.blind } =
      { second.blind with scopes := otherScopes.blind }
    rw [blind, sameLater]
  · change one.buffer.Continues current scopes.current.buffer
    rw [buffer]
    exact code
  · change two.buffer.Continues current otherScopes.current.buffer
    rw [otherBuffer]
    exact otherCode

/-- A change of the state that does not look at code. -/
theorem changes {change : Emitter → Emitter}
    (blindly : ∀ emitter, (change emitter).blind = change emitter.blind)
    (buffer : ∀ emitter, (change emitter).buffer = emitter.buffer)
    (enclosing : ∀ emitter, (change emitter).scopes.enclosing = emitter.scopes.enclosing) :
    Alongside one two shapes Same (modify change : EmitM Unit) (modify change) := by
  rintro current covers first second ⟨blind, onOne, onTwo⟩ _ _ _ _ ⟨⟩ ⟨⟩
  refine ⟨current, .refl _, ⟨?_, ⟨?_, ?_⟩, ⟨?_, ?_⟩⟩, rfl⟩
  · rw [blindly first, blind, ← blindly second]
  · exact (buffer first).symm ▸ onOne.code
  · exact (enclosing first).trans onOne.enclosing
  · exact (buffer second).symm ▸ onTwo.code
  · exact (enclosing second).trans onTwo.enclosing

theorem onBuffer {action other : BufferM α}
    (step : ∀ current, Draft.Covers shapes current → ∀ buffer otherBuffer,
      one.buffer.Continues current buffer → two.buffer.Continues current otherBuffer →
        ∀ result after otherResult otherAfter, action buffer = .ok result after →
          other otherBuffer = .ok otherResult otherAfter →
          ∃ later, Draft.Covers current later ∧ one.buffer.Continues later after ∧
            two.buffer.Continues later otherAfter ∧ kind later result otherResult) :
    Alongside one two shapes kind (onBuffer action) (onBuffer other) := by
  intro current covers first second abreast result after otherResult otherAfter ran otherRan
  obtain ⟨blind, ⟨code, enclosing⟩, ⟨otherCode, otherEnclosing⟩⟩ := abreast
  rw [onBuffer_apply] at ran otherRan
  cases performed : action first.buffer with
  | error error buffer =>
      rw [performed] at ran
      cases ran
  | ok value buffer =>
      cases otherPerformed : other second.buffer with
      | error error otherBuffer =>
          rw [otherPerformed] at otherRan
          cases otherRan
      | ok otherValue otherBuffer =>
          rw [performed] at ran
          rw [otherPerformed] at otherRan
          cases ran
          cases otherRan
          obtain ⟨later, grown, continues, otherContinues, related⟩ := step current covers
            first.buffer second.buffer code otherCode _ _ _ _ performed otherPerformed
          exact ⟨later, grown, ⟨blind, ⟨continues, enclosing⟩, ⟨otherContinues, otherEnclosing⟩⟩,
            related⟩

/-- An instruction that is not a jump. -/
theorem write {append : Buffer → Buffer} {op : Op} {operands : List UInt8}
    (appends : ∀ buffer, append buffer = buffer.append (op.toByte :: operands))
    (whole : operands.length = op.width) (still : op.isJump = false) :
    Alongside one two shapes Same (write append) (write append) := by
  refine onBuffer ?_
  rintro current covers buffer otherBuffer code otherCode _ _ _ _ ⟨⟩ ⟨⟩
  rw [appends, appends]
  exact ⟨current ++ [.plain op operands whole still], .append _ _, code.plain whole still,
    otherCode.plain whole still, rfl⟩

theorem emit {op : Op} (bare : op.width = 0) :
    Alongside one two shapes Same (emit op) (emit op) :=
  write (fun buffer => buffer.emit_eq_append op) bare.symm (Op.isJump_of_width bare)

theorem writeAfter {op : Op} {operands : List UInt8} (whole : operands.length = op.width)
    (still : op.isJump = false) :
    Alongside one two shapes Same (Emitter.write fun buffer => (buffer.emit op).append operands)
      (Emitter.write fun buffer => (buffer.emit op).append operands) :=
  write (fun buffer => by rw [Buffer.emit_eq_append, Buffer.append_append]; rfl) whole still

theorem emitWithWord {op : Op} (wide : op.width = 2) (still : op.isJump = false) (word : UInt16) :
    Alongside one two shapes Same (emitWithWord op word) (emitWithWord op word) :=
  writeAfter (wide ▸ length_littleEndian 2 word.toNat) still

theorem emitVarAccess {op : Op} {foreign : Bool} (wide : op.width = if foreign then 4 else 2)
    (still : op.isJump = false) (slot : Slot) :
    Alongside one two shapes Same (emitVarAccess op slot foreign)
      (emitVarAccess op slot foreign) := by
  cases foreign with
  | false => exact writeAfter (wide ▸ length_littleEndian 2 slot.index.toNat) still
  | true =>
      refine @write one two shapes _ op
        (littleEndian 2 slot.context.toNat ++ littleEndian 2 slot.index.toNat) (fun buffer => ?_)
        wide.symm still
      change ((buffer.emit op).emitWord slot.context).emitWord slot.index = _
      rw [Buffer.emit_eq_append, Buffer.emitWord, Buffer.emitWord, Buffer.append_append,
        Buffer.append_append]
      rfl

theorem isForeign (slot : Slot) :
    Alongside one two shapes Same (isForeign slot) (isForeign slot) := by
  rintro current covers first second abreast _ _ _ _ ⟨⟩ ⟨⟩
  have sameId : first.blind.scopes.current.id = second.blind.scopes.current.id := by
    rw [abreast.blind]
  exact ⟨current, .refl _, abreast, congrArg (slot.context != ·) sameId⟩

theorem emitLoad (slot : Slot) : Alongside one two shapes Same (emitLoad slot) (emitLoad slot) := by
  refine (isForeign slot).andThen fun foreign => ?_
  cases member : Op.load? slot.ty foreign with
  | none => exact throw_left
  | some op =>
      obtain ⟨wide, still⟩ := Op.width_of_load? member
      exact emitVarAccess wide still slot

theorem emitStore (slot : Slot) :
    Alongside one two shapes Same (emitStore slot) (emitStore slot) := by
  refine (isForeign slot).andThen fun foreign => ?_
  cases member : Op.store? slot.ty foreign with
  | none => exact throw_left
  | some op =>
      obtain ⟨wide, still⟩ := Op.width_of_store? member
      exact emitVarAccess wide still slot

/-- Code that is appended and gives a result. -/
theorem writeWith {append : Buffer → α × Buffer}
    (step : ∀ current buffer otherBuffer, one.buffer.Continues current buffer →
      two.buffer.Continues current otherBuffer →
        ∃ shape, one.buffer.Continues (current ++ [shape]) (append buffer).2 ∧
          two.buffer.Continues (current ++ [shape]) (append otherBuffer).2 ∧
            kind (current ++ [shape]) (append buffer).1 (append otherBuffer).1) :
    Alongside one two shapes kind (writeWith append) (writeWith append) := by
  unfold Emitter.writeWith
  refine onBuffer ?_
  rintro current covers buffer otherBuffer code otherCode _ _ _ _ ⟨⟩ ⟨⟩
  obtain ⟨shape, continues, otherContinues, related⟩ :=
    step current buffer otherBuffer code otherCode
  exact ⟨current ++ [shape], .append _ _, continues, otherContinues, related⟩

theorem emitJump : Alongside one two shapes (SiteAt one two .target) emitJump emitJump := by
  refine writeWith fun current buffer otherBuffer code otherCode => ?_
  refine ⟨.jump none, code.emitJump, otherCode.emitJump, Draft.size current + 1,
    Draft.mem_gaps_append List.mem_cons_self, ?_, ?_⟩
  · change (buffer.emit .jump).size = _
    rw [Buffer.size_emit, code.size_eq, Nat.add_assoc]
  · change (otherBuffer.emit .jump).size = _
    rw [Buffer.size_emit, otherCode.size_eq, Nat.add_assoc]

theorem emitBranch {op : Op} (isBranch : op.isBranch = true) :
    Alongside one two shapes (BranchAt one two) (emitBranch op) (emitBranch op) := by
  refine writeWith fun current buffer otherBuffer code otherCode => ?_
  refine ⟨.branch op isBranch none none, code.emitBranch isBranch, otherCode.emitBranch isBranch,
    .cons ⟨Draft.size current + 1, Draft.mem_gaps_append List.mem_cons_self, ?_, ?_⟩ .nil,
    .cons ⟨Draft.size current + 3,
      Draft.mem_gaps_append (List.mem_cons_of_mem _ List.mem_cons_self), ?_, ?_⟩ .nil⟩
  · change (buffer.emit op).size = _
    rw [Buffer.size_emit, code.size_eq, Nat.add_assoc]
  · change (otherBuffer.emit op).size = _
    rw [Buffer.size_emit, otherCode.size_eq, Nat.add_assoc]
  · change (buffer.emit op).reserveWord.2.size = _
    rw [Buffer.size_reserveWord, Buffer.size_emit, code.size_eq]
    omega
  · change (otherBuffer.emit op).reserveWord.2.size = _
    rw [Buffer.size_reserveWord, Buffer.size_emit, otherCode.size_eq]
    omega

theorem reserveOp :
    Alongside one two shapes (SiteAt one two .opcode) (Emitter.writeWith (·.reserveOp))
      (Emitter.writeWith (·.reserveOp)) := by
  refine writeWith fun current buffer otherBuffer code otherCode => ?_
  exact ⟨.conversion none, code.reserveOp, otherCode.reserveOp, Draft.size current + 0,
    Draft.mem_gaps_append List.mem_cons_self, code.size_eq, otherCode.size_eq⟩

theorem emitJumpTo {target goal : Nat} (offsets : OffsetAt one two target goal) :
    Alongside one two shapes Same (emitJumpTo target) (emitJumpTo goal) := by
  obtain ⟨place, rfl, rfl⟩ := offsets
  unfold Emitter.emitJumpTo Emitter.emitWithWord Emitter.write
  -- One of the two places may be too far on for a jump, and then one run has failed.
  split
  case isTrue => exact throw_left
  case isFalse near =>
      split
      case isTrue => exact throw_right
      case isFalse otherNear =>
          refine onBuffer ?_
          rintro current covers buffer otherBuffer code otherCode _ _ _ _ ⟨⟩ ⟨⟩
          exact ⟨current ++ [.jump (some place)], .append _ _, code.jumpTo (Nat.le_of_not_lt near),
            otherCode.jumpTo (Nat.le_of_not_lt otherNear), rfl⟩

theorem patchTarget {site other : Site} {target goal : Nat}
    (siteAt : SiteAt one two .target shapes site other) (offsets : OffsetAt one two target goal) :
    Alongside one two shapes Same (Emitter.onBuffer (Buffer.patchTarget site target))
      (Emitter.onBuffer (Buffer.patchTarget other goal)) := by
  obtain ⟨goalPlace, rfl, rfl⟩ := offsets
  obtain ⟨place, isGap, offset, otherOffset⟩ := siteAt
  refine onBuffer fun current covers buffer otherBuffer code otherCode _ _ _ _ ran otherRan => ?_
  rw [Buffer.patchTarget_apply, offset] at ran
  rw [Buffer.patchTarget_apply, otherOffset] at otherRan
  split at ran
  case isFalse => split at ran <;> cases ran
  case isTrue near =>
      split at otherRan
      case isFalse => split at otherRan <;> cases otherRan
      case isTrue otherNear =>
          cases ran
          cases otherRan
          -- Both runs fill the same gap, and so they have the same draft afterwards.
          obtain ⟨later, fills⟩ := Draft.exists_fills (.target goalPlace) (covers .target isGap)
          exact ⟨later, fills.covers, code.filled one.inside fills near.1,
            otherCode.filled two.inside fills otherNear.1, rfl⟩

theorem patchOpSite {site other : Site} {op : Op}
    (siteAt : SiteAt one two .opcode shapes site other) (bare : op.width = 0) :
    Alongside one two shapes Same (Emitter.onBuffer (Buffer.patchOpSite site op))
      (Emitter.onBuffer (Buffer.patchOpSite other op)) := by
  obtain ⟨place, isGap, offset, otherOffset⟩ := siteAt
  refine onBuffer fun current covers buffer otherBuffer code otherCode _ _ _ _ ran otherRan => ?_
  rw [Buffer.patchOpSite_apply, offset] at ran
  rw [Buffer.patchOpSite_apply, otherOffset] at otherRan
  split at ran
  case isFalse => cases ran
  case isTrue =>
      split at otherRan
      case isFalse => cases otherRan
      case isTrue =>
          cases ran
          cases otherRan
          obtain ⟨later, fills⟩ := Draft.exists_fills (.opcode op bare) (covers .opcode isGap)
          exact ⟨later, fills.covers, code.filled one.inside fills trivial,
            otherCode.filled two.inside fills trivial, rfl⟩

theorem patch_cons (site : Site) (sites : List Site) (target : Nat) :
    Emitter.patch (site :: sites) target =
      (do Emitter.onBuffer (Buffer.patchTarget site target); Emitter.patch sites target) :=
  onBuffer_bind _ _

theorem patch {sites others : List Site} {target goal : Nat}
    (related : List.Forall₂ (SiteAt one two .target shapes) sites others)
    (offsets : OffsetAt one two target goal) :
    Alongside one two shapes Same (patch sites target) (patch others goal) := by
  induction related with
  | nil =>
      refine onBuffer ?_
      rintro current covers buffer otherBuffer code otherCode _ _ _ _ ⟨⟩ ⟨⟩
      exact ⟨current, .refl _, code, otherCode, rfl⟩
  | @cons site other sites others siteAt _ ih =>
      rw [patch_cons, patch_cons]
      exact (patchTarget siteAt offsets).andThen fun _ => ih

/-- The bytes reserved for a conversion, if there are any. -/
def ReservedAt (one two : Ground) : Kind (Option Site) :=
  fun shapes => Option.Rel (SiteAt one two .opcode shapes)

theorem ReservedAt.mono {later : List Shape} {site other : Option Site}
    (reserved : ReservedAt one two shapes site other) (covers : Draft.Covers shapes later) :
    ReservedAt one two later site other := by
  cases reserved with
  | none => exact .none
  | some siteAt => exact .some (siteAt.mono covers)

theorem convert {site other : Option Site} (reserved : ReservedAt one two shapes site other)
    (source target : Ty) (position : Position) :
    Alongside one two shapes Same (convert source target site position)
      (convert source target other position) := by
  unfold Emitter.convert
  split
  · exact same ()
  · cases conversion : Op.convert? source target with
    | none => exact throw_left
    | some op =>
        have bare := width_of_convert conversion
        cases reserved with
        | none => exact emit bare
        | some siteAt => exact patchOpSite siteAt bare

theorem materialize {pending other : PendingBranch} (branch : BranchAt one two shapes pending other)
    (numeric : Numeric) :
    Alongside one two shapes Same (materialize pending numeric) (materialize other numeric) := by
  refine offset.seq fun _ _ trueStart => (emit (by cases numeric <;> rfl)).andThen fun _ => ?_
  refine emitJump.bind fun later covers _ _ join => ?_
  have branch := branch.mono covers
  exact offset.seq fun _ _ falseStart => (emit (by cases numeric <;> rfl)).andThen fun _ =>
    offset.seq fun _ _ done => (patch (.cons join .nil) done).andThen fun _ =>
      (patch branch.onTrue trueStart).andThen fun _ => patch branch.onFalse falseStart

theorem materializeValue {compiled other : Compiled}
    (compiledAt : CompiledAt one two shapes compiled other) :
    Alongside one two shapes Same (materializeValue compiled) (materializeValue other) := by
  cases compiledAt with
  | value ty => exact same ty
  | branch branch => exact (materialize branch .int).andThen fun _ => same _

theorem resolve {pending other : PendingBranch} (branch : BranchAt one two shapes pending other) :
    Alongside one two shapes Same (do Emitter.onBuffer (pending.resolve (← Emitter.offset)))
      (do Emitter.onBuffer (other.resolve (← Emitter.offset))) := by
  refine offset.seq fun next otherNext offsets => ?_
  rw [onBuffer_resolve, onBuffer_resolve]
  exact (patch branch.onTrue offsets).andThen fun _ => patch branch.onFalse offsets

theorem coerce {compiled other : Compiled} (compiledAt : CompiledAt one two shapes compiled other)
    (target : Ty) (position : Position) :
    Alongside one two shapes Same (coerce compiled target position)
      (coerce other target position) := by
  cases compiledAt with
  | value source => exact convert .none source target position
  | branch branch =>
      cases target with
      | int => exact materialize branch .int
      | double => exact materialize branch .double
      | void => exact resolve branch
      | logic | string | invalid => exact throw_left

theorem branchOnValue {compiled other : Compiled}
    (compiledAt : CompiledAt one two shapes compiled other) (position : Position) :
    Alongside one two shapes (BranchAt one two) (branchOnValue compiled position)
      (branchOnValue other position) := by
  cases compiledAt with
  | branch branch => exact pure fun _ covers => BranchAt.mono branch covers
  | value source =>
      cases source with
      | int => exact (emit rfl).andThen fun _ => emitBranch rfl
      | double =>
          exact (emit rfl).andThen fun _ => (emit rfl).andThen fun _ => (emit rfl).andThen fun _ =>
            emitBranch rfl
      | logic | string | void | invalid => exact throw_left

theorem predictedType (expr : Expr) :
    Alongside one two shapes Same (predictedType expr) (predictedType expr) :=
  ask fun emitter => by rw [typeOf_blind]

theorem resolveVar (name : String) (position : Position) :
    Alongside one two shapes Same (resolveVar name position) (resolveVar name position) :=
  ask fun emitter => by rw [blind, Scopes.resolve?_blind]

theorem reserveConversion (leftTy predicted : Ty) :
    Alongside one two shapes (ReservedAt one two) (reserveConversion leftTy predicted)
      (reserveConversion leftTy predicted) := by
  unfold Emitter.reserveConversion
  split
  · refine reserveOp.bind fun later _ _ _ siteAt => pure fun further covers => ?_
    exact .some (siteAt.mono covers)
  · exact pure fun _ _ => .none

theorem numericType (op : BinOp) (leftTy rightTy : Ty) (position : Position) :
    Alongside one two shapes Same (numericType op leftTy rightTy position)
      (numericType op leftTy rightTy position) := by
  unfold Emitter.numericType
  dsimp only
  split
  · exact same _
  · exact throw_left

theorem convertLeft {site other : Option Site} (reserved : ReservedAt one two shapes site other)
    (op : BinOp) (leftTy common : Ty) (position : Position) :
    Alongside one two shapes Same (convertLeft op leftTy common position site)
      (convertLeft op leftTy common position other) := by
  cases reserved with
  | some siteAt => exact convert (.some siteAt) leftTy common position
  | none =>
      change Alongside one two shapes Same (if leftTy = common then _ else _)
        (if leftTy = common then _ else _)
      split
      · exact same ()
      · exact throw_left

theorem emitOperands {left right : EmitM Compiled}
    (leftRuns : ∀ shapes, Alongside one two shapes (CompiledAt one two) left left)
    (rightRuns : ∀ shapes, Alongside one two shapes (CompiledAt one two) right right) (op : BinOp)
    (predicted : Ty) (position leftPosition rightPosition : Position) :
    Alongside one two shapes Same
      (emitOperands op position predicted left leftPosition right rightPosition)
      (emitOperands op position predicted left leftPosition right rightPosition) := by
  refine (leftRuns shapes).bind fun _ _ _ _ leftAt => ?_
  refine (materializeValue leftAt).andThen fun leftTy => ?_
  refine (reserveConversion leftTy predicted).bind fun between _ _ _ reserved => ?_
  refine (rightRuns between).bind fun _ covers _ _ rightAt => ?_
  exact (materializeValue rightAt).andThen fun rightTy =>
    (numericType op leftTy rightTy position).andThen fun common =>
      (convertLeft (reserved.mono covers) op leftTy common leftPosition).andThen fun _ =>
        (convert .none rightTy common rightPosition).andThen fun _ => same common

theorem emitArithmetic (op : ArithOp) (ty : Ty) (position : Position) :
    Alongside one two shapes (CompiledAt one two) (emitArithmetic op ty position)
      (emitArithmetic op ty position) := by
  unfold Emitter.emitArithmetic
  cases member : op.instr? ty with
  | none => exact throw_left
  | some instr => exact (emit (width_of_instr member)).andThen fun _ => pure fun _ _ => .value ty

theorem emitComparison (op : Comparison) (ty : Ty) :
    Alongside one two shapes (CompiledAt one two) (emitComparison op ty)
      (emitComparison op ty) := by
  refine (emit (by split <;> rfl)).andThen fun _ => (emit rfl).andThen fun _ => ?_
  refine (emitBranch (by cases op <;> rfl)).bind fun _ _ _ _ branch => pure fun _ covers => ?_
  exact .branch (branch.mono covers)

theorem emitLogical {left right : EmitM PendingBranch}
    (leftRuns : ∀ shapes, Alongside one two shapes (BranchAt one two) left left)
    (rightRuns : ∀ shapes, Alongside one two shapes (BranchAt one two) right right)
    (op : Connective) :
    Alongside one two shapes (CompiledAt one two) (emitLogical op left right)
      (emitLogical op left right) := by
  refine (leftRuns shapes).bind fun between _ _ _ leftAt => offset.seq fun _ _ start => ?_
  cases op with
  | and =>
      refine (patch leftAt.onTrue start).andThen fun _ => ?_
      refine (rightRuns between).bind fun _ grown _ _ rightAt => pure fun _ covers => .branch ?_
      have leftAt := leftAt.mono (grown.trans covers)
      have rightAt := rightAt.mono covers
      exact ⟨rightAt.onTrue, List.rel_append leftAt.onFalse rightAt.onFalse⟩
  | or =>
      refine (patch leftAt.onFalse start).andThen fun _ => ?_
      refine (rightRuns between).bind fun _ grown _ _ rightAt => pure fun _ covers => .branch ?_
      have leftAt := leftAt.mono (grown.trans covers)
      have rightAt := rightAt.mono covers
      exact ⟨List.rel_append leftAt.onTrue rightAt.onTrue, rightAt.onFalse⟩

theorem emitNegation {compiled other : Compiled}
    (compiledAt : CompiledAt one two shapes compiled other) (position : Position) :
    Alongside one two shapes (CompiledAt one two) (emitNegation compiled position)
      (emitNegation other position) := by
  refine (materializeValue compiledAt).andThen fun ty => ?_
  cases Numeric.ofTy? ty with
  | none => exact throw_left
  | some numeric =>
      exact (emit (by cases numeric <;> rfl)).andThen fun _ =>
        (emit (by cases numeric <;> rfl)).andThen fun _ => pure fun _ _ => .value ty

mutual

/-- The code of an expression is the same draft wherever it stands. -/
theorem emitExpr : (expr : Expr) → (shapes : List Shape) →
    Alongside one two shapes (CompiledAt one two) (emitExpr expr) (emitExpr expr)
  | .int _ value, _ => by
      rw [Emitter.emitExpr]
      exact (writeAfter (length_littleEndian 8 value.toUInt64.toNat) rfl).andThen fun _ =>
        pure fun _ _ => .value .int
  | .double _ value, _ => by
      rw [Emitter.emitExpr]
      exact (writeAfter (length_littleEndian 8 value.bits.toNat) rfl).andThen fun _ =>
        pure fun _ _ => .value .double
  | .string _ value, _ => by
      rw [Emitter.emitExpr]
      exact (onImage _).andThen fun id => (emitWithWord rfl rfl id).andThen fun _ =>
        pure fun _ _ => .value .string
  | .load position name, _ => by
      rw [Emitter.emitExpr]
      exact (resolveVar name position).andThen fun slot => (emitLoad slot).andThen fun _ =>
        pure fun _ _ => .value slot.ty
  | .binary _ (.logic connective) left right, _ => by
      rw [Emitter.emitExpr]
      exact emitLogical
        (fun shapes => (emitExpr left shapes).bind fun _ _ _ _ leftAt => branchOnValue leftAt _)
        (fun shapes => (emitExpr right shapes).bind fun _ _ _ _ rightAt => branchOnValue rightAt _)
        connective
  | .binary position (.compare comparison) left right, _ => by
      rw [Emitter.emitExpr]
      exact (predictedType right).andThen fun _ =>
        (emitOperands (emitExpr left) (emitExpr right) _ _ _ _ _).andThen fun ty =>
          emitComparison comparison ty
  | .binary position (.arith arith) left right, _ => by
      rw [Emitter.emitExpr]
      exact (predictedType right).andThen fun _ =>
        (emitOperands (emitExpr left) (emitExpr right) _ _ _ _ _).andThen fun ty =>
          emitArithmetic arith ty position
  | .unary _ .not operand, shapes => by
      rw [Emitter.emitExpr]
      refine (emitExpr operand shapes).bind fun _ _ _ _ compiledAt => ?_
      refine (branchOnValue compiledAt _).bind fun _ _ _ _ branch => pure fun _ covers => .branch ?_
      have branch := branch.mono covers
      exact ⟨branch.onFalse, branch.onTrue⟩
  | .unary position .neg operand, shapes => by
      rw [Emitter.emitExpr]
      exact (emitExpr operand shapes).bind fun _ _ _ _ operandAt => emitNegation operandAt position
  | .call position name args, shapes => by
      rw [Emitter.emitExpr]
      refine (ask (callee_blind name args.length position)).andThen fun answer => ?_
      exact (emitArgs args _ shapes).andThen fun _ => (emitWithWord rfl rfl _).andThen fun _ =>
        pure fun _ _ => .value _

theorem emitArgs : (args : List Expr) → (types : List Ty) → (shapes : List Shape) →
    Alongside one two shapes Same (emitArgs args types) (emitArgs args types)
  | [], _, _ => same ()
  | arg :: args, types, shapes => by
      rw [Emitter.emitArgs]
      exact (emitArgs args types.tail shapes).andThen fun _ =>
        (emitExpr arg shapes).bind fun _ _ _ _ compiledAt => coerce compiledAt _ _

end

theorem emitCondition (expr : Expr) :
    Alongside one two shapes (BranchAt one two) (emitCondition expr) (emitCondition expr) :=
  (emitExpr expr shapes).bind fun _ _ _ _ compiledAt => branchOnValue compiledAt _

theorem emitAs (expr : Expr) (ty : Ty) :
    Alongside one two shapes Same (emitAs expr ty) (emitAs expr ty) :=
  (emitExpr expr shapes).bind fun _ _ _ _ compiledAt => coerce compiledAt _ _

end Alongside

end Emitter

end Backpatch
