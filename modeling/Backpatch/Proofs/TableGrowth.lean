import Backpatch.Proofs.Course
import Backpatch.Proofs.ImageTables
import Backpatch.Proofs.Occurrences
import Mathlib.Data.List.Forall2

/-!
# What a compilation adds to the tables of an image

Compiling a part of a program puts new routines behind those in the image, one for every function in
the part and in the order in which the functions are numbered.  Natives are added in the order in
which the functions are compiled, unless their symbol is known already.  On the way blocks are
counted.

This is proved for all parts of a program at once, by what each step adds; at the end stands what is
in the image of a program.
-/

namespace Backpatch

/-- The native that a function stands for, if its symbol has an address. -/
def FnDef.native? (options : Options) : FnDef → Option Native
  | ⟨_, returnType, params, .native symbol, _⟩ =>
      (options.address? symbol).map fun address => ⟨symbol, .ofDecls returnType params, address⟩
  | ⟨_, _, _, .block _, _⟩ => none

/-- Put a native behind others, unless one of them has its name. -/
def Native.insertNew (natives : List Native) (native : Native) : List Native :=
  if native.name ∈ natives.map (·.name) then natives else natives ++ [native]

/-- The natives that there are when functions have been compiled one after the other. -/
def Options.collect (options : Options) (natives : List Native) (occurrences : List Occurrence) :
    List Native :=
  (occurrences.filterMap fun occurrence => occurrence.definition.native? options).foldl
    Native.insertNew natives

theorem Native.isPrefix_insertNew (natives : List Native) (native : Native) :
    natives <+: insertNew natives native := by
  unfold insertNew
  split
  · exact List.prefix_rfl
  · exact List.prefix_append _ _

namespace Options

variable (options : Options) (natives : List Native)

theorem collect_append (occurrences more : List Occurrence) :
    options.collect natives (occurrences ++ more) =
      options.collect (options.collect natives occurrences) more := by
  rw [collect, collect, collect, List.filterMap_append, List.foldl_append]

theorem isPrefix_collect (occurrences : List Occurrence) :
    natives <+: options.collect natives occurrences := by
  unfold collect
  generalize occurrences.filterMap _ = added
  induction added generalizing natives with
  | nil => exact List.prefix_rfl
  | cons native added ih =>
      exact (Native.isPrefix_insertNew natives native).trans (ih (Native.insertNew natives native))

end Options

/-- A call for a native adds it unless its name is known, and gives a number of that name. -/
theorem Image.Consistent.internNative {image after : Image} {native : Native} {id : UInt16}
    (consistent : image.Consistent) (ran : Image.internNative native image = .ok id after) :
    after.Consistent ∧ after.routines = image.routines ∧ after.entry = image.entry ∧
      after.natives.toList = Native.insertNew image.natives.toList native ∧
      after.nativeNames[id.toNat]? = some native.name := by
  have outcome : Addition.Outcome image (.native native) (.ok id after) :=
    ran ▸ (Addition.native native).outcome image
  have absent_iff : image.nativeIds[native.name]? = none ↔ native.name ∉ image.nativeNames :=
    consistent.indexes_natives.getElem?_eq_none_iff
  refine ⟨outcome.consistent consistent, ?_⟩
  have denoted := outcome.denoted consistent
  cases outcome with
  | oldNative known =>
      have listed : native.name ∈ image.nativeNames := by
        refine Decidable.byContradiction fun unlisted => ?_
        rw [absent_iff.mpr unlisted] at known
        cases known
      exact ⟨rfl, rfl, (if_pos listed).symm, denoted⟩
  | newNative absent room =>
      refine ⟨rfl, rfl, ?_, denoted⟩
      rw [Image.pushNative, Array.toList_push]
      exact (if_neg (absent_iff.mp absent)).symm

/-- The code of a function that calls the native of a number and returns. -/
def Buffer.stub (id : UInt16) : Buffer :=
  (Buffer.empty.emitWithWord .callNative id).emit .ret

/-- A context is that of a finished function: the scope of its body is the block that was entered
then, and a function that stands for a native one consists of a call of it. -/
structure Context.Finishes (natives : List String) (occurrence : Occurrence) (context : Context) :
    Prop where
  bodyScope : occurrence.definition.block?.isSome →
    context.bodyScope = some (UInt16.ofNat occurrence.entered)
  stub : ∀ symbol, occurrence.definition.body = .native symbol →
    ∃ id : UInt16, natives[id.toNat]? = some symbol ∧ context.buffer = .stub id

/-- A routine is declared for a function. -/
structure Routine.Declares (definition : FnDef) (routine : Routine) : Prop where
  name : routine.name = definition.name
  signature : routine.signature = definition.signature

/-- The routines are declared for functions, one after the other. -/
abbrev DeclareAll (definitions : List FnDef) (routines : List Routine) : Prop :=
  List.Forall₂ (fun definition routine => Routine.Declares definition routine) definitions routines

/-- A routine is that of a function where it occurs in a program. -/
structure Routine.Fits (natives : List String) (occurrence : Occurrence) (routine : Routine) : Prop
    extends Routine.Declares occurrence.definition routine where
  scopeId : occurrence.definition.block?.isSome →
    routine.scopeId = UInt16.ofNat occurrence.entered
  stub : ∀ symbol, occurrence.definition.body = .native symbol →
    ∃ id : UInt16, natives[id.toNat]? = some symbol ∧ routine.code = .stub id

/-- The routine of a function that has been compiled in a context. -/
def Routine.finish (context : Context) (routine : Routine) : Routine :=
  { routine with
    frame := context.frame
    scopeId := context.bodyScope.getD 0
    code := context.buffer }

section

variable {natives more : List String} {occurrence : Occurrence} {routine : Routine}

theorem Context.Finishes.fits {context : Context} (finishes : context.Finishes natives occurrence)
    (declares : routine.Declares occurrence.definition) :
    (routine.finish context).Fits natives occurrence where
  name := declares.name
  signature := declares.signature
  scopeId isBlock := by rw [Routine.finish, finishes.bodyScope isBlock, Option.getD_some]
  stub := finishes.stub

theorem Routine.Fits.mono (fits : routine.Fits natives occurrence) (isPrefix : natives <+: more) :
    routine.Fits more occurrence := by
  refine { fits with stub := fun symbol isNative => ?_ }
  obtain ⟨id, named, code⟩ := fits.stub symbol isNative
  exact ⟨id, getElem?_of_isPrefix isPrefix named, code⟩

end

/-- The routines are those of the occurrences, one after the other. -/
abbrev FitAll (natives : List String) (occurrences : List Occurrence) (routines : List Routine) :
    Prop :=
  List.Forall₂ (fun occurrence routine => Routine.Fits natives occurrence routine) occurrences
    routines

theorem FitAll.mono {natives more : List String} {occurrences : List Occurrence}
    {routines : List Routine} (fitAll : FitAll natives occurrences routines)
    (isPrefix : natives <+: more) : FitAll more occurrences routines :=
  fitAll.imp fun _ _ fits => fits.mono isPrefix

namespace Emitter

variable {α β : Type} {options : Options} {before middle after : Emitter}
  {first second last : Nat} {registered compiled moreRegistered moreCompiled : List Occurrence}

/-- The tables of an image are in order, and so many blocks have been entered. -/
structure Stands (entered : Nat) (emitter : Emitter) : Prop where
  consistent : emitter.image.Consistent
  nextScope : emitter.scopes.nextScope = UInt16.ofNat entered

/-- Functions have been registered and compiled, and the state is that of the same function. -/
structure Adds (options : Options) (registered compiled : List Occurrence)
    (before after : Emitter) : Prop where
  id : after.scopes.current.id = before.scopes.current.id
  bodyScope : before.scopes.current.bodyScope.isSome →
    after.scopes.current.bodyScope = before.scopes.current.bodyScope
  enclosing : after.scopes.enclosing = before.scopes.enclosing
  entry : after.image.entry = before.image.entry
  natives : after.image.natives.toList = options.collect before.image.natives.toList compiled
  routines : ∃ added, after.image.routines.toList = before.image.routines.toList ++ added ∧
    FitAll after.image.nativeNames registered added

theorem nativeNames_isPrefix
    (natives : after.image.natives.toList = options.collect before.image.natives.toList compiled) :
    before.image.nativeNames <+: after.image.nativeNames := by
  rw [Image.nativeNames, Image.nativeNames, natives]
  exact (options.isPrefix_collect _ compiled).map _

namespace Adds

theorem trans (one : Adds options registered compiled before middle)
    (two : Adds options moreRegistered moreCompiled middle after) :
    Adds options (registered ++ moreRegistered) (compiled ++ moreCompiled) before after := by
  obtain ⟨added, listed, fitAll⟩ := one.routines
  obtain ⟨more, moreListed, moreFitAll⟩ := two.routines
  refine
    { id := two.id.trans one.id
      bodyScope := fun isSome => ?_
      enclosing := two.enclosing.trans one.enclosing
      entry := two.entry.trans one.entry
      natives := by rw [two.natives, one.natives, options.collect_append]
      routines := ⟨added ++ more, ?_, ?_⟩ }
  · have kept := one.bodyScope isSome
    rw [two.bodyScope (kept ▸ isSome), kept]
  · rw [moreListed, listed, List.append_assoc]
  · exact List.rel_append (fitAll.mono (nativeNames_isPrefix two.natives)) moreFitAll

end Adds

/-- The action registers and compiles functions while the number of blocks goes up as given. -/
def Enrols (options : Options) (first last : Nat) (registered compiled : List Occurrence)
    (action : EmitM α) : Prop :=
  ∀ before result after, Stands first before → action before = .ok result after →
    Stands last after ∧ Adds options registered compiled before after

/-- The action enters a block and does the rest inside it. -/
def Enters (options : Options) (first last : Nat) (registered compiled : List Occurrence)
    (action : EmitM α) : Prop :=
  ∀ before result after, Stands first before → action before = .ok result after →
    Stands last after ∧ Adds options registered compiled before.entered after

/-- Neither functions nor natives nor blocks have been added. -/
structure Stays (before after : Emitter) : Prop where
  scopes : before.scopes.Stays after.scopes
  consistent : before.image.Consistent → after.image.Consistent
  entry : after.image.entry = before.image.entry
  natives : after.image.natives = before.image.natives
  routines : after.image.routines = before.image.routines

theorem Stays.of_scopes {scopes : Scopes} (stays : before.scopes.Stays scopes) :
    Stays before { before with scopes := scopes } :=
  ⟨stays, id, rfl, rfl, rfl⟩

theorem Stays.trans (one : Stays before middle) (two : Stays middle after) :
    Stays before after where
  scopes :=
    ⟨two.scopes.id.trans one.scopes.id, two.scopes.bodyScope.trans one.scopes.bodyScope,
      two.scopes.enclosing.trans one.scopes.enclosing,
      two.scopes.nextScope.trans one.scopes.nextScope⟩
  consistent := two.consistent ∘ one.consistent
  entry := two.entry.trans one.entry
  natives := two.natives.trans one.natives
  routines := two.routines.trans one.routines

theorem Plain.stays {action : EmitM α} (plain : Plain action) :
    ∀ before result after, action before = .ok result after → Stays before after := by
  induction plain with
  | pure | get =>
      rintro before result _ ⟨⟩
      exact .of_scopes ⟨rfl, rfl, rfl, rfl⟩
  | throw error =>
      rintro before result after ⟨⟩
  | bind _ _ ihFirst ihRest =>
      intro before result after ran
      obtain ⟨value, middle, began, rest⟩ := exists_of_bind_eq_ok ran
      exact (ihFirst before value middle began).trans (ihRest value middle result after rest)
  | ask question =>
      intro before result after ran
      unfold Emitter.ask at ran
      split at ran
      · cases ran
        exact .of_scopes ⟨rfl, rfl, rfl, rfl⟩
      · cases ran
  | onBuffer action =>
      intro before result after ran
      rw [onBuffer_apply] at ran
      split at ran
      · cases ran
        exact .of_scopes ⟨rfl, rfl, rfl, rfl⟩
      · cases ran
  | constant value =>
      intro before result after ran
      have outcome := (Addition.constant value).outcome before.image
      simp only [Emitter.onImage] at ran
      split at ran
      case h_1 interned =>
          rw [show (Addition.constant value).perform before.image = _ from interned] at outcome
          cases ran
          have consistent := outcome.consistent
          cases outcome <;> exact ⟨⟨rfl, rfl, rfl, rfl⟩, consistent, rfl, rfl, rfl⟩
      case h_2 => cases ran
  | onScopes error stays =>
      intro before result after ran
      simp only [Emitter.onScopes] at ran
      split at ran
      case h_1 changed =>
          cases ran
          exact .of_scopes (stays _ _ _ changed)
      case h_2 => cases ran

theorem Stays.stands {entered : Nat} (stays : Stays before after) (stands : Stands entered before) :
    Stands entered after :=
  ⟨stays.consistent stands.consistent, stays.scopes.nextScope.trans stands.nextScope⟩

theorem Stays.adds (stays : Stays before after) : Adds options [] [] before after where
  id := stays.scopes.id
  bodyScope _ := stays.scopes.bodyScope
  enclosing := stays.scopes.enclosing
  entry := stays.entry
  natives := congrArg Array.toList stays.natives
  routines := ⟨[], by rw [stays.routines, List.append_nil], .nil⟩

namespace Enrols

theorem of_plain {action : EmitM α} (plain : Plain action) :
    Enrols options first first [] [] action := by
  intro before result after stands ran
  have stays := plain.stays before result after ran
  exact ⟨stays.stands stands, stays.adds⟩

theorem bind {action : EmitM α} {next : α → EmitM β}
    (one : Enrols options first second registered compiled action)
    (two : ∀ result, Enrols options second last moreRegistered moreCompiled (next result)) :
    Enrols options first last (registered ++ moreRegistered) (compiled ++ moreCompiled)
      (action >>= next) := by
  intro before result after stands ran
  obtain ⟨value, middle, began, rest⟩ := exists_of_bind_eq_ok ran
  obtain ⟨middleStands, addsFirst⟩ := one before value middle stands began
  obtain ⟨afterStands, addsRest⟩ := two value middle result after middleStands rest
  exact ⟨afterStands, addsFirst.trans addsRest⟩

theorem after_plain {action : EmitM α} {next : α → EmitM β} (plain : Plain action)
    (rest : ∀ result, Enrols options first last registered compiled (next result)) :
    Enrols options first last registered compiled (action >>= next) :=
  (of_plain plain).bind rest

theorem before_plain {action : EmitM α} {next : α → EmitM β}
    (one : Enrols options first last registered compiled action)
    (plain : ∀ result, Plain (next result)) :
    Enrols options first last registered compiled (action >>= next) := by
  have both := one.bind fun result => of_plain (plain result)
  rwa [List.append_nil, List.append_nil] at both

/-- What is added are the functions that are registered and those that are compiled; an expression
adds none. -/
theorem graded (options : Options) :
    Graded
      (fun first last (added : List Occurrence × List Occurrence) action =>
        Enrols options first last added.1 added.2 action)
      ([], []) (fun one two => (one.1 ++ two.1, one.2 ++ two.2)) fun _ => ([], []) := by
  refine .of_plain (fun _ => rfl) (fun added => ?_) of_plain (fun error => ?_) bind
  · simp only [List.append_nil]
  · rintro before result after - ⟨⟩

theorem emitIf {thenBlock elseBlock : EmitM Unit} (cond : Expr)
    (one : Enrols options first second registered compiled thenBlock)
    (two : Enrols options second last moreRegistered moreCompiled elseBlock) :
    Enrols options first last (registered ++ moreRegistered) (compiled ++ moreCompiled)
      (emitIf cond thenBlock elseBlock) := by
  have both := (graded options).emitIf (s := (registered, compiled))
    (t := (moreRegistered, moreCompiled)) cond one two
  simpa only [List.append_nil] using both

theorem emitWhile {body : EmitM Unit} (cond : Expr)
    (one : Enrols options first last registered compiled body) :
    Enrols options first last registered compiled (emitWhile cond body) :=
  (graded options).emitWhile (s := (registered, compiled)) cond one

theorem emitFor {body : EmitM Unit} (position : Position) (name : String) (low high : Expr)
    (one : Enrols options first last registered compiled body) :
    Enrols options first last registered compiled (emitFor position name low high body) :=
  (graded options).emitFor (s := (registered, compiled)) position name low high one

end Enrols

/-- A block inside a function leaves the scope of the body of the function as it is. -/
theorem Enters.enrols {action : EmitM α}
    (enters : Enters options first last registered compiled action) :
    Enrols options first last registered compiled action := by
  intro before result after stands ran
  obtain ⟨afterStands, adds⟩ := enters before result after stands ran
  refine ⟨afterStands, { adds with bodyScope := fun isSome => ?_ }⟩
  obtain ⟨scope, known⟩ := Option.isSome_iff_exists.mp isSome
  have entered : before.entered.scopes.current.bodyScope = some scope := by
    change before.scopes.current.bodyScope.or (some before.scopes.nextScope) = some scope
    rw [known, Option.some_or]
  rw [adds.bodyScope (Option.isSome_of_eq_some entered), entered, known]

/-- Functions have been declared under the next numbers, with a routine for each behind the
others. -/
structure DeclaresAll (definitions : List FnDef) (ids : List UInt16) (before after : Emitter) :
    Prop where
  scopes : before.scopes.Stays after.scopes
  consistent : before.image.Consistent → after.image.Consistent
  entry : after.image.entry = before.image.entry
  natives : after.image.natives = before.image.natives
  ids : ids = FnDef.numbers before.image.routines.size definitions
  routines : ∃ declared, after.image.routines.toList = before.image.routines.toList ++ declared ∧
    DeclareAll definitions declared

theorem numbers_append (number : Nat) (definitions more : List FnDef) :
    FnDef.numbers number (definitions ++ more) =
      FnDef.numbers number definitions ++ FnDef.numbers (number + definitions.length) more := by
  induction definitions generalizing number with
  | nil => rfl
  | cons definition definitions ih =>
      rw [List.cons_append, FnDef.numbers, ih, FnDef.numbers, List.cons_append, List.length_cons,
        Nat.add_right_comm, Nat.add_assoc]

theorem Stays.declaresAll (stays : Stays before after) : DeclaresAll [] [] before after :=
  { stays with ids := rfl, routines := ⟨[], by rw [stays.routines, List.append_nil], .nil⟩ }

theorem DeclaresAll.trans {definitions more : List FnDef} {ids moreIds : List UInt16}
    (one : DeclaresAll definitions ids before middle)
    (two : DeclaresAll more moreIds middle after) :
    DeclaresAll (definitions ++ more) (ids ++ moreIds) before after := by
  obtain ⟨declared, listed, matched⟩ := one.routines
  obtain ⟨later, laterListed, laterMatched⟩ := two.routines
  have size : middle.image.routines.size = before.image.routines.size + definitions.length := by
    rw [← Array.length_toList, listed, List.length_append, Array.length_toList, matched.length_eq]
  refine
    { scopes := ?_
      consistent := two.consistent ∘ one.consistent
      entry := two.entry.trans one.entry
      natives := two.natives.trans one.natives
      ids := by rw [numbers_append, ← size, ← one.ids, ← two.ids]
      routines := ⟨declared ++ later, ?_, List.rel_append matched laterMatched⟩ }
  · exact ⟨two.scopes.id.trans one.scopes.id, two.scopes.bodyScope.trans one.scopes.bodyScope,
      two.scopes.enclosing.trans one.scopes.enclosing,
      two.scopes.nextScope.trans one.scopes.nextScope⟩
  · rw [laterListed, listed, List.append_assoc]

theorem declaresAll_of_declareFunction {definition : FnDef} {id : UInt16}
    (ran : declareFunction definition before = .ok id after) :
    DeclaresAll [definition] [id] before after := by
  obtain ⟨number, middle, added, rest⟩ := exists_of_bind_eq_ok ran
  obtain ⟨image, numbered, rfl⟩ := exists_of_onImage_eq_ok added
  rw [Image.addRoutine_eq] at numbered
  split at numbered
  · cases numbered
  case isFalse room =>
      cases numbered
      have named : Plain (do
          onScopes (fun scopes => (scopes.declareFunction? definition.name
            (UInt16.ofNat before.image.routines.size)).map ((), ·))
            (.duplicateFunction definition.name definition.position)
          return UInt16.ofNat before.image.routines.size) := by
        refine (Plain.onScopes _ fun scopes result later changed => ?_).bind fun _ => .pure _
        obtain ⟨scopes, declared, same⟩ := Option.map_eq_some_iff.mp changed
        cases same
        exact Scopes.stays_of_declareFunction? declared
      have stays := named.stays _ _ _ rest
      obtain ⟨_, _, _, finished⟩ := exists_of_bind_eq_ok rest
      cases finished
      have declares : DeclaresAll [definition] [UInt16.ofNat before.image.routines.size] before
          { before with image := before.image.numbered definition } := by
        refine ⟨⟨rfl, rfl, rfl, rfl⟩, fun consistent => ?_, rfl, rfl, rfl, [_],
          Array.toList_push, .cons ⟨rfl, rfl⟩ .nil⟩
        exact consistent.pushRoutine (Nat.le_of_not_lt room)
      exact declares.trans stays.declaresAll

theorem declaresAll_of_declareFunctions (definitions : List FnDef) {ids : List UInt16}
    (ran : definitions.mapM declareFunction before = .ok ids after) :
    DeclaresAll definitions ids before after := by
  induction definitions generalizing before ids with
  | nil =>
      cases ran
      exact Stays.declaresAll (.of_scopes ⟨rfl, rfl, rfl, rfl⟩)
  | cons definition definitions ih =>
      rw [List.mapM_cons] at ran
      obtain ⟨id, middle, declared, ran⟩ := exists_of_bind_eq_ok ran
      obtain ⟨rest, last, declaredRest, finished⟩ := exists_of_bind_eq_ok ran
      cases finished
      exact (declaresAll_of_declareFunction declared).trans (ih declaredRest)

theorem declaresAll_of_declareBlock {vars : List VarDecl} {definitions : List FnDef}
    {ids : List UInt16} (ran : declareBlock vars definitions before = .ok ids after) :
    DeclaresAll definitions ids before after := by
  obtain ⟨_, middle, declaredVars, declared⟩ := exists_of_bind_eq_ok ran
  have stays := (Plain.forM .declareVar vars).stays _ _ _ declaredVars
  exact stays.declaresAll.trans (declaresAll_of_declareFunctions definitions declared)

theorem eq_of_ask_eq_ok {question : Emitter → Except CompileError α} {result : α}
    (ran : ask question before = .ok result after) : after = before := by
  unfold ask at ran
  split at ran
  · cases ran
    rfl
  · cases ran

theorem eq_of_storeRoutine_eq_ok {context : Context} {result : Unit}
    (ran : storeRoutine context before = .ok result after) :
    after =
      { before with
        image := before.image.modifyRoutine context.id (Routine.finish context) } := by
  obtain ⟨_, middle, asked, modified⟩ := exists_of_bind_eq_ok ran
  obtain rfl := eq_of_ask_eq_ok asked
  cases modified
  rfl

theorem eq_of_closeFunction_eq_ok {outer : Context} {enclosing : List Context} {result : Unit}
    (enclosed : before.scopes.enclosing = outer :: enclosing)
    (ran : Strict.closeFunction before = .ok result after) :
    after = before.closed outer enclosing := by
  obtain ⟨_, middle, asked, closed⟩ := exists_of_bind_eq_ok ran
  obtain rfl := eq_of_ask_eq_ok asked
  obtain ⟨context, popped, pops, stored⟩ := exists_of_bind_eq_ok closed
  simp only [onScopes, Scopes.pop?, enclosed] at pops
  cases pops
  exact eq_of_storeRoutine_eq_ok stored

theorem eq_of_finish_eq_ok {result : Unit} (top : before.scopes.enclosing = [])
    (ran : Strict.finish before = .ok result after) :
    after = before.closed before.scopes.current [] := by
  obtain ⟨_, middle, got, stored⟩ := exists_of_bind_eq_ok ran
  cases got
  have current : before.scopes.top = before.scopes.current := by
    rw [Scopes.top, top]
    rfl
  rw [eq_of_storeRoutine_eq_ok stored, current, closed, ← top]
  rfl

theorem modify_append_cons {earlier others : List α} {item : α} (change : α → α) :
    (earlier ++ item :: others).modify earlier.length change =
      earlier ++ change item :: others := by
  induction earlier with
  | nil => rfl
  | cons head earlier ih => exact congrArg (head :: ·) ih

/-- Ending a function finishes the routine that was declared for it. -/
theorem toList_routines_closed {outer : Context} {enclosing : List Context}
    {earlier others : List Routine} {routine : Routine}
    (consistent : before.image.Consistent)
    (listed : before.image.routines.toList = earlier ++ routine :: others)
    (id : before.scopes.current.id = UInt16.ofNat earlier.length) :
    (before.closed outer enclosing).image.routines.toList =
      earlier ++ routine.finish before.scopes.current :: others := by
  have found : before.image.routines[earlier.length]? = some routine := by
    rw [← Array.getElem?_toList, listed, List.getElem?_append_right (Nat.le_refl _), Nat.sub_self,
      List.getElem?_cons_zero]
  obtain ⟨number, -, same⟩ := Option.map_eq_some_iff.mp (consistent.numbered _ _ found)
  have position : before.scopes.current.id.toNat = earlier.length := by
    rw [id, ← same, UInt16.ofNat_toNat]
  change (before.image.routines.modify before.scopes.current.id.toNat
    (Routine.finish before.scopes.current)).toList = _
  rw [Array.toList_modify, position, listed, modify_append_cons]

theorem Stands.closed {entered : Nat} (stands : Stands entered before) (outer : Context)
    (enclosing : List Context) : Stands entered (before.closed outer enclosing) :=
  ⟨stands.consistent.modifyRoutine _ (fun _ => rfl) fun _ => rfl, stands.nextScope⟩

/-- A function has been compiled in the state in which it was begun. -/
structure AddsBody (options : Options) (occurrence : Occurrence)
    (registered compiled : List Occurrence) (before after : Emitter) : Prop
    extends Adds options registered (occurrence :: compiled) before after where
  finishes : after.scopes.current.Finishes after.image.nativeNames occurrence

/-- Functions that have been declared between other routines are compiled, and what is registered
meanwhile stands behind all. -/
structure AddsFunctions (options : Options) (earlier others : List Routine)
    (own nested compiled : List Occurrence) (before after : Emitter) : Prop where
  current : after.scopes.current = before.scopes.current
  enclosing : after.scopes.enclosing = before.scopes.enclosing
  entry : after.image.entry = before.image.entry
  natives : after.image.natives.toList = options.collect before.image.natives.toList compiled
  routines : ∃ finished inner,
    after.image.routines.toList = earlier ++ (finished ++ (others ++ inner)) ∧
      FitAll after.image.nativeNames own finished ∧ FitAll after.image.nativeNames nested inner

theorem addsFunctions_of_function {body : EmitM Unit} {returnType : Ty} {occurrence : Occurrence}
    {earlier others : List Routine} {routine : Routine} {result : Unit}
    (adds : ∀ result inner, body (before.pushed (UInt16.ofNat earlier.length) returnType) =
      .ok result inner → Stands last inner ∧
        AddsBody options occurrence registered compiled
          (before.pushed (UInt16.ofNat earlier.length) returnType) inner)
    (listed : before.image.routines.toList = earlier ++ routine :: others)
    (declares : routine.Declares occurrence.definition)
    (ran : Strict.function (UInt16.ofNat earlier.length) returnType body before =
      .ok result after) :
    Stands last after ∧
      AddsFunctions options earlier others [occurrence] registered (occurrence :: compiled) before
        after := by
  obtain ⟨_, _, ⟨⟩, ran⟩ := exists_of_bind_eq_ok ran
  obtain ⟨_, inner, compiles, closes⟩ := exists_of_bind_eq_ok ran
  obtain ⟨stands, addsBody⟩ := adds _ _ compiles
  have enclosed : inner.scopes.enclosing = before.scopes.current :: before.scopes.enclosing :=
    addsBody.enclosing
  obtain rfl := eq_of_closeFunction_eq_ok enclosed closes
  refine ⟨stands.closed _ _, rfl, rfl, addsBody.entry, addsBody.natives, ?_⟩
  obtain ⟨added, innerListed, fitAll⟩ := addsBody.routines
  have split : inner.image.routines.toList = earlier ++ routine :: (others ++ added) := by
    rw [innerListed]
    change before.image.routines.toList ++ added = _
    rw [listed, List.append_assoc, List.cons_append]
  -- The routine keeps its place among the others when the code is put into it.
  refine ⟨[routine.finish inner.scopes.current], added, ?_, ?_, fitAll⟩
  · exact toList_routines_closed stands.consistent split addsBody.id
  · exact .cons (addsBody.finishes.fits declares) .nil

/-- The functions of a block are compiled one after the other. -/
theorem AddsFunctions.cons {earlier others rest finished inner : List Routine}
    {occurrence : Occurrence} {own nested moreNested : List Occurrence}
    (one : AddsFunctions options earlier (rest ++ others) [occurrence] nested compiled before
      middle)
    (fits : FitAll middle.image.nativeNames [occurrence] finished)
    (fitAll : FitAll middle.image.nativeNames nested inner)
    (two : AddsFunctions options (earlier ++ finished) (others ++ inner) own moreNested moreCompiled
      middle after) :
    AddsFunctions options earlier others (occurrence :: own) (nested ++ moreNested)
      (compiled ++ moreCompiled) before after := by
  obtain ⟨later, more, moreListed, laterFit, moreFit⟩ := two.routines
  have isPrefix := nativeNames_isPrefix two.natives
  refine
    { current := two.current.trans one.current
      enclosing := two.enclosing.trans one.enclosing
      entry := two.entry.trans one.entry
      natives := by rw [two.natives, one.natives, options.collect_append]
      routines := ⟨finished ++ later, inner ++ more, ?_, ?_, ?_⟩ }
  · simpa only [List.append_assoc] using moreListed
  · exact List.rel_append (fits.mono isPrefix) laterFit
  · exact List.rel_append (fitAll.mono isPrefix) moreFit

/-- The action compiles a function that has just been begun. -/
def CompilesBody (options : Options) (first last : Nat) (occurrence : Occurrence)
    (registered compiled : List Occurrence) (action : EmitM Unit) : Prop :=
  ∀ before result after, Stands first before → before.scopes.current.bodyScope = none →
    before.buffer = .empty → action before = .ok result after →
      Stands last after ∧ AddsBody options occurrence registered compiled before after

/-- The action compiles functions that have been declared under the given numbers. -/
def CompilesFunctions (options : Options) (first last : Nat) (definitions : List FnDef)
    (own nested compiled : List Occurrence) (action : List UInt16 → EmitM Unit) : Prop :=
  ∀ before result after earlier declared others, Stands first before →
    before.image.routines.toList = earlier ++ (declared ++ others) →
    DeclareAll definitions declared →
    action (FnDef.numbers earlier.length definitions) before = .ok result after →
      Stands last after ∧ AddsFunctions options earlier others own nested compiled before after

/-- A function that stands for a native one calls it. -/
theorem compilesBody_native (path : Path) (entered : Nat) {name : String} {returnType : Ty}
    {params : List ParamDecl} {symbol : String} {position : Position} :
    CompilesBody options entered entered
      ⟨path, entered, ⟨name, returnType, params, .native symbol, position⟩⟩ [] []
      (Strict.body options ⟨name, returnType, params, .native symbol, position⟩) := by
  intro before result after stands _ fresh ran
  rw [Strict.body] at ran
  obtain ⟨_, called, calls, returns⟩ := exists_of_bind_eq_ok ran
  unfold emitNativeCall at calls
  cases bound : options.address? symbol with
  | none =>
      rw [bound] at calls
      cases calls
  | some address =>
      rw [bound] at calls
      obtain ⟨id, interned, interns, writes⟩ := exists_of_bind_eq_ok calls
      obtain ⟨image, known, rfl⟩ := exists_of_onImage_eq_ok interns
      cases writes
      cases returns
      obtain ⟨consistent, sameRoutines, sameEntry, natives, named⟩ :=
        stands.consistent.internNative known
      refine ⟨⟨consistent, stands.nextScope⟩, ⟨rfl, fun _ => rfl, rfl, sameEntry, ?_, [], ?_, .nil⟩,
        fun isBlock => ?_, fun other isNative => ?_⟩
      · simpa [Options.collect, FnDef.native?, bound] using natives
      · rw [List.append_nil]
        exact congrArg Array.toList sameRoutines
      · cases isBlock
      · cases isNative
        refine ⟨id, named, ?_⟩
        change (before.buffer.emitWithWord .callNative id).emit .ret = .stub id
        rw [fresh, Buffer.stub]

/-- The scope of the body of a function is its first block. -/
theorem compilesBody_block (path : Path) (entered : Nat) {name : String} {returnType : Ty}
    {params : List ParamDecl} {block : Block} {position : Position}
    (enters : Enters options entered last registered compiled (Strict.block options block)) :
    CompilesBody options entered last
      ⟨path, entered, ⟨name, returnType, params, .block block, position⟩⟩ registered compiled
      (Strict.body options ⟨name, returnType, params, .block block, position⟩) := by
  intro before result after stands unentered _ ran
  rw [Strict.body] at ran
  have enrols := Enrols.after_plain (.forM (.emitParam position) params) fun _ =>
    enters.enrols.before_plain fun _ => .emit .ret
  obtain ⟨afterStands, adds⟩ := enrols before result after stands ran
  refine ⟨afterStands, { adds with natives := adds.natives }, fun _ => ?_, ?_⟩
  · obtain ⟨_, stored, stores, ran⟩ := exists_of_bind_eq_ok ran
    obtain ⟨_, done, compiles, returns⟩ := exists_of_bind_eq_ok ran
    have storing := (Plain.forM (.emitParam position) params).stays _ _ _ stores
    have returning := (Plain.emit .ret).stays _ _ _ returns
    obtain ⟨-, inside⟩ := enters _ _ _ (storing.stands stands) compiles
    -- No block of the function was entered before, and no later one changes its scope.
    have bodyScope : stored.entered.scopes.current.bodyScope = some (UInt16.ofNat entered) := by
      change stored.scopes.current.bodyScope.or (some stored.scopes.nextScope) = _
      rw [storing.scopes.bodyScope, unentered, Option.none_or, (storing.stands stands).nextScope]
    rw [returning.scopes.bodyScope, inside.bodyScope (Option.isSome_of_eq_some bodyScope),
      bodyScope]
  · rintro symbol ⟨⟩

theorem Stands.entered {entered : Nat} (stands : Stands entered before) :
    Stands (entered + 1) before.entered := by
  refine ⟨stands.consistent, ?_⟩
  change before.scopes.nextScope + 1 = _
  rw [stands.nextScope, UInt16.ofNat_add]
  rfl

theorem stays_exited (emitter : Emitter) : Stays emitter emitter.exited :=
  .of_scopes ⟨rfl, rfl, rfl, rfl⟩

theorem DeclaresAll.stands {entered : Nat} {definitions : List FnDef} {ids : List UInt16}
    (declares : DeclaresAll definitions ids before after) (stands : Stands entered before) :
    Stands entered after :=
  ⟨declares.consistent stands.consistent, declares.scopes.nextScope.trans stands.nextScope⟩

/-- Functions are declared and then compiled. -/
theorem DeclaresAll.adds {definitions : List FnDef} {ids : List UInt16}
    {own nested : List Occurrence} (declares : DeclaresAll definitions ids before middle)
    (adds : AddsFunctions options before.image.routines.toList [] own nested compiled middle
      after) :
    Adds options (own ++ nested) compiled before after where
  id := (congrArg Context.id adds.current).trans declares.scopes.id
  bodyScope _ := (congrArg Context.bodyScope adds.current).trans declares.scopes.bodyScope
  enclosing := adds.enclosing.trans declares.scopes.enclosing
  entry := adds.entry.trans declares.entry
  natives := by rw [adds.natives, declares.natives]
  routines := by
    obtain ⟨finished, behind, listed, fitOwn, fitNested⟩ := adds.routines
    exact ⟨finished ++ behind, listed, List.rel_append fitOwn fitNested⟩

/-- A block declares its functions, compiles them, and then compiles its statements. -/
theorem enters_block_of_parts {entered : Nat} {vars : List VarDecl} {definitions : List FnDef}
    {stmts : List Stmt} {own nested : List Occurrence}
    (functions : CompilesFunctions options (entered + 1) second definitions own nested compiled
      (Strict.functions options definitions))
    (rest : Enrols options second last moreRegistered moreCompiled (Strict.stmts options stmts)) :
    Enters options entered last (own ++ nested ++ moreRegistered) (compiled ++ moreCompiled)
      (Strict.block options ⟨vars, definitions, stmts⟩) := by
  intro before result after stands ran
  rw [Strict.block] at ran
  obtain ⟨_, _, ⟨⟩, ran⟩ := exists_of_bind_eq_ok ran
  obtain ⟨ids, declared, declaring, ran⟩ := exists_of_bind_eq_ok ran
  obtain ⟨_, inner, compiling, ran⟩ := exists_of_bind_eq_ok ran
  obtain ⟨_, done, finishing, ⟨⟩⟩ := exists_of_bind_eq_ok ran
  have declares := declaresAll_of_declareBlock declaring
  obtain ⟨routines, listed, matched⟩ := declares.routines
  rw [declares.ids, ← Array.length_toList] at compiling
  obtain ⟨innerStands, ofFunctions⟩ := functions declared _ inner _ routines []
    (declares.stands stands.entered) (by rw [List.append_nil]; exact listed) matched compiling
  obtain ⟨doneStands, ofStmts⟩ := rest _ _ _ innerStands finishing
  have exits := stays_exited done
  refine ⟨exits.stands doneStands, ?_⟩
  have whole := ((declares.adds ofFunctions).trans ofStmts).trans (Stays.adds exits)
  rwa [List.append_nil, List.append_nil] at whole

theorem compilesFunctions_nil {entered : Nat} :
    CompilesFunctions options entered entered [] [] [] [] (Strict.functions options []) := by
  intro before result after earlier declared others stands listed matched ran
  cases matched
  rw [Strict.functions] at ran
  · cases ran
    exact ⟨stands, rfl, rfl, rfl, rfl, [], [], by rw [listed, List.append_nil], .nil, .nil⟩
  · rintro _ _ _ _ ⟨⟩

theorem compilesFunctions_cons {entered : Nat} {path : Path} {definition : FnDef}
    {definitions : List FnDef} {own nested moreNested : List Occurrence}
    (one : CompilesBody options entered second ⟨path, entered, definition⟩ nested compiled
      (Strict.body options definition))
    (rest : CompilesFunctions options second last definitions own moreNested moreCompiled
      (Strict.functions options definitions)) :
    CompilesFunctions options entered last (definition :: definitions)
      (⟨path, entered, definition⟩ :: own) (nested ++ moreNested)
      (⟨path, entered, definition⟩ :: (compiled ++ moreCompiled))
      (Strict.functions options (definition :: definitions)) := by
  intro before result after earlier declared others stands listed matched ran
  obtain ⟨routine, later, declares, matchedLater, rfl⟩ := List.forall₂_cons_left_iff.mp matched
  rw [FnDef.numbers, Strict.functions] at ran
  obtain ⟨_, middle, compiling, compilingRest⟩ := exists_of_bind_eq_ok ran
  rw [List.cons_append] at listed
  obtain ⟨middleStands, adds⟩ := addsFunctions_of_function
    (fun result inner => one _ result inner ⟨stands.consistent, stands.nextScope⟩ rfl rfl) listed
    declares compiling
  obtain ⟨finished, inner, middleListed, fits, fitAll⟩ := adds.routines
  have length : (earlier ++ finished).length = earlier.length + 1 := by
    rw [List.length_append, ← fits.length_eq]
    rfl
  obtain ⟨afterStands, addsRest⟩ := rest middle _ after (earlier ++ finished) later
    (others ++ inner) middleStands (by rw [middleListed]; simp only [List.append_assoc])
    matchedLater (by rw [length]; exact compilingRest)
  exact ⟨afterStands, adds.cons fits fitAll addsRest⟩

mutual

theorem enrols_stmt (options : Options) (path : Path) (index entered : Nat) : (stmt : Stmt) →
    Enrols options entered (entered + stmt.blockCount) (stmt.registered path index entered)
      (stmt.compiled path index entered) (Strict.stmt options stmt)
  | .store _ _ _ _ => by
      rw [Strict.stmt, Stmt.registered, Stmt.compiled, Stmt.blockCount]
      exact .of_plain (.emitAssignment _ _ _ _)
  | .ifElse cond thenBlock none => by
      rw [Strict.stmt, Stmt.registered, Stmt.compiled, Stmt.blockCount]
      have enrols := (enters_block options (.stmt index 0 :: path) entered thenBlock).enrols.emitIf
        cond (.of_plain (.pure ()))
      rwa [List.append_nil, List.append_nil] at enrols
  | .ifElse cond thenBlock (some elseBlock) => by
      rw [Strict.stmt, Stmt.registered, Stmt.compiled, Stmt.blockCount, ← Nat.add_assoc]
      exact (enters_block options _ _ thenBlock).enrols.emitIf cond
        (enters_block options _ _ elseBlock).enrols
  | .whileDo cond body => by
      rw [Strict.stmt, Stmt.registered, Stmt.compiled, Stmt.blockCount]
      exact (enters_block options _ _ body).enrols.emitWhile cond
  | .forRange _ _ _ _ body => by
      rw [Strict.stmt, Stmt.registered, Stmt.compiled, Stmt.blockCount]
      exact (enters_block options _ _ body).enrols.emitFor _ _ _ _
  | .print _ args => by
      rw [Strict.stmt, Stmt.registered, Stmt.compiled, Stmt.blockCount]
      exact .of_plain (.forM .emitPrint args)
  | .ret _ _ => by
      rw [Strict.stmt, Stmt.registered, Stmt.compiled, Stmt.blockCount]
      exact .of_plain (.emitReturn _ _)
  | .expr value => by
      rw [Strict.stmt, Stmt.registered, Stmt.compiled, Stmt.blockCount]
      exact .of_plain (.emitDiscarded value)
  | .block body => by
      rw [Strict.stmt, Stmt.registered, Stmt.compiled, Stmt.blockCount]
      exact (enters_block options _ _ body).enrols

theorem enrols_stmts (options : Options) (path : Path) (index entered : Nat) :
    (stmts : List Stmt) → Enrols options entered (entered + Stmt.blockCountAll stmts)
      (Stmt.registeredAll path index entered stmts) (Stmt.compiledAll path index entered stmts)
      (Strict.stmts options stmts)
  | [] => by
      rw [Strict.stmts, Stmt.registeredAll, Stmt.compiledAll, Stmt.blockCountAll]
      exact .of_plain (.pure ())
  | stmt :: stmts => by
      rw [Strict.stmts, Stmt.registeredAll, Stmt.compiledAll, Stmt.blockCountAll, ← Nat.add_assoc]
      exact (enrols_stmt options path index entered stmt).bind fun _ =>
        enrols_stmts options path (index + 1) _ stmts

theorem enters_block (options : Options) (path : Path) (entered : Nat) : (block : Block) →
    Enters options entered (entered + block.blockCount) (block.registered path entered)
      (block.compiled path entered) (Strict.block options block)
  | ⟨_, functions, stmts⟩ => by
      rw [Block.registered, Block.compiled, Block.blockCount, ← Nat.add_assoc, ← Nat.add_assoc]
      exact enters_block_of_parts (compilesFunctions options path 0 (entered + 1) functions)
        (enrols_stmts options path 0 _ stmts)

theorem compilesFunctions (options : Options) (path : Path) (index entered : Nat) :
    (definitions : List FnDef) →
      CompilesFunctions options entered (entered + FnDef.blockCountAll definitions) definitions
        (FnDef.occurrences path index entered definitions)
        (FnDef.registeredAll path index entered definitions)
        (FnDef.compiledAll path index entered definitions) (Strict.functions options definitions)
  | [] => by
      rw [FnDef.occurrences, FnDef.registeredAll, FnDef.compiledAll, FnDef.blockCountAll]
      exact compilesFunctions_nil
  | definition :: definitions => by
      rw [FnDef.occurrences, FnDef.registeredAll, FnDef.compiledAll, FnDef.blockCountAll,
        ← Nat.add_assoc]
      exact compilesFunctions_cons (compilesBody options _ entered definition)
        (compilesFunctions options path (index + 1) _ definitions)

theorem compilesBody (options : Options) (path : Path) (entered : Nat) : (definition : FnDef) →
    CompilesBody options entered (entered + definition.blockCount) ⟨path, entered, definition⟩
      (definition.registered path entered) (definition.compiled path entered)
      (Strict.body options definition)
  | ⟨_, _, _, .block block, _⟩ => by
      rw [FnDef.registered, FnDef.compiled, FnDef.blockCount]
      exact compilesBody_block path entered (enters_block options path entered block)
  | ⟨_, _, _, .native _, _⟩ => by
      rw [FnDef.registered, FnDef.compiled, FnDef.blockCount]
      exact compilesBody_native path entered

end

end Emitter

/-- The tables of an image list the functions and the natives of a program. -/
structure Image.Lists (image : Image) (options : Options) (program : Program) : Prop where
  consistent : image.Consistent
  entry : image.entry = 0
  natives : image.natives.toList = options.collect [] program.compiled
  routines : FitAll image.nativeNames program.registered image.routines.toList

open Emitter in
/-- The image of a program lists its functions and natives. -/
theorem Program.lists_of_compile {program : Program} {options : Options} {image : Image}
    (compiles : program.compile options = .ok image) : image.Lists options program := by
  rw [program.compile_eq_emit, program.emit_eq_run] at compiles
  cases ran : Strict.run options program with
  | error error after =>
      rw [ran] at compiles
      cases compiles
  | ok result after =>
      rw [ran] at compiles
      cases compiles
      have started : Stands 0 (Emitter.start program) :=
        ⟨Image.consistent_empty.pushRoutine (Nat.zero_le _), rfl⟩
      obtain ⟨_, done, body, finishing⟩ := exists_of_bind_eq_ok ran
      obtain ⟨stands, adds⟩ := compilesBody options [] 0 program.top _ _ _ started rfl rfl body
      obtain rfl := eq_of_finish_eq_ok adds.enclosing finishing
      obtain ⟨added, listed, fitAll⟩ := adds.routines
      refine ⟨(stands.closed _ _).consistent, adds.entry, adds.natives, ?_⟩
      have finished : (done.closed done.scopes.current []).image.routines.toList =
          [] ++ Routine.finish done.scopes.current _ :: added :=
        toList_routines_closed stands.consistent listed adds.id
      rw [finished]
      exact .cons (adds.finishes.fits ⟨rfl, rfl⟩) fitAll

/-- The routine of a function is at the index at which the function is listed. -/
theorem Image.Lists.exists_routine {image : Image} {options : Options} {program : Program}
    {index : Nat} {occurrence : Occurrence} (lists : image.Lists options program)
    (found : program.registered[index]? = some occurrence) :
    ∃ routine, image.routines[index]? = some routine ∧
      routine.Fits image.nativeNames occurrence := by
  obtain ⟨inside, rfl⟩ := List.getElem?_eq_some_iff.mp found
  have insideRoutines := lists.routines.length_eq ▸ inside
  refine ⟨image.routines.toList[index], ?_, lists.routines.get inside insideRoutines⟩
  rw [← Array.getElem?_toList, List.getElem?_eq_getElem insideRoutines]

end Backpatch
