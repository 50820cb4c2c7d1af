import Backpatch.Proofs.EmissionStmt

/-!
# What is written for blocks and functions

Declarations change what names mean just as the environment says, and a block leaves nothing behind
but the numbers it has used.  A function inside another one is compiled into a buffer of its own; at
its end no place of that buffer is open, and what has been written there is the code of its routine.

The functions of a block have their numbers before any of them is compiled, and each keeps its code
once it has been given it.  So after the whole block, all functions defined in it are finished.
-/

namespace Backpatch

/-- The image in which a function has been given the next number. -/
def Image.numbered (image : Image) (definition : FnDef) : Image :=
  let id := UInt16.ofNat image.routines.size
  { image with
    routineIds := image.routineIds.insertIfNew definition.name id
    routines := image.routines.push
      { Routine.declare definition.name definition.signature with id := some id } }

/-- The numbers of functions that are numbered from a given number on. -/
def FnDef.numbers (first : Nat) : List FnDef → List UInt16
  | [] => []
  | _ :: definitions => UInt16.ofNat first :: FnDef.numbers (first + 1) definitions

theorem FnDef.length_numbers (first : Nat) (definitions : List FnDef) :
    (FnDef.numbers first definitions).length = definitions.length := by
  induction definitions generalizing first with
  | nil => rfl
  | cons definition definitions ih => exact congrArg (· + 1) (ih _)

/-- The image has routines for functions that are numbered from a given number on. -/
def Image.Registers (image : Image) (first : Nat) : List FnDef → Prop
  | [] => True
  | definition :: definitions =>
      (∃ routine, image.routine? (UInt16.ofNat first) = some routine ∧
        routine.name = definition.name ∧ routine.signature = definition.signature) ∧
        image.Registers (first + 1) definitions

namespace Image

variable {image : Image} {definition : FnDef}

theorem addRoutine_eq (image : Image) (definition : FnDef) :
    addRoutine (.declare definition.name definition.signature) image =
      if image.routines.size > maxId then .error .tooManyFunctions image
      else .ok (UInt16.ofNat image.routines.size) (image.numbered definition) :=
  rfl

theorem routine?_numbered_of_eq_some {id : UInt16} {routine : Routine}
    (found : image.routine? id = some routine) :
    (image.numbered definition).routine? id = some routine :=
  getElem?_push_of_eq_some found

theorem routine?_numbered_self (room : ¬ image.routines.size > maxId) :
    (image.numbered definition).routine? (UInt16.ofNat image.routines.size) =
      some { Routine.declare definition.name definition.signature with
        id := some (UInt16.ofNat image.routines.size) } := by
  rw [routine?, toNat_ofNat_size room]
  exact Array.getElem?_push_size

theorem size_numbered (image : Image) (definition : FnDef) :
    (image.numbered definition).routines.size = image.routines.size + 1 :=
  Array.size_push _

theorem Sound.modifyRoutine (sound : image.Sound) (id : UInt16) (change : Routine → Routine)
    (keepsId : ∀ routine, (change routine).id = routine.id) :
    (image.modifyRoutine id change).Sound := by
  have size : (image.modifyRoutine id change).routines.size = image.routines.size :=
    Array.size_modify
  refine
    { sound with
      routines_le := size ▸ sound.routines_le
      natives_le := size ▸ sound.natives_le
      entry := ?_ }
  obtain ⟨routine, found, sameId⟩ := sound.entry
  rw [entryRoutine?, routine?, Image.modifyRoutine, Array.getElem?_modify]
  split
  · exact ⟨_, congrArg (Option.map change) found, (keepsId routine).trans sameId⟩
  · exact ⟨routine, found, sameId⟩

theorem Sound.numbered (sound : image.Sound) (room : ¬ image.routines.size > maxId) :
    (image.numbered definition).Sound := by
  obtain ⟨routine, found, sameId⟩ := sound.entry
  refine { sound with routines_le := ?_, natives_le := ?_, entry := ?_ }
  · rw [size_numbered]
    unfold maxId at room
    omega
  · rw [size_numbered]
    exact Nat.le_succ_of_le sound.natives_le
  · exact ⟨routine, routine?_numbered_of_eq_some found, sameId⟩

end Image

namespace Emitter

variable {env : Env} {before : Emitter}

theorem achieves_declareVar {var : VarDecl} (ready : Ready env before) :
    Achieves (declareVar var) before fun _ after =>
      after.buffer = before.buffer ∧
        Wrote (env.declare var.name var.ty) before after [] fun _ _ => True := by
  unfold declareVar
  refine Achieves.bind (.onScopes (fun slot scopes declares => ?_) ?_) fun _ _ done => .pure done
  · unfold Scopes.declare? at declares
    split at declares
    case h_1 => cases declares
    case h_2 block blocks blocksEq =>
        simp only [Option.bind_eq_bind, Option.bind_eq_some_iff] at declares
        obtain ⟨⟨_, context⟩, allocates, same⟩ := declares
        cases same
        obtain ⟨isStorable, room, rfl, rfl⟩ := ready.allocate?_eq_some allocates
        refine ⟨rfl, ?_, ?_, ?_⟩
        · refine ready.allocated isStorable room (fun name => ?_) (fun name found known => ?_)
            fun name => ?_
          · have old := ready.var name
            simp only [Scopes.resolve?, Context.var?, blocksEq, List.findSome?_cons] at old
            simp only [allocated, Scopes.resolve?, Context.var?, List.findSome?_cons,
              NameMap.getElem?_insert]
            by_cases same : var.name = name
            · simp [same]
            · simp only [if_neg same, if_neg (Ne.symm same)]
              exact old
          · split at known
            case isTrue => exact .inr (Option.some.inj known).symm
            case isFalse => exact .inl known
          · simp only [allocated, Scopes.function?, Context.function?, blocksEq,
              List.findSome?_cons]
        · refine .allocated ready isStorable room ?_ fun _ => ⟨?_, rfl⟩
          · simp [blocksEq]
          · rw [blocksEq]
            rfl
        · exact (Buffer.Writes.refl _).imp fun _ _ _ _ => trivial
  · unfold storageError
    split <;> rfl

theorem achieves_declareVars (vars : List VarDecl) (ready : Ready env before) :
    Achieves (vars.forM declareVar) before fun _ after =>
      after.buffer = before.buffer ∧
        Wrote (vars.foldl (fun env var => env.declare var.name var.ty) env) before after []
          fun _ _ => True := by
  induction vars generalizing env before with
  | nil => exact .pure ⟨rfl, .refl ready⟩
  | cons var vars ih =>
      refine (achieves_declareVar ready).bind ?_
      rintro _ middle ⟨sameBuffer, wrote⟩
      refine (ih wrote.ready).imp ?_
      rintro _ after ⟨laterBuffer, laterWrote⟩
      exact ⟨laterBuffer.trans sameBuffer, (wrote.trans laterWrote).imp fun _ _ _ => trivial⟩

/-- A parameter of a function: it gets its slot, and the argument on top of the stack is stored
there. -/
theorem achieves_emitParam {position : Position} {param : ParamDecl} (ready : Ready env before)
    (noBlocks : before.scopes.current.blocks = []) :
    Achieves (emitParam position param) before fun _ after =>
      Wrote (env.declare param.name param.ty) before after [] fun final code =>
        AccessAt final code env.function Op.store? (env.next param.ty) before.buffer.size
          after.buffer.size := by
  unfold emitParam
  have declared : Achieves
      (onScopes (·.declareParam? param.name param.ty) (storageError param.name param.ty position))
      before fun slot after =>
        slot = env.next param.ty ∧ param.ty.isStorable ∧ after.Owns slot ∧
          after.buffer = before.buffer ∧
          Wrote (env.declare param.name param.ty) before after [] fun _ _ => True := by
    refine .onScopes (fun slot scopes declares => ?_) ?_
    · simp only [Scopes.declareParam?, Option.bind_eq_bind, Option.bind_eq_some_iff] at declares
      obtain ⟨⟨_, context⟩, allocates, same⟩ := declares
      cases same
      obtain ⟨isStorable, room, rfl, rfl⟩ := ready.allocate?_eq_some allocates
      refine ⟨rfl, isStorable, ready.owns_allocated isStorable room (.inr rfl), rfl, ?_, ?_, ?_⟩
      · refine ready.allocated isStorable room (fun name => ?_) (fun name found known => ?_)
          fun name => rfl
        · have old := ready.var name
          simp only [Scopes.resolve?, Context.var?, noBlocks, List.findSome?_nil] at old
          simp only [allocated, Scopes.resolve?, Context.var?, noBlocks, List.findSome?_nil,
            NameMap.getElem?_insert]
          by_cases same : param.name = name
          · simp [same]
          · simp only [if_neg same, if_neg (Ne.symm same)]
            exact old
        · split at known
          case isTrue => exact .inr (Option.some.inj known).symm
          case isFalse => exact .inl known
      · exact .allocated ready isStorable room .rfl fun nonempty => absurd noBlocks nonempty
      · exact (Buffer.Writes.refl _).imp fun _ _ _ _ => trivial
    · unfold storageError
      split <;> rfl
  refine declared.bind ?_
  rintro _ middle ⟨rfl, isStorable, owns, sameBuffer, declareWrote⟩
  refine (achieves_emitStore declareWrote.ready isStorable owns).imp fun _ after storeWrote => ?_
  rw [← sameBuffer]
  exact (declareWrote.trans storeWrote).imp fun _ _ known => known.2

theorem achieves_emitParams {position : Position} (params : List ParamDecl)
    (ready : Ready env before) (noBlocks : before.scopes.current.blocks = []) :
    Achieves (params.forM (emitParam position)) before fun _ after =>
      Wrote (params.foldl (fun env param => env.declare param.name param.ty) env) before after []
        fun final code =>
          ParamsCode final code env params before.buffer.size after.buffer.size := by
  induction params generalizing env before with
  | nil => exact .pure ((Wrote.refl ready).imp fun _ _ _ => .nil)
  | cons param params ih =>
      refine (achieves_emitParam ready noBlocks).bind fun _ middle wrote => ?_
      refine (ih wrote.ready (wrote.extension.noBlocks.mpr noBlocks)).imp fun _ after rest => ?_
      exact (wrote.trans rest).imp fun _ _ ⟨store, later⟩ => .cons store later

/-- A function of a block gets the next number, and its name means that number. -/
structure Defined (env : Env) (definition : FnDef) (before : Emitter) (id : UInt16)
    (after : Emitter) : Prop where
  number : id = UInt16.ofNat env.defined
  small : env.defined < 65536
  buffer : after.buffer = before.buffer
  natives : after.image.natives = before.image.natives
  declared : ∃ routine, after.image.routine? id = some routine ∧
    routine.name = definition.name ∧ routine.signature = definition.signature
  wrote : Wrote (env.define definition) before after [] fun _ _ => True

/-- The state after a function has been numbered and named in the innermost block. -/
def named (emitter : Emitter) (definition : FnDef) (block : BlockScope) (blocks : List BlockScope) :
    Emitter :=
  let id := UInt16.ofNat emitter.image.routines.size
  let block := { block with functions := block.functions.insert definition.name id }
  { emitter with
    image := emitter.image.numbered definition
    scopes :=
      { emitter.scopes with current := { emitter.scopes.current with blocks := block :: blocks } } }

section Named

variable {definition : FnDef} {block : BlockScope} {blocks : List BlockScope}

theorem resolveFunction?_named (ready : Ready env before)
    (blocksEq : before.scopes.current.blocks = block :: blocks) (name : String) :
    resolveFunction? (before.named definition block blocks).scopes
        (before.named definition block blocks).image name =
      if definition.name = name then some (UInt16.ofNat env.defined)
      else resolveFunction? before.scopes before.image name := by
  obtain ⟨entry, found, -⟩ := ready.image.entry
  have sameEntry : (before.image.numbered definition).entryRoutine? = before.image.entryRoutine? :=
    (Image.routine?_numbered_of_eq_some found).trans found.symm
  simp only [resolveFunction?, named, sameEntry, Scopes.function?, Context.function?, blocksEq,
    List.findSome?_cons, NameMap.getElem?_insert, ready.defined]
  by_cases same : definition.name = name
  · simp [same]
  · simp only [if_neg same]

theorem Extends.named (blocksEq : before.scopes.current.blocks = block :: blocks) :
    Extends [] before (before.named definition block blocks) := by
  refine
    { Extends.refl before with
      noBlocks := by simp [Emitter.named, blocksEq]
      names := fun _ => ⟨by simp [Emitter.named, blocksEq], rfl⟩
      size_le := ?_
      routines := fun _ _ _ found => Image.routine?_numbered_of_eq_some found
      declared := fun _ routine found =>
        ⟨routine, Image.routine?_numbered_of_eq_some found, rfl, rfl, rfl⟩
      balanced := ?_ }
  · exact Nat.le_trans (Nat.le_succ _) (Nat.le_of_eq (Image.size_numbered _ _).symm)
  · change before.image.natives.size + before.image.routines.size ≤
      before.image.natives.size + (before.image.numbered definition).routines.size + 0
    rw [Image.size_numbered]
    omega

theorem Ready.named (ready : Ready env before)
    (room : ¬ before.image.routines.size > Image.maxId)
    (blocksEq : before.scopes.current.blocks = block :: blocks) :
    Ready (env.define definition) (before.named definition block blocks) := by
  have resolved : ∀ name, resolveFunction? (before.named definition block blocks).scopes
      (before.named definition block blocks).image name = _ :=
    resolveFunction?_named ready blocksEq
  have numbered : (before.image.numbered definition).routine? (UInt16.ofNat env.defined) = some _ :=
    ready.defined ▸ Image.routine?_numbered_self room
  have extension : Extends [] before (before.named definition block blocks) := .named blocksEq
  refine
    { ready with
      image := ready.image.numbered room
      var := fun name => ?_
      callee := fun name => ?_
      registered := fun name id found => ?_
      storable := fun name slot found => ?_
      contexts := extension.contexts ready.contexts
      defined := ?_ }
  · have old := ready.var name
    simp only [Scopes.resolve?, Context.var?, blocksEq, List.findSome?_cons] at old
    simp only [Emitter.named, Scopes.resolve?, Context.var?, List.findSome?_cons]
    exact old
  · have old := ready.callee name
    simp only [callee?, resolved, Env.define]
    by_cases same : definition.name = name
    · simp only [if_pos same, if_pos same.symm]
      simp only [Emitter.named, Option.bind_eq_bind, Option.bind_some, numbered]
      rfl
    · simp only [if_neg same, if_neg (Ne.symm same)]
      rw [← old, callee?]
      cases found : resolveFunction? before.scopes before.image name with
      | none => rfl
      | some id =>
          obtain ⟨routine, registered⟩ :=
            Option.isSome_iff_exists.mp (ready.registered name id found)
          simp only [Emitter.named, Option.bind_eq_bind, Option.bind_some, registered,
            Image.routine?_numbered_of_eq_some registered]
  · rw [resolved] at found
    split at found
    case isTrue =>
        cases found
        exact Option.isSome_of_eq_some numbered
    case isFalse =>
        obtain ⟨routine, registered⟩ := Option.isSome_iff_exists.mp (ready.registered name id found)
        exact Option.isSome_of_eq_some (Image.routine?_numbered_of_eq_some registered)
  · exact (ready.storable name slot found).imp_right (Owns.of_extends extension)
  · exact (Image.size_numbered _ _).trans (congrArg (· + 1) ready.defined)

end Named

theorem achieves_declareFunction {definition : FnDef} (ready : Ready env before) :
    Achieves (declareFunction definition) before (Defined env definition before) := by
  have sound := ready.image
  obtain ⟨image, scopes, fault⟩ := before
  dsimp only at sound
  unfold declareFunction Achieves
  rw [bind_apply]
  simp only [onImage, Image.addRoutine_eq]
  by_cases full : image.routines.size > Image.maxId
  · rw [if_pos full]
    refine fun _ => .functions ?_
    have := sound.routines_le
    change image.routines.size = 65536
    unfold Image.maxId at full
    omega
  · rw [if_neg full]
    dsimp only
    rw [bind_apply]
    simp only [onScopes, Scopes.declareFunction?]
    cases blocksEq : scopes.current.blocks with
    | nil =>
        intro isInternal
        cases isInternal
    | cons block blocks =>
        dsimp only
        by_cases duplicate : block.functions.contains definition.name
        · rw [if_pos duplicate]
          intro isInternal
          cases isInternal
        · rw [if_neg duplicate]
          have defined : image.routines.size = env.defined := ready.defined
          refine ⟨by rw [defined], ?_, rfl, rfl, ?_, ?_⟩
          · unfold Image.maxId at full
            omega
          · exact ⟨_, Image.routine?_numbered_self full, rfl, rfl⟩
          · exact ⟨ready.named full blocksEq, .named blocksEq,
              (Buffer.Writes.refl _).imp fun _ _ _ _ => trivial⟩

theorem Extends.registers {compiled : List UInt16} {after : Emitter} {definitions : List FnDef}
    {first : Nat} (extension : Extends compiled before after)
    (registers : before.image.Registers first definitions) :
    after.image.Registers first definitions := by
  induction definitions generalizing first with
  | nil => trivial
  | cons definition definitions ih =>
      obtain ⟨⟨routine, found, sameName, sameSignature⟩, rest⟩ := registers
      obtain ⟨later, foundLater, -, laterName, laterSignature⟩ := extension.declared _ _ found
      exact ⟨⟨later, foundLater, laterName.trans sameName, laterSignature.trans sameSignature⟩,
        ih rest⟩

structure DefinedAll (env : Env) (definitions : List FnDef) (before : Emitter) (ids : List UInt16)
    (after : Emitter) : Prop where
  numbers : ids = FnDef.numbers env.defined definitions
  buffer : after.buffer = before.buffer
  natives : after.image.natives = before.image.natives
  registers : after.image.Registers env.defined definitions
  wrote : Wrote (definitions.foldl Env.define env) before after [] fun _ _ => True

theorem achieves_declareFunctions (definitions : List FnDef) (ready : Ready env before) :
    Achieves (definitions.mapM declareFunction) before (DefinedAll env definitions before) := by
  induction definitions generalizing env before with
  | nil => exact .pure ⟨rfl, rfl, rfl, trivial, .refl ready⟩
  | cons definition definitions ih =>
      rw [List.mapM_cons]
      refine (achieves_declareFunction ready).bind fun id middle first => ?_
      refine (ih first.wrote.ready).bind fun ids after rest => .pure ?_
      obtain ⟨routine, found, sameName, sameSignature⟩ := first.declared
      obtain ⟨later, foundLater, -, laterName, laterSignature⟩ :=
        rest.wrote.extension.declared _ _ found
      refine ⟨?_, rest.buffer.trans first.buffer, rest.natives.trans first.natives, ⟨?_, ?_⟩,
        (first.wrote.trans rest.wrote).imp fun _ _ _ => trivial⟩
      · rw [first.number, rest.numbers]
        rfl
      · exact ⟨later, first.number ▸ foundLater, laterName.trans sameName,
          laterSignature.trans sameSignature⟩
      · exact rest.registers

theorem achieves_declareBlock (vars : List VarDecl) (definitions : List FnDef)
    (ready : Ready env before) :
    Achieves (declareBlock vars definitions) before fun ids after =>
      ids = FnDef.numbers env.defined definitions ∧ after.buffer = before.buffer ∧
        after.image.natives.size ≤ before.image.natives.size ∧
        after.image.Registers env.defined definitions ∧
        Wrote (env.declareBlock vars definitions) before after [] fun _ _ => True := by
  unfold declareBlock
  refine (achieves_declareVars vars ready).bind ?_
  rintro _ middle ⟨varsBuffer, varsWrote⟩
  refine (achieves_declareFunctions definitions varsWrote.ready).imp fun ids after all => ?_
  have sameDefined := env.defined_foldl_declare VarDecl.name VarDecl.ty vars
  have numbers := all.numbers
  have registers := all.registers
  rw [sameDefined] at numbers registers
  refine ⟨numbers, all.buffer.trans varsBuffer, ?_, registers,
    (varsWrote.trans all.wrote).imp fun _ _ _ => trivial⟩
  have sameSize : middle.image.routines.size = before.image.routines.size := by
    rw [varsWrote.ready.defined, sameDefined, ready.defined]
  have balanced := varsWrote.extension.balanced
  rw [all.natives]
  rw [sameSize, List.length_nil] at balanced
  omega

/-- Back at a place, names mean what they meant before. -/
theorem Ready.rejoin {compiled : List UInt16} {after : Emitter} {taken : List Ty} {defined : Nat}
    (ready : Ready env before) (extension : Extends compiled before after)
    (sameBlocks : after.scopes.current.blocks = before.scopes.current.blocks)
    (sameParams : after.scopes.current.params = before.scopes.current.params)
    (sound : after.image.Sound)
    (frame : ∀ ty, ty.isStorable → (after.scopes.current.frame.count ty).toNat = taken.count ty)
    (counted : after.image.routines.size = defined)
    (inside : ∀ offset ∈ after.buffer.openSites, offset < after.buffer.size) :
    Ready { env with taken := taken, defined := defined } after := by
  have resolved : ∀ name, resolveFunction? after.scopes after.image name =
      resolveFunction? before.scopes before.image name := by
    intro name
    obtain ⟨entry, found, -⟩ := ready.image.entry
    obtain ⟨later, foundLater, sameId, sameName, -⟩ := extension.declared _ _ found
    have sameEntry : after.image.entryRoutine? = some later := by
      rw [Image.entryRoutine?, extension.entry]
      exact foundLater
    -- The entry routine is looked up in the image and not in a block.
    simp only [resolveFunction?, found, sameEntry, Scopes.function?, Context.function?, sameBlocks,
      extension.enclosing, Option.filter_some, sameName]
    split <;> simp [sameId]
  refine
    { image := sound
      var := fun name => ?_
      callee := fun name => ?_
      registered := fun name id found =>
        extension.isSome_routine? (ready.registered name id (resolved name ▸ found))
      storable := fun name slot found =>
        (ready.storable name slot found).imp_right (Owns.of_extends extension)
      function := extension.id.trans ready.function
      returnType := extension.returnType.trans ready.returnType
      contexts := extension.contexts ready.contexts
      frame := frame
      defined := counted
      inside := inside }
  · refine Eq.trans ?_ (ready.var name)
    simp only [Scopes.resolve?, Context.var?, sameBlocks, sameParams, extension.enclosing]
  · refine Eq.trans ?_ (ready.callee name)
    rw [callee?, resolved, callee?]
    cases found : resolveFunction? before.scopes before.image name with
    | none => rfl
    | some id =>
        obtain ⟨routine, registered⟩ := Option.isSome_iff_exists.mp (ready.registered name id found)
        obtain ⟨later, foundLater, -, -, sameSignature⟩ := extension.declared _ _ registered
        simp only [Option.bind_eq_bind, Option.bind_some, registered, foundLater, sameSignature]

def entered (emitter : Emitter) : Emitter :=
  { emitter with scopes := emitter.scopes.enterBlock.2 }

def exited (emitter : Emitter) : Emitter :=
  { emitter with scopes := emitter.scopes.exitBlock }

theorem Ready.entered (ready : Ready env before) : Ready env before.entered :=
  { ready with
    storable := fun name slot found => by
      obtain ⟨isStorable, context, member, sameId, bound⟩ := ready.storable name slot found
      refine ⟨isStorable, ?_⟩
      rcases List.mem_cons.mp member with rfl | outer
      · exact ⟨_, List.mem_cons_self, sameId, bound⟩
      · exact ⟨context, List.mem_cons_of_mem _ outer, sameId, bound⟩
    contexts := fun context member => by
      rcases List.mem_cons.mp member with rfl | outer
      · exact ready.contexts before.scopes.current List.mem_cons_self
      · exact ready.contexts context (List.mem_cons_of_mem _ outer) }

/-- A block as a whole extends the state as the part between entering and leaving it does. -/
theorem Extends.block {compiled : List UInt16} {inner : Emitter}
    (extension : Extends compiled before.entered inner) :
    Extends compiled before inner.exited ∧
      inner.exited.scopes.current.blocks = before.scopes.current.blocks ∧
      inner.exited.scopes.current.params = before.scopes.current.params := by
  obtain ⟨sameTail, sameParams⟩ := extension.names (List.cons_ne_nil _ _)
  have sameBlocks : inner.exited.scopes.current.blocks = before.scopes.current.blocks := sameTail
  exact ⟨{ extension with
    noBlocks := by rw [sameBlocks]
    names := fun _ => ⟨by rw [sameBlocks], sameParams⟩ }, sameBlocks, sameParams⟩

theorem Settled.of_exited {final : Image} {finished : UInt16 → Prop} {inner : Emitter}
    (settled : Settled final finished inner.exited) : Settled final finished inner :=
  { settled with
    frames := fun context member => by
      rcases List.mem_cons.mp member with rfl | outer
      · exact settled.frames inner.exited.scopes.current List.mem_cons_self
      · exact settled.frames context (List.mem_cons_of_mem _ outer) }

theorem Wrote.block {inner : Env} {last : Emitter} {facts : Image → List UInt8 → Prop}
    (ready : Ready env before) (wrote : Wrote inner before.entered last [] facts) :
    Wrote (env.leave inner) before last.exited [] facts := by
  obtain ⟨extension, sameBlocks, sameParams⟩ := wrote.extension.block
  refine ⟨?_, extension, wrote.writes.imp fun code known final leads => ?_⟩
  · exact ready.rejoin extension sameBlocks sameParams wrote.ready.image wrote.ready.frame
      wrote.ready.defined wrote.ready.inside
  · obtain ⟨finished, fresh, settled⟩ := leads
    exact known final ⟨finished, fresh, settled.of_exited⟩

theorem findSome?_cons_eq_or {α β : Type} (find : α → Option β) (first : α) (rest : List α) :
    (first :: rest).findSome? find = (find first).or (rest.findSome? find) := by
  rw [List.findSome?_cons]
  cases find first <;> rfl

/-- The state in which a function inside the current one has been begun. -/
def pushed (emitter : Emitter) (id : UInt16) (returnType : Ty) : Emitter :=
  { emitter with scopes := emitter.scopes.push (.start id returnType) }

theorem Ready.pushed {id : UInt16} {returnType : Ty} (ready : Ready env before)
    (registered : (before.image.routine? id).isSome) :
    Ready { env with function := id, returnType := returnType, taken := [] }
      (before.pushed id returnType) := by
  have resolved : ∀ name, resolveFunction? (before.pushed id returnType).scopes
      (before.pushed id returnType).image name =
        resolveFunction? before.scopes before.image name := by
    intro name
    have startFunction : (Context.start id returnType).function? name = none := rfl
    simp only [resolveFunction?, Scopes.function?, Emitter.pushed, Scopes.push, startFunction,
      Option.none_or, findSome?_cons_eq_or]
  refine
    { ready with
      var := fun name => ?_
      callee := fun name => ?_
      registered := fun name found known => ready.registered name found (resolved name ▸ known)
      storable := fun name slot found => ?_
      function := rfl
      returnType := rfl
      contexts := fun context member => ?_
      frame := fun ty isStorable => ?_
      inside := fun offset member => absurd member Std.ExtTreeSet.not_mem_empty }
  · refine Eq.trans ?_ (ready.var name)
    have startVar : (Context.start id returnType).var? name = none := by
      simp [Context.start, Context.var?]
    simp only [Scopes.resolve?, Emitter.pushed, Scopes.push, startVar, Option.none_or,
      findSome?_cons_eq_or]
  · refine Eq.trans ?_ (ready.callee name)
    rw [callee?, resolved]
    rfl
  · obtain ⟨isStorable, context, member, sameId, bound⟩ := ready.storable name slot found
    exact ⟨isStorable, context, List.mem_cons_of_mem _ member, sameId, bound⟩
  · rcases List.mem_cons.mp member with rfl | outer
    · exact registered
    · exact ready.contexts context outer
  · cases ty <;> rfl

/-- The state in which the current function has been ended and its code is in the image. -/
def closed (emitter : Emitter) (outer : Context) (enclosing : List Context) : Emitter :=
  let context := emitter.scopes.current
  { emitter with
    image := emitter.image.modifyRoutine context.id fun routine =>
      { routine with
        frame := context.frame
        scopeId := context.bodyScope.getD 0
        code := context.buffer }
    scopes := { emitter.scopes with current := outer, enclosing := enclosing } }

/-- The code of a function in which all jumps lead somewhere can be stored if it is not too long. -/
theorem Ready.storeFault?_eq (ready : Ready env before) (patched : before.buffer.openSites = ∅) :
    storeFault? before.scopes.current before.image =
      if before.buffer.size > Buffer.maxTarget then
        some (.internal (.codeTooLarge before.buffer.size))
      else none := by
  have ensured : before.scopes.current.buffer.ensurePatched = .ok () :=
    Buffer.ensurePatched_of_openSites patched
  have registered := ready.contexts _ List.mem_cons_self
  have present : (before.image.routine? before.scopes.current.id).isNone = false := by
    simpa using registered
  simp only [storeFault?, ensured, present]
  rfl

theorem achieves_closeFunction {outer : Context} {enclosing : List Context}
    (ready : Ready env before) (enclosed : before.scopes.enclosing = outer :: enclosing)
    (patched : before.buffer.openSites = ∅) :
    Achieves Strict.closeFunction before fun _ after => before.closed outer enclosing = after := by
  have stored := ready.storeFault?_eq patched
  have fault : Strict.closingFault? before = storeFault? before.scopes.current before.image := by
    rw [Strict.closingFault?, enclosed]
    rfl
  unfold Achieves
  by_cases far : before.buffer.size > Buffer.maxTarget
  · rw [if_pos far] at stored
    rw [Strict.closeFunction, bind_apply, ask, fault, stored]
    exact fun _ => .code far (Nat.le_refl _)
  · rw [if_neg far] at stored
    have popped : before.scopes.pop? = some (before.scopes.current,
        { before.scopes with current := outer, enclosing := enclosing }) := by
      rw [Scopes.pop?, enclosed]
    simp only [Strict.closeFunction, bind_apply, ask, fault, stored, closeFunction, onScopes,
      popped, storeRoutine]
    rfl

/-- The top-level function is stored as the others are, but it stays open. -/
theorem achieves_finish (ready : Ready env before) (top : before.scopes.enclosing = [])
    (patched : before.buffer.openSites = ∅) :
    Achieves Strict.finish before fun _ after =>
      before.closed before.scopes.current [] = after := by
  have stored := ready.storeFault?_eq patched
  have current : before.scopes.top = before.scopes.current := by
    rw [Scopes.top, top]
    rfl
  refine Achieves.get ?_
  unfold Achieves
  rw [current, storeRoutine, bind_apply, ask, stored]
  by_cases far : before.buffer.size > Buffer.maxTarget
  · rw [if_pos far]
    exact fun _ => .code far (Nat.le_refl _)
  · rw [if_neg far]
    change before.closed before.scopes.current [] = _
    rw [closed, ← top]

/-- The code of a function has been written, and all functions in it are compiled. -/
structure EmitsBody (env : Env) (definition : FnDef) (before after : Emitter) : Prop where
  ready : ∃ inner, Ready inner after ∧ inner.defined = env.defined + definition.count ∧
    inner.taken = definition.slots env
  extension : Extends [before.scopes.current.id] before after
  writes : before.buffer.Writes after.buffer [] fun code => ∀ final, Leads final before after →
    BodyCode final code env definition after.buffer.size ∧
      final.Compiles (definition.definitions env)

section Function

variable {definition : FnDef} {outer : Context} {enclosing : List Context} {inner : Emitter}

theorem routine?_closed (emitter : Emitter) (outer : Context) (enclosing : List Context)
    (id : UInt16) :
    (emitter.closed outer enclosing).image.routine? id =
      if id = emitter.scopes.current.id then
        (emitter.image.routine? id).map fun routine =>
          { routine with
            frame := emitter.scopes.current.frame
            scopeId := emitter.scopes.current.bodyScope.getD 0
            code := emitter.scopes.current.buffer }
      else emitter.image.routine? id := by
  rw [Image.routine?, closed, Image.modifyRoutine, Array.getElem?_modify]
  simp only [UInt16.toNat_inj, eq_comm]
  rfl

variable {id : UInt16} {returnType : Ty}

theorem Extends.closed (extension : Extends [id] (before.pushed id returnType) inner) :
    Extends [id] before (inner.closed before.scopes.current before.scopes.enclosing) := by
  have sameId : inner.scopes.current.id = id := extension.id
  have size : (inner.closed before.scopes.current before.scopes.enclosing).image.routines.size =
      inner.image.routines.size :=
    Array.size_modify
  refine
    { Extends.refl before with
      version := extension.version
      entry := extension.entry
      size_le := size ▸ extension.size_le
      routines := fun other routine unchanged found => ?_
      declared := fun other routine found => ?_
      constants := extension.constants
      natives := extension.natives
      balanced := size ▸ extension.balanced }
  · have different : other ≠ id := fun same => unchanged (by rw [same]; exact List.mem_cons_self)
    rw [routine?_closed, sameId, if_neg different]
    exact extension.routines other routine unchanged found
  · obtain ⟨later, foundLater, same⟩ := extension.declared other routine found
    rw [routine?_closed, foundLater]
    split
    · exact ⟨_, rfl, same⟩
    · exact ⟨later, rfl, same⟩

/-- An image to which the compilation leads after a function is one to which it leads from the end
of its body: the routine has the frame and the code that it has been given. -/
theorem Settled.of_closed {final : Image} {finished : UInt16 → Prop} {routine : Routine}
    (registered : inner.image.routine? inner.scopes.current.id = some routine)
    (settled : Settled final finished (inner.closed outer enclosing))
    (isFinished : finished inner.scopes.current.id)
    (stillOpen : ∀ context ∈ inner.scopes.enclosing, context ∈ outer :: enclosing) :
    Settled final (fun id => finished id ∧ id ≠ inner.scopes.current.id) inner := by
  refine
    { settled with
      declared := fun other found known => ?_
      routines := fun other found known lookup => ?_
      frames := fun context member => ?_ }
  · have later := routine?_closed inner outer enclosing other
    rw [known] at later
    split at later
    · have declared := settled.declared other _ later
      exact declared
    · exact settled.declared other _ later
  · refine settled.routines other found known.1 ?_
    rw [routine?_closed, if_neg known.2, lookup]
  · rcases List.mem_cons.mp member with rfl | isOuter
    · have stored := routine?_closed inner outer enclosing inner.scopes.current.id
      rw [if_pos rfl, registered] at stored
      exact ⟨_, settled.routines _ _ isFinished stored, fun ty => UInt16.le_refl _⟩
    · exact settled.frames context (stillOpen context isOuter)

theorem EmitsBody.patched (emits : EmitsBody env definition before inner)
    (fresh : before.buffer = .empty) : inner.buffer.openSites = ∅ := by
  rw [Std.ExtTreeSet.eq_empty_iff_forall_not_mem]
  intro offset member
  rcases (emits.writes.open_iff offset).mp member with old | ⟨hole, opens, -⟩
  · rw [fresh] at old
    exact Std.ExtTreeSet.not_mem_empty old
  · cases opens

/-- Once a function is stored, its definition and the ones inside it are compiled. -/
theorem EmitsBody.compiles {final : Image} {finished : UInt16 → Prop}
    {routine : Routine} (emits : EmitsBody env definition before inner)
    (fresh : before.buffer = .empty)
    (function : env.function = before.scopes.current.id)
    (registered : before.image.routine? before.scopes.current.id = some routine)
    (sameName : routine.name = definition.name)
    (sameSignature : routine.signature = definition.signature)
    (settled : Settled final finished (inner.closed outer enclosing))
    (isFinished : finished before.scopes.current.id)
    (freshFinished : ∀ id, before.image.routines.size ≤ id.toNat → finished id)
    (stillOpen : ∀ context ∈ inner.scopes.enclosing, context ∈ outer :: enclosing) :
    final.Compiles ((env, definition) :: definition.definitions env) := by
  have sameId := emits.extension.id
  obtain ⟨later, foundLater, -, laterName, laterSignature⟩ :=
    emits.extension.declared _ _ registered
  rw [← sameId] at foundLater isFinished
  have stored := routine?_closed inner outer enclosing inner.scopes.current.id
  rw [if_pos rfl, foundLater] at stored
  have finalRoutine := settled.routines _ _ isFinished stored
  have leads : Leads final before inner := by
    refine ⟨_, fun id isFresh => ⟨freshFinished id isFresh, ?_⟩,
      settled.of_closed foundLater isFinished stillOpen⟩
    rintro rfl
    obtain ⟨inside, -⟩ := Array.getElem?_eq_some_iff.mp registered
    rw [sameId] at isFresh
    exact absurd inside (Nat.not_lt.mpr isFresh)
  have everywhere : inner.buffer.Agrees ([] ++ []) inner.buffer.toList := fun _ _ _ => rfl
  obtain ⟨bodyCode, compiles⟩ := (emits.writes.ensures [] _ (by simp) everywhere).2 final leads
  intro entry member
  rcases List.mem_cons.mp member with rfl | nested
  · refine ⟨_, (function.trans sameId.symm) ▸ finalRoutine, ?_⟩
    obtain ⟨innerEnv, innerReady, -, taken⟩ := emits.ready
    exact ⟨laterName.trans sameName, laterSignature.trans sameSignature, emits.patched fresh,
      taken ▸ innerReady.frame, bodyCode⟩
  · exact compiles entry nested

structure EmitsFunction (env : Env) (number : Nat) (definition : FnDef) (before after : Emitter) :
    Prop where
  ready : Ready (env.past definition.count) after
  extension : Extends [UInt16.ofNat number] before after
  buffer : after.buffer = before.buffer
  compiles : ∀ final finished, finished (UInt16.ofNat number) →
    (∀ id, before.image.routines.size ≤ id.toNat → finished id) → Settled final finished after →
    final.Compiles
      ((env.enter number definition, definition) :: definition.definitions
        (env.enter number definition))

theorem achieves_function {number : Nat} {body : EmitM Unit} (ready : Ready env before)
    (registered : ∃ routine, before.image.routine? (UInt16.ofNat number) = some routine ∧
      routine.name = definition.name ∧ routine.signature = definition.signature)
    (emits : Achieves body (before.pushed (UInt16.ofNat number) definition.returnType)
      fun _ after => EmitsBody (env.enter number definition) definition
        (before.pushed (UInt16.ofNat number) definition.returnType) after) :
    Achieves (Strict.function (UInt16.ofNat number) definition.returnType body) before
      fun _ after => EmitsFunction env number definition before after := by
  obtain ⟨routine, found, sameName, sameSignature⟩ := registered
  unfold Strict.function
  refine .modify (emits.bind fun _ inner bodyEmits => ?_)
  obtain ⟨innerEnv, innerReady, counted, -⟩ := bodyEmits.ready
  have enclosed : inner.scopes.enclosing = before.scopes.current :: before.scopes.enclosing :=
    bodyEmits.extension.enclosing
  refine (achieves_closeFunction innerReady enclosed (bodyEmits.patched rfl)).imp ?_
  rintro _ _ rfl
  have extension : Extends [UInt16.ofNat number] before _ := Extends.closed bodyEmits.extension
  refine ⟨?_, extension, rfl, fun final finished isFinished fresh settled => ?_⟩
  · refine ready.rejoin extension rfl rfl ?_ ready.frame ?_ ready.inside
    · exact innerReady.image.modifyRoutine _ _ fun _ => rfl
    · refine Array.size_modify.trans ?_
      rw [innerReady.defined, counted, Env.defined_enter]
  · exact bodyEmits.compiles rfl (env.function_enter number definition) found sameName sameSignature
      settled isFinished fresh fun _ member => enclosed ▸ member

structure EmitsFunctions (env : Env) (first : Nat) (definitions : List FnDef)
    (before after : Emitter) : Prop where
  ready : Ready (env.past (FnDef.countAll definitions)) after
  extension : Extends (FnDef.numbers first definitions) before after
  buffer : after.buffer = before.buffer
  compiles : ∀ final finished, (∀ id ∈ FnDef.numbers first definitions, finished id) →
    (∀ id, before.image.routines.size ≤ id.toNat → finished id) → Settled final finished after →
    final.Compiles
      (FnDef.entries env first definitions ++ FnDef.definitionsAll env first definitions)

theorem EmitsFunctions.nil {first : Nat} (ready : Ready env before) :
    EmitsFunctions env first [] before before :=
  ⟨ready, .refl before, rfl, fun final _ _ _ _ => final.compiles_nil⟩

/-- After a function, the others of its block are compiled, which leaves it as it is. -/
theorem EmitsFunctions.cons {first : Nat} {definitions : List FnDef} {middle after : Emitter}
    (distinct : UInt16.ofNat first ∉ FnDef.numbers (first + 1) definitions)
    (old : ∀ id ∈ FnDef.numbers first (definition :: definitions),
      id.toNat < before.image.routines.size)
    (one : EmitsFunction env first definition before middle)
    (rest : EmitsFunctions (env.past definition.count) (first + 1) definitions middle after) :
    EmitsFunctions env first (definition :: definitions) before after := by
  refine ⟨?_, one.extension.trans rest.extension, rest.buffer.trans one.buffer, ?_⟩
  · have ready := rest.ready
    rwa [Env.past_past] at ready
  · intro final finished isFinished fresh settled
    have restCompiles := rest.compiles final finished
      (fun id member => isFinished id (List.mem_cons_of_mem _ member))
      (fun id isFresh => fresh id (Nat.le_trans one.extension.size_le isFresh)) settled
    have oneCompiles := one.compiles final _ ⟨isFinished _ List.mem_cons_self, distinct⟩
      (fun id isFresh => ⟨fresh id isFresh, fun member =>
        Nat.not_lt.mpr isFresh (old id (List.mem_cons_of_mem _ member))⟩)
      (settled.of_extends rest.extension)
    intro entry member
    rw [FnDef.entries, FnDef.definitionsAll] at member
    rcases List.mem_append.mp member with isEntry | isNested
    · rcases List.mem_cons.mp isEntry with rfl | isLater
      · exact oneCompiles _ List.mem_cons_self
      · exact restCompiles entry (List.mem_append_left _ isLater)
    · rcases List.mem_append.mp isNested with isHere | isLater
      · exact oneCompiles entry (List.mem_cons_of_mem _ isHere)
      · exact restCompiles entry (List.mem_append_right _ isLater)

end Function

theorem toNat_of_mem_numbers {definitions : List FnDef} {first : Nat} {id : UInt16}
    (small : first + definitions.length ≤ 65536) (member : id ∈ FnDef.numbers first definitions) :
    first ≤ id.toNat ∧ id.toNat < first + definitions.length := by
  induction definitions generalizing first with
  | nil => cases member
  | cons definition definitions ih =>
      rw [List.length_cons] at small ⊢
      rcases List.mem_cons.mp member with rfl | later
      · rw [UInt16.toNat_ofNat', Nat.mod_eq_of_lt (by omega)]
        omega
      · have := ih (by omega) later
        omega

/-- Compiling functions that have been numbered since an earlier state leaves alone what was
numbered then. -/
theorem Extends.absorb {definitions : List FnDef} {first : Nat} {middle after : Emitter}
    (declares : Extends [] before middle)
    (compiles : Extends (FnDef.numbers first definitions) middle after)
    (counted : middle.image.routines.size = first + definitions.length)
    (numbered : before.image.routines.size = first) (small : first + definitions.length ≤ 65536)
    (natives : middle.image.natives.size ≤ before.image.natives.size) :
    Extends [] before after := by
  have both := declares.trans compiles
  refine { both with routines := fun id routine _ found => ?_, balanced := ?_ }
  · refine both.routines id routine (fun member => ?_) found
    obtain ⟨inside, -⟩ := Array.getElem?_eq_some_iff.mp found
    have := toNat_of_mem_numbers small member
    omega
  · have := compiles.balanced
    rw [FnDef.length_numbers] at this
    rw [List.length_nil]
    omega

theorem Extends.mono {compiled more : List UInt16} {after : Emitter}
    (extension : Extends compiled before after) (subset : ∀ id ∈ compiled, id ∈ more)
    (length : compiled.length ≤ more.length) : Extends more before after :=
  { extension with
    routines := fun id routine unchanged =>
      extension.routines id routine fun member => unchanged (subset id member)
    balanced := Nat.le_trans extension.balanced (by omega) }

/-- A native function is numbered, for which there is room since every native function belongs to a
routine. -/
theorem achieves_internNative {native : Native} (ready : Ready env before)
    (room : before.image.natives.size < before.image.routines.size) :
    Achieves (onImage (Image.internNative native)) before fun id after =>
      Ready env after ∧ Extends [before.scopes.current.id] before after ∧
        after.buffer = before.buffer ∧ (after.image.native? id).isSome := by
  obtain ⟨image, scopes, fault⟩ := before
  have sound := ready.image
  dsimp only at sound room
  unfold Achieves onImage Image.internNative
  dsimp only
  cases indexed : image.nativeIds[native.name]? with
  | some id =>
      exact ⟨ready, (Extends.refl _).mono (fun _ member => nomatch member) (Nat.zero_le _), rfl,
        sound.nativeIds native.name id indexed⟩
  | none =>
      -- The capacity of the routines is met first.
      have notFull : ¬ image.natives.size > Image.maxId := by
        have := sound.routines_le
        unfold Image.maxId
        omega
      dsimp only
      rw [if_neg notFull]
      have small := toNat_ofNat_size notFull
      have kept : ∀ id : UInt16, image.natives[id.toNat]?.isSome →
          (image.natives.push native)[id.toNat]?.isSome := by
        intro id found
        obtain ⟨other, found⟩ := Option.isSome_iff_exists.mp found
        exact Option.isSome_of_eq_some (getElem?_push_of_eq_some found)
      have added :
          (image.natives.push native)[(UInt16.ofNat image.natives.size).toNat]?.isSome := by
        rw [small, Array.getElem?_push_size]
        rfl
      refine ⟨ready.withImage ?_ rfl rfl, ?_, rfl, added⟩
      · refine { sound with natives_le := ?_, nativeIds := ?_ }
        · rw [Array.size_push]
          exact room
        · intro name id found
          rw [NameMap.getElem?_insert] at found
          split at found
          case isTrue =>
              cases found
              exact added
          case isFalse => exact kept id (sound.nativeIds name id found)
      · refine
          { Extends.refl ⟨image, scopes, fault⟩ with
            routines := ?_
            natives := kept
            balanced := ?_ }
        · exact fun _ _ _ found => found
        · change (image.natives.push native).size + image.routines.size ≤
            image.natives.size + image.routines.size + 1
          rw [Array.size_push]
          omega

theorem achieves_emitNativeCall {options : Options} {symbol : String} {position : Position}
    {signature : Signature} (ready : Ready env before)
    (room : before.image.natives.size < before.image.routines.size) :
    Achieves (emitNativeCall options position signature symbol) before fun _ after =>
      Ready env after ∧ Extends [before.scopes.current.id] before after ∧
        after.buffer.size = before.buffer.size + 3 ∧
        ∃ id, (after.image.native? id).isSome ∧
          before.buffer.Writes after.buffer [] fun code =>
            WordAt code before.buffer.size .callNative id := by
  unfold emitNativeCall
  cases options.address? symbol with
  | none => exact .throw rfl
  | some address =>
      refine (achieves_internNative ready room).bind ?_
      rintro id interned ⟨internedReady, extension, sameBuffer, registered⟩
      exact ⟨internedReady.withBuffer (internedReady.inside_of_writes (.emitWithWord _ id rfl)),
        extension.trans (.withBuffer interned _),
        by rw [← sameBuffer]; exact Buffer.size_emitWithWord _ _ _, id, registered,
        by rw [← sameBuffer]; exact .emitWithWord _ id rfl⟩

theorem achieves_nativeBody {options : Options} {name : String} {returnType : Ty}
    {params : List ParamDecl} {symbol : String} {position : Position} {bodyEnv : Env}
    (ready : Ready env before) (room : before.image.natives.size < before.image.routines.size)
    (untaken : env.taken = []) (fresh : before.buffer = .empty)
    (sameDefined : bodyEnv.defined = env.defined) :
    Achieves (Strict.body options ⟨name, returnType, params, .native symbol, position⟩) before
      fun _ after =>
        EmitsBody bodyEnv ⟨name, returnType, params, .native symbol, position⟩ before after := by
  rw [Strict.body]
  refine (achieves_emitNativeCall ready room).bind ?_
  rintro _ called ⟨calledReady, extension, calledSize, id, registered, callWrites⟩
  refine (achieves_emit calledReady rfl).imp ?_
  rintro _ after ⟨size, retWrote⟩
  have extended : Extends [before.scopes.current.id] before after :=
    extension.trans retWrote.extension
  have empty : before.buffer.size = 0 := by rw [fresh]; rfl
  refine ⟨⟨env, retWrote.ready, ?_, untaken⟩, extended, ?_⟩
  · rw [FnDef.count, sameDefined, Nat.add_zero]
  · refine (callWrites.trans retWrote.writes).imp ?_
    rintro code ⟨call, ret⟩ final leads
    have retAt := ret final (leads.second extension)
    obtain ⟨finished, -, settled⟩ := leads
    rw [empty] at call calledSize
    rw [calledSize] at retAt
    rw [FnDef.definitions, size, calledSize]
    exact ⟨.native (settled.natives id (retWrote.extension.natives id registered)) call retAt,
      final.compiles_nil⟩

theorem achieves_blockBody {options : Options} {name : String} {returnType : Ty}
    {params : List ParamDecl} {block : Block} {position : Position} {bodyEnv : Env}
    (entered : params.foldl (fun env param => env.declare param.name param.ty) env = bodyEnv)
    (untaken : env.taken = []) (ready : Ready env before)
    (noBlocks : before.scopes.current.blocks = []) (fresh : before.buffer = .empty)
    (emits : ∀ middle, Ready bodyEnv middle →
      Achieves (Strict.block options block) middle fun _ after =>
        EmitsPart bodyEnv (block.pass bodyEnv) (.block block) (block.definitions bodyEnv) middle
          after) :
    Achieves (Strict.body options ⟨name, returnType, params, .block block, position⟩) before
      fun _ after =>
        EmitsBody bodyEnv ⟨name, returnType, params, .block block, position⟩ before after := by
  subst entered
  rw [Strict.body]
  refine (achieves_emitParams params ready noBlocks).bind fun _ stored paramsWrote => ?_
  refine (emits stored paramsWrote.ready).bind fun _ done blockWrote => ?_
  refine (achieves_emit blockWrote.ready rfl).imp ?_
  rintro _ after ⟨size, retWrote⟩
  have wrote := (paramsWrote.trans blockWrote).trans retWrote
  have empty : before.buffer.size = 0 := by rw [fresh]; rfl
  refine ⟨⟨_, wrote.ready, ?_, rfl⟩, wrote.extension.mono (fun _ member => nomatch member)
    (Nat.zero_le _), wrote.writes.imp fun code known final leads => ?_⟩
  · rw [Block.defined_pass, FnDef.count]
  · obtain ⟨⟨paramsCode, ⟨blockCode, compiled⟩⟩, ret⟩ := known final leads
    rw [empty] at paramsCode
    rw [FnDef.definitions, size]
    refine ⟨.block (paramsCode.congr ?_ untaken.symm) blockCode ret, compiled⟩
    exact env.function_foldl_declare ParamDecl.name ParamDecl.ty params

theorem EmitsFunctions.wrote {vars : List VarDecl} {functions : List FnDef} {middle after : Emitter}
    (ready : Ready env before) (sameBuffer : middle.buffer = before.buffer)
    (natives : middle.image.natives.size ≤ before.image.natives.size)
    (declares : Wrote (env.declareBlock vars functions) before middle [] fun _ _ => True)
    (emits : EmitsFunctions (env.declareBlock vars functions) env.defined functions middle after) :
    Wrote (env.inside vars functions) before after [] fun final _ =>
      final.Compiles
        (FnDef.entries (env.declareBlock vars functions) env.defined functions ++
          FnDef.definitionsAll (env.declareBlock vars functions) env.defined functions) := by
  have counted : middle.image.routines.size = env.defined + functions.length := by
    rw [declares.ready.defined, Env.defined_declareBlock]
  have small := counted ▸ declares.ready.image.routines_le
  refine ⟨emits.ready,
    declares.extension.absorb emits.extension counted ready.defined small natives, ?_⟩
  rw [emits.buffer, sameBuffer]
  refine (Buffer.Writes.refl _).imp ?_
  rintro code - final ⟨finished, fresh, settled⟩
  refine emits.compiles final finished (fun id member => fresh id ?_)
    (fun id isFresh => fresh id ?_) settled
  · rw [ready.defined]
    exact (toNat_of_mem_numbers small member).1
  · exact Nat.le_trans declares.extension.size_le isFresh

mutual

/-- Compiling a statement gives code of the form that the layout asks for. -/
theorem achieves_stmt (options : Options) : (stmt : Stmt) → {env : Env} → {before : Emitter} →
    Ready env before → Achieves (Strict.stmt options stmt) before fun _ after =>
      EmitsPart env (stmt.pass env) (.stmt stmt) (stmt.definitions env) before after
  | .store _ _ _ _, _, _, ready => by
      rw [Strict.stmt, Stmt.pass, Stmt.definitions]
      exact achieves_emitAssignment ready
  | .ifElse cond thenBlock none, env, before, ready => by
      rw [Strict.stmt, Stmt.pass, Stmt.definitions, ← (thenBlock.definitions env).append_nil]
      refine achieves_emitIf (fun _ inner => achieves_block options thenBlock inner)
        (fun middle inner => .pure ?_) (thenBlock.toNames_pass env) ready
      exact .ofWrote ((Wrote.refl inner).imp fun _ _ _ => .noElse)
  | .ifElse cond thenBlock (some elseBlock), env, before, ready => by
      rw [Strict.stmt, Stmt.pass, Stmt.definitions]
      refine achieves_emitIf (fun _ inner => achieves_block options thenBlock inner)
        (fun middle inner => ?_) (by simp) ready
      exact (achieves_block options elseBlock inner).imp fun _ after emits =>
        Wrote.imp emits fun _ _ ⟨code, compiled⟩ => ⟨.someElse code, compiled⟩
  | .whileDo cond body, env, before, ready => by
      rw [Strict.stmt, Stmt.pass, Stmt.definitions]
      exact achieves_emitWhile (fun _ inner => achieves_block options body inner) ready
  | .forRange _ name low high body, env, before, ready => by
      rw [Strict.stmt, Stmt.pass, Stmt.definitions]
      exact achieves_emitFor (fun _ inner => achieves_block options body inner) ready
  | .print _ args, env, before, ready => by
      rw [Strict.stmt, Stmt.pass, Stmt.definitions]
      exact (achieves_emitPrints args ready).imp fun _ _ wrote =>
        .ofWrote (wrote.imp fun _ _ code => .print code)
  | .ret _ _, _, _, ready => by
      rw [Strict.stmt, Stmt.pass, Stmt.definitions]
      exact achieves_emitReturn ready
  | .expr _, _, _, ready => by
      rw [Strict.stmt, Stmt.pass, Stmt.definitions]
      exact achieves_emitDiscarded ready
  | .block body, env, before, ready => by
      rw [Strict.stmt, Stmt.pass, Stmt.definitions]
      exact (achieves_block options body ready).imp fun _ _ emits =>
        Wrote.imp emits fun _ _ ⟨code, compiled⟩ => ⟨.nested code, compiled⟩

theorem achieves_stmts (options : Options) : (stmts : List Stmt) → {env : Env} →
    {before : Emitter} → Ready env before →
    Achieves (Strict.stmts options stmts) before fun _ after =>
      EmitsPart env (Stmt.passAll env stmts) (.stmts stmts) (Stmt.definitionsAll env stmts) before
        after
  | [], env, before, ready => by
      rw [Strict.stmts, Stmt.passAll, Stmt.definitionsAll]
      exact .pure (.ofWrote ((Wrote.refl ready).imp fun _ _ _ => .noStmts))
  | stmt :: stmts, env, before, ready => by
      rw [Strict.stmts, Stmt.passAll, Stmt.definitionsAll]
      refine (achieves_stmt options stmt ready).bind fun _ middle first => ?_
      refine (achieves_stmts options stmts first.ready).imp fun _ after rest => ?_
      exact (first.trans rest).imp
        fun _ _ ⟨⟨firstCode, firstCompiled⟩, ⟨restCode, restCompiled⟩⟩ =>
          ⟨.stmts firstCode restCode, firstCompiled.append restCompiled⟩

/-- Compiling a block leaves the names of the place as they were. -/
theorem achieves_block (options : Options) : (block : Block) → {env : Env} → {before : Emitter} →
    Ready env before → Achieves (Strict.block options block) before fun _ after =>
      EmitsPart env (block.pass env) (.block block) (block.definitions env) before after
  | ⟨vars, functions, stmts⟩, env, before, ready => by
      rw [Strict.block, Block.pass, Block.definitions]
      refine .modify ((achieves_declareBlock vars functions ready.entered).bind ?_)
      rintro _ declared ⟨rfl, sameBuffer, natives, registers, declares⟩
      have counted : declared.image.routines.size = env.defined + functions.length := by
        rw [declares.ready.defined, Env.defined_declareBlock]
      have slack : declared.image.natives.size + functions.length ≤
          declared.image.routines.size := by
        have entered := ready.entered.image.natives_le
        have := ready.entered.defined
        omega
      refine (achieves_functions options functions declares.ready registers slack
        (Nat.le_of_eq counted.symm)).bind fun _ compiled functionsEmit => ?_
      have functionsWrote := functionsEmit.wrote ready.entered sameBuffer natives declares
      refine (achieves_stmts options stmts functionsWrote.ready).bind fun _ last stmtsEmit => ?_
      refine Wrote.imp ((functionsWrote.trans stmtsEmit).block ready) ?_
      rintro final code ⟨functionsCompiled, ⟨stmtsCode, stmtsCompiled⟩⟩
      rw [functionsEmit.buffer, sameBuffer] at stmtsCode
      exact ⟨.block stmtsCode, functionsCompiled.append stmtsCompiled⟩

theorem achieves_functions (options : Options) : (definitions : List FnDef) → {env : Env} →
    {before : Emitter} → {first : Nat} → Ready env before →
    before.image.Registers first definitions →
    before.image.natives.size + definitions.length ≤ before.image.routines.size →
    first + definitions.length ≤ before.image.routines.size →
    Achieves (Strict.functions options definitions (FnDef.numbers first definitions)) before
      fun _ after => EmitsFunctions env first definitions before after
  | [], env, before, first, ready, _, _, _ => by
      rw [Strict.functions]
      · exact .pure (.nil ready)
      · exact fun _ _ _ _ nonempty => nomatch nonempty
  | definition :: definitions, env, before, first, ready, registers, slack, bound => by
      rw [FnDef.numbers, Strict.functions]
      rw [List.length_cons] at slack bound
      have routines_le := ready.image.routines_le
      obtain ⟨routine, found, -⟩ := registers.1
      refine (achieves_function ready registers.1 (achieves_body options definition
        (ready.pushed (Option.isSome_of_eq_some found)) rfl rfl ⟨rfl, rfl⟩ ?_)).bind
        fun _ middle one => ?_
      · exact Nat.lt_of_lt_of_le (Nat.lt_add_of_pos_right (Nat.succ_pos _)) slack
      have balanced := one.extension.balanced
      have size_le := one.extension.size_le
      rw [List.length_singleton] at balanced
      refine (achieves_functions options definitions one.ready
        (one.extension.registers registers.2) (by omega) (by omega)).imp fun _ after rest => ?_
      refine .cons ?_ ?_ one rest
      · intro member
        have := toNat_of_mem_numbers (by omega) member
        rw [UInt16.toNat_ofNat', Nat.mod_eq_of_lt (by omega)] at this
        omega
      · intro id member
        have := toNat_of_mem_numbers (by rw [List.length_cons]; omega) member
        rw [List.length_cons] at this
        omega

/-- Compiling a function writes its code into an empty buffer. -/
theorem achieves_body (options : Options) : (definition : FnDef) → {env bodyEnv : Env} →
    {before : Emitter} → Ready env before →
    definition.params.foldl (fun env param => env.declare param.name param.ty) env = bodyEnv →
    env.taken = [] → before.scopes.current.blocks = [] ∧ before.buffer = .empty →
    before.image.natives.size < before.image.routines.size →
    Achieves (Strict.body options definition) before fun _ after =>
      EmitsBody bodyEnv definition before after
  | ⟨_, _, _, .block block, _⟩, _, _, _, ready, entered, untaken, fresh, _ =>
      achieves_blockBody entered untaken ready fresh.1 fresh.2
        fun _ inner => achieves_block options block inner
  | ⟨_, _, params, .native _, _⟩, env, _, _, ready, entered, untaken, fresh, room =>
      achieves_nativeBody ready room untaken fresh.2
        (entered ▸ env.defined_foldl_declare ParamDecl.name ParamDecl.ty params)

end

end Emitter

end Backpatch
