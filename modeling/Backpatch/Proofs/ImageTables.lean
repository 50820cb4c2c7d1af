import Backpatch.Image

/-!
# The tables of an image over a whole run

An image is filled by asking for routines, constants and natives one after the other, while routines
that are in it already are written to.  What one such call can do is said once, by
`Addition.Outcome`.  From it follows what holds after any number of calls: each table is in order
with its index, entries keep their numbers, and a call that fails changes nothing.
-/

namespace Backpatch

/-- The index gives to each of the names the position at which it is listed first, and nothing to
other names. -/
def Indexes (ids : NameMap UInt16) (names : List String) : Prop :=
  ∀ name, ids[name]?.map UInt16.toNat = names.idxOf? name

/-- The index and the list of names are inverse to each other. -/
def Inverts (ids : NameMap UInt16) (names : List String) : Prop :=
  ∀ name position, ids[name]?.map UInt16.toNat = some position ↔ names[position]? = some name

section Names

variable {ids : NameMap UInt16} {names : List String} {name : String}

theorem idxOf?_eq_some_iff_of_nodup (distinct : names.Nodup) {position : Nat} :
    names.idxOf? name = some position ↔ names[position]? = some name := by
  rw [List.idxOf?_eq_some_iff, List.getElem?_eq_some_iff]
  refine exists_congr fun inside => and_iff_left_of_imp fun found earlier before same => ?_
  have sameEntry : names[earlier]? = names[position]? := by
    rw [List.getElem?_eq_getElem (Nat.lt_trans before inside), List.getElem?_eq_getElem inside,
      same, found]
  exact Nat.ne_of_lt before
    ((List.getElem?_inj (Nat.lt_trans before inside) distinct).mp sameEntry)

/-- Where no name is listed twice, the first position of a name is its only one. -/
theorem inverts_iff_indexes (distinct : names.Nodup) : Inverts ids names ↔ Indexes ids names := by
  refine forall_congr' fun name => ?_
  rw [Option.ext_iff]
  simp only [idxOf?_eq_some_iff_of_nodup distinct]

theorem idxOf?_concat {other : String} :
    (names ++ [name]).idxOf? other =
      if name = other ∧ name ∉ names then some names.length else names.idxOf? other := by
  induction names with
  | nil => simp [List.idxOf?_cons]
  | cons head names ih =>
      rw [List.cons_append, List.idxOf?_cons, List.idxOf?_cons, ih]
      by_cases here : head = other
      · simp_all
      · grind

namespace Indexes

theorem getElem?_eq_none_iff (indexed : Indexes ids names) : ids[name]? = none ↔ name ∉ names := by
  rw [← List.idxOf?_eq_none_iff, ← indexed name, Option.map_eq_none_iff]

theorem mem_iff (indexed : Indexes ids names) : name ∈ ids ↔ name ∈ names := by
  rw [Std.ExtTreeMap.mem_iff_isSome_getElem?, Option.isSome_iff_ne_none, ne_eq,
    indexed.getElem?_eq_none_iff, Decidable.not_not]

/-- The index of a list that gets one name longer keeps the first position of a name. -/
theorem insertIfNew (indexed : Indexes ids names) (room : names.length ≤ Image.maxId) :
    Indexes (ids.insertIfNew name (.ofNat names.length)) (names ++ [name]) := by
  intro other
  have small : (UInt16.ofNat names.length).toNat = names.length :=
    UInt16.toNat_ofNat_of_lt' (Nat.lt_succ_of_le room)
  simp only [Std.ExtTreeMap.getElem?_insertIfNew, idxOf?_concat, indexed.mem_iff,
    Std.LawfulEqCmp.compare_eq_iff_eq]
  split
  · rw [Option.map_some, small]
  · exact indexed other

end Indexes

/-- A list of different names stays inverse to its index when a further name is added to both. -/
theorem Inverts.insert (inverse : Inverts ids names) (distinct : names.Nodup)
    (absent : ids[name]? = none) (room : names.length ≤ Image.maxId) :
    (names ++ [name]).Nodup ∧
      Inverts (ids.insert name (.ofNat names.length)) (names ++ [name]) := by
  have indexed := (inverts_iff_indexes distinct).mp inverse
  have fresh : name ∉ names := indexed.getElem?_eq_none_iff.mp absent
  have longer : (names ++ [name]).Nodup := by
    simpa [List.nodup_append] using ⟨distinct, fun other member same => fresh (same ▸ member)⟩
  have added : ids.insert name (.ofNat names.length) =
      ids.insertIfNew name (.ofNat names.length) := by
    apply Std.ExtTreeMap.ext_getElem?
    intro other
    simp [Std.ExtTreeMap.getElem?_insert, Std.ExtTreeMap.getElem?_insertIfNew, indexed.mem_iff,
      fresh]
  rw [added]
  exact ⟨longer, (inverts_iff_indexes longer).mpr (indexed.insertIfNew room)⟩

theorem Inverts.getElem?_of_known (inverse : Inverts ids names) {id : UInt16}
    (known : ids[name]? = some id) : names[id.toNat]? = some name := by
  rw [← inverse name, known, Option.map_some]

theorem getElem?_of_isPrefix {longer : List String} {position : Nat} (isPrefix : names <+: longer)
    (found : names[position]? = some name) : longer[position]? = some name := by
  obtain ⟨rest, rfl⟩ := isPrefix
  rw [List.getElem?_append_left (List.getElem?_eq_some_iff.mp found).1, found]

theorem getElem?_concat_length (room : names.length ≤ Image.maxId) :
    (names ++ [name])[(UInt16.ofNat names.length).toNat]? = some name := by
  rw [UInt16.toNat_ofNat_of_lt' (Nat.lt_succ_of_le room), List.getElem?_concat_length]

end Names

/-- What can be asked of an image. -/
inductive Addition
  | routine (routine : Routine)
  | constant (value : String)
  | native (native : Native)

def Addition.perform : Addition → ImageM UInt16
  | .routine added => Image.addRoutine added
  | .constant value => Image.internConstant value
  | .native asked => Image.internNative asked

/-- What can be written in a routine once it has been added. -/
inductive Writing
  | frame (frame : Frame)
  | scopeId (id : UInt16)
  | code (code : Buffer)

def Writing.write (routine : Routine) : Writing → Routine
  | .frame slots => { routine with frame := slots }
  | .scopeId id => { routine with scopeId := id }
  | .code buffer => { routine with code := buffer }

theorem Writing.name_write (routine : Routine) (writing : Writing) :
    (writing.write routine).name = routine.name := by
  cases writing <;> rfl

theorem Writing.id_write (routine : Routine) (writing : Writing) :
    (writing.write routine).id = routine.id := by
  cases writing <;> rfl

/-- One event in the making of an image. -/
inductive Event
  | add (addition : Addition)
  | write (id : UInt16) (writing : Writing)

/-- The image that a call leaves, whether it succeeds or not. -/
def imageOf : EStateM.Result CodeError Image UInt16 → Image
  | .ok _ image => image
  | .error _ image => image

namespace Image

def next (image : Image) : Event → Image
  | .add addition => imageOf (addition.perform image)
  | .write id writing => image.modifyRoutine id writing.write

/-- The image after events in a row. -/
def after (image : Image) (events : List Event) : Image :=
  events.foldl next image

def routineNames (image : Image) : List String :=
  image.routines.toList.map (·.name)

def nativeNames (image : Image) : List String :=
  image.natives.toList.map (·.name)

/-- The image with a routine behind the others. -/
def pushRoutine (image : Image) (routine : Routine) : Image :=
  let id := UInt16.ofNat image.routines.size
  { image with
    routineIds := image.routineIds.insertIfNew routine.name id
    routines := image.routines.push { routine with id := some id } }

/-- The image with a constant behind the others. -/
def pushConstant (image : Image) (value : String) : Image :=
  { image with
    constants := image.constants.push value
    constantIds := image.constantIds.insert value (.ofNat image.constants.size) }

/-- The image with a native behind the others. -/
def pushNative (image : Image) (native : Native) : Image :=
  { image with
    natives := image.natives.push native
    nativeIds := image.nativeIds.insert native.name (.ofNat image.natives.size) }

end Image

/-- All that a call can do to an image and answer. -/
inductive Addition.Outcome (image : Image) :
    Addition → EStateM.Result CodeError Image UInt16 → Prop
  | noRoomForRoutine {routine : Routine} (full : Image.maxId < image.routines.size) :
      Outcome image (.routine routine) (.error .tooManyFunctions image)
  | numbered {routine : Routine} {existing : UInt16} (room : image.routines.size ≤ Image.maxId)
      (given : routine.id = some existing) :
      Outcome image (.routine routine)
        (.error (.idReassigned routine.name existing (.ofNat image.routines.size)) image)
  | newRoutine {routine : Routine} (room : image.routines.size ≤ Image.maxId)
      (free : routine.id = none) :
      Outcome image (.routine routine)
        (.ok (.ofNat image.routines.size) (image.pushRoutine routine))
  | oldConstant {value : String} {id : UInt16} (known : image.constantIds[value]? = some id) :
      Outcome image (.constant value) (.ok id image)
  | noRoomForConstant {value : String} (absent : image.constantIds[value]? = none)
      (full : Image.maxId < image.constants.size) :
      Outcome image (.constant value) (.error .tooManyConstants image)
  | newConstant {value : String} (absent : image.constantIds[value]? = none)
      (room : image.constants.size ≤ Image.maxId) :
      Outcome image (.constant value)
        (.ok (.ofNat image.constants.size) (image.pushConstant value))
  | oldNative {native : Native} {id : UInt16} (known : image.nativeIds[native.name]? = some id) :
      Outcome image (.native native) (.ok id image)
  | noRoomForNative {native : Native} (absent : image.nativeIds[native.name]? = none)
      (full : Image.maxId < image.natives.size) :
      Outcome image (.native native) (.error .tooManyNatives image)
  | newNative {native : Native} (absent : image.nativeIds[native.name]? = none)
      (room : image.natives.size ≤ Image.maxId) :
      Outcome image (.native native) (.ok (.ofNat image.natives.size) (image.pushNative native))

theorem Addition.outcome (addition : Addition) (image : Image) :
    Outcome image addition (addition.perform image) := by
  cases addition with
  | routine routine =>
      unfold perform Image.addRoutine
      dsimp only
      split
      · exact .noRoomForRoutine ‹_›
      · have room := Nat.le_of_not_lt ‹_›
        rw [Routine.assignId]
        cases given : routine.id with
        | some existing => exact .numbered room given
        | none => exact .newRoutine room given
  | constant value =>
      unfold perform Image.internConstant
      dsimp only
      split
      · exact .oldConstant ‹_›
      · split
        · exact .noRoomForConstant ‹_› ‹_›
        · exact .newConstant ‹_› (Nat.le_of_not_lt ‹_›)
  | native native =>
      unfold perform Image.internNative
      dsimp only
      split
      · exact .oldNative ‹_›
      · split
        · exact .noRoomForNative ‹_› ‹_›
        · exact .newNative ‹_› (Nat.le_of_not_lt ‹_›)

namespace Image

/-- The tables of an image are in order with their indexes. -/
structure Consistent (image : Image) : Prop where
  /-- Routines carry their positions as numbers. -/
  numbered : ∀ (position : Nat) (routine : Routine), image.routines[position]? = some routine →
    routine.id.map UInt16.toNat = some position
  /-- Of routines with one name the first one is indexed. -/
  routineIds : Indexes image.routineIds image.routineNames
  emptyConstant : image.constants[0]? = some ""
  constants : image.constants.toList.Nodup
  constantIds : Inverts image.constantIds image.constants.toList
  natives : image.nativeNames.Nodup
  nativeIds : Inverts image.nativeIds image.nativeNames

variable {image : Image} {routine : Routine} {value : String} {native : Native}

@[simp]
theorem routineNames_pushRoutine :
    (image.pushRoutine routine).routineNames = image.routineNames ++ [routine.name] := by
  simp [routineNames, pushRoutine]

@[simp]
theorem toList_constants_pushConstant :
    (image.pushConstant value).constants.toList = image.constants.toList ++ [value] := by
  simp [pushConstant]

@[simp]
theorem nativeNames_pushNative :
    (image.pushNative native).nativeNames = image.nativeNames ++ [native.name] := by
  simp [nativeNames, pushNative]

theorem length_routineNames : image.routineNames.length = image.routines.size := by
  simp [routineNames]

theorem length_nativeNames : image.nativeNames.length = image.natives.size := by
  simp [nativeNames]

theorem routineNames_modifyRoutine (id : UInt16) {change : Routine → Routine}
    (sameName : ∀ routine, (change routine).name = routine.name) :
    (image.modifyRoutine id change).routineNames = image.routineNames := by
  apply List.ext_getElem?
  intro position
  simp only [routineNames, modifyRoutine, List.getElem?_map, Array.getElem?_toList,
    Array.getElem?_modify]
  split
  · simp [Function.comp_def, sameName]
  · rfl

theorem consistent_empty : empty.Consistent where
  numbered := by simp [empty]
  routineIds := by intro name; simp [empty, routineNames]
  emptyConstant := rfl
  constants := by simp [empty]
  constantIds := by
    have nothing : Inverts ∅ [] := by intro name position; simp
    exact (nothing.insert .nil Std.ExtTreeMap.getElem?_empty (Nat.zero_le _)).2
  natives := by simp [empty, nativeNames]
  nativeIds := by intro name position; simp [empty, nativeNames]

namespace Consistent

theorem indexes_constants (consistent : image.Consistent) :
    Indexes image.constantIds image.constants.toList :=
  (inverts_iff_indexes consistent.constants).mp consistent.constantIds

theorem indexes_natives (consistent : image.Consistent) :
    Indexes image.nativeIds image.nativeNames :=
  (inverts_iff_indexes consistent.natives).mp consistent.nativeIds

theorem pushRoutine (consistent : image.Consistent) (room : image.routines.size ≤ maxId) :
    (image.pushRoutine routine).Consistent :=
  { consistent with
    numbered := by
      intro position added found
      rw [Image.pushRoutine, Array.getElem?_push] at found
      split at found
      · cases found
        simp [*, UInt16.toNat_ofNat_of_lt' (Nat.lt_succ_of_le room)]
      · exact consistent.numbered position added found
    routineIds := by
      rw [← length_routineNames] at room
      rw [routineNames_pushRoutine, Image.pushRoutine, ← length_routineNames]
      exact consistent.routineIds.insertIfNew room }

theorem pushConstant (consistent : image.Consistent) (absent : image.constantIds[value]? = none)
    (room : image.constants.size ≤ maxId) : (image.pushConstant value).Consistent := by
  obtain ⟨distinct, inverse⟩ := consistent.constantIds.insert consistent.constants absent room
  refine { consistent with emptyConstant := ?_, constants := ?_, constantIds := ?_ }
  · have nonempty := (Array.getElem?_eq_some_iff.mp consistent.emptyConstant).1
    rw [Image.pushConstant, Array.getElem?_push, if_neg (Nat.ne_of_lt nonempty)]
    exact consistent.emptyConstant
  · rwa [toList_constants_pushConstant]
  · rwa [toList_constants_pushConstant]

theorem pushNative (consistent : image.Consistent) (absent : image.nativeIds[native.name]? = none)
    (room : image.natives.size ≤ maxId) : (image.pushNative native).Consistent := by
  rw [← length_nativeNames] at room
  obtain ⟨distinct, inverse⟩ := consistent.nativeIds.insert consistent.natives absent room
  rw [length_nativeNames] at inverse
  refine { consistent with natives := ?_, nativeIds := ?_ }
  · rwa [nativeNames_pushNative]
  · rwa [nativeNames_pushNative]

theorem modifyRoutine (consistent : image.Consistent) (id : UInt16) {change : Routine → Routine}
    (sameName : ∀ routine, (change routine).name = routine.name)
    (sameId : ∀ routine, (change routine).id = routine.id) :
    (image.modifyRoutine id change).Consistent := by
  refine { consistent with numbered := ?_, routineIds := ?_ }
  · intro position changed found
    rw [Image.modifyRoutine, Array.getElem?_modify] at found
    split at found
    · obtain ⟨routine, old, rfl⟩ := Option.map_eq_some_iff.mp found
      rw [sameId]
      exact consistent.numbered position routine old
    · exact consistent.numbered position changed found
  · rw [routineNames_modifyRoutine id sameName]
    exact consistent.routineIds

end Consistent

/-- Every entry of one image stands in the other one under the same number.  Of a routine this means
its name, since the rest of it may be written to. -/
structure Grows (before after : Image) : Prop where
  routines : before.routineNames <+: after.routineNames
  constants : before.constants.toList <+: after.constants.toList
  natives : before.natives.toList <+: after.natives.toList

namespace Grows

variable {before middle after : Image}

theorem refl (image : Image) : image.Grows image :=
  ⟨List.prefix_rfl, List.prefix_rfl, List.prefix_rfl⟩

theorem trans (first : before.Grows middle) (second : middle.Grows after) : before.Grows after :=
  ⟨first.routines.trans second.routines, first.constants.trans second.constants,
    first.natives.trans second.natives⟩

theorem nativeNames (grows : before.Grows after) : before.nativeNames <+: after.nativeNames :=
  grows.natives.map _

theorem pushRoutine : image.Grows (image.pushRoutine routine) :=
  { refl image with routines := by simp }

theorem pushConstant : image.Grows (image.pushConstant value) :=
  { refl image with constants := by simp }

theorem pushNative : image.Grows (image.pushNative native) :=
  { refl image with natives := by simp [Image.pushNative] }

theorem modifyRoutine (id : UInt16) (writing : Writing) :
    image.Grows (image.modifyRoutine id writing.write) :=
  { refl image with
    routines := by
      rewrite [routineNames_modifyRoutine id fun routine => writing.name_write routine]
      exact List.prefix_rfl }

end Grows

end Image

namespace Addition

/-- The number stands for the name of the routine, the string or the name of the native that was
asked for. -/
def DenotedBy (image : Image) (id : UInt16) : Addition → Prop
  | .routine added => image.routineNames[id.toNat]? = some added.name
  | .constant value => image.constants.toList[id.toNat]? = some value
  | .native asked => image.nativeNames[id.toNat]? = some asked.name

/-- Why a call is refused: the table of what is asked for is full, or the routine has a number
already. -/
inductive Refused (image : Image) : Addition → CodeError → Prop
  | routines {routine : Routine} (full : Image.maxId < image.routines.size) :
      Refused image (.routine routine) .tooManyFunctions
  | numbered {routine : Routine} {existing : UInt16} (room : image.routines.size ≤ Image.maxId)
      (given : routine.id = some existing) :
      Refused image (.routine routine)
        (.idReassigned routine.name existing (.ofNat image.routines.size))
  | constants {value : String} (absent : value ∉ image.constants.toList)
      (full : Image.maxId < image.constants.size) :
      Refused image (.constant value) .tooManyConstants
  | natives {native : Native} (absent : native.name ∉ image.nativeNames)
      (full : Image.maxId < image.natives.size) : Refused image (.native native) .tooManyNatives

variable {image after : Image} {addition : Addition} {id : UInt16} {error : CodeError}

theorem DenotedBy.of_grows (denoted : addition.DenotedBy image id) (grows : image.Grows after) :
    addition.DenotedBy after id := by
  cases addition with
  | routine added => exact getElem?_of_isPrefix grows.routines denoted
  | constant value => exact getElem?_of_isPrefix grows.constants denoted
  | native asked => exact getElem?_of_isPrefix grows.nativeNames denoted

namespace Outcome

variable {result : EStateM.Result CodeError Image UInt16}

theorem grows (outcome : Outcome image addition result) : image.Grows (imageOf result) := by
  cases outcome with
  | newRoutine => exact .pushRoutine
  | newConstant => exact .pushConstant
  | newNative => exact .pushNative
  | _ => exact .refl image

theorem consistent (outcome : Outcome image addition result) (consistent : image.Consistent) :
    (imageOf result).Consistent := by
  cases outcome with
  | newRoutine room => exact consistent.pushRoutine room
  | newConstant absent room => exact consistent.pushConstant absent room
  | newNative absent room => exact consistent.pushNative absent room
  | _ => exact consistent

theorem refused (outcome : Outcome image addition (.error error after))
    (consistent : image.Consistent) : after = image ∧ addition.Refused image error := by
  cases outcome with
  | noRoomForRoutine full => exact ⟨rfl, .routines full⟩
  | numbered room given => exact ⟨rfl, .numbered room given⟩
  | noRoomForConstant absent full =>
      exact ⟨rfl, .constants (consistent.indexes_constants.getElem?_eq_none_iff.mp absent) full⟩
  | noRoomForNative absent full =>
      exact ⟨rfl, .natives (consistent.indexes_natives.getElem?_eq_none_iff.mp absent) full⟩

theorem denoted (outcome : Outcome image addition (.ok id after)) (consistent : image.Consistent) :
    addition.DenotedBy after id := by
  cases outcome with
  | newRoutine room =>
      rw [DenotedBy, Image.routineNames_pushRoutine, ← Image.length_routineNames]
      exact getElem?_concat_length (Image.length_routineNames ▸ room)
  | oldConstant known => exact consistent.constantIds.getElem?_of_known known
  | newConstant absent room =>
      rw [DenotedBy, Image.toList_constants_pushConstant]
      exact getElem?_concat_length room
  | oldNative known => exact consistent.nativeIds.getElem?_of_known known
  | newNative absent room =>
      rw [DenotedBy, Image.nativeNames_pushNative, ← Image.length_nativeNames]
      exact getElem?_concat_length (Image.length_nativeNames ▸ room)

end Outcome

/-- A call that fails leaves the image as it was, and it fails only for want of room or because of a
number that was given before. -/
theorem perform_eq_error_iff (consistent : image.Consistent) :
    addition.perform image = .error error after ↔
      after = image ∧ addition.Refused image error := by
  constructor
  · intro failure
    exact (failure ▸ addition.outcome image).refused consistent
  · rintro ⟨rfl, refused⟩
    cases refused with
    | routines full => exact if_pos full
    | numbered room given =>
        simp [perform, Image.addRoutine, Nat.not_lt.mpr room, Routine.assignId, given]
    | constants absent full =>
        have unknown := consistent.indexes_constants.getElem?_eq_none_iff.mpr absent
        simp [perform, Image.internConstant, unknown, full]
    | natives absent full =>
        have unknown := consistent.indexes_natives.getElem?_eq_none_iff.mpr absent
        simp [perform, Image.internNative, unknown, full]

end Addition

namespace Image

variable {image : Image}

theorem grows_next (image : Image) (event : Event) : image.Grows (image.next event) := by
  cases event with
  | add addition => exact (addition.outcome image).grows
  | write id writing => exact .modifyRoutine id writing

theorem Consistent.next (consistent : image.Consistent) (event : Event) :
    (image.next event).Consistent := by
  cases event with
  | add addition => exact (addition.outcome image).consistent consistent
  | write id writing =>
      exact consistent.modifyRoutine id (fun routine => writing.name_write routine)
        fun routine => writing.id_write routine

theorem grows_after (image : Image) (events : List Event) : image.Grows (image.after events) := by
  induction events generalizing image with
  | nil => exact .refl image
  | cons event events ih => exact (image.grows_next event).trans (ih (image.next event))

theorem Consistent.after (consistent : image.Consistent) (events : List Event) :
    (image.after events).Consistent := by
  induction events generalizing image with
  | nil => exact consistent
  | cons event events ih => exact ih (consistent.next event)

/-- After any events the tables are in order.  A call that then succeeds gives a number that stands
for what was asked for, now and after all later events, during which every entry keeps its number.
A call that fails, which it does only for the reasons listed, changes nothing. -/
theorem tables_of_run (events : List Event) :
    (empty.after events).Consistent ∧ ∀ addition : Addition,
      (∀ id image, addition.perform (empty.after events) = .ok id image →
        ∀ later, image.Grows (image.after later) ∧ addition.DenotedBy (image.after later) id) ∧
      ∀ error image, addition.perform (empty.after events) = .error error image ↔
        image = empty.after events ∧ addition.Refused (empty.after events) error := by
  have consistent := consistent_empty.after events
  refine ⟨consistent, fun addition => ⟨fun id image success later => ?_, fun error image => ?_⟩⟩
  · have outcome := success ▸ addition.outcome (empty.after events)
    exact ⟨image.grows_after later, (outcome.denoted consistent).of_grows (image.grows_after later)⟩
  · exact Addition.perform_eq_error_iff consistent

end Image

end Backpatch
