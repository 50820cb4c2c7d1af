import Backpatch.Proofs.ImageTables

/-!
# How much an image holds

Entries are numbered by sixteen bits, so that each table of an image has room for 65536 of them.
The errors that tell of a full table speak of a limit of 65535; a table holds one entry more than
that before it refuses the next.

What a run leaves in the tables is given in full: of the routines, constants and natives that it
asked for, in this order, those for which there was room.
-/

namespace Backpatch

namespace Image

/-- How many entries each table of an image has room for. -/
def capacity : Nat := 65536

/-- Put a name behind others while there is room. -/
def appendWithin (names : List String) (name : String) : List String :=
  if names.length < capacity then names ++ [name] else names

/-- Put a name that is not there behind others while there is room. -/
def insertWithin (names : List String) (name : String) : List String :=
  if name ∈ names then names else appendWithin names name

end Image

open Image

theorem appendWithin_take (names : List String) (name : String) :
    appendWithin (names.take capacity) name = (names ++ [name]).take capacity := by
  by_cases room : names.length < capacity
  · have longer : (names ++ [name]).length ≤ capacity := by
      rw [List.length_append, List.length_singleton]
      exact room
    rw [List.take_of_length_le (Nat.le_of_lt room), appendWithin, if_pos room,
      List.take_of_length_le longer]
  · have full : capacity ≤ names.length := Nat.le_of_not_lt room
    rw [appendWithin, List.length_take_of_le full, if_neg (Nat.lt_irrefl _),
      List.take_append_of_le_length full]

theorem foldl_appendWithin (earlier names : List String) :
    names.foldl appendWithin (earlier.take capacity) = (earlier ++ names).take capacity := by
  induction names generalizing earlier with
  | nil => rw [List.foldl_nil, List.append_nil]
  | cons name names ih =>
      rw [List.foldl_cons, appendWithin_take, ih, List.append_assoc, List.singleton_append]

theorem eraseDups_concat (names : List String) (name : String) :
    (names ++ [name]).eraseDups =
      if name ∈ names then names.eraseDups else names.eraseDups ++ [name] := by
  rw [List.eraseDups_append]
  split <;> simp [List.removeAll, List.eraseDups_cons, *]

theorem insertWithin_take_eraseDups (names : List String) (name : String) :
    insertWithin (names.eraseDups.take capacity) name =
      (names ++ [name]).eraseDups.take capacity := by
  rw [insertWithin, appendWithin_take, eraseDups_concat]
  by_cases held : name ∈ names.eraseDups.take capacity
  · rw [if_pos held, if_pos (List.mem_eraseDups.mp (List.mem_of_mem_take held))]
  · rw [if_neg held]
    by_cases asked : name ∈ names
    · -- The name was asked for before, when the table was full already.
      have full : capacity ≤ names.eraseDups.length := by
        refine Nat.le_of_not_lt fun room => held ?_
        rw [List.take_of_length_le (Nat.le_of_lt room)]
        exact List.mem_eraseDups.mpr asked
      rw [if_pos asked, List.take_append_of_le_length full]
    · rw [if_neg asked]

theorem foldl_insertWithin (earlier names : List String) :
    names.foldl insertWithin (earlier.eraseDups.take capacity) =
      (earlier ++ names).eraseDups.take capacity := by
  induction names generalizing earlier with
  | nil => rw [List.foldl_nil, List.append_nil]
  | cons name names ih =>
      rw [List.foldl_cons, insertWithin_take_eraseDups, ih, List.append_assoc,
        List.singleton_append]

namespace Event

/-- The name of the routine that the event asks for, unless that has a number already. -/
def routines : Event → List String
  | add (.routine added) => if added.id = none then [added.name] else []
  | _ => []

def constants : Event → List String
  | add (.constant value) => [value]
  | _ => []

def natives : Event → List String
  | add (.native asked) => [asked.name]
  | _ => []

end Event

section Steps

variable {image : Image} {ids : NameMap UInt16} {names : List String} {name : String}

theorem appendWithin_of_room (room : names.length ≤ maxId) :
    appendWithin names name = names ++ [name] :=
  if_pos (Nat.lt_succ_of_le room)

theorem appendWithin_of_full (full : maxId < names.length) : appendWithin names name = names :=
  if_neg (Nat.not_lt_of_le full)

theorem insertWithin_of_full (full : maxId < names.length) : insertWithin names name = names := by
  rw [insertWithin, appendWithin_of_full full, ite_self]

theorem Indexes.insertWithin_of_known (indexed : Indexes ids names) {id : UInt16}
    (known : ids[name]? = some id) : insertWithin names name = names := by
  refine if_pos (Decidable.byContradiction fun absent => ?_)
  rw [indexed.getElem?_eq_none_iff.mpr absent] at known
  cases known

theorem Indexes.insertWithin_of_room (indexed : Indexes ids names) (absent : ids[name]? = none)
    (room : names.length ≤ maxId) : insertWithin names name = names ++ [name] := by
  rw [insertWithin, if_neg (indexed.getElem?_eq_none_iff.mp absent), appendWithin_of_room room]

namespace Image

theorem routineNames_next (image : Image) (event : Event) :
    (image.next event).routineNames = event.routines.foldl appendWithin image.routineNames := by
  cases event with
  | write id writing =>
      exact routineNames_modifyRoutine id fun routine => writing.name_write routine
  | add addition =>
      have outcome := addition.outcome image
      rw [next]
      generalize addition.perform image = result at outcome
      cases outcome with
      | noRoomForRoutine full =>
          rw [← length_routineNames] at full
          rw [Event.routines]
          split
          · exact (appendWithin_of_full full).symm
          · rfl
      | @numbered routine existing room given =>
          have notFree : routine.id ≠ none := given ▸ Option.some_ne_none existing
          rw [Event.routines, if_neg notFree]
          rfl
      | newRoutine room free =>
          rw [← length_routineNames] at room
          rw [Event.routines, if_pos free]
          exact routineNames_pushRoutine.trans (appendWithin_of_room room).symm
      | _ => rfl

theorem constants_next (consistent : image.Consistent) (event : Event) :
    (image.next event).constants.toList =
      event.constants.foldl insertWithin image.constants.toList := by
  cases event with
  | write id writing => rfl
  | add addition =>
      have outcome := addition.outcome image
      rw [next]
      generalize addition.perform image = result at outcome
      cases outcome with
      | oldConstant known => exact (consistent.indexes_constants.insertWithin_of_known known).symm
      | noRoomForConstant absent full => exact (insertWithin_of_full full).symm
      | newConstant absent room =>
          exact toList_constants_pushConstant.trans
            (consistent.indexes_constants.insertWithin_of_room absent room).symm
      | _ => rfl

theorem nativeNames_next (consistent : image.Consistent) (event : Event) :
    (image.next event).nativeNames = event.natives.foldl insertWithin image.nativeNames := by
  cases event with
  | write id writing => rfl
  | add addition =>
      have outcome := addition.outcome image
      rw [next]
      generalize addition.perform image = result at outcome
      cases outcome with
      | oldNative known => exact (consistent.indexes_natives.insertWithin_of_known known).symm
      | noRoomForNative absent full =>
          rw [← length_nativeNames] at full
          exact (insertWithin_of_full full).symm
      | newNative absent room =>
          rw [← length_nativeNames] at room
          exact nativeNames_pushNative.trans
            (consistent.indexes_natives.insertWithin_of_room absent room).symm
      | _ => rfl

/-- A list of an image that every event extends by what the event asks for is extended by a run by
all that it asks for. -/
theorem after_eq_foldl (list : Image → List String) {asked : Event → List String}
    {put : List String → String → List String}
    (step : ∀ image : Image, image.Consistent → ∀ event,
      list (image.next event) = (asked event).foldl put (list image))
    (consistent : image.Consistent) (events : List Event) :
    list (image.after events) = (events.flatMap asked).foldl put (list image) := by
  induction events generalizing image with
  | nil => rfl
  | cons event events ih =>
      rw [List.flatMap_cons, List.foldl_append, ← step image consistent]
      exact ih (consistent.next event)

/-- The image holds what events have asked for, as far as there is room. -/
structure Holds (image : Image) (events : List Event) : Prop where
  routines : image.routineNames = (events.flatMap Event.routines).take capacity
  constants : image.constants.toList =
    ("" :: events.flatMap Event.constants).eraseDups.take capacity
  natives : image.nativeNames = (events.flatMap Event.natives).eraseDups.take capacity

theorem holds_after (events : List Event) : (empty.after events).Holds events where
  routines :=
    (after_eq_foldl routineNames (fun image _ => image.routineNames_next) consistent_empty
      events).trans (foldl_appendWithin [] _)
  constants :=
    (after_eq_foldl (·.constants.toList) (fun _ => constants_next) consistent_empty events).trans
      (foldl_insertWithin [""] _)
  natives :=
    (after_eq_foldl nativeNames (fun _ => nativeNames_next) consistent_empty events).trans
      (foldl_insertWithin [] _)

/-- No table of the image has more entries than a limit. -/
structure Within (image : Image) (limit : Nat) : Prop where
  routines : image.routines.size ≤ limit
  constants : image.constants.size ≤ limit
  natives : image.natives.size ≤ limit

/-- The image refuses an entry for want of room exactly if it has not got it and the table for it
has as many entries as a limit says. -/
structure RefusesAt (image : Image) (limit : Nat) : Prop where
  routines : ∀ routine, (Addition.routine routine).perform image = .error .tooManyFunctions image ↔
    image.routines.size = limit
  constants : ∀ value, (Addition.constant value).perform image = .error .tooManyConstants image ↔
    value ∉ image.constants.toList ∧ image.constants.size = limit
  natives : ∀ native, (Addition.native native).perform image = .error .tooManyNatives image ↔
    native.name ∉ image.nativeNames ∧ image.natives.size = limit

namespace Holds

variable {events : List Event}

theorem size_routines (holds : image.Holds events) :
    image.routines.size = min capacity (events.flatMap Event.routines).length := by
  rw [← length_routineNames, holds.routines, List.length_take]

theorem size_constants (holds : image.Holds events) :
    image.constants.size =
      min capacity ("" :: events.flatMap Event.constants).eraseDups.length := by
  rw [← Array.length_toList, holds.constants, List.length_take]

theorem size_natives (holds : image.Holds events) :
    image.natives.size = min capacity (events.flatMap Event.natives).eraseDups.length := by
  rw [← length_nativeNames, holds.natives, List.length_take]

theorem within_capacity (holds : image.Holds events) : image.Within capacity where
  routines := holds.size_routines ▸ Nat.min_le_left _ _
  constants := holds.size_constants ▸ Nat.min_le_left _ _
  natives := holds.size_natives ▸ Nat.min_le_left _ _

end Holds

theorem maxId_lt_iff {size : Nat} (within : size ≤ capacity) : maxId < size ↔ size = capacity :=
  ⟨Nat.le_antisymm within, fun full => full ▸ Nat.lt_succ_self maxId⟩

theorem Consistent.refusesAt (consistent : image.Consistent) (within : image.Within capacity) :
    image.RefusesAt capacity where
  routines := by
    intro routine
    rw [Addition.perform_eq_error_iff consistent, eq_self, true_and, ← maxId_lt_iff within.routines]
    refine ⟨fun refused => ?_, .routines⟩
    cases refused with
    | routines full => exact full
  constants := by
    intro value
    rw [Addition.perform_eq_error_iff consistent, eq_self, true_and,
      ← maxId_lt_iff within.constants]
    refine ⟨fun refused => ?_, fun refused => .constants refused.1 refused.2⟩
    cases refused with
    | constants absent full => exact ⟨absent, full⟩
  natives := by
    intro native
    rw [Addition.perform_eq_error_iff consistent, eq_self, true_and, ← maxId_lt_iff within.natives]
    refine ⟨fun refused => ?_, fun refused => .natives refused.1 refused.2⟩
    cases refused with
    | natives absent full => exact ⟨absent, full⟩

theorem size_le_maxId_iff {size demand : Nat} (sized : size = min capacity demand) :
    size ≤ maxId ↔ demand ≤ maxId := by
  simp only [sized, capacity, maxId]
  omega

theorem Holds.within_maxId_iff {events : List Event} (holds : image.Holds events) :
    image.Within maxId ↔ (events.flatMap Event.routines).length ≤ maxId ∧
      ("" :: events.flatMap Event.constants).eraseDups.length ≤ maxId ∧
      (events.flatMap Event.natives).eraseDups.length ≤ maxId := by
  have routines := size_le_maxId_iff holds.size_routines
  have constants := size_le_maxId_iff holds.size_constants
  have natives := size_le_maxId_iff holds.size_natives
  constructor
  · intro within
    exact ⟨routines.mp within.routines, constants.mp within.constants, natives.mp within.natives⟩
  · intro demand
    exact ⟨routines.mpr demand.1, constants.mpr demand.2.1, natives.mpr demand.2.2⟩

/-- After any events an image holds what they have asked for as far as there is room for 65536
entries of a kind, and it refuses more exactly if there is none.  It stays within the limit of 65535
that the errors tell exactly if no more than that has been asked for. -/
theorem limits_of_run (events : List Event) :
    (empty.after events).Holds events ∧ (empty.after events).RefusesAt 65536 ∧
      ((empty.after events).Within 65535 ↔
        (events.flatMap Event.routines).length ≤ 65535 ∧
          ("" :: events.flatMap Event.constants).eraseDups.length ≤ 65535 ∧
          (events.flatMap Event.natives).eraseDups.length ≤ 65535) := by
  have holds := holds_after events
  have refuses := (consistent_empty.after events).refusesAt holds.within_capacity
  exact ⟨holds, refuses, holds.within_maxId_iff⟩

end Image

end Steps

theorem eraseDups_of_nodup {names : List String} (distinct : names.Nodup) :
    names.eraseDups = names := by
  induction names with
  | nil => rfl
  | cons name names ih =>
      obtain ⟨absent, distinct⟩ := List.nodup_cons.mp distinct
      have others : names.filter (fun other => !other == name) = names := by
        refine List.filter_eq_self.mpr fun other member => ?_
        simpa using fun same : other = name => absent (same ▸ member)
      rw [List.eraseDups_cons, others, ih distinct]

namespace Event

/-- A name for each number, the empty one for zero. -/
def tally (number : Nat) : String :=
  String.ofList (List.replicate number '|')

/-- Ask for routines, constants and natives under different names. -/
def filling (count : Nat) : List Event :=
  (List.range count).flatMap fun number =>
    [.add (.routine (.declare (tally number) default)), .add (.constant (tally number)),
      .add (.native ⟨tally number, default, 0⟩)]

variable {count : Nat}

theorem nodup_tallies : ((List.range count).map tally).Nodup := by
  refine List.Pairwise.map tally (fun first second different same => different ?_) List.nodup_range
  simpa [tally, String.ofList_inj, List.replicate_inj] using same

theorem routines_filling : (filling count).flatMap routines = (List.range count).map tally := by
  rw [filling, List.flatMap_assoc, List.map_eq_flatMap]
  rfl

theorem constants_filling : (filling count).flatMap constants = (List.range count).map tally := by
  rw [filling, List.flatMap_assoc, List.map_eq_flatMap]
  rfl

theorem natives_filling : (filling count).flatMap natives = (List.range count).map tally := by
  rw [filling, List.flatMap_assoc, List.map_eq_flatMap]
  rfl

end Event

namespace Image

theorem size_routines_filling (count : Nat) :
    (empty.after (Event.filling count)).routines.size = min capacity count := by
  rw [(holds_after _).size_routines, Event.routines_filling, List.length_map, List.length_range]

theorem size_natives_filling (count : Nat) :
    (empty.after (Event.filling count)).natives.size = min capacity count := by
  rw [(holds_after _).size_natives, Event.natives_filling, eraseDups_of_nodup Event.nodup_tallies,
    List.length_map, List.length_range]

theorem size_constants_filling (count : Nat) :
    (empty.after (Event.filling (count + 1))).constants.size = min capacity (count + 1) := by
  -- The first constant of the filling is there from the start.
  have first : (List.range (count + 1)).map Event.tally =
      "" :: ((List.range count).map (· + 1)).map Event.tally := by
    rw [List.range_succ_eq_map]
    rfl
  have once (names : List String) : ("" :: "" :: names).eraseDups = ("" :: names).eraseDups := by
    simp [List.eraseDups_cons]
  rw [(holds_after _).size_constants, Event.constants_filling, first, once, ← first,
    eraseDups_of_nodup Event.nodup_tallies, List.length_map, List.length_range]

/-- Each table of an image can have one entry more than the limit that the error tells. -/
theorem tables_exceed_stated_limit :
    (empty.after (Event.filling 65536)).routines.size = 65536 ∧
      (empty.after (Event.filling 65536)).constants.size = 65536 ∧
      (empty.after (Event.filling 65536)).natives.size = 65536 ∧
      CodeError.tooManyFunctions.message = "too many functions (limit: 65535)" ∧
      CodeError.tooManyConstants.message = "too many string constants (limit: 65535)" ∧
      CodeError.tooManyNatives.message = "too many native functions (limit: 65535)" :=
  ⟨size_routines_filling 65536, size_constants_filling 65535, size_natives_filling 65536, rfl, rfl,
    rfl⟩

end Image

end Backpatch
