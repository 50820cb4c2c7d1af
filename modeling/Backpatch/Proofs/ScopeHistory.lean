import Backpatch.Scope
import Mathlib.Data.List.Forall2

/-!
# Scopes over a whole run

Scopes change by requests one after the other: blocks are entered and left, functions are begun and
ended, and names and slots are given out in between, or refused.  Whatever is done inside a block or
inside a function, names mean the same behind it as before it.  Slots are not given back, though:
the counts of the current function can only go up, so no function gives out a slot twice.

For the first part, a row of requests is taken apart into blocks and functions that are closed
again.  For the second part the requests may come in any order; books are kept of what each function
has given out while it was open.
-/

namespace Backpatch

/-- A frame gives out no slot, or its next slot of some type. -/
inductive Frame.Gives (owner : UInt16) (frame : Frame) : Option Slot → Frame → Prop
  | nothing : Gives owner frame none frame
  | slot {ty : Ty} (isStorable : ty.isStorable) (room : (frame.count ty).toNat < 65535) :
      Gives owner frame (some ⟨owner, frame.count ty, ty⟩)
        (frame.setCount (frame.count ty + 1) ty)

namespace Frame.Gives

variable {owner : UInt16} {frame later : Frame} {slot : Slot} {given : Option Slot}

theorem toNat_succ {count : UInt16} (room : count.toNat < 65535) :
    (count + 1).toNat = count.toNat + 1 := by
  have one : (1 : UInt16).toNat = 1 := rfl
  rw [UInt16.toNat_add, one]
  exact Nat.mod_eq_of_lt (by omega)

theorem count_le (gives : Gives owner frame given later) (ty : Ty) :
    frame.count ty ≤ later.count ty := by
  cases gives with
  | nothing => exact UInt16.le_refl _
  | slot isStorable room =>
      rw [count_setCount isStorable, UInt16.le_iff_toNat_le]
      split
      case isTrue same =>
          rw [toNat_succ room, same]
          exact Nat.le_succ _
      case isFalse => exact Nat.le_refl _

/-- The slot that is given out is the first one that was free, and is not free any more. -/
theorem index (gives : Gives owner frame (some slot) later) :
    slot.context = owner ∧ slot.index = frame.count slot.ty ∧
      slot.index < later.count slot.ty := by
  cases gives with
  | slot isStorable room =>
      refine ⟨rfl, rfl, ?_⟩
      rw [count_setCount isStorable, if_pos rfl, UInt16.lt_iff_toNat_lt, toNat_succ room]
      exact Nat.lt_succ_self _

end Frame.Gives

theorem Context.gives_of_allocate? {context later : Context} {ty : Ty} {slot : Slot}
    (given : context.allocate? ty = some (slot, later)) :
    ∃ frame, later = { context with frame := frame } ∧
      context.frame.Gives context.id (some slot) frame := by
  unfold allocate? Frame.allocate? at given
  dsimp only at given
  split at given
  case isFalse => cases given
  case isTrue free =>
      cases given
      exact ⟨_, rfl, .slot free.1 free.2⟩

namespace Scopes

/-- What can be asked of scopes. -/
inductive Request
  | enterBlock
  | exitBlock
  | push (context : Context)
  | pop
  | declareParam (name : String) (ty : Ty)
  | declare (name : String) (ty : Ty)
  | allocateHidden (ty : Ty)
  | declareFunction (name : String) (id : UInt16)

/-- The slot that is given out, and the scopes behind it; nothing changes if there is none. -/
def granted (scopes : Scopes) (answer : Option (Slot × Scopes)) : Option Slot × Scopes :=
  (answer.map (·.1), answer.elim scopes (·.2))

/-- Do what is asked, and tell the slot that is given out. -/
def Request.perform (scopes : Scopes) : Request → Option Slot × Scopes
  | enterBlock => (none, scopes.enterBlock.2)
  | exitBlock => (none, scopes.exitBlock)
  | push context => (none, scopes.push context)
  | pop => (none, scopes.pop?.elim scopes (·.2))
  | declareParam name ty => scopes.granted (scopes.declareParam? name ty)
  | declare name ty => scopes.granted (scopes.declare? name ty)
  | allocateHidden ty => scopes.granted (scopes.allocateHidden? ty)
  | declareFunction name id => (none, (scopes.declareFunction? name id).getD scopes)

def next (scopes : Scopes) (request : Request) : Scopes :=
  (request.perform scopes).2

/-- The scopes after requests in a row. -/
def after (scopes : Scopes) (requests : List Request) : Scopes :=
  requests.foldl next scopes

/-- The request declares something in the current function.  Whether it may be a parameter is told
apart, since its name is forgotten only with the function. -/
def Request.isDeclaration (params : Bool) : Request → Bool
  | declare .. | allocateHidden _ | declareFunction .. => true
  | declareParam .. => params
  | enterBlock | exitBlock | push _ | pop => false

/-- All that a declaration can do to the current function, with the slot that it gives out. -/
structure Declares (params : Bool) (before after : Context) (given : Option Slot) : Prop where
  id : after.id = before.id
  params : params = false → after.params = before.params
  length : after.blocks.length = before.blocks.length
  outer : after.blocks.tail = before.blocks.tail
  gives : before.frame.Gives before.id given after.frame

theorem Declares.nothing (params : Bool) (context : Context) :
    Declares params context context none :=
  ⟨rfl, fun _ => rfl, rfl, rfl, .nothing⟩

/-- A declaration only changes the current function. -/
theorem declares_of_isDeclaration {params : Bool} {request : Request}
    (isDeclaration : request.isDeclaration params = true) (scopes : Scopes) :
    ∃ context, scopes.next request = { scopes with current := context } ∧
      Declares params scopes.current context (request.perform scopes).1 := by
  have refused : ∃ context, scopes = { scopes with current := context } ∧
      Declares params scopes.current context none :=
    ⟨scopes.current, rfl, .nothing params scopes.current⟩
  cases request with
  | enterBlock | exitBlock | push | pop => cases isDeclaration
  | declareParam name ty =>
      subst isDeclaration
      rw [next, Request.perform, declareParam?]
      cases given : scopes.current.allocate? ty with
      | none => exact refused
      | some result =>
          obtain ⟨slot, later⟩ := result
          obtain ⟨frame, rfl, gives⟩ := Context.gives_of_allocate? given
          exact ⟨_, rfl, ⟨rfl, by rintro ⟨⟩, rfl, rfl, gives⟩⟩
  | allocateHidden ty =>
      rw [next, Request.perform, allocateHidden?]
      cases given : scopes.current.allocate? ty with
      | none => exact refused
      | some result =>
          obtain ⟨slot, later⟩ := result
          obtain ⟨frame, rfl, gives⟩ := Context.gives_of_allocate? given
          exact ⟨_, rfl, ⟨rfl, fun _ => rfl, rfl, rfl, gives⟩⟩
  | declare name ty =>
      rw [next, Request.perform, declare?]
      cases blocks : scopes.current.blocks with
      | nil => exact refused
      | cons block outer =>
          cases given : scopes.current.allocate? ty with
          | none => exact refused
          | some result =>
              obtain ⟨slot, later⟩ := result
              obtain ⟨frame, rfl, gives⟩ := Context.gives_of_allocate? given
              refine ⟨_, rfl, ⟨rfl, fun _ => rfl, ?_, ?_, gives⟩⟩
              · rw [blocks]
                rfl
              · rw [blocks]
                rfl
  | declareFunction name id =>
      rw [next, Request.perform, declareFunction?]
      cases blocks : scopes.current.blocks with
      | nil => exact refused
      | cons block outer =>
          dsimp only
          split
          · exact refused
          · refine ⟨_, rfl, ⟨rfl, fun _ => rfl, ?_, ?_, .nothing⟩⟩
            · rw [blocks]
              rfl
            · rw [blocks]
              rfl

/-- What is asked inside a function leaves the functions around it alone, and gives out the next
free slot of the function or none. -/
theorem gives_of_inside {request : Request}
    (inside : request = .enterBlock ∨ request = .exitBlock ∨ request.isDeclaration true = true)
    (scopes : Scopes) :
    (scopes.next request).enclosing = scopes.enclosing ∧
      (scopes.next request).current.id = scopes.current.id ∧
      scopes.current.frame.Gives scopes.current.id (request.perform scopes).1
        (scopes.next request).current.frame := by
  rcases inside with rfl | rfl | isDeclaration
  · exact ⟨rfl, rfl, .nothing⟩
  · exact ⟨rfl, rfl, .nothing⟩
  · obtain ⟨context, changed, declares⟩ := declares_of_isDeclaration isDeclaration scopes
    rw [changed]
    exact ⟨rfl, declares.id, declares.gives⟩

/-- Every block that is entered is left again, and every function that is begun is ended.  Functions
that are begun here may declare parameters, the current one only with `params`. -/
inductive Balanced : (params : Bool) → List Request → Prop
  | nil {params : Bool} : Balanced params []
  | declaration {params : Bool} {request : Request} {rest : List Request}
      (isDeclaration : request.isDeclaration params = true) (later : Balanced params rest) :
      Balanced params (request :: rest)
  | block {params : Bool} {inner rest : List Request} (inside : Balanced params inner)
      (later : Balanced params rest) :
      Balanced params (.enterBlock :: inner ++ .exitBlock :: rest)
  | function {params : Bool} {context : Context} {inner rest : List Request}
      (inside : Balanced true inner) (later : Balanced params rest) :
      Balanced params (.push context :: inner ++ .pop :: rest)

/-- A block with all that is done in it, in which the current function gets no parameters, or a
function with all that is done in it. -/
inductive Bracket : List Request → Prop
  | block {inner : List Request} (inside : Balanced false inner) :
      Bracket (.enterBlock :: inner ++ [.exitBlock])
  | function {context : Context} {inner : List Request} (inside : Balanced true inner) :
      Bracket (.push context :: inner ++ [.pop])

/-- The same function is current as before, in the same block, and all is as before around this
block. -/
structure Within (params : Bool) (before after : Scopes) : Prop where
  enclosing : after.enclosing = before.enclosing
  id : after.current.id = before.current.id
  params : params = false → after.current.params = before.current.params
  length : after.current.blocks.length = before.current.blocks.length
  outer : after.current.blocks.tail = before.current.blocks.tail
  frame : ∀ ty, before.current.frame.count ty ≤ after.current.frame.count ty

/-- A block or a function has been closed again: the names of the innermost block are as before,
too. -/
structure Closed (params : Bool) (before after : Scopes) : Prop
    extends Within params before after where
  blocks : after.current.blocks = before.current.blocks

variable {params : Bool} {before middle after scopes : Scopes} {requests : List Request}

theorem Within.refl (params : Bool) (scopes : Scopes) : Within params scopes scopes :=
  ⟨rfl, rfl, fun _ => rfl, rfl, rfl, fun _ => UInt16.le_refl _⟩

theorem Within.trans (first : Within params before middle) (second : Within params middle after) :
    Within params before after where
  enclosing := second.enclosing.trans first.enclosing
  id := second.id.trans first.id
  params none := (second.params none).trans (first.params none)
  length := second.length.trans first.length
  outer := second.outer.trans first.outer
  frame ty := UInt16.le_trans (first.frame ty) (second.frame ty)

theorem within_of_isDeclaration {request : Request}
    (isDeclaration : request.isDeclaration params = true) (scopes : Scopes) :
    Within params scopes (scopes.next request) := by
  obtain ⟨context, changed, declares⟩ := declares_of_isDeclaration isDeclaration scopes
  rw [changed]
  exact ⟨rfl, declares.id, declares.params, declares.length, declares.outer,
    declares.gives.count_le⟩

/-- Leaving a block forgets its names. -/
theorem Within.exitBlock (inside : Within params scopes.enterBlock.2 after) :
    Closed params scopes after.exitBlock := by
  have blocks : after.current.blocks.tail = scopes.current.blocks := inside.outer
  exact
    { enclosing := inside.enclosing
      id := inside.id
      params := inside.params
      length := congrArg List.length blocks
      outer := congrArg List.tail blocks
      frame := inside.frame
      blocks := blocks }

/-- Ending a function brings back the function around it. -/
theorem Within.pop {context : Context} (inside : Within true (scopes.push context) after) :
    Closed params scopes (after.next .pop) := by
  have enclosing : after.enclosing = scopes.current :: scopes.enclosing := inside.enclosing
  have popped : after.next .pop =
      { after with current := scopes.current, enclosing := scopes.enclosing } := by
    rw [next, Request.perform, pop?, enclosing]
    rfl
  rw [popped]
  exact ⟨⟨rfl, rfl, fun _ => rfl, rfl, rfl, fun _ => UInt16.le_refl _⟩, rfl⟩

theorem after_cons_append (first last : Request) (inner rest : List Request) :
    scopes.after (first :: inner ++ last :: rest) =
      (((scopes.next first).after inner).next last).after rest := by
  rw [List.cons_append, after, List.foldl_cons, List.foldl_append, List.foldl_cons]
  rfl

/-- Requests in which all is closed again leave the current block as it was but for what they
declare in it. -/
theorem Balanced.within (balanced : Balanced params requests) (scopes : Scopes) :
    Within params scopes (scopes.after requests) := by
  induction balanced generalizing scopes with
  | nil => exact .refl _ scopes
  | declaration isDeclaration _ ih =>
      exact (within_of_isDeclaration isDeclaration scopes).trans (ih _)
  | block _ _ insideIh laterIh =>
      rw [after_cons_append]
      exact (insideIh _).exitBlock.toWithin.trans (laterIh _)
  | function _ _ insideIh laterIh =>
      rw [after_cons_append]
      exact (insideIh _).pop.toWithin.trans (laterIh _)

theorem Bracket.closed (bracket : Bracket requests) (scopes : Scopes) :
    Closed false scopes (scopes.after requests) := by
  cases bracket with
  | block inside =>
      rw [after_cons_append]
      exact (inside.within _).exitBlock
  | function inside =>
      rw [after_cons_append]
      exact (inside.within _).pop

/-- Names mean what they meant, as many functions are open, and the functions around the current one
have the slots that they had.  The current function may have more. -/
structure Restored (before after : Scopes) : Prop where
  resolve : ∀ name lookup, after.resolve? name lookup = before.resolve? name lookup
  function : ∀ name, after.function? name = before.function? name
  depth : after.depth = before.depth
  enclosing : after.enclosing.map (·.frame) = before.enclosing.map (·.frame)
  current : ∀ ty, before.current.frame.count ty ≤ after.current.frame.count ty

theorem Closed.restored (closed : Closed false before after) : Restored before after where
  resolve name lookup := by
    have here : after.current.var? name = before.current.var? name := by
      rw [Context.var?, Context.var?, closed.blocks, closed.params rfl]
    cases lookup with
    | here => exact here
    | outward => rw [resolve?, resolve?, here, closed.enclosing]
  function name := by
    rw [function?, function?, Context.function?, Context.function?, closed.blocks,
      closed.enclosing]
  depth := by rw [Scopes.depth, Scopes.depth, closed.enclosing]
  enclosing := by rw [closed.enclosing]
  current := closed.frame

end Scopes

/-- What is known of a function that is open or has been open: how many slots it had at first, and
which ones it has given out since then. -/
structure Account where
  opening : Frame
  given : List Slot

namespace Account

/-- The function has given out different slots only, each beyond those that it had at first and
within those that it has now. -/
structure Sound (context : Context) (account : Account) : Prop where
  opening : ∀ ty, account.opening.count ty ≤ context.frame.count ty
  owner : ∀ slot ∈ account.given, slot.context = context.id
  bounds : ∀ slot ∈ account.given,
    account.opening.count slot.ty ≤ slot.index ∧ slot.index < context.frame.count slot.ty
  distinct : account.given.Pairwise fun slot other => slot.ty = other.ty → slot.index ≠ other.index

/-- The account of a function that is looked at from now on. -/
def new (context : Context) : Account :=
  ⟨context.frame, []⟩

def record (account : Account) (given : Option Slot) : Account :=
  { account with given := account.given ++ given.toList }

theorem sound_new (context : Context) : Sound context (new context) where
  opening _ := UInt16.le_refl _
  owner _ member := (List.not_mem_nil member).elim
  bounds _ member := (List.not_mem_nil member).elim
  distinct := .nil

theorem Sound.record {context later : Context} {account : Account} {given : Option Slot}
    (sound : Sound context account) (sameId : later.id = context.id)
    (gives : context.frame.Gives context.id given later.frame) :
    Sound later (account.record given) := by
  -- Slots that were given out before stay below the counts, which only go up.
  have old : ∀ slot ∈ account.given,
      account.opening.count slot.ty ≤ slot.index ∧ slot.index < later.frame.count slot.ty :=
    fun slot member => ⟨(sound.bounds slot member).1,
      UInt16.lt_of_lt_of_le (sound.bounds slot member).2 (gives.count_le slot.ty)⟩
  have opening : ∀ ty, account.opening.count ty ≤ later.frame.count ty :=
    fun ty => UInt16.le_trans (sound.opening ty) (gives.count_le ty)
  cases given with
  | none =>
      rw [Account.record, Option.toList_none, List.append_nil]
      exact ⟨opening, fun slot member => (sound.owner slot member).trans sameId.symm, old,
        sound.distinct⟩
  | some slot =>
      obtain ⟨owner, index, inside⟩ := gives.index
      refine ⟨opening, ?_, ?_, ?_⟩
      · refine List.forall_mem_append.mpr ⟨fun slot member => ?_, ?_⟩
        · exact (sound.owner slot member).trans sameId.symm
        · rw [Option.toList_some, List.forall_mem_singleton]
          exact owner.trans sameId.symm
      · refine List.forall_mem_append.mpr ⟨old, ?_⟩
        rw [Option.toList_some, List.forall_mem_singleton]
        exact ⟨index ▸ sound.opening slot.ty, inside⟩
      · refine List.pairwise_append.mpr ⟨sound.distinct, List.pairwise_singleton _ _, ?_⟩
        intro earlier member last isLast sameTy sameIndex
        rw [Option.toList_some, List.mem_singleton] at isLast
        have below := (sound.bounds earlier member).2
        rw [sameIndex, sameTy, isLast, index] at below
        exact UInt16.lt_irrefl _ below

end Account

/-- Scopes with the accounts of all functions that are open, and of those that have been ended. -/
structure Ledger where
  scopes : Scopes
  current : Account
  enclosing : List Account
  ended : List (Context × Account)

namespace Ledger

open Scopes

/-- Books that are opened with all functions as they are. -/
def start (scopes : Scopes) : Ledger where
  scopes := scopes
  current := .new scopes.current
  enclosing := scopes.enclosing.map .new
  ended := []

/-- Do what is asked, and write down the slot that is given out. -/
def next (ledger : Ledger) (request : Request) : Ledger :=
  let scopes := ledger.scopes.next request
  match request with
  | .push context =>
      { ledger with
        scopes := scopes
        current := .new context
        enclosing := ledger.current :: ledger.enclosing }
  | .pop =>
      match ledger.enclosing with
      | [] => { ledger with scopes := scopes }
      | outer :: enclosing =>
          { scopes := scopes
            current := outer
            enclosing := enclosing
            ended := (ledger.scopes.current, ledger.current) :: ledger.ended }
  | _ =>
      { ledger with
        scopes := scopes
        current := ledger.current.record (request.perform ledger.scopes).1 }

def after (ledger : Ledger) (requests : List Request) : Ledger :=
  requests.foldl next ledger

/-- All functions that are open or have been ended, with their accounts. -/
def all (ledger : Ledger) : List (Context × Account) :=
  (ledger.scopes.current, ledger.current) :: ledger.scopes.enclosing.zip ledger.enclosing ++
    ledger.ended

/-- The accounts of all functions are in order, and no open function is without one. -/
structure Sound (ledger : Ledger) : Prop where
  current : ledger.current.Sound ledger.scopes.current
  enclosing : List.Forall₂ Account.Sound ledger.scopes.enclosing ledger.enclosing
  ended : ∀ entry ∈ ledger.ended, entry.2.Sound entry.1

theorem sound_start (scopes : Scopes) : (start scopes).Sound where
  current := Account.sound_new _
  enclosing := List.forall₂_map_right_iff.mpr (List.forall₂_same.mpr fun _ _ => Account.sound_new _)
  ended _ member := (List.not_mem_nil member).elim

variable {ledger : Ledger}

theorem Sound.record (sound : ledger.Sound) {request : Request}
    (inside : request = .enterBlock ∨ request = .exitBlock ∨ request.isDeclaration true = true) :
    Sound
      { ledger with
        scopes := ledger.scopes.next request
        current := ledger.current.record (request.perform ledger.scopes).1 } := by
  obtain ⟨enclosing, sameId, gives⟩ := gives_of_inside inside ledger.scopes
  exact ⟨sound.current.record sameId gives, enclosing ▸ sound.enclosing, sound.ended⟩

theorem Sound.pop (sound : ledger.Sound) : (ledger.next .pop).Sound := by
  obtain ⟨⟨context, around, nextScope⟩, current, enclosing, ended⟩ := ledger
  obtain ⟨soundCurrent, soundEnclosing, soundEnded⟩ := sound
  cases soundEnclosing with
  | nil => exact ⟨soundCurrent, .nil, soundEnded⟩
  | cons soundOuter soundRest =>
      exact ⟨soundOuter, soundRest, List.forall_mem_cons.mpr ⟨soundCurrent, soundEnded⟩⟩

/-- Every request keeps the accounts in order. -/
theorem Sound.next (sound : ledger.Sound) (request : Request) : (ledger.next request).Sound := by
  cases request with
  | push context =>
      exact ⟨Account.sound_new context, .cons sound.current sound.enclosing, sound.ended⟩
  | pop => exact sound.pop
  | enterBlock => exact sound.record (.inl rfl)
  | exitBlock => exact sound.record (.inr (.inl rfl))
  | declareParam | declare | allocateHidden | declareFunction =>
      exact sound.record (.inr (.inr rfl))

theorem Sound.after (sound : ledger.Sound) (requests : List Request) :
    (ledger.after requests).Sound := by
  induction requests generalizing ledger with
  | nil => exact sound
  | cons request requests ih => exact ih (sound.next request)

theorem scopes_next (ledger : Ledger) (request : Request) :
    (ledger.next request).scopes = ledger.scopes.next request := by
  unfold next
  dsimp only
  split
  · rfl
  · split <;> rfl
  · rfl

theorem scopes_after (ledger : Ledger) (requests : List Request) :
    (ledger.after requests).scopes = ledger.scopes.after requests := by
  induction requests generalizing ledger with
  | nil => rfl
  | cons request requests ih => exact (ih _).trans (congrArg (·.after requests) (scopes_next ..))

theorem Sound.all (sound : ledger.Sound) : ∀ entry ∈ ledger.all, entry.2.Sound entry.1 := by
  refine List.forall_mem_append.mpr ⟨List.forall_mem_cons.mpr ⟨sound.current, ?_⟩, sound.ended⟩
  rintro ⟨context, account⟩ member
  exact (List.forall₂_iff_zip.mp sound.enclosing).2 member

end Ledger

namespace Scopes

/-- Leaving a block or ending a function undoes what has been done to names since it was entered or
begun, and only this.  Whatever was asked inside, and whether it was granted or not, every name
means what it meant before.  The functions around have the slots that they had, and the current
function has at least these.  During any run, the slots that one function gives out are different
for each type, and all are below its counts. -/
theorem restored_of_bracket (scopes : Scopes) (requests : List Request) :
    (Bracket requests → scopes.Restored (scopes.after requests)) ∧
    ((Ledger.start scopes).after requests).scopes = scopes.after requests ∧
    ∀ entry ∈ ((Ledger.start scopes).after requests).all, entry.2.Sound entry.1 := by
  refine ⟨fun bracket => (bracket.closed scopes).restored, ?_, ?_⟩
  · exact Ledger.scopes_after _ requests
  · exact ((Ledger.sound_start scopes).after requests).all

/-- What is done in a block that declares a name with one type and then with another, has a block
and a function inside with variables of the same name, and asks for a variable that cannot be. -/
def Request.shadowing : List Request :=
  [.declare "x" .double, .declare "x" .string, .declare "y" .void,
    .enterBlock, .declare "x" .int, .exitBlock,
    .push (.start 1 .int), .declareParam "x" .int, .declare "x" .int, .enterBlock,
    .declare "x" .double, .exitBlock, .pop,
    .declareFunction "f" 2, .declareFunction "f" 3]

theorem balanced_shadowing : Balanced false Request.shadowing :=
  .declaration rfl <| .declaration rfl <| .declaration rfl <|
    @Balanced.block false [.declare "x" .int] _ (.declaration rfl .nil) <|
    @Balanced.function false (.start 1 .int)
      [.declareParam "x" .int, .declare "x" .int, .enterBlock, .declare "x" .double, .exitBlock] _
      (.declaration rfl <| .declaration rfl <|
        @Balanced.block true [.declare "x" .double] [] (.declaration rfl .nil) .nil) <|
    .declaration rfl <| .declaration rfl .nil

/-- Behind the block, the name means the parameter again, and the function has more slots. -/
theorem restored_of_bracket_shadowing :
    ∃ (scopes : Scopes) (requests : List Request), Bracket requests ∧
      scopes.resolve? "x" .here = some ⟨0, 0, .int⟩ ∧
      (scopes.after requests).resolve? "x" .here = some ⟨0, 0, .int⟩ ∧
      (scopes.after requests).current.frame = ⟨2, 1, 1⟩ := by
  have bracket := Bracket.block balanced_shadowing
  have param : ((start (.start 0 .void)).next (.declareParam "x" .int)).resolve? "x" .here =
      some ⟨0, 0, .int⟩ := by decide +kernel
  refine ⟨_, _, bracket, param, ?_, by decide +kernel⟩
  rw [((restored_of_bracket _ _).1 bracket).resolve, param]

end Scopes

end Backpatch
