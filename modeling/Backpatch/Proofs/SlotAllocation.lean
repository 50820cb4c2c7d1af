import Backpatch.Proofs.Places

/-!
# The slots of a function

A function needs a slot for each of its parameters, for each variable of its blocks, and for the
bound of each of its loops over a range.  This file lists them with the slots that they get, in the
order of the text, and proves that the slots of each type are numbered from zero without a gap, up
to the number that the compiled function declares.
-/

namespace Backpatch

/-- What needs a slot. -/
inductive Storage
  | param (declaration : ParamDecl)
  | var (declaration : VarDecl)
  /-- The bound of a loop over a variable of the given name and type. -/
  | bound (position : Position) (name : String) (ty : Ty)

namespace Storage

def ty : Storage → Ty
  | param declaration => declaration.ty
  | var declaration => declaration.ty
  | bound _ _ ty => ty

/-- The given things with the slots that they get one after the other, when slots of the given types
have been used before. -/
def slots (function : UInt16) (taken : List Ty) (owners : List Storage) : List (Storage × Slot) :=
  owners.zip (Slot.numbered function taken (owners.map ty))

theorem map_ty_params (params : List ParamDecl) :
    (params.map param).map ty = params.map (·.ty) := by
  rw [List.map_map]
  rfl

theorem map_ty_vars (vars : List VarDecl) : (vars.map var).map ty = vars.map (·.ty) := by
  rw [List.map_map]
  rfl

theorem map_ty_bound (position : Position) (name : String) (loop : Option Ty) :
    (loop.map (bound position name)).toList.map ty = loop.toList := by
  cases loop <;> rfl

end Storage

/-- The type of the variable over which a loop runs. -/
def Place.loopType? (place : Place) (name : String) : Option Ty :=
  (place.var? name).map (·.ty)

mutual

/-- What needs a slot in a statement, with the slot that it gets. -/
def Stmt.allocations (place : Place) : Stmt → List (Storage × Slot)
  | .ifElse _ thenBlock none => thenBlock.allocations place
  | .ifElse _ thenBlock (some elseBlock) =>
      thenBlock.allocations place ++
        elseBlock.allocations (place.behind (thenBlock.pass place.toEnv))
  | .whileDo _ body => body.allocations place
  | .forRange position name _ _ body =>
      Storage.slots place.function place.taken
          ((place.loopType? name).map (.bound position name)).toList ++
        body.allocations (place.behind (place.toEnv.hide name))
  | .block body => body.allocations place
  | .store .. | .print .. | .ret .. | .expr .. => []

def Stmt.allocationsAll (place : Place) : List Stmt → List (Storage × Slot)
  | [] => []
  | stmt :: stmts =>
      stmt.allocations place ++ Stmt.allocationsAll (place.behind (stmt.pass place.toEnv)) stmts

/-- What needs a slot in a block; the functions in it have slots of their own. -/
def Block.allocations (place : Place) : Block → List (Storage × Slot)
  | ⟨vars, functions, stmts⟩ =>
      Storage.slots place.function place.taken (vars.map .var) ++
        Stmt.allocationsAll (place.inside vars functions) stmts

end

/-- What needs a slot in a function whose body begins at the given place. -/
def FnDef.allocations (place : Place) : FnDef → List (Storage × Slot)
  | ⟨_, _, params, .block body, _⟩ =>
      Storage.slots place.function [] (params.map .param) ++ body.allocations place
  | ⟨_, _, _, .native _, _⟩ => []

mutual

/-- The variables that are declared in a statement, at any depth but not in functions. -/
def Stmt.declarations : Stmt → List VarDecl
  | .ifElse _ thenBlock none => thenBlock.declarations
  | .ifElse _ thenBlock (some elseBlock) => thenBlock.declarations ++ elseBlock.declarations
  | .whileDo _ body | .forRange _ _ _ _ body | .block body => body.declarations
  | .store .. | .print .. | .ret .. | .expr .. => []

def Stmt.declarationsAll : List Stmt → List VarDecl
  | [] => []
  | stmt :: stmts => stmt.declarations ++ Stmt.declarationsAll stmts

def Block.declarations : Block → List VarDecl
  | ⟨vars, _, stmts⟩ => vars ++ Stmt.declarationsAll stmts

end

mutual

/-- The types of the variables over which the loops in a statement run. -/
def Stmt.loopTypes (place : Place) : Stmt → List Ty
  | .ifElse _ thenBlock none => thenBlock.loopTypes place
  | .ifElse _ thenBlock (some elseBlock) =>
      thenBlock.loopTypes place ++ elseBlock.loopTypes (place.behind (thenBlock.pass place.toEnv))
  | .whileDo _ body | .block body => body.loopTypes place
  | .forRange _ name _ _ body =>
      (place.loopType? name).toList ++ body.loopTypes (place.behind (place.toEnv.hide name))
  | .store .. | .print .. | .ret .. | .expr .. => []

def Stmt.loopTypesAll (place : Place) : List Stmt → List Ty
  | [] => []
  | stmt :: stmts =>
      stmt.loopTypes place ++ Stmt.loopTypesAll (place.behind (stmt.pass place.toEnv)) stmts

def Block.loopTypes (place : Place) : Block → List Ty
  | ⟨vars, functions, stmts⟩ => Stmt.loopTypesAll (place.inside vars functions) stmts

end

namespace Slot

theorem numbered_append (function : UInt16) (taken first second : List Ty) :
    numbered function taken (first ++ second) =
      numbered function taken first ++ numbered function (taken ++ first) second := by
  induction first generalizing taken with
  | nil => simp [numbered]
  | cons ty first ih => simp [numbered, ih]

@[simp]
theorem map_ty_numbered (function : UInt16) (taken types : List Ty) :
    (numbered function taken types).map (·.ty) = types := by
  induction types generalizing taken with
  | nil => rfl
  | cons ty types ih => simp [numbered, ih]

@[simp]
theorem length_numbered (function : UInt16) (taken types : List Ty) :
    (numbered function taken types).length = types.length := by
  rw [← List.length_map (·.ty), map_ty_numbered]

/-- The slots of a type are numbered one after the other. -/
theorem map_index_numbered (function : UInt16) (taken types : List Ty) (ty : Ty) :
    ((numbered function taken types).filter (·.ty = ty)).map (·.index) =
      (List.range' (taken.count ty) (types.count ty)).map UInt16.ofNat := by
  induction types generalizing taken with
  | nil => rfl
  | cons first types ih =>
      by_cases same : first = ty
      · subst same
        simp [numbered, ih, List.range'_succ]
      · simp [numbered, ih, same]

end Slot

namespace Storage

@[simp]
theorem map_fst_slots (function : UInt16) (taken : List Ty) (owners : List Storage) :
    (slots function taken owners).map (·.1) = owners :=
  List.map_fst_zip (by simp)

@[simp]
theorem map_snd_slots (function : UInt16) (taken : List Ty) (owners : List Storage) :
    (slots function taken owners).map (·.2) = Slot.numbered function taken (owners.map ty) :=
  List.map_snd_zip (by simp)

@[simp]
theorem map_ty_slots (function : UInt16) (taken : List Ty) (owners : List Storage) :
    (slots function taken owners).map (·.1.ty) = owners.map ty := by
  have types := congrArg (List.map ty) (map_fst_slots function taken owners)
  rwa [List.map_map] at types

/-- Among things that get slots one after the other, each gets the next one of its type. -/
theorem getElem?_slots {α : Type} (function : UInt16) (taken : List Ty) {wrap : α → Storage}
    {ty : α → Ty} (typed : ∀ item, (wrap item).ty = ty item) (items : List α) (index : Nat) :
    (slots function taken (items.map wrap))[index]? = items[index]?.map fun item =>
      (wrap item,
        ⟨function, UInt16.ofNat ((taken ++ (items.take index).map ty).count (ty item)),
          ty item⟩) := by
  induction items generalizing taken index with
  | nil => simp [slots]
  | cons first items ih =>
      cases index with
      | zero => simp [slots, Slot.numbered, typed]
      | succ index =>
          have later := ih (taken ++ [ty first]) index
          rw [List.append_assoc] at later
          simp only [slots, List.map_cons, Slot.numbered, typed, List.zip_cons_cons,
            List.getElem?_cons_succ]
          exact later

theorem exists_of_mem_slots {α : Type} {function : UInt16} {taken : List Ty} {wrap : α → Storage}
    {items : List α} {entry : Storage × Slot}
    (member : entry ∈ slots function taken (items.map wrap)) :
    ∃ (index : Nat) (item : α), items[index]? = some item ∧
      (slots function taken (items.map wrap))[index]? = some entry := by
  obtain ⟨index, found⟩ := List.mem_iff_getElem?.mp member
  have listed := found
  rw [getElem?_slots function taken (fun _ => rfl) items index] at listed
  obtain ⟨item, here, -⟩ := Option.map_eq_some_iff.mp listed
  exact ⟨index, item, here, found⟩

end Storage

/-- Between two places at which slots of the given types are used, the listed things get the next
slots, one after the other. -/
structure Storage.InOrder (function : UInt16) (before after : List Ty)
    (entries : List (Storage × Slot)) : Prop where
  taken : after = before ++ entries.map (·.1.ty)
  slots : entries.map (·.2) = Slot.numbered function before (entries.map (·.1.ty))

namespace Storage.InOrder

variable {function : UInt16} {before middle after : List Ty} {entries more : List (Storage × Slot)}

theorem nil : InOrder function before before [] :=
  ⟨by simp, rfl⟩

theorem append (first : InOrder function before middle entries)
    (second : InOrder function middle after more) :
    InOrder function before after (entries ++ more) where
  taken := by rw [second.taken, first.taken, List.map_append, List.append_assoc]
  slots := by
    rw [List.map_append, List.map_append, Slot.numbered_append, first.slots, second.slots,
      ← first.taken]

theorem ofOwners (owners : List Storage) :
    InOrder function before (before ++ owners.map ty) (Storage.slots function before owners) where
  taken := by rw [map_ty_slots]
  slots := by rw [map_snd_slots, map_ty_slots]

/-- Everything gets a slot of its type in the function. -/
theorem slot_eq (inOrder : InOrder function before after entries) {entry : Storage × Slot}
    (member : entry ∈ entries) : entry.2.context = function ∧ entry.2.ty = entry.1.ty := by
  constructor
  · have numbered := List.mem_map_of_mem (f := fun entry => entry.2) member
    rw [inOrder.slots] at numbered
    exact (Slot.between_numbered numbered).1
  · have types := congrArg (List.map (·.ty)) inOrder.slots
    rw [Slot.map_ty_numbered, List.map_map] at types
    exact List.map_inj_left.mp types entry member

/-- If the slots of a type can be numbered at all, they are numbered from zero without a gap. -/
theorem map_index (inOrder : InOrder function [] after entries) {ty : Ty}
    (small : after.count ty ≤ 65536) :
    (entries.filter (·.1.ty = ty)).map (·.2.index.toNat) = List.range (after.count ty) := by
  have same : entries.filter (·.1.ty = ty) = entries.filter (·.2.ty = ty) :=
    List.filter_congr fun entry member => by rw [(inOrder.slot_eq member).2]
  have indices : (entries.filter (·.2.ty = ty)).map (·.2.index) =
      (List.range (after.count ty)).map UInt16.ofNat := by
    have numbered := Slot.map_index_numbered function [] (entries.map (·.1.ty)) ty
    rw [← inOrder.slots, List.filter_map, List.map_map, List.count_nil,
      ← List.range_eq_range'] at numbered
    rw [inOrder.taken, List.nil_append]
    exact numbered
  calc (entries.filter (·.1.ty = ty)).map (·.2.index.toNat)
      = ((entries.filter (·.2.ty = ty)).map (·.2.index)).map UInt16.toNat := by
        rw [same, List.map_map]
        rfl
    _ = (List.range (after.count ty)).map fun index => (UInt16.ofNat index).toNat := by
        rw [indices, List.map_map]
        rfl
    _ = (List.range (after.count ty)).map id := List.map_congr_left fun index below =>
        UInt16.toNat_ofNat_of_lt' (Nat.lt_of_lt_of_le (List.mem_range.mp below) small)
    _ = List.range (after.count ty) := List.map_id _

end Storage.InOrder

theorem Place.inOrder_hide (place : Place) (position : Position) (name : String) :
    Storage.InOrder place.function place.taken (place.toEnv.hide name).taken
      (Storage.slots place.function place.taken
        ((place.loopType? name).map (.bound position name)).toList) := by
  have taken : (place.toEnv.hide name).taken = place.taken ++ (place.loopType? name).toList := by
    rw [Env.hide, loopType?, show place.toEnv.var name = place.var? name from rfl]
    cases place.var? name with
    | none => exact (List.append_nil _).symm
    | some slot => rfl
  rw [taken, ← Storage.map_ty_bound position name]
  exact .ofOwners _

mutual

theorem Stmt.inOrder_allocations (place : Place) : (stmt : Stmt) →
    Storage.InOrder place.function place.taken (stmt.pass place.toEnv).taken
      (stmt.allocations place)
  | .ifElse _ thenBlock none => by
      rw [Stmt.pass, Stmt.allocations]
      exact thenBlock.inOrder_allocations place
  | .ifElse _ thenBlock (some elseBlock) => by
      rw [Stmt.pass, Stmt.allocations]
      have later := elseBlock.inOrder_allocations (place.behind (thenBlock.pass place.toEnv))
      rw [Place.toEnv_behind_block] at later
      exact (thenBlock.inOrder_allocations place).append later
  | .whileDo _ body | .block body => by
      rw [Stmt.pass, Stmt.allocations]
      exact body.inOrder_allocations place
  | .forRange position name _ _ body => by
      rw [Stmt.pass, Stmt.allocations]
      have later := body.inOrder_allocations (place.behind (place.toEnv.hide name))
      rw [Place.toEnv_behind_hide] at later
      exact (place.inOrder_hide position name).append later
  | .store .. | .print .. | .ret .. | .expr .. => by
      rw [Stmt.pass, Stmt.allocations]
      exact .nil

theorem Stmt.inOrder_allocationsAll (place : Place) : (stmts : List Stmt) →
    Storage.InOrder place.function place.taken (Stmt.passAll place.toEnv stmts).taken
      (Stmt.allocationsAll place stmts)
  | [] => by
      rw [Stmt.passAll, Stmt.allocationsAll]
      exact .nil
  | stmt :: stmts => by
      rw [Stmt.passAll, Stmt.allocationsAll]
      have later := Stmt.inOrder_allocationsAll (place.behind (stmt.pass place.toEnv)) stmts
      rw [Place.toEnv_behind_stmt] at later
      exact (stmt.inOrder_allocations place).append later

theorem Block.inOrder_allocations (place : Place) : (block : Block) →
    Storage.InOrder place.function place.taken (block.pass place.toEnv).taken
      (block.allocations place)
  | ⟨vars, functions, stmts⟩ => by
      rw [Block.pass, Block.allocations]
      have later := Stmt.inOrder_allocationsAll (place.inside vars functions) stmts
      rw [Place.toEnv_inside] at later
      have declared : Storage.InOrder place.function place.taken
          (place.inside vars functions).taken
          (Storage.slots place.function place.taken (vars.map .var)) := by
        rw [show (place.inside vars functions).taken = place.taken ++ vars.map (·.ty) from rfl,
          ← Storage.map_ty_vars]
        exact .ofOwners _
      exact declared.append later

end

theorem Program.inOrder_allocations {program : Program} {index : Nat} {place : Place}
    {name : String} {returnType : Ty} {params : List ParamDecl} {body : Block} {position : Position}
    (found : program.places[index]? =
      some (place, ⟨name, returnType, params, .block body, position⟩)) :
    Storage.InOrder place.function [] (body.pass place.toEnv).taken
      (FnDef.allocations place ⟨name, returnType, params, .block body, position⟩) := by
  have taken : place.taken = params.map (·.ty) :=
    program.taken_definition (getElem?_definitions found)
  have stored : Storage.InOrder place.function [] place.taken
      (Storage.slots place.function [] (params.map .param)) := by
    rw [taken, ← Storage.map_ty_params]
    exact .ofOwners _
  exact stored.append (body.inOrder_allocations place)

mutual

theorem Stmt.count_allocations (place : Place) (ty : Ty) : (stmt : Stmt) →
    ((stmt.allocations place).map (·.1.ty)).count ty =
      (stmt.declarations.map (·.ty)).count ty + (stmt.loopTypes place).count ty
  | .ifElse _ thenBlock none => by
      rw [Stmt.allocations, Stmt.declarations, Stmt.loopTypes]
      exact thenBlock.count_allocations place ty
  | .ifElse _ thenBlock (some elseBlock) => by
      rw [Stmt.allocations, Stmt.declarations, Stmt.loopTypes]
      simp only [List.map_append, List.count_append, thenBlock.count_allocations,
        elseBlock.count_allocations]
      omega
  | .whileDo _ body | .block body => by
      rw [Stmt.allocations, Stmt.declarations, Stmt.loopTypes]
      exact body.count_allocations place ty
  | .forRange position name _ _ body => by
      rw [Stmt.allocations, Stmt.declarations, Stmt.loopTypes]
      simp only [List.map_append, List.count_append, body.count_allocations, Storage.map_ty_slots,
        Storage.map_ty_bound]
      omega
  | .store .. | .print .. | .ret .. | .expr .. => by
      rw [Stmt.allocations, Stmt.declarations, Stmt.loopTypes]
      rfl

theorem Stmt.count_allocationsAll (place : Place) (ty : Ty) : (stmts : List Stmt) →
    ((Stmt.allocationsAll place stmts).map (·.1.ty)).count ty =
      ((Stmt.declarationsAll stmts).map (·.ty)).count ty +
        (Stmt.loopTypesAll place stmts).count ty
  | [] => by
      rw [Stmt.allocationsAll, Stmt.declarationsAll, Stmt.loopTypesAll]
      rfl
  | stmt :: stmts => by
      rw [Stmt.allocationsAll, Stmt.declarationsAll, Stmt.loopTypesAll]
      simp only [List.map_append, List.count_append, stmt.count_allocations,
        Stmt.count_allocationsAll _ ty stmts]
      omega

theorem Block.count_allocations (place : Place) (ty : Ty) : (block : Block) →
    ((block.allocations place).map (·.1.ty)).count ty =
      (block.declarations.map (·.ty)).count ty + (block.loopTypes place).count ty
  | ⟨vars, functions, stmts⟩ => by
      rw [Block.allocations, Block.declarations, Block.loopTypes]
      simp only [List.map_append, List.count_append, Stmt.count_allocationsAll _ ty stmts,
        Storage.map_ty_slots, Storage.map_ty_vars]
      omega

end

theorem FnDef.count_allocations (place : Place) (ty : Ty) {name : String} {returnType : Ty}
    {params : List ParamDecl} {body : Block} {position : Position} :
    ((FnDef.allocations place ⟨name, returnType, params, .block body, position⟩).map
        (·.1.ty)).count ty =
      (params.map (·.ty)).count ty + (body.declarations.map (·.ty)).count ty +
        (body.loopTypes place).count ty := by
  rw [FnDef.allocations, List.map_append, List.count_append, body.count_allocations,
    Storage.map_ty_slots, Storage.map_ty_params, Nat.add_assoc]

end Backpatch
