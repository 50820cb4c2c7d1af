import Backpatch.Proofs.Lexical

/-!
# Slots with and without a name

Every variable of a function has a slot, and so has the bound of every loop over a range, which no
name leads to.  Slots are numbered by type as a function is walked through, and are never given
back, so as long as the numbers suffice no two of them are the same.  In particular no variable that
can be named anywhere shares its slot with a bound.
-/

namespace Backpatch

/-- The slots of variables of the given types that are declared one after the other. -/
def Slot.numbered (function : UInt16) : (taken types : List Ty) → List Slot
  | _, [] => []
  | taken, ty :: types =>
      ⟨function, UInt16.ofNat (taken.count ty), ty⟩ :: Slot.numbered function (taken ++ [ty]) types

/-- A slot of a function has been numbered between two places, at which slots of the given types
have been used. -/
def Slot.Between (function : UInt16) (before after : List Ty) (slot : Slot) : Prop :=
  slot.context = function ∧ ∃ number, slot.index = UInt16.ofNat number ∧
    before.count slot.ty ≤ number ∧ number < after.count slot.ty

namespace Slot.Between

variable {function : UInt16} {before middle after : List Ty} {slot : Slot}

theorem mono {earlier later : List Ty} (between : slot.Between function before after)
    (sooner : earlier.Sublist before) (further : after.Sublist later) :
    slot.Between function earlier later := by
  obtain ⟨context, number, index, le, lt⟩ := between
  exact ⟨context, number, index, Nat.le_trans (sooner.count_le slot.ty) le,
    Nat.lt_of_lt_of_le lt (further.count_le slot.ty)⟩

/-- A slot is numbered once. -/
theorem once (first : slot.Between function before middle)
    (second : slot.Between function middle after) (bounded : after.count slot.ty ≤ 65536) :
    False := by
  obtain ⟨-, number, index, -, lt⟩ := first
  obtain ⟨-, other, otherIndex, le, otherLt⟩ := second
  have same : number % 65536 = other % 65536 := by
    have words := congrArg UInt16.toNat (index.symm.trans otherIndex)
    rwa [UInt16.toNat_ofNat', UInt16.toNat_ofNat'] at words
  rw [Nat.mod_eq_of_lt (by omega), Nat.mod_eq_of_lt (by omega)] at same
  omega

end Slot.Between

theorem Slot.between_numbered {function : UInt16} {taken types : List Ty} {slot : Slot}
    (member : slot ∈ Slot.numbered function taken types) :
    slot.Between function taken (taken ++ types) := by
  induction types generalizing taken with
  | nil => exact nomatch member
  | cons ty types ih =>
      rcases List.mem_cons.1 member with rfl | member
      · refine ⟨rfl, taken.count ty, rfl, Nat.le_refl _, ?_⟩
        simp [List.count_append]
      · have later := ih member
        rw [List.append_assoc] at later
        exact later.mono (List.sublist_append_left _ _) (List.Sublist.refl _)

namespace Env

/-- Declarations take the next slots of their types. -/
theorem taken_foldl_declare {α : Type} (env : Env) (name : α → String) (ty : α → Ty)
    (declarations : List α) :
    (declarations.foldl (fun env declaration => env.declare (name declaration) (ty declaration))
      env).taken = env.taken ++ declarations.map ty := by
  induction declarations generalizing env with
  | nil => rw [List.map_nil, List.append_nil, List.foldl_nil]
  | cons declaration declarations ih =>
      rw [List.foldl_cons, ih, List.map_cons, declare, List.append_assoc, List.singleton_append]

/-- What a name means behind declarations is one of their slots, or what it meant before. -/
theorem var_foldl_declare {α : Type} {env : Env} (name : α → String) (ty : α → Ty)
    {declarations : List α} {read : String} {slot : Slot}
    (found : (declarations.foldl
      (fun env declaration => env.declare (name declaration) (ty declaration)) env).var read =
        some slot) :
    slot ∈ Slot.numbered env.function env.taken (declarations.map ty) ∨
      env.var read = some slot := by
  induction declarations generalizing env with
  | nil => exact .inr found
  | cons declaration declarations ih =>
      rcases ih found with member | found
      · exact .inl (List.mem_cons_of_mem _ member)
      · simp only [declare] at found
        split at found
        · exact .inl (List.mem_cons.2 (.inl (Option.some.inj found).symm))
        · exact .inr found

theorem taken_inside (env : Env) (vars : List VarDecl) (functions : List FnDef) :
    (env.inside vars functions).taken = env.taken ++ vars.map (·.ty) := by
  change (env.declareBlock vars functions).taken = _
  rw [declareBlock, foldl_define_keeps (·.taken) fun _ _ => rfl]
  exact env.taken_foldl_declare VarDecl.name VarDecl.ty vars

theorem var_inside {env : Env} {vars : List VarDecl} {functions : List FnDef} {name : String}
    {slot : Slot} (found : (env.inside vars functions).var name = some slot) :
    slot ∈ Slot.numbered env.function env.taken (vars.map (·.ty)) ∨ env.var name = some slot := by
  change (env.declareBlock vars functions).var name = _ at found
  rw [declareBlock, foldl_define_keeps (·.var) fun _ _ => rfl] at found
  exact var_foldl_declare VarDecl.name VarDecl.ty found

end Env

/-- The slot for the bound of a loop over numbers. -/
def Env.boundSlot? (env : Env) (name : String) : Option Slot :=
  match env.var name with
  | some slot => if slot.ty.isNumeric then some (env.next slot.ty) else none
  | none => none

mutual

def Stmt.named (env : Env) : Stmt → List Slot
  | .ifElse _ thenBlock none => thenBlock.named env
  | .ifElse _ thenBlock (some elseBlock) =>
      thenBlock.named env ++ elseBlock.named (thenBlock.pass env)
  | .whileDo _ body => body.named env
  | .forRange _ name _ _ body => body.named (env.hide name)
  | .block body => body.named env
  | .store .. | .print .. | .ret .. | .expr .. => []

def Stmt.namedAll (env : Env) : List Stmt → List Slot
  | [] => []
  | stmt :: stmts => stmt.named env ++ Stmt.namedAll (stmt.pass env) stmts

/-- The slots of the variables that are declared in a block, but not in the functions in it. -/
def Block.named (env : Env) : Block → List Slot
  | ⟨vars, functions, stmts⟩ =>
      Slot.numbered env.function env.taken (vars.map (·.ty)) ++
        Stmt.namedAll (env.inside vars functions) stmts

end

mutual

def Stmt.hidden (env : Env) : Stmt → List Slot
  | .ifElse _ thenBlock none => thenBlock.hidden env
  | .ifElse _ thenBlock (some elseBlock) =>
      thenBlock.hidden env ++ elseBlock.hidden (thenBlock.pass env)
  | .whileDo _ body => body.hidden env
  | .forRange _ name _ _ body => (env.boundSlot? name).toList ++ body.hidden (env.hide name)
  | .block body => body.hidden env
  | .store .. | .print .. | .ret .. | .expr .. => []

def Stmt.hiddenAll (env : Env) : List Stmt → List Slot
  | [] => []
  | stmt :: stmts => stmt.hidden env ++ Stmt.hiddenAll (stmt.pass env) stmts

/-- The slots for the bounds of the loops in a block, but not in the functions in it. -/
def Block.hidden (env : Env) : Block → List Slot
  | ⟨vars, functions, stmts⟩ => Stmt.hiddenAll (env.inside vars functions) stmts

end

/-- The slots of the parameters and variables of a function whose body begins at the given place. -/
def FnDef.named (env : Env) : FnDef → List Slot
  | ⟨_, _, params, .block body, _⟩ =>
      Slot.numbered env.function [] (params.map (·.ty)) ++ body.named env
  | ⟨_, _, _, .native _, _⟩ => []

/-- The slots of all parameters and variables of a program. -/
def Program.named (program : Program) : List Slot :=
  program.definitions.flatMap fun definition => definition.2.named definition.1

/-- Between two places the given slots are numbered, and none of them twice. -/
structure Allocates (function : UInt16) (before after : List Ty) (named hidden : List Slot) :
    Prop where
  grows : before.Sublist after
  namedBetween : ∀ slot ∈ named, slot.Between function before after
  hiddenBetween : ∀ slot ∈ hidden, slot.ty.isStorable = true ∧ slot.Between function before after
  apart : (∀ ty, ty.isStorable = true → after.count ty ≤ 65536) → ∀ slot ∈ named, slot ∉ hidden

namespace Allocates

variable {function : UInt16} {before middle after : List Ty} {named hidden : List Slot}

theorem nil : Allocates function before before [] [] :=
  ⟨.refl _, nofun, nofun, fun _ => nofun⟩

theorem declared (types : List Ty) :
    Allocates function before (before ++ types) (Slot.numbered function before types) [] :=
  ⟨List.sublist_append_left _ _, fun _ member => Slot.between_numbered member, nofun,
    fun _ _ _ => List.not_mem_nil⟩

theorem append {moreNamed moreHidden : List Slot}
    (first : Allocates function before middle named hidden)
    (second : Allocates function middle after moreNamed moreHidden) :
    Allocates function before after (named ++ moreNamed) (hidden ++ moreHidden) where
  grows := first.grows.trans second.grows
  namedBetween slot member := by
    rcases List.mem_append.1 member with member | member
    · exact (first.namedBetween slot member).mono (.refl _) second.grows
    · exact (second.namedBetween slot member).mono first.grows (.refl _)
  hiddenBetween slot member := by
    rcases List.mem_append.1 member with member | member
    · obtain ⟨storable, between⟩ := first.hiddenBetween slot member
      exact ⟨storable, between.mono (.refl _) second.grows⟩
    · obtain ⟨storable, between⟩ := second.hiddenBetween slot member
      exact ⟨storable, between.mono first.grows (.refl _)⟩
  apart bounded slot isNamed isHidden := by
    have bounded' : ∀ ty, ty.isStorable = true → middle.count ty ≤ 65536 := fun ty storable =>
      Nat.le_trans (second.grows.count_le ty) (bounded ty storable)
    rcases List.mem_append.1 isNamed with isNamed | isNamed <;>
      rcases List.mem_append.1 isHidden with isHidden | isHidden
    · exact first.apart bounded' slot isNamed isHidden
    · obtain ⟨storable, between⟩ := second.hiddenBetween slot isHidden
      exact (first.namedBetween slot isNamed).once between (bounded _ storable)
    · obtain ⟨storable, between⟩ := first.hiddenBetween slot isHidden
      exact between.once (second.namedBetween slot isNamed) (bounded _ storable)
    · exact second.apart bounded slot isNamed isHidden

end Allocates

theorem Ty.isStorable_of_isNumeric {ty : Ty} (isNumeric : ty.isNumeric = true) :
    ty.isStorable = true := by
  cases ty <;> first | rfl | cases isNumeric

theorem Env.allocates_hide (env : Env) (name : String) :
    Allocates env.function env.taken (env.hide name).taken [] (env.boundSlot? name).toList := by
  unfold Env.hide Env.boundSlot?
  cases env.var name with
  | none => exact .nil
  | some slot =>
      refine ⟨List.sublist_append_left _ _, nofun, fun hidden member => ?_, fun _ => nofun⟩
      by_cases isNumeric : slot.ty.isNumeric
      · simp only [if_pos isNumeric, Option.toList_some, List.mem_singleton] at member
        subst member
        exact ⟨Ty.isStorable_of_isNumeric isNumeric, rfl, env.taken.count slot.ty, rfl,
          Nat.le_refl _, by simp [Env.next, List.count_append]⟩
      · simp [if_neg isNumeric] at member

mutual

theorem Stmt.allocates (env : Env) : (stmt : Stmt) →
    Allocates env.function env.taken (stmt.pass env).taken (stmt.named env) (stmt.hidden env)
  | .ifElse _ thenBlock none => by
      rw [Stmt.pass, Stmt.named, Stmt.hidden]
      exact thenBlock.allocates env
  | .ifElse _ thenBlock (some elseBlock) => by
      rw [Stmt.pass, Stmt.named, Stmt.hidden]
      have later := elseBlock.allocates (thenBlock.pass env)
      rw [thenBlock.toNames_pass] at later
      exact (thenBlock.allocates env).append later
  | .whileDo _ body | .block body => by
      rw [Stmt.pass, Stmt.named, Stmt.hidden]
      exact body.allocates env
  | .forRange _ name _ _ body => by
      rw [Stmt.pass, Stmt.named, Stmt.hidden]
      have later := body.allocates (env.hide name)
      rw [env.toNames_hide] at later
      exact (env.allocates_hide name).append later
  | .store .. | .print .. | .ret .. | .expr .. => by
      rw [Stmt.pass, Stmt.named, Stmt.hidden]
      exact .nil

theorem Stmt.allocatesAll (env : Env) : (stmts : List Stmt) →
    Allocates env.function env.taken (Stmt.passAll env stmts).taken (Stmt.namedAll env stmts)
      (Stmt.hiddenAll env stmts)
  | [] => by
      rw [Stmt.passAll, Stmt.namedAll, Stmt.hiddenAll]
      exact .nil
  | stmt :: stmts => by
      rw [Stmt.passAll, Stmt.namedAll, Stmt.hiddenAll]
      have later := Stmt.allocatesAll (stmt.pass env) stmts
      rw [stmt.toNames_pass] at later
      exact (stmt.allocates env).append later

theorem Block.allocates (env : Env) : (block : Block) →
    Allocates env.function env.taken (block.pass env).taken (block.named env) (block.hidden env)
  | ⟨vars, functions, stmts⟩ => by
      rw [Block.pass, Block.named, Block.hidden]
      have later := Stmt.allocatesAll (env.inside vars functions) stmts
      rw [env.taken_inside, env.function_inside] at later
      exact (Allocates.declared (vars.map (·.ty))).append later

end

section Functions

variable {program : Program} {index : Nat} {env : Env} {name : String} {returnType : Ty}
  {params : List ParamDecl} {body : Block} {position : Position}

/-- A function starts with the slots of its parameters. -/
theorem Program.taken_definition
    (found : program.definitions[index]? =
      some (env, ⟨name, returnType, params, .block body, position⟩)) :
    env.taken = params.map (·.ty) := by
  obtain ⟨outer, entered, -⟩ := program.enter_definition found
  rw [show env = _ from entered]
  exact Env.taken_foldl_declare _ ParamDecl.name ParamDecl.ty params

theorem Program.allocates_definition
    (found : program.definitions[index]? =
      some (env, ⟨name, returnType, params, .block body, position⟩)) :
    Allocates env.function [] (body.pass env).taken
      (FnDef.named env ⟨name, returnType, params, .block body, position⟩) (body.hidden env) := by
  have params : Allocates env.function [] env.taken
      (Slot.numbered env.function [] (params.map (·.ty))) [] := by
    rw [program.taken_definition found]
    exact .declared (params.map (·.ty))
  exact params.append (body.allocates env)

theorem ofNat_ne_of_lt {number index : Nat} (below : number < index) (small : index < 65536) :
    UInt16.ofNat number ≠ UInt16.ofNat index := by
  intro same
  have words := congrArg UInt16.toNat same
  rw [UInt16.toNat_ofNat', UInt16.toNat_ofNat', Nat.mod_eq_of_lt (by omega),
    Nat.mod_eq_of_lt small] at words
  omega

/-- No variable that can be named at the beginning of a function shares its slot with a bound of the
function. -/
theorem Program.not_hidden_of_var (small : index < 65536)
    (found : program.definitions[index]? =
      some (env, ⟨name, returnType, params, .block body, position⟩))
    (bounded : ∀ ty, ty.isStorable = true → (body.pass env).taken.count ty ≤ 65536)
    {read : String} {slot : Slot} (visible : env.var read = some slot) :
    slot ∉ body.hidden env := by
  intro isHidden
  obtain ⟨outer, entered, owned⟩ := program.enter_definition found
  have function := program.function_definition found
  rw [show env = _ from entered] at visible
  rcases Env.var_foldl_declare ParamDecl.name ParamDecl.ty visible with isParam | outside
  · refine (program.allocates_definition found).apart bounded slot ?_ isHidden
    rw [FnDef.named, function]
    exact List.mem_append_left _ isParam
  · obtain ⟨number, below, context⟩ := owned read slot outside
    have own := ((body.allocates env).hiddenBetween slot isHidden).2.1
    rw [context, function] at own
    exact ofNat_ne_of_lt below small own

/-- No variable of the program shares its slot with a bound of the function. -/
theorem Program.not_hidden_of_named (small : program.definitions.length ≤ 65536)
    (found : program.definitions[index]? =
      some (env, ⟨name, returnType, params, .block body, position⟩))
    (bounded : ∀ ty, ty.isStorable = true → (body.pass env).taken.count ty ≤ 65536) {slot : Slot}
    (isNamed : slot ∈ program.named) : slot ∉ body.hidden env := by
  intro isHidden
  obtain ⟨⟨place, definition⟩, member, isNamed⟩ := List.mem_flatMap.1 isNamed
  obtain ⟨other, lookup⟩ := List.getElem?_of_mem member
  obtain ⟨inside, -⟩ := List.getElem?_eq_some_iff.1 found
  obtain ⟨otherInside, -⟩ := List.getElem?_eq_some_iff.1 lookup
  have own := ((body.allocates env).hiddenBetween slot isHidden).2.1
  rw [program.function_definition found] at own
  have foreign : slot.context = UInt16.ofNat other := by
    rw [← program.function_definition lookup]
    obtain ⟨_, _, _, _ | _, _⟩ := definition
    · exact ((program.allocates_definition lookup).namedBetween slot isNamed).1
    · exact nomatch isNamed
  rcases Nat.lt_trichotomy index other with less | rfl | less
  · exact ofNat_ne_of_lt less (by omega) (own.symm.trans foreign)
  · cases lookup.symm.trans found
    exact (program.allocates_definition found).apart bounded slot isNamed isHidden
  · exact ofNat_ne_of_lt less (by omega) (foreign.symm.trans own)

end Functions

end Backpatch
