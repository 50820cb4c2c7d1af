import Backpatch.Proofs.References
import Backpatch.Proofs.VisibleVariables

/-!
# The bounds of loops

A loop over a range evaluates its upper bound once, stores it into a slot that no name means, and
loads it again at the head of the loop.  This file proves that nothing else in a compiled program
touches that slot: in the code of all functions together there are just two instructions that name
it, and no name leads to it anywhere.

The instructions of a function are counted by what they refer to.  A slot is named there as often as
the program says, and the slot of a bound is different from all others that are given out.
-/

namespace Backpatch

open Emitter

/-- A loop over a range, with the place at which it stands. -/
structure Loop where
  place : Place
  position : Position
  name : String
  low : Expr
  high : Expr
  body : Block

namespace Loop

def stmt (loop : Loop) : Stmt :=
  .forRange loop.position loop.name loop.low loop.high loop.body

/-- The variable over which the loop runs. -/
def var? (loop : Loop) : Option Slot :=
  loop.place.var? loop.name

/-- The slot in which the loop keeps its bound. -/
def bound? (loop : Loop) : Option Slot :=
  loop.place.bound? loop.name

end Loop

mutual

/-- The loops in a statement, at any depth but not in functions. -/
def Stmt.loops (place : Place) : Stmt → List Loop
  | .ifElse _ thenBlock none => thenBlock.loops place
  | .ifElse _ thenBlock (some elseBlock) =>
      thenBlock.loops place ++ elseBlock.loops (place.behind (thenBlock.pass place.toEnv))
  | .whileDo _ body | .block body => body.loops place
  | .forRange position name low high body =>
      ⟨place, position, name, low, high, body⟩ ::
        body.loops (place.behind (place.toEnv.hide name))
  | .store .. | .print .. | .ret .. | .expr .. => []

def Stmt.loopsAll (place : Place) : List Stmt → List Loop
  | [] => []
  | stmt :: stmts =>
      stmt.loops place ++ Stmt.loopsAll (place.behind (stmt.pass place.toEnv)) stmts

def Block.loops (place : Place) : Block → List Loop
  | ⟨vars, functions, stmts⟩ => Stmt.loopsAll (place.inside vars functions) stmts

end

/-- The loops of a function whose body begins at the given place. -/
def FnDef.loops (place : Place) : FnDef → List Loop
  | ⟨_, _, _, .block body, _⟩ => body.loops place
  | ⟨_, _, _, .native _, _⟩ => []

/-- An instruction of the given function loads or stores the slot. -/
def Instr.addresses (function : UInt16) (slot : Slot) (instr : Instr) : Bool :=
  (instr.slot? function).map (·.1) == some slot

namespace Reference

/-- The variable that is loaded or stored. -/
def slot? : Reference → Option Slot
  | load slot _ | store slot _ => some slot
  | call _ => none

/-- A reference is one to the given slot. -/
def concerns (target : Slot) (reference : Option Reference) : Bool :=
  reference.bind slot? == some target

end Reference

theorem Instr.addresses_eq (function : UInt16) (slot : Slot) (instr : Instr) :
    instr.addresses function slot = Reference.concerns slot (instr.reference? function) := by
  unfold addresses Reference.concerns reference?
  congr 1
  split
  case isTrue isCall =>
      rw [slot?, isCall]
      cases instr.word? 0 <;> rfl
  case isFalse =>
      cases instr.slot? function with
      | none => rfl
      | some access =>
          obtain ⟨slot, cross⟩ := access
          cases instr.op.isStore <;> simp [Reference.slot?]

/-- As many instructions name a slot as there are references to it. -/
theorem length_filter_addresses (function : UInt16) (slot : Slot) (instrs : List Instr) :
    (instrs.filter (·.addresses function slot)).length =
      ((instrs.filterMap (·.reference? function)).map some).countP (Reference.concerns slot) := by
  rw [← List.countP_eq_length_filter, List.countP_map, List.countP_filterMap]
  refine List.countP_congr fun instr _ => ?_
  rw [Instr.addresses_eq]
  cases instr.reference? function <;> simp [Reference.concerns]

namespace Place

variable {place : Place} {target : Slot} {name : String}

/-- No name leads to the slot. -/
def Hides (place : Place) (target : Slot) : Prop :=
  ∀ name, place.var? name ≠ some target

theorem Hides.load? (hides : place.Hides target) :
    Reference.concerns target (place.load? name) = false := by
  have other := hides name
  unfold Reference.concerns Place.load?
  cases found : place.var? name with
  | none => rfl
  | some slot =>
      rw [found] at other
      simpa [loadOf, Reference.slot?] using other

theorem Hides.store? (hides : place.Hides target) :
    Reference.concerns target (place.store? name) = false := by
  have other := hides name
  unfold Reference.concerns Place.store?
  cases found : place.var? name with
  | none => rfl
  | some slot =>
      rw [found] at other
      simpa [storeOf, Reference.slot?] using other

theorem Hides.behind (hides : place.Hides target) (env : Env) : (place.behind env).Hides target :=
  hides

/-- Inside a block no name leads to a slot either, if the block gives it to no variable. -/
theorem Hides.inside (hides : place.Hides target) {vars : List VarDecl} {functions : List FnDef}
    (unnamed : ∀ entry ∈ Storage.slots place.function place.taken (vars.map .var),
      entry.1.isNamed = true → entry.2 ≠ target) :
    (place.inside vars functions).Hides target := by
  intro name found
  have layers : (place.inside vars functions).layers = place.layer vars functions :: place.layers :=
    rfl
  rw [var?_of_layers layers, Option.or_eq_some_iff] at found
  rcases found with own | ⟨-, outer⟩
  · have numbered := (place.layer vars functions).mem_numbered_of_var? own
    have types : (place.layer vars functions).vars.map (·.2) =
        (vars.map Storage.var).map Storage.ty := by
      rw [Storage.map_ty_vars, layer, List.map_map]
      rfl
    rw [types] at numbered
    obtain ⟨owner, isVar, entry⟩ := Storage.exists_mem_slots numbered
    obtain ⟨var, -, rfl⟩ := List.mem_map.mp isVar
    exact unnamed _ entry rfl rfl
  · exact hides name outer

theorem concerns_bound {reach : Slot → Reference} (names : ∀ slot, (reach slot).slot? = some slot) :
    Reference.concerns target ((place.bound? name).map reach) =
      (place.bound? name == some target) := by
  unfold Reference.concerns
  cases place.bound? name with
  | none => rfl
  | some slot => rw [Option.map_some, Option.bind_some, names]

theorem countP_bound (position : Position) :
    (Storage.slots place.function place.taken
        ((place.loopType? name).map (.bound position name)).toList).countP (·.2 == target) =
      if place.bound? name == some target then 1 else 0 := by
  unfold loopType? bound?
  cases place.var? name with
  | none => rfl
  | some slot => simp [Storage.slots, Slot.numbered, Env.next, Storage.ty, toEnv]

theorem concerns_call? : Reference.concerns target (place.call? name) = false := by
  unfold Reference.concerns Place.call?
  cases place.callee? name <;> rfl

end Place

section Counting

variable {place : Place} {target : Slot}

mutual

theorem Expr.countP_references (hides : place.Hides target) : (expr : Expr) →
    (expr.references place).countP (Reference.concerns target) = 0
  | .int .. | .double .. | .string .. => by
      rw [Expr.references, List.countP_nil]
  | .load _ name => by
      rw [Expr.references, List.countP_singleton, hides.load?]
      rfl
  | .binary _ _ left right => by
      rw [Expr.references, List.countP_append, left.countP_references hides,
        right.countP_references hides]
  | .unary _ _ operand => by
      rw [Expr.references, operand.countP_references hides]
  | .call _ name args => by
      rw [Expr.references, List.countP_append, Expr.countP_referencesAll hides args,
        List.countP_singleton, Place.concerns_call?]
      rfl

theorem Expr.countP_referencesAll (hides : place.Hides target) : (args : List Expr) →
    (Expr.referencesAll place args).countP (Reference.concerns target) = 0
  | [] => by
      rw [Expr.referencesAll, List.countP_nil]
  | arg :: args => by
      rw [Expr.referencesAll, List.countP_append, Expr.countP_referencesAll hides args,
        arg.countP_references hides]

end

theorem Place.Hides.countP_prints (hides : place.Hides target) (args : List Expr) :
    (args.flatMap (·.references place)).countP (Reference.concerns target) = 0 := by
  induction args with
  | nil => rfl
  | cons arg args ih => rw [List.flatMap_cons, List.countP_append, arg.countP_references hides, ih]

end Counting

/-- Nothing but bounds of loops has the slot. -/
def Unnamed (target : Slot) (entries : List (Storage × Slot)) : Prop :=
  ∀ entry ∈ entries, entry.1.isNamed = true → entry.2 ≠ target

mutual

theorem Stmt.countP_references_le {place : Place} {target : Slot} (hides : place.Hides target) :
    (stmt : Stmt) → Unnamed target (stmt.allocations place) →
    (stmt.references place).countP (Reference.concerns target) ≤
      2 * (stmt.allocations place).countP (·.2 == target)
  | .store _ name op value, _ => by
      rw [Stmt.references, Stmt.allocations]
      cases op.update?.isSome <;>
        simp [value.countP_references hides, hides.store?, hides.load?]
  | .ifElse cond thenBlock none, unnamed => by
      rw [Stmt.allocations] at unnamed
      rw [Stmt.references, Stmt.allocations, List.countP_append, cond.countP_references hides]
      exact thenBlock.countP_references_le hides unnamed
  | .ifElse cond thenBlock (some elseBlock), unnamed => by
      rw [Stmt.allocations] at unnamed
      have inThen := thenBlock.countP_references_le hides fun entry member =>
        unnamed entry (List.mem_append_left _ member)
      have inElse := elseBlock.countP_references_le (hides.behind _) fun entry member =>
        unnamed entry (List.mem_append_right _ member)
      rw [Stmt.references, Stmt.allocations, List.countP_append, List.countP_append,
        List.countP_append, cond.countP_references hides]
      omega
  | .whileDo cond body, unnamed => by
      rw [Stmt.allocations] at unnamed
      rw [Stmt.references, Stmt.allocations, List.countP_append, cond.countP_references hides,
        Nat.zero_add]
      exact body.countP_references_le hides unnamed
  | .forRange position name low high body, unnamed => by
      rw [Stmt.allocations] at unnamed
      have inBody := body.countP_references_le (hides.behind _) fun entry member =>
        unnamed entry (List.mem_append_right _ member)
      have stored := @Place.concerns_bound place target name place.storeOf fun _ => rfl
      have loaded := @Place.concerns_bound place target name place.loadOf fun _ => rfl
      rw [Stmt.references, Stmt.allocations]
      simp only [List.countP_append, List.countP_cons, List.countP_nil, hides.store?, hides.load?,
        low.countP_references hides, high.countP_references hides, stored, loaded,
        Place.countP_bound]
      cases place.bound? name == some target <;> simp only [Bool.false_eq_true, if_true, if_false]
      · omega
      · omega
  | .print _ args, _ => by
      rw [Stmt.references, Stmt.allocations, hides.countP_prints args]
      exact Nat.zero_le _
  | .ret _ none, _ => by
      rw [Stmt.references]
      exact Nat.zero_le _
  | .ret _ (some value), _ | .expr value, _ => by
      rw [Stmt.references]
      exact Nat.le_trans (Nat.le_of_eq (value.countP_references hides)) (Nat.zero_le _)
  | .block body, unnamed => by
      rw [Stmt.allocations] at unnamed
      rw [Stmt.references, Stmt.allocations]
      exact body.countP_references_le hides unnamed

theorem Stmt.countP_referencesAll_le {place : Place} {target : Slot} (hides : place.Hides target) :
    (stmts : List Stmt) → Unnamed target (Stmt.allocationsAll place stmts) →
    (Stmt.referencesAll place stmts).countP (Reference.concerns target) ≤
      2 * (Stmt.allocationsAll place stmts).countP (·.2 == target)
  | [], _ => by
      rw [Stmt.referencesAll]
      exact Nat.zero_le _
  | stmt :: stmts, unnamed => by
      rw [Stmt.allocationsAll] at unnamed
      have inFirst := stmt.countP_references_le hides fun entry member =>
        unnamed entry (List.mem_append_left _ member)
      have inRest := Stmt.countP_referencesAll_le (hides.behind _) stmts fun entry member =>
        unnamed entry (List.mem_append_right _ member)
      rw [Stmt.referencesAll, Stmt.allocationsAll, List.countP_append, List.countP_append]
      omega

theorem Block.countP_references_le {place : Place} {target : Slot} (hides : place.Hides target) :
    (block : Block) → Unnamed target (block.allocations place) →
    (block.references place).countP (Reference.concerns target) ≤
      2 * (block.allocations place).countP (·.2 == target)
  | ⟨vars, functions, stmts⟩, unnamed => by
      rw [Block.allocations] at unnamed
      have inside : (place.inside vars functions).Hides target := hides.inside fun entry member =>
        unnamed entry (List.mem_append_left _ member)
      have inStmts := Stmt.countP_referencesAll_le inside stmts fun entry member =>
        unnamed entry (List.mem_append_right _ member)
      rw [Block.references, Block.allocations, List.countP_append]
      omega

end

/-- Where no name leads to a slot, the code of a function names it twice for each bound that the
slot is given to, and not more often. -/
theorem FnDef.countP_references_le {place : Place} {target : Slot} (hides : place.Hides target)
    (definition : FnDef) (unnamed : Unnamed target (definition.allocations place)) :
    (definition.references place).countP (Reference.concerns target) ≤
      2 * (definition.allocations place).countP (·.2 == target) := by
  obtain ⟨name, returnType, params, body, position⟩ := definition
  cases body with
  | native symbol => exact Nat.zero_le _
  | block body =>
      have inBody := body.countP_references_le hides fun entry member =>
        unnamed entry (List.mem_append_right _ member)
      have inParams : ((Slot.numbered place.function [] (params.map (·.ty))).map fun slot =>
          some (place.storeOf slot)).countP (Reference.concerns target) = 0 := by
        rw [List.countP_map, List.countP_eq_zero]
        intro slot numbered isTarget
        rw [← Storage.map_ty_params] at numbered
        obtain ⟨owner, isParam, entry⟩ := Storage.exists_mem_slots numbered
        obtain ⟨param, -, rfl⟩ := List.mem_map.mp isParam
        exact unnamed _ (List.mem_append_left _ entry) rfl
          (Option.some.inj (eq_of_beq isTarget))
      rw [FnDef.references, FnDef.allocations, List.countP_append, List.countP_append, inParams]
      omega

/-- Among items with different keys, an item is the only one of its key. -/
theorem filter_eq_singleton {α β : Type} (key : α → β) {holds : α → Bool} {items : List α}
    {item : α} (distinct : (items.map key).Nodup) (member : item ∈ items)
    (isHeld : holds item = true)
    (same : ∀ other ∈ items, holds other = true → key other = key item) :
    items.filter holds = [item] := by
  induction items with
  | nil => cases member
  | cons first items ih =>
      rw [List.map_cons, List.nodup_cons] at distinct
      obtain ⟨fresh, distinct⟩ := distinct
      have later : ∀ other ∈ items, holds other = true → key other = key item :=
        fun other isLater => same other (List.mem_cons_of_mem _ isLater)
      rcases List.mem_cons.mp member with rfl | member
      · have none : items.filter holds = [] := by
          refine List.filter_eq_nil_iff.mpr fun other isLater isHeld => fresh ?_
          rw [← later other isLater isHeld]
          exact List.mem_map_of_mem isLater
        rw [List.filter_cons_of_pos isHeld, none]
      · have different : ¬holds first = true := fun isHeld => by
          refine fresh ?_
          rw [same first List.mem_cons_self isHeld]
          exact List.mem_map_of_mem member
        rw [List.filter_cons_of_neg different, ih distinct member later]

theorem Storage.InOrder.filter_slot {function : UInt16} {after : List Ty}
    {entries : List (Storage × Slot)} {entry : Storage × Slot}
    (inOrder : InOrder function [] after entries) (member : entry ∈ entries)
    (small : after.count entry.1.ty ≤ 65536) :
    entries.filter (·.2 == entry.2) = [entry] := by
  have sameType : ∀ other ∈ entries, (other.2 == entry.2) = true → other.1.ty = entry.1.ty := by
    intro other isOther same
    rw [← (inOrder.slot_eq isOther).2, ← (inOrder.slot_eq member).2, eq_of_beq same]
  have typed : entries.filter (·.2 == entry.2) =
      (entries.filter (·.1.ty = entry.1.ty)).filter (·.2 == entry.2) := by
    rw [List.filter_filter]
    refine List.filter_congr fun other isOther => ?_
    cases same : other.2 == entry.2 with
    | false => rfl
    | true => simp [sameType other isOther same]
  rw [typed]
  refine filter_eq_singleton (fun other => other.2.index.toNat) ?_ ?_ (beq_self_eq_true _) ?_
  · rw [inOrder.map_index small]
    exact List.nodup_range
  · exact List.mem_filter.mpr ⟨member, decide_eq_true rfl⟩
  · intro other _ same
    rw [eq_of_beq same]

section Unique

variable {program : Program} {options : Options} {image : Image} {index : Nat} {place : Place}
  {definition : FnDef} {entry : Storage × Slot}

theorem FnDef.exists_block_of_mem_allocations (member : entry ∈ definition.allocations place) :
    ∃ body, definition.body = .block body := by
  obtain ⟨name, returnType, params, body, position⟩ := definition
  cases body with
  | native symbol => cases member
  | block body => exact ⟨body, rfl⟩

theorem Program.context_of_mem_allocations
    (found : program.places[index]? = some (place, definition))
    (member : entry ∈ definition.allocations place) :
    entry.2.context = UInt16.ofNat index ∧ entry.2.ty = entry.1.ty := by
  obtain ⟨body, isBlock⟩ := FnDef.exists_block_of_mem_allocations member
  obtain ⟨name, returnType, params, _, position⟩ := definition
  cases isBlock
  have slot := (inOrder_allocations found).slot_eq member
  have function : place.function = _ := program.function_definition (getElem?_definitions found)
  rwa [function] at slot

/-- In a compiled program, a slot of a type that can be stored is given to one thing in one
function. -/
theorem Program.filter_allocations (compiled : program.compile options = .ok image)
    (found : program.places[index]? = some (place, definition))
    (member : entry ∈ definition.allocations place) (storable : entry.1.ty.isStorable = true)
    {other : Nat} {placed : PlacedDef} (lookup : program.places[other]? = some placed) :
    (placed.2.allocations placed.1).filter (·.2 == entry.2) =
      if other = index then [entry] else [] := by
  rw [program.compile_eq_emit] at compiled
  have realizes := realizes_of_emit compiled
  split
  case isTrue here =>
      subst here
      cases found.symm.trans lookup
      obtain ⟨body, isBlock⟩ := FnDef.exists_block_of_mem_allocations member
      obtain ⟨name, returnType, params, _, position⟩ := definition
      cases isBlock
      obtain ⟨routine, -, routineCode⟩ := realizes.routine other _ (getElem?_definitions found)
      refine (inOrder_allocations found).filter_slot member ?_
      exact routineCode.count_le _ storable
  case isFalse elsewhere =>
      refine List.filter_eq_nil_iff.mpr fun taken isTaken same => ?_
      have own := (context_of_mem_allocations found member).1
      have foreign := (context_of_mem_allocations lookup isTaken).1
      rw [eq_of_beq same, own] at foreign
      have length : program.places.length ≤ 65536 := by
        rw [← List.length_map, program.map_places, ← realizes.size]
        exact realizes.size_le
      have inside := (List.getElem?_eq_some_iff.mp found).1
      have otherInside := (List.getElem?_eq_some_iff.mp lookup).1
      rcases Nat.lt_or_gt_of_ne elsewhere with less | less
      · exact ofNat_ne_of_lt less (by omega) foreign.symm
      · exact ofNat_ne_of_lt less (by omega) foreign

end Unique

/-- Whole instructions stand between two offsets. -/
def Readable (code : List UInt8) (start stop : Nat) : Prop :=
  ∃ instrs, Reads code start stop instrs

namespace Readable

variable {code : List UInt8} {start middle stop : Nat}

theorem refl : Readable code start start :=
  ⟨[], .nil⟩

theorem trans (first : Readable code start middle) (second : Readable code middle stop) :
    Readable code start stop := by
  obtain ⟨instrs, reads⟩ := first
  obtain ⟨others, readsOthers⟩ := second
  exact ⟨instrs ++ others, reads.append readsOthers⟩

theorem of_refers {function : UInt16} {references : List (Option Reference)}
    (refers : Refers function code start stop references) : Readable code start stop := by
  obtain ⟨instrs, reads, -⟩ := refers
  exact ⟨instrs, reads⟩

theorem single {instr : Instr} (fetched : fetch code start = some instr) :
    Readable code start (start + 1 + instr.operands.length) :=
  ⟨[instr], nextOffset_of_fetch fetched ▸ Reads.single fetched⟩

theorem plain {op : Op} (instr : PlainAt code start op) : Readable code start (start + 1) :=
  single instr

theorem jump {target : Nat} (instr : JumpAt code start target) : Readable code start (start + 3) :=
  single instr.2

theorem branch {op : Op} {onTrue onFalse : Nat} (instr : BranchAt code start op onTrue onFalse) :
    Readable code start (start + 5) :=
  single instr.2.2

end Readable

/-- The code of a loop stands between two offsets, with whole instructions before and behind it. -/
def Loop.Stands (loop : Loop) (image : Image) (code : List UInt8) (start stop : Nat) : Prop :=
  ∃ first last, Readable code start first ∧
    StmtCode image code loop.place.toEnv (.stmt loop.stmt) first last ∧ Readable code last stop

section Code

variable {image : Image} {code : List UInt8} {place : Place} {start middle stop : Nat} {loop : Loop}

theorem Loop.Stands.after (stands : loop.Stands image code middle stop)
    (before : Readable code start middle) : loop.Stands image code start stop := by
  obtain ⟨first, last, readable, stmtCode, rest⟩ := stands
  exact ⟨first, last, before.trans readable, stmtCode, rest⟩

theorem Loop.Stands.before (stands : loop.Stands image code start middle)
    (behind : Readable code middle stop) : loop.Stands image code start stop := by
  obtain ⟨first, last, readable, stmtCode, rest⟩ := stands
  exact ⟨first, last, readable, stmtCode, rest.trans behind⟩

theorem ExprCode.readable {part : ExprPart}
    (exprCode : ExprCode image code place.toEnv.toNames part start stop) :
    Readable code start stop :=
  .of_refers exprCode.refers

theorem StmtCode.readable {env : Env} {part : StmtPart}
    (stmtCode : StmtCode image code env part start stop) (same : place.toEnv = env) :
    Readable code start stop :=
  .of_refers (stmtCode.refers same)

/-- The loops in a part of a function. -/
def StmtPart.loops (place : Place) : StmtPart → List Loop
  | .stmt statement => statement.loops place
  | .stmts statements => Stmt.loopsAll place statements
  | .block body => body.loops place
  | .otherwise body => body.elim [] (·.loops place)
  | .prints _ => []

/-- In the code of statements stands the code of every loop in them. -/
theorem StmtCode.stands {env : Env} {part : StmtPart}
    (stmtCode : StmtCode image code env part start stop) {place : Place} (same : place.toEnv = env)
    (member : loop ∈ part.loops place) : loop.Stands image code start stop := by
  induction stmtCode generalizing place with
  | @ifElse env cond thenBlock elseBlock _ _ _ _ toCond thenCode thenExit elseCode elseExit condCode
      thenIh elseIh =>
      subst same
      have tail := (Readable.jump elseExit).trans condCode.readable
      have loops : (StmtPart.stmt (.ifElse cond thenBlock elseBlock)).loops place =
          thenBlock.loops place ++ (StmtPart.otherwise elseBlock).loops
            (place.behind (thenBlock.pass place.toEnv)) := by
        cases elseBlock <;> simp [StmtPart.loops, Stmt.loops]
      rw [loops, List.mem_append] at member
      rcases member with inThen | inElse
      · have behind := ((Readable.jump thenExit).trans
          (elseCode.readable (place.toEnv_behind_block thenBlock))).trans tail
        exact ((thenIh rfl inThen).after (.jump toCond)).before behind
      · have before := ((Readable.jump toCond).trans (thenCode.readable rfl)).trans (.jump thenExit)
        exact ((elseIh (place.toEnv_behind_block thenBlock) inElse).after before).before tail
  | whileDo condCode bodyCode again bodyIh =>
      subst same
      rw [StmtPart.loops, Stmt.loops] at member
      exact ((bodyIh rfl member).after condCode.readable).before (.jump again)
  | @forRange env position name low high body slot numeric _ _ _ _ _ _ _ _ _ _ resolved number
      available lowCode storeLow highCode storeBound loadSlot loadBound compareAt zero branch
      bodyCode reload one add storeNext again bodyIh =>
      subst same
      rw [StmtPart.loops, Stmt.loops, List.mem_cons] at member
      rcases member with rfl | inBody
      · exact ⟨_, _, .refl, .forRange resolved number available lowCode storeLow highCode storeBound
          loadSlot loadBound compareAt zero branch bodyCode reload one add storeNext again, .refl⟩
      · have before := ((lowCode.readable.trans (.of_refers (.store storeLow))).trans
          highCode.readable).trans (.of_refers (.store storeBound))
        have loads := (Readable.of_refers (.load loadSlot)).trans (.of_refers (.load loadBound))
        have test := (loads.trans (.plain compareAt)).trans
          ((Readable.plain zero).trans (.branch branch))
        have advance := (((Readable.of_refers (.load reload)).trans (.plain one)).trans
          (.plain add)).trans ((Readable.of_refers (.store storeNext)).trans (.jump again))
        have stands := bodyIh (place.toEnv_behind_hide name) inBody
        exact (stands.after (before.trans test)).before advance
  | nested _ ih =>
      rw [StmtPart.loops, Stmt.loops] at member
      exact ih same member
  | @stmts env first rest _ _ _ firstCode restCode firstIh restIh =>
      subst same
      rw [StmtPart.loops, Stmt.loopsAll, List.mem_append] at member
      rcases member with inFirst | inRest
      · exact (firstIh rfl inFirst).before (restCode.readable (place.toEnv_behind_stmt first))
      · exact (restIh (place.toEnv_behind_stmt first) inRest).after (firstCode.readable rfl)
  | @block env vars functions _ _ _ _ ih =>
      subst same
      rw [StmtPart.loops, Block.loops] at member
      exact ih (place.toEnv_inside vars functions) member
  | someElse _ ih => exact ih same member
  | _ => simp [StmtPart.loops, Stmt.loops, Stmt.loopsAll] at member

theorem Reads.cons_of_eq {instr : Instr} {instrs : List Instr}
    (fetched : fetch code start = some instr) (next : instr.nextOffset = middle)
    (later : Reads code middle stop instrs) : Reads code start stop (instr :: instrs) :=
  .cons fetched (next ▸ later)

/-- An instruction that names a variable of its own function names it by the index alone. -/
theorem AccessAt.fetch_of_own {function : UInt16} {family : Ty → Bool → Option Op} {slot : Slot}
    (access : AccessAt image code function family slot start stop)
    (own : slot.context = function) :
    ∃ op, family slot.ty false = some op ∧
      fetch code start = some ⟨start, op, littleEndian 2 slot.index.toNat⟩ ∧ stop = start + 3 := by
  cases access with
  | own _ _ member instr => exact ⟨_, member, instr, rfl⟩
  | foreign _ foreignSlot => exact absurd own foreignSlot

/-- The instructions by which a loop keeps its bound: it is stored in front of the head of the loop.
At the head the variable of the loop is loaded and then the bound, and from the end of the loop a
jump leads back to the head. -/
structure Loop.Keeps (loop : Loop) (bound : Slot) (store first load back : Instr) : Prop where
  isBound : loop.bound? = some bound
  stores : Op.store? bound.ty false = some store.op ∧
    store.operands = littleEndian 2 bound.index.toNat
  loadsVar : ∃ var, loop.var? = some var ∧
    Op.load? var.ty (var.context != loop.place.function) = some first.op ∧
    first.slot? loop.place.function = some (var, var.context != loop.place.function)
  loadsBound : Op.load? bound.ty false = some load.op ∧
    load.operands = littleEndian 2 bound.index.toNat
  jumpsBack : back.op = .jump ∧ back.operands = littleEndian 2 store.nextOffset

theorem Loop.Stands.exists_instrs (stands : loop.Stands image code start stop) :
    ∃ bound before store first load between back after,
      loop.Keeps bound store first load back ∧ bound.ty.isStorable = true ∧
      Reads code start stop (before ++ store :: first :: load :: (between ++ back :: after)) := by
  obtain ⟨place, position, name, low, high, body⟩ := loop
  obtain ⟨_, _, ⟨earlier, readsEarlier⟩, stmtCode, later, readsLater⟩ := stands
  cases stmtCode with
  | @forRange _ _ _ _ _ _ slot numeric _ _ _ highStop head _ _ _ _ back resolved number _ lowCode
      storeLow highCode storeBound loadSlot loadBound compareAt zero branch bodyCode reload one add
      storeNext again =>
      have isVar : place.var? name = some slot := resolved
      obtain ⟨init, readsInit⟩ := (lowCode.readable.trans (.of_refers (.store storeLow))).trans
        highCode.readable
      obtain ⟨storeOp, isStore, stored, rfl⟩ := storeBound.fetch_of_own rfl
      obtain ⟨first, fetched, rfl, isLoad, named⟩ := loadSlot.exists_instr accesses_load?
      obtain ⟨loadOp, isBoundLoad, loaded, rfl⟩ := loadBound.fetch_of_own rfl
      obtain ⟨between, readsBetween⟩ := ((((((Readable.plain compareAt).trans (.plain zero)).trans
        (.branch branch)).trans (bodyCode.readable (place.toEnv_behind_hide name))).trans
        (.of_refers (.load reload))).trans ((Readable.plain one).trans (.plain add))).trans
          (.of_refers (.store storeNext))
      have head : Instr.nextOffset ⟨highStop, storeOp, _⟩ = highStop + 3 :=
        nextOffset_of_fetch stored
      have behindBound := nextOffset_of_fetch loaded
      have behindLoop := nextOffset_of_fetch again.2
      refine ⟨place.toEnv.next slot.ty, earlier ++ init, ⟨highStop, storeOp, _⟩, first,
        ⟨first.nextOffset, loadOp, _⟩, between, ⟨back, .jump, littleEndian 2 (highStop + 3)⟩, later,
        ⟨?_, ⟨isStore, rfl⟩, ⟨slot, isVar, isLoad, named⟩, ⟨isBoundLoad, rfl⟩, rfl,
          congrArg (littleEndian 2) head.symm⟩, ?_, ?_⟩
      · rw [Loop.bound?, Place.bound?, isVar]
        rfl
      · rw [Numeric.ty_of_ofTy? number]
        cases numeric <;> rfl
      · have tail := readsBetween.append (Reads.cons_of_eq again.2 behindLoop readsLater)
        have test := Reads.cons fetched (Reads.cons_of_eq loaded behindBound tail)
        exact (readsEarlier.append readsInit).append (Reads.cons_of_eq stored head test)

end Code

section Listed

variable {loop : Loop} {bound : Slot}

mutual

theorem Stmt.mem_allocations_of_loop (isBound : loop.bound? = some bound) {place : Place} :
    (stmt : Stmt) → loop ∈ stmt.loops place →
    (.bound loop.position loop.name bound.ty, bound) ∈ stmt.allocations place
  | .ifElse _ thenBlock none, member => by
      rw [Stmt.loops] at member
      rw [Stmt.allocations]
      exact thenBlock.mem_allocations_of_loop isBound member
  | .ifElse _ thenBlock (some elseBlock), member => by
      rw [Stmt.loops, List.mem_append] at member
      rw [Stmt.allocations, List.mem_append]
      exact member.imp (thenBlock.mem_allocations_of_loop isBound)
        (elseBlock.mem_allocations_of_loop isBound)
  | .whileDo _ body, member | .block body, member => by
      rw [Stmt.loops] at member
      rw [Stmt.allocations]
      exact body.mem_allocations_of_loop isBound member
  | .forRange position name low high body, member => by
      rw [Stmt.loops, List.mem_cons] at member
      rw [Stmt.allocations, List.mem_append]
      refine member.imp (fun same => ?_) (body.mem_allocations_of_loop isBound)
      subst same
      obtain ⟨slot, isVar, rfl⟩ := Option.map_eq_some_iff.mp isBound
      rw [Place.loopType?, isVar]
      exact List.mem_cons_self
  | .store .., member | .print .., member | .ret .., member | .expr .., member => by
      rw [Stmt.loops] at member
      cases member

theorem Stmt.mem_allocationsAll_of_loop (isBound : loop.bound? = some bound) {place : Place} :
    (stmts : List Stmt) → loop ∈ Stmt.loopsAll place stmts →
    (.bound loop.position loop.name bound.ty, bound) ∈ Stmt.allocationsAll place stmts
  | [], member => by
      rw [Stmt.loopsAll] at member
      cases member
  | stmt :: stmts, member => by
      rw [Stmt.loopsAll, List.mem_append] at member
      rw [Stmt.allocationsAll, List.mem_append]
      exact member.imp (stmt.mem_allocations_of_loop isBound)
        (Stmt.mem_allocationsAll_of_loop isBound stmts)

theorem Block.mem_allocations_of_loop (isBound : loop.bound? = some bound) {place : Place} :
    (block : Block) → loop ∈ block.loops place →
    (.bound loop.position loop.name bound.ty, bound) ∈ block.allocations place
  | ⟨vars, functions, stmts⟩, member => by
      rw [Block.loops] at member
      rw [Block.allocations, List.mem_append]
      exact .inr (Stmt.mem_allocationsAll_of_loop isBound stmts member)

end

theorem FnDef.mem_allocations_of_loop (isBound : loop.bound? = some bound) {place : Place}
    (definition : FnDef) (listed : loop ∈ definition.loops place) :
    (.bound loop.position loop.name bound.ty, bound) ∈ definition.allocations place := by
  obtain ⟨name, returnType, params, body, position⟩ := definition
  cases body with
  | native symbol => cases listed
  | block body => exact List.mem_append_right _ (body.mem_allocations_of_loop isBound listed)

/-- In the code of a function stand the instructions by which its loops keep their bounds. -/
theorem BodyCode.exists_instrs {image : Image} {code : List UInt8} {place : Place}
    {definition : FnDef} {stop : Nat} (bodyCode : BodyCode image code place.toEnv definition stop)
    (listed : loop ∈ definition.loops place) :
    ∃ bound before store first load between back after,
      loop.Keeps bound store first load back ∧ bound.ty.isStorable = true ∧
      Reads code 0 stop (before ++ store :: first :: load :: (between ++ back :: after)) := by
  cases bodyCode with
  | native => cases listed
  | block paramsCode bodyCode instr =>
      have stands := bodyCode.stands rfl listed
      exact ((stands.after (.of_refers paramsCode.refers)).before (.plain instr)).exists_instrs

end Listed

theorem Instr.addresses_of_short {stores : Bool} {family : Ty → Bool → Option Op} {slot : Slot}
    {instr : Instr} (accesses : Accesses stores family)
    (short : family slot.ty false = some instr.op ∧
      instr.operands = littleEndian 2 slot.index.toNat) :
    instr.addresses slot.context slot = true := by
  obtain ⟨context, index, ty⟩ := slot
  obtain ⟨offset, op, operands⟩ := instr
  obtain ⟨member, rfl⟩ := short
  obtain ⟨isVariable, notFixed, -, -⟩ := accesses member
  simp [addresses, slot?, notFixed, isVariable]

theorem Loop.Keeps.filter_eq {loop : Loop} {bound : Slot} {store first load back : Instr}
    {before rest : List Instr} (keeps : loop.Keeps bound store first load back)
    (few : ((before ++ store :: first :: load :: rest).filter
      (·.addresses bound.context bound)).length ≤ 2) :
    (before ++ store :: first :: load :: rest).filter (·.addresses bound.context bound) =
      [store, load] := by
  have both : [store, load].filter (·.addresses bound.context bound) = [store, load] := by
    rw [List.filter_cons_of_pos (Instr.addresses_of_short accesses_store? keeps.stores),
      List.filter_cons_of_pos (Instr.addresses_of_short accesses_load? keeps.loadsBound)]
    rfl
  have inside : [store, load].Sublist (before ++ store :: first :: load :: rest) := by
    refine List.sublist_append_of_sublist_right (.cons_cons store (.cons first ?_))
    exact .cons_cons load (List.nil_sublist rest)
  have sublist := inside.filter (·.addresses bound.context bound)
  rw [both] at sublist
  exact (sublist.eq_of_length_le few).symm

section Compiled

variable {program : Program} {options : Options} {image : Image} {index : Nat} {place : Place}
  {definition : FnDef} {entry : Storage × Slot}

/-- A slot that a bound has is no slot of a parameter or a variable. -/
theorem Program.not_declares (compiled : program.compile options = .ok image)
    (found : program.places[index]? = some (place, definition))
    (member : entry ∈ definition.allocations place) (storable : entry.1.ty.isStorable = true)
    (hidden : entry.1.isNamed = false) : ¬program.Declares entry.2 := by
  rintro ⟨placed, isPlaced, owner, isOwner, named⟩
  obtain ⟨other, lookup⟩ := List.getElem?_of_mem isPlaced
  have only := filter_allocations compiled found member storable lookup
  have kept : (owner, entry.2) ∈ (placed.2.allocations placed.1).filter (·.2 == entry.2) :=
    List.mem_filter.mpr ⟨isOwner, beq_self_eq_true _⟩
  rw [only] at kept
  split at kept
  · rw [← List.mem_singleton.mp kept, named] at hidden
    cases hidden
  · cases kept

/-- The code of a function names the slot of a bound at most twice for each time that the function
gives it out. -/
theorem Program.length_filter_addresses_le (compiled : program.compile options = .ok image)
    (found : program.places[index]? = some (place, definition)) {target : Slot}
    (undeclared : ¬program.Declares target) {routine : Routine}
    (lookup : image.routines[index]? = some routine) :
    ∃ instrs, routine.code.instructions = .ok instrs ∧
      (instrs.filter (·.addresses (UInt16.ofNat index) target)).length ≤
        2 * (definition.allocations place).countP (·.2 == target) := by
  have emitted := compiled
  rw [program.compile_eq_emit] at emitted
  obtain ⟨function, _, instrs, sameLookup, -, decoded, references⟩ :=
    (realizes_of_emit emitted).references found
  cases lookup.symm.trans sameLookup
  refine ⟨instrs, decoded, ?_⟩
  rw [← function, length_filter_addresses, references]
  have member := List.mem_of_getElem? found
  cases isBlock : definition.body with
  | native symbol =>
      obtain ⟨name, returnType, params, _, position⟩ := definition
      cases isBlock
      exact Nat.zero_le _
  | block body =>
      refine definition.countP_references_le (fun name visible => ?_)
        fun entry isEntry named same => ?_
      · exact undeclared (explains_of_mem_places compiled member isBlock name target visible)
      · exact undeclared ⟨_, member, entry.1, same ▸ isEntry, named⟩

/-- Every function of a compiled program has its place. -/
theorem Program.exists_place (realizes : image.Realizes program) {routine : Routine}
    (lookup : image.routines[index]? = some routine) :
    ∃ placed, program.places[index]? = some placed := by
  have length : image.routines.size = program.places.length := by
    rw [realizes.size, ← program.map_places, List.length_map]
  have inside : index < program.places.length :=
    length ▸ (Array.getElem?_eq_some_iff.mp lookup).1
  exact ⟨_, List.getElem?_eq_getElem inside⟩

/-- No name leads to a slot that no parameter and no variable has. -/
theorem Program.Reaches.resolve?_ne {inner : Place} {position : Position} {name : String}
    {emitter : Emitter} (reaches : program.Reaches options inner (.var position name) emitter)
    {target : Slot} (undeclared : ¬program.Declares target) (read : String) (how : Lookup) :
    emitter.scopes.resolve? read how ≠ some target := by
  intro resolved
  refine undeclared (reaches.explains (fun _ _ => nofun) read target ?_)
  have ready : Ready inner.toEnv emitter := reaches.begins
  refine (ready.var read).symm.trans ?_
  cases how with
  | outward => exact resolved
  | here => exact (congrArg (Option.or · _) resolved).trans (Option.some_or)

/-- The bound of a loop cannot be disturbed.  In a compiled program, the slot that a loop gets for
its bound is named by two instructions in the code of all functions: one that stores it in front of
the head of the loop, and one that loads it at the head.  Both belong to the function of the loop
and name the slot without a function.  The slot is given to nothing else in the program, and no name
that the compilation comes to leads to it. -/
theorem Program.bound_of_compile {loop : Loop} (compiled : program.compile options = .ok image)
    (found : program.places[index]? = some (place, definition))
    (listed : loop ∈ definition.loops place) :
    ∃ bound before store first load between back after,
      program.Gives options (.bound loop.position loop.name bound.ty) bound ∧
      loop.Keeps bound store first load back ∧
      (∃ routine, image.routines[index]? = some routine ∧ routine.code.instructions =
        .ok (before ++ store :: first :: load :: (between ++ back :: after))) ∧
      (∀ other routine, image.routines[other]? = some routine →
        ∃ instrs, routine.code.instructions = .ok instrs ∧
          instrs.filter (·.addresses (UInt16.ofNat other) bound) =
            if other = index then [store, load] else []) ∧
      (∀ other placed, program.places[other]? = some placed →
        (placed.2.allocations placed.1).filter (·.2 == bound) =
          if other = index then [(.bound loop.position loop.name bound.ty, bound)] else []) ∧
      ∀ inner position name emitter, program.Reaches options inner (.var position name) emitter →
        ∀ read how, emitter.scopes.resolve? read how ≠ some bound := by
  have emitted := compiled
  rw [program.compile_eq_emit] at emitted
  have realizes := realizes_of_emit emitted
  obtain ⟨routine, lookup, routineCode⟩ := realizes.routine index _ (getElem?_definitions found)
  obtain ⟨bound, before, store, first, load, between, back, after, keeps, storable, reads⟩ :=
    routineCode.body.exists_instrs listed
  have decoded := Buffer.instructions_of_reads reads
  have member := definition.mem_allocations_of_loop keeps.isBound listed
  have context : bound.context = UInt16.ofNat index := (context_of_mem_allocations found member).1
  have unique : ∀ other placed, program.places[other]? = some placed →
      (placed.2.allocations placed.1).filter (·.2 == bound) =
        if other = index then [(.bound loop.position loop.name bound.ty, bound)] else [] :=
    fun other placed => filter_allocations compiled found member storable
  have undeclared : ¬program.Declares bound := not_declares compiled found member storable rfl
  refine ⟨bound, before, store, first, load, between, back, after,
    (gives_iff compiled).mpr ⟨_, List.mem_of_getElem? found, member⟩, keeps,
    ⟨routine, lookup, decoded⟩,
    fun other routine lookupOther => ?_, unique,
    fun inner position name emitter reaches => reaches.resolve?_ne undeclared⟩
  · obtain ⟨placed, foundOther⟩ := exists_place realizes lookupOther
    obtain ⟨instrs, decodedOther, few⟩ :=
      length_filter_addresses_le compiled foundOther undeclared lookupOther
    refine ⟨instrs, decodedOther, ?_⟩
    rw [List.countP_eq_length_filter, unique other _ foundOther] at few
    split at few
    case isTrue same =>
      subst same
      cases lookup.symm.trans lookupOther
      cases decoded.symm.trans decodedOther
      rw [if_pos rfl]
      rw [← context] at few ⊢
      exact keeps.filter_eq few
    case isFalse other =>
      rw [if_neg other]
      exact List.eq_nil_of_length_eq_zero (Nat.le_zero.mp few)

theorem Program.bound_of_compile_halving :
    ∃ image routine instrs store load, halving.compile .default = .ok image ∧
      image.routines[0]? = some routine ∧ routine.code.instructions = .ok instrs ∧
      instrs.filter (·.addresses 0 ⟨0, 1, .int⟩) = [store, load] ∧
      store.op = .storeIVar ∧ load.op = .loadIVar := by
  obtain ⟨image, emitted⟩ := halving_emits
  have compiled : halving.compile .default = .ok image := by rw [compile_eq_emit, emitted]
  obtain ⟨bound, _, store, _, load, _, _, _, -, keeps, ⟨routine, lookup, -⟩, only, -, -⟩ :=
    bound_of_compile compiled (show halving.places[0]? = some (_, _) from rfl) (.head _)
  cases keeps.isBound
  obtain ⟨instrs, decoded, only⟩ := only 0 routine lookup
  exact ⟨image, routine, instrs, store, load, compiled, lookup, decoded, only,
    (Option.some.inj keeps.stores.1).symm, (Option.some.inj keeps.loadsBound.1).symm⟩

end Compiled

end Backpatch
