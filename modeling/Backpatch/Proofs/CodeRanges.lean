import Backpatch.Proofs.StackTyping

/-!
# Ranges of code

The code of a function follows its syntax tree: the code of a statement or an expression is a range
of bytes, inside the range of what it is a part of.  A syntax tree with the range of every node is
called an *outline*.

What control can do is a matter of *edges*, which lead from an instruction to the offsets at which
control can go on.  The edges of a stretch of code are collected together with its outlines.  An
edge that leads into the range of a node from outside of it leads to the start of that range; this
is known of an edge as soon as its target is placed, which for the edges of a condition is when the
code that uses the condition is known.  Up to then their targets are listed as exits.
-/

namespace Backpatch

/-- A way that control can take behind an instruction. -/
structure Edge where
  source : Nat
  /-- For the two ways behind a comparison, whether it has to hold. -/
  holds : Option Bool
  target : Nat

namespace Instr

/-- The ways that control can take behind an instruction. -/
def edges (instr : Instr) : List Edge :=
  if instr.op.isBranch then
    (instr.word? 0).toList.map (fun target => ⟨instr.offset, some true, target.toNat⟩) ++
      (instr.word? 1).toList.map (fun target => ⟨instr.offset, some false, target.toNat⟩)
  else
    instr.successors.map fun target => ⟨instr.offset, none, target⟩

variable {instr : Instr}

theorem source_of_mem_edges {edge : Edge} (member : edge ∈ instr.edges) :
    edge.source = instr.offset := by
  rw [edges] at member
  split at member
  · simp only [List.mem_append, List.mem_map] at member
    obtain ⟨_, -, rfl⟩ | ⟨_, -, rfl⟩ := member <;> rfl
  · obtain ⟨_, -, rfl⟩ := List.mem_map.mp member
    rfl

/-- A comparison that holds, or that does not, goes on in one way. -/
theorem eq_of_mem_edges {edge other : Edge} {holds : Bool} (member : edge ∈ instr.edges)
    (otherMember : other ∈ instr.edges) (edgeHolds : edge.holds = some holds)
    (otherHolds : other.holds = some holds) : edge = other := by
  rw [edges] at member otherMember
  by_cases isBranch : instr.op.isBranch = true
  · rw [if_pos isBranch] at member otherMember
    simp only [List.mem_append, List.mem_map, Option.mem_toList] at member otherMember
    obtain ⟨target, word, rfl⟩ | ⟨target, word, rfl⟩ := member <;>
      obtain ⟨other, otherWord, rfl⟩ | ⟨other, otherWord, rfl⟩ := otherMember <;>
      simp_all
  · rw [if_neg isBranch] at member
    obtain ⟨_, -, rfl⟩ := List.mem_map.mp member
    cases edgeHolds

/-- The edges lead to where control can go on. -/
theorem map_target_edges : instr.edges.map Edge.target = instr.successors := by
  rw [edges]
  split
  case isTrue isBranch =>
      obtain ⟨offset, op, operands⟩ := instr
      have notJump : op ≠ .jump := by
        rintro rfl
        cases isBranch
      rw [successors_of_isJump (by simp [Op.isJump, isBranch]), targets, if_neg notJump,
        if_pos isBranch, List.map_append, List.map_append, List.map_map, List.map_map]
      rfl
  case isFalse => rw [List.map_map]; exact List.map_id _

theorem edges_branch {offset onTrue onFalse : Nat} {op : Op} (isBranch : op.isBranch = true)
    (trueNear : onTrue ≤ Buffer.maxTarget) (falseNear : onFalse ≤ Buffer.maxTarget) :
    (⟨offset, op, littleEndian 2 onTrue ++ littleEndian 2 onFalse⟩ : Instr).edges =
      [⟨offset, some true, onTrue⟩, ⟨offset, some false, onFalse⟩] := by
  have trueSmall : onTrue < 65536 := Nat.lt_succ_of_le trueNear
  have falseSmall : onFalse < 65536 := Nat.lt_succ_of_le falseNear
  simp [edges, isBranch, Nat.mod_eq_of_lt trueSmall, Nat.mod_eq_of_lt falseSmall]

end Instr

/-- The edges of instructions. -/
def edgesOf (row : List Instr) : List Edge :=
  row.flatMap Instr.edges

theorem edgesOf_append (row more : List Instr) :
    edgesOf (row ++ more) = edgesOf row ++ edgesOf more :=
  List.flatMap_append

theorem edgesOf_singleton (instr : Instr) : edgesOf [instr] = instr.edges := by
  simp [edgesOf]

theorem Reads.start_le_stop {code : List UInt8} {start stop : Nat} {row : List Instr}
    (reads : Reads code start stop row) : start ≤ stop := by
  induction reads with
  | nil => exact Nat.le_refl _
  | @cons start stop instr rest fetched later ih =>
      have increasing := instr.offset_lt_nextOffset
      rw [offset_of_fetch fetched] at increasing
      omega

theorem Reads.lt_stop {code : List UInt8} {start stop : Nat} {row : List Instr} {instr : Instr}
    (reads : Reads code start stop row) (member : instr ∈ row) : instr.offset < stop := by
  induction reads with
  | nil => cases member
  | @cons start stop head rest fetched later ih =>
      rcases List.mem_cons.mp member with rfl | member
      · exact Nat.lt_of_lt_of_le instr.offset_lt_nextOffset later.start_le_stop
      · exact ih member

theorem Reads.source {code : List UInt8} {start stop : Nat} {row : List Instr} {edge : Edge}
    (reads : Reads code start stop row) (member : edge ∈ edgesOf row) :
    start ≤ edge.source ∧ edge.source < stop := by
  obtain ⟨instr, inRow, ofInstr⟩ := List.mem_flatMap.mp member
  rw [Instr.source_of_mem_edges ofInstr]
  exact ⟨reads.start_le inRow, reads.lt_stop inRow⟩

theorem Reads.fetch_of_mem {code : List UInt8} {start stop : Nat} {row : List Instr} {instr : Instr}
    (reads : Reads code start stop row) (member : instr ∈ row) :
    fetch code instr.offset = some instr := by
  induction reads with
  | nil => cases member
  | @cons start stop head rest fetched later ih =>
      rcases List.mem_cons.mp member with rfl | member
      · rwa [offset_of_fetch fetched]
      · exact ih member

theorem Reads.edge_eq {code : List UInt8} {start stop : Nat} {row : List Instr} {edge other : Edge}
    {holds : Bool} (reads : Reads code start stop row) (member : edge ∈ edgesOf row)
    (otherMember : other ∈ edgesOf row) (source : edge.source = other.source)
    (edgeHolds : edge.holds = some holds) (otherHolds : other.holds = some holds) :
    edge = other := by
  obtain ⟨instr, inRow, ofInstr⟩ := List.mem_flatMap.mp member
  obtain ⟨otherInstr, otherInRow, ofOther⟩ := List.mem_flatMap.mp otherMember
  rw [Instr.source_of_mem_edges ofInstr, Instr.source_of_mem_edges ofOther] at source
  have fetched := reads.fetch_of_mem inRow
  rw [source, reads.fetch_of_mem otherInRow] at fetched
  obtain rfl := Option.some.inj fetched
  exact Instr.eq_of_mem_edges ofInstr ofOther edgeHolds otherHolds

/-- An edge does not lead into a range from outside, unless to its start. -/
def Edge.Respects (edge : Edge) (start stop : Nat) : Prop :=
  start ≤ edge.target → edge.target < stop →
    (start ≤ edge.source ∧ edge.source < stop) ∨ edge.target = start

/-- Control can get from an offset to another, and is only at offsets that are allowed. -/
inductive Route (edges : List Edge) (allowed : Nat → Prop) (origin : Nat) : Nat → Prop
  | here (isAllowed : allowed origin) : Route edges allowed origin origin
  | step {edge : Edge} (route : Route edges allowed origin edge.source) (member : edge ∈ edges)
      (isAllowed : allowed edge.target) : Route edges allowed origin edge.target

theorem Route.allowed_origin {edges : List Edge} {allowed : Nat → Prop} {origin offset : Nat}
    (route : Route edges allowed origin offset) : allowed origin := by
  induction route with
  | here isAllowed => exact isAllowed
  | step _ _ _ ih => exact ih

/-- A range that is entered at its start only is not entered on a route that avoids the start. -/
theorem Route.stays_outside {edges : List Edge} {start stop origin offset : Nat}
    (respects : ∀ edge ∈ edges, edge.Respects start stop)
    (outside : ¬ (start ≤ origin ∧ origin < stop)) (route : Route edges (· ≠ start) origin offset) :
    ¬ (start ≤ offset ∧ offset < stop) := by
  induction route with
  | here => exact outside
  | @step edge _ member avoids ih =>
      rintro ⟨above, below⟩
      rcases respects edge member above below with inside | atStart
      · exact ih inside
      · exact avoids atStart

/-- What has a range of code. -/
inductive Node
  | expr (expr : Expr)
  | stmt (stmt : Stmt)
  | block (block : Block)

namespace Node

/-- What is directly inside, in the order of the code. -/
def parts : Node → List Node
  | expr (.binary _ _ left right) => [expr left, expr right]
  | expr (.unary _ _ operand) => [expr operand]
  | expr (.call _ _ args) => (args.map expr).reverse
  | expr (.int ..) | expr (.double ..) | expr (.string ..) | expr (.load ..) => []
  | stmt (.store _ _ _ value) => [expr value]
  | stmt (.ifElse cond thenBlock elseBlock) =>
      block thenBlock :: elseBlock.toList.map block ++ [expr cond]
  | stmt (.whileDo cond body) => [expr cond, block body]
  | stmt (.forRange _ _ low high body) => [expr low, expr high, block body]
  | stmt (.print _ args) => args.map expr
  | stmt (.ret _ value) => value.toList.map expr
  | stmt (.expr value) => [expr value]
  | stmt (.block body) => [block body]
  | block body => body.stmts.map stmt

/-- A node is a part of another, directly or not, or is the same. -/
inductive Within : Node → Node → Prop
  | refl (node : Node) : Within node node
  | part {inner part outer : Node} (member : part ∈ outer.parts) (within : Within inner part) :
      Within inner outer

end Node

/-- The expression for which a stretch of code stands, if it is a single one. -/
def ExprPart.expr? : ExprPart → Option Expr
  | .value expr _ | .branch expr _ _ | .operand expr _ | .condition expr _ _ | .converted expr _ =>
      some expr
  | .operands .. | .args .. => none

/-- The code of a node stands between two offsets. -/
def Node.IsCode (image : Image) (code : List UInt8) (start stop : Nat) : Node → Prop
  | expr value => ∃ names part, part.expr? = some value ∧ ExprCode image code names part start stop
  | stmt statement => ∃ env, StmtCode image code env (.stmt statement) start stop
  | block body => ∃ env, StmtCode image code env (.block body) start stop

/-- A node with the range of its code and the outlines of what is in it.  The core of an expression
is its code without what makes its result a number, a condition or a value of another type. -/
structure Outline where
  node : Node
  start : Nat
  core : Nat
  stop : Nat
  parts : List Outline

/-- The outcome of its left operand that decides a connective. -/
def Connective.decisive : Connective → Bool
  | .and => false
  | .or => true

namespace Outline

/-- An outline is a part of another, directly or not, or is the same. -/
inductive Within : Outline → Outline → Prop
  | refl (outline : Outline) : Within outline outline
  | part {inner part outer : Outline} (member : part ∈ outer.parts) (within : Within inner part) :
      Within inner outer

theorem Within.trans {inner outline outer : Outline} (within : inner.Within outline)
    (outlineWithin : outline.Within outer) : inner.Within outer := by
  induction outlineWithin with
  | refl => exact within
  | part member _ ih => exact .part member ih

/-- An outline and all that is in it have a property. -/
def All (holds : Outline → Prop) (outline : Outline) : Prop :=
  ∀ inner, inner.Within outline → holds inner

theorem All.mk {holds : Outline → Prop} {outline : Outline} (root : holds outline)
    (parts : ∀ part ∈ outline.parts, part.All holds) : outline.All holds := by
  intro inner within
  cases within with
  | refl => exact root
  | part member within => exact parts _ member inner within

theorem All.root {holds : Outline → Prop} {outline : Outline} (all : outline.All holds) :
    holds outline :=
  all outline (.refl outline)

theorem All.part {holds : Outline → Prop} {outline part : Outline} (all : outline.All holds)
    (member : part ∈ outline.parts) : part.All holds :=
  fun inner within => all inner (.part member within)

theorem All.imp {holds weaker : Outline → Prop} {outline : Outline} (all : outline.All holds)
    (imp : ∀ inner, inner.Within outline → holds inner → weaker inner) : outline.All weaker :=
  fun inner within => imp inner within (all inner within)

def Spans (outline : Outline) (offset : Nat) : Prop :=
  outline.start ≤ offset ∧ offset < outline.stop

theorem spans_mk {node : Node} {start core stop offset : Nat} {parts : List Outline} :
    Spans ⟨node, start, core, stop, parts⟩ offset ↔ start ≤ offset ∧ offset < stop :=
  .rfl

/-- The ranges of outlines follow each other between two offsets. -/
def InOrder (start stop : Nat) : List Outline → Prop
  | [] => start ≤ stop
  | outline :: outlines =>
      start ≤ outline.start ∧ outline.start ≤ outline.stop ∧ InOrder outline.stop stop outlines

namespace InOrder

variable {start middle stop : Nat} {outlines more : List Outline}

theorem of_le (inOrder : InOrder middle stop outlines) (le : start ≤ middle) :
    InOrder start stop outlines := by
  cases outlines with
  | nil => exact Nat.le_trans le inOrder
  | cons outline outlines => exact ⟨Nat.le_trans le inOrder.1, inOrder.2⟩

theorem append (first : InOrder start middle outlines) (second : InOrder middle stop more) :
    InOrder start stop (outlines ++ more) := by
  induction outlines generalizing start with
  | nil => exact second.of_le first
  | cons outline outlines ih => exact ⟨first.1, first.2.1, ih first.2.2⟩

theorem le (inOrder : InOrder start stop outlines) : start ≤ stop := by
  induction outlines generalizing start with
  | nil => exact inOrder
  | cons outline outlines ih =>
      exact Nat.le_trans inOrder.1 (Nat.le_trans inOrder.2.1 (ih inOrder.2.2))

theorem inside (inOrder : InOrder start stop outlines) {outline : Outline}
    (member : outline ∈ outlines) : start ≤ outline.start ∧ outline.stop ≤ stop := by
  induction outlines generalizing start with
  | nil => cases member
  | cons head outlines ih =>
      rcases List.mem_cons.mp member with rfl | member
      · exact ⟨inOrder.1, le inOrder.2.2⟩
      · have := ih inOrder.2.2 member
        have := inOrder.1
        have := inOrder.2.1
        omega

end InOrder

/-- The outline is that of its node: its parts are the parts of the node, with ranges that follow
each other inside its own, where the code of the node stands. -/
structure Coded (image : Image) (code : List UInt8) (outline : Outline) : Prop where
  parts : outline.parts.map node = outline.node.parts
  inOrder : InOrder outline.start outline.core outline.parts
  core_le : outline.core ≤ outline.stop
  code : outline.node.IsCode image code outline.start outline.stop

theorem Within.inside {image : Image} {code : List UInt8} {inner outer : Outline}
    (within : inner.Within outer) (coded : outer.All (Coded image code)) :
    outer.start ≤ inner.start ∧ inner.stop ≤ outer.stop := by
  induction within with
  | refl => exact ⟨Nat.le_refl _, Nat.le_refl _⟩
  | @part part outer member _ ih =>
      have := ih (coded.part member)
      have := coded.root.inOrder.inside member
      have := coded.root.core_le
      omega

/-- The outline of a node has an outline of each node in it. -/
theorem exists_within {image : Image} {code : List UInt8} {outline : Outline} {inner node : Node}
    (coded : outline.All (Coded image code)) (isNode : outline.node = node)
    (within : inner.Within node) :
    ∃ found : Outline, found.Within outline ∧ found.node = inner := by
  induction within generalizing outline with
  | refl => exact ⟨outline, .refl outline, isNode⟩
  | @part part outer member _ ih =>
      rw [← isNode, ← coded.root.parts] at member
      obtain ⟨found, among, isPart⟩ := List.mem_map.mp member
      obtain ⟨innermost, within, same⟩ := ih (coded.part among) isPart
      exact ⟨innermost, .part among within, same⟩

/-- The branches, with the way behind each, that the code of a condition takes when it comes out
as given.  Other conditions than connectives and negations end in a branch that tells the
outcome. -/
def outcomes : Outline → Bool → List (Nat × Bool)
  | ⟨.expr (.unary _ .not _), _, _, _, [operand]⟩, outcome => operand.outcomes (!outcome)
  | ⟨.expr (.binary _ (.logic connective) _ _), _, _, _, [left, right]⟩, outcome =>
      if outcome = connective.decisive then left.outcomes outcome ++ right.outcomes outcome
      else right.outcomes outcome
  | ⟨_, _, _, stop, _⟩, outcome => [(stop - 5, outcome)]

/-- A condition can come out either way. -/
theorem exists_mem_outcomes (outline : Outline) (outcome : Bool) :
    ∃ way, way ∈ outline.outcomes outcome := by
  fun_induction outcomes outline outcome with
  | case1 _ _ _ _ _ _ _ ih => exact ih
  | case2 _ _ _ _ _ _ _ _ _ ihLeft _ => exact ihLeft.imp fun _ => List.mem_append_left _
  | case3 _ _ _ _ _ _ _ _ _ _ _ ihRight => exact ihRight
  | case4 => exact ⟨_, List.mem_singleton.mpr rfl⟩

/-- An edge is taken when a condition comes out as given. -/
def Takes (outline : Outline) (outcome : Bool) (edge : Edge) : Prop :=
  ∃ holds, edge.holds = some holds ∧ (edge.source, holds) ∈ outline.outcomes outcome

/-- Among the given edges, those of the outcomes of a condition are the only ones that leave its
code, and there are such that lead to the target of the outcome. -/
structure Decides (edges : List Edge) (outline : Outline) (target : Bool → Nat) : Prop where
  leads : ∀ outcome, ∀ way ∈ outline.outcomes outcome,
    outline.Spans way.1 ∧ ⟨way.1, some way.2, target outcome⟩ ∈ edges
  leaves : ∀ edge ∈ edges, outline.Spans edge.source → outline.Spans edge.target ∨
    ∃ outcome, outline.Takes outcome edge ∧ edge.target = target outcome

/-- If the node is a connective, its operands are conditions that stand directly behind each other.
The outcome of the left one that decides leads away, and the other one to the right operand. -/
def Connects (edges : List Edge) (outline : Outline) : Prop :=
  ∀ position connective left right,
    outline.node = .expr (.binary position (.logic connective) left right) →
    ∃ first second away, outline.parts = [first, second] ∧ first.start = outline.start ∧
      second.start = first.stop ∧ second.stop = outline.core ∧ first.start < first.stop ∧
      second.start < second.stop ∧ (away < outline.start ∨ outline.core ≤ away) ∧
      first.Decides edges fun outcome =>
        if outcome = connective.decisive then away else second.start

/-- The edge does not lead into the code of the node from outside, unless to its start. -/
def Kept (edge : Edge) (outline : Outline) : Prop :=
  edge.Respects outline.start outline.core ∧ edge.Respects outline.start outline.stop

theorem Decides.append {edges more : List Edge} {outline : Outline} {target : Bool → Nat}
    (decides : outline.Decides edges target)
    (apart : ∀ edge ∈ more, ¬ outline.Spans edge.source) :
    outline.Decides (edges ++ more) target where
  leads outcome way member :=
    (decides.leads outcome way member).imp_right (List.mem_append_left _)
  leaves edge member inside := by
    rcases List.mem_append.mp member with member | member
    · exact decides.leaves edge member inside
    · exact absurd inside (apart edge member)

theorem Decides.prepend {edges more : List Edge} {outline : Outline} {target : Bool → Nat}
    (decides : outline.Decides edges target)
    (apart : ∀ edge ∈ more, ¬ outline.Spans edge.source) :
    outline.Decides (more ++ edges) target where
  leads outcome way member :=
    (decides.leads outcome way member).imp_right (List.mem_append_right _)
  leaves edge member inside := by
    rcases List.mem_append.mp member with member | member
    · exact absurd inside (apart edge member)
    · exact decides.leaves edge member inside

/-- Edges from elsewhere do not matter to a connective. -/
theorem Connects.mono {edges more : List Edge} {outline : Outline}
    (connects : outline.Connects edges)
    (carries : ∀ {condition : Outline} {target : Bool → Nat},
      outline.start ≤ condition.start → condition.stop ≤ outline.core →
      condition.Decides edges target → condition.Decides more target) :
    outline.Connects more := by
  intro position connective left right isConnective
  obtain ⟨first, second, away, parts, atStart, next, atCore, firstLt, secondLt, isAway, decides⟩ :=
    connects position connective left right isConnective
  refine ⟨first, second, away, parts, atStart, next, atCore, firstLt, secondLt, isAway, ?_⟩
  exact carries (by omega) (by omega) decides

end Outline

open Outline

/-- Between two offsets stand instructions that are outlined.  Their edges lead to the exits, or
else stay between the offsets and do not lead into a range from outside. -/
structure Outlined (image : Image) (code : List UInt8) (start stop : Nat) (row : List Instr)
    (exits : List Nat) (outlines : List Outline) : Prop where
  reads : Reads code start stop row
  inOrder : InOrder start stop outlines
  coded : ∀ outline ∈ outlines, outline.All (Coded image code)
  connected : ∀ outline ∈ outlines, outline.All (Connects (edgesOf row))
  flows : ∀ edge ∈ edgesOf row, edge.target ∈ exits ∨
    start ≤ edge.target ∧ edge.target ≤ stop ∧ ∀ outline ∈ outlines, outline.All (Kept edge)

namespace Outlined

variable {image : Image} {code : List UInt8} {start middle stop : Nat} {row more : List Instr}
  {exits moreExits : List Nat} {outlines moreOutlines : List Outline} {instr : Instr}

theorem inside (outlined : Outlined image code start stop row exits outlines)
    {outline inner : Outline} (member : outline ∈ outlines) (within : inner.Within outline) :
    start ≤ inner.start ∧ inner.core ≤ inner.stop ∧ inner.stop ≤ stop := by
  have := outlined.inOrder.inside member
  have := within.inside (outlined.coded outline member)
  have := (outlined.coded outline member inner within).core_le
  omega

theorem nil : Outlined image code start start [] [] [] where
  reads := .nil
  inOrder := Nat.le_refl _
  coded := List.forall_mem_nil _
  connected := List.forall_mem_nil _
  flows := List.forall_mem_nil _

theorem single (fetched : fetch code start = some instr)
    (next : stop = start + 1 + instr.operands.length)
    (goesOn : ∀ target ∈ instr.successors, target ∈ exits ∨ target = stop) :
    Outlined image code start stop [instr] exits [] where
  reads := by
    rw [next, ← nextOffset_of_fetch fetched]
    exact .single fetched
  inOrder := by
    change start ≤ stop
    omega
  coded := List.forall_mem_nil _
  connected := List.forall_mem_nil _
  flows edge member := by
    rw [edgesOf_singleton] at member
    have target : edge.target ∈ instr.successors := by
      rw [← Instr.map_target_edges]
      exact List.mem_map_of_mem member
    refine (goesOn _ target).imp_right fun atStop => ⟨by omega, by omega, List.forall_mem_nil _⟩

/-- Code that is outlined is followed by further code. -/
theorem trans (first : Outlined image code start middle row exits outlines)
    (second : Outlined image code middle stop more moreExits moreOutlines) :
    Outlined image code start stop (row ++ more) (exits ++ moreExits)
      (outlines ++ moreOutlines) where
  reads := first.reads.append second.reads
  inOrder := first.inOrder.append second.inOrder
  coded := List.forall_mem_append.mpr ⟨first.coded, second.coded⟩
  connected := by
    rw [edgesOf_append]
    refine List.forall_mem_append.mpr ⟨fun outline member => ?_, fun outline member => ?_⟩
    · refine (first.connected outline member).imp fun inner within connects => ?_
      have := first.inside member within
      refine connects.mono fun above below decides => decides.append fun edge fromMore spans => ?_
      have := second.reads.source fromMore
      have := spans.2
      omega
    · refine (second.connected outline member).imp fun inner within connects => ?_
      have := second.inside member within
      refine connects.mono fun above below decides => decides.prepend fun edge fromRow spans => ?_
      have := first.reads.source fromRow
      have := spans.1
      omega
  flows edge member := by
    rw [edgesOf_append] at member
    rcases List.mem_append.mp member with member | member
    · refine (first.flows edge member).imp (List.mem_append_left _) ?_
      rintro ⟨above, below, kept⟩
      refine ⟨above, Nat.le_trans below second.inOrder.le, ?_⟩
      -- What comes later can only be entered at its very start.
      refine List.forall_mem_append.mpr ⟨kept, fun outline later inner within => ?_⟩
      have := second.inside later within
      exact ⟨fun _ _ => .inr (by omega), fun _ _ => .inr (by omega)⟩
    · refine (second.flows edge member).imp (List.mem_append_right _) ?_
      rintro ⟨above, below, kept⟩
      refine ⟨Nat.le_trans first.inOrder.le above, below, ?_⟩
      refine List.forall_mem_append.mpr ⟨fun outline earlier inner within => ?_, kept⟩
      have := first.inside earlier within
      exact ⟨fun _ _ => by omega, fun _ _ => by omega⟩

/-- Code that is outlined is followed by code in which nothing has a range. -/
theorem andThen (first : Outlined image code start middle row exits outlines)
    (second : Outlined image code middle stop more moreExits []) :
    Outlined image code start stop (row ++ more) (exits ++ moreExits) outlines := by
  have both := first.trans second
  rwa [List.append_nil] at both

/-- Code in which nothing has a range is followed by code that is outlined. -/
theorem before (first : Outlined image code start middle row exits [])
    (second : Outlined image code middle stop more moreExits outlines) :
    Outlined image code start stop (row ++ more) (exits ++ moreExits) outlines :=
  first.trans second

/-- Exits that are placed need not be listed. -/
theorem close (outlined : Outlined image code start stop row exits outlines)
    (placed : ∀ exit ∈ exits, exit ∈ moreExits ∨ start ≤ exit ∧ exit ≤ stop ∧
      ∀ outline ∈ outlines, outline.Spans exit → exit = outline.start) :
    Outlined image code start stop row moreExits outlines where
  reads := outlined.reads
  inOrder := outlined.inOrder
  coded := outlined.coded
  connected := outlined.connected
  flows edge member := by
    rcases outlined.flows edge member with exit | kept
    · refine (placed edge.target exit).imp_right ?_
      rintro ⟨above, below, atStart⟩
      refine ⟨above, below, fun outline among inner within => ?_⟩
      have := within.inside (outlined.coded outline among)
      have := (outlined.coded outline among inner within).core_le
      have entered : inner.start ≤ edge.target → edge.target < inner.stop →
          edge.target = inner.start := by
        intro above below
        have := atStart outline among ⟨by omega, by omega⟩
        omega
      exact ⟨fun above below => .inr (entered above (by omega)),
        fun above below => .inr (entered above below)⟩
    · exact .inr kept

/-- What is outlined makes up a node. -/
theorem enclose {node : Node} (outlined : Outlined image code start stop row exits outlines)
    (parts : outlines.map Outline.node = node.parts) (isCode : node.IsCode image code start stop)
    (connects : Connects (edgesOf row) ⟨node, start, stop, stop, outlines⟩) :
    Outlined image code start stop row exits [⟨node, start, stop, stop, outlines⟩] where
  reads := outlined.reads
  inOrder := ⟨Nat.le_refl _, outlined.inOrder.le, Nat.le_refl _⟩
  coded := List.forall_mem_singleton.mpr
    (.mk ⟨parts, outlined.inOrder, Nat.le_refl _, isCode⟩ outlined.coded)
  connected := List.forall_mem_singleton.mpr (.mk connects outlined.connected)
  flows edge member := by
    refine (outlined.flows edge member).imp_right ?_
    rintro ⟨above, below, kept⟩
    have source := outlined.reads.source member
    exact ⟨above, below, List.forall_mem_singleton.mpr
      (.mk ⟨fun _ _ => .inl source, fun _ _ => .inl source⟩ kept)⟩

/-- What follows the code of a node belongs to it. -/
theorem extend {node : Node} {core : Nat} {parts : List Outline}
    (outlined : Outlined image code start stop row exits [⟨node, start, core, core, parts⟩])
    (isCode : node.IsCode image code start stop) :
    Outlined image code start stop row exits [⟨node, start, core, stop, parts⟩] := by
  obtain ⟨reads, inOrder, coded, connected, flows⟩ := outlined
  rw [List.forall_mem_singleton] at coded connected
  refine ⟨reads, ⟨Nat.le_refl _, inOrder.le, Nat.le_refl _⟩, List.forall_mem_singleton.mpr ?_,
    List.forall_mem_singleton.mpr ?_, fun edge member => ?_⟩
  · exact .mk ⟨coded.root.parts, coded.root.inOrder, inOrder.2.2, isCode⟩ fun _ => coded.part
  · exact .mk connected.root fun _ => connected.part
  · refine (flows edge member).imp_right ?_
    rintro ⟨above, below, kept⟩
    rw [List.forall_mem_singleton] at kept ⊢
    exact ⟨above, below, .mk ⟨kept.root.1, fun _ _ => .inl (reads.source member)⟩
      fun _ => kept.part⟩

end Outlined

end Backpatch
