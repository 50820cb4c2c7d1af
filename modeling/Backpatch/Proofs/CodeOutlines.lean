import Backpatch.Proofs.Checked
import Backpatch.Proofs.CodeRanges

/-!
# Outlines of code

The finished code of a function is outlined: every statement and every expression in it has its
range.  The outline is built along the code, instruction by instruction for the parts of an
expression and then for the parts of a block.  Where a condition goes on is not known to its own
code, so that its two addresses are the exits of its outline until the statement or the expression
around it has placed them.
-/

namespace Backpatch

open Outline

variable {image : Image} {code : List UInt8} {start middle stop : Nat} {row : List Instr}
  {outlines : List Outline}

namespace Outlined

theorem straight {instr : Instr} (fetched : fetch code start = some instr)
    (next : stop = start + 1 + instr.operands.length)
    (goesOn : instr.successors = [instr.nextOffset]) :
    Outlined image code start stop [instr] [] [] := by
  refine single fetched next fun target member => .inr ?_
  rw [goesOn, List.mem_singleton, nextOffset_of_fetch fetched] at member
  rw [member, next]

theorem plain {op : Op} {taken left : List Ty} (instr : PlainAt code start op)
    (straight : op.Straight taken left) :
    Outlined image code start (start + 1) [⟨start, op, []⟩] [] [] :=
  Outlined.straight instr rfl (Instr.successors_of_straight straight)

theorem load {function : UInt16} {slot : Slot}
    (instr : AccessAt image code function Op.load? slot start stop) :
    ∃ row, Outlined image code start stop row [] [] := by
  cases instr with
  | own _ _ member instr | foreign _ _ member instr =>
      exact ⟨_, straight instr rfl (Instr.successors_of_straight (Op.straight_of_load? member))⟩

theorem store {function : UInt16} {slot : Slot}
    (instr : AccessAt image code function Op.store? slot start stop) :
    ∃ row, Outlined image code start stop row [] [] := by
  cases instr with
  | own _ _ member instr | foreign _ _ member instr =>
      exact ⟨_, straight instr rfl (Instr.successors_of_straight (Op.straight_of_store? member))⟩

theorem jump {target : Nat} (instr : JumpAt code start target) :
    Outlined image code start (start + 3) [⟨start, .jump, littleEndian 2 target⟩] [target] [] := by
  refine single instr.2 rfl ?_
  rw [Instr.successors_of_isJump rfl, Instr.targets_jump instr.1]
  exact fun _ member => .inl member

theorem branch {op : Op} {onTrue onFalse : Nat} (instr : BranchAt code start op onTrue onFalse)
    (isBranch : op.isBranch = true) :
    Outlined image code start (start + 5)
      [⟨start, op, littleEndian 2 onTrue ++ littleEndian 2 onFalse⟩] [onTrue, onFalse] [] := by
  refine single instr.2.2 rfl ?_
  rw [Instr.successors_of_isJump (by simp [Op.isJump, isBranch]),
    Instr.targets_branch isBranch instr.1 instr.2.1]
  exact fun _ member => .inl member

theorem ret (instr : PlainAt code start .ret) :
    Outlined image code start (start + 1) [⟨start, .ret, []⟩] [] [] :=
  single instr rfl (List.forall_mem_nil _)

theorem diamond {numeric : Numeric} (diamond : DiamondAt code start numeric) :
    ∃ row, Outlined image code start (start + 5) row [] [] := by
  refine ⟨_, (((plain diamond.one numeric.straight_oneOp).andThen (jump diamond.join)).andThen
    (plain diamond.zero numeric.straight_zeroOp)).close ?_⟩
  intro exit member
  rw [List.mem_singleton.mp member]
  exact .inr ⟨by omega, Nat.le_refl _, List.forall_mem_nil _⟩

end Outlined

/-- Connectives and negations, whose outcomes are those of their operands. -/
def Expr.isJunction : Expr → Bool
  | .binary _ (.logic _) _ _ | .unary _ .not _ => true
  | _ => false

namespace Outline

theorem outcomes_of_not_junction {expr : Expr} {core : Nat} {parts : List Outline}
    (simple : expr.isJunction = false) (outcome : Bool) :
    outcomes ⟨.expr expr, start, core, stop, parts⟩ outcome = [(stop - 5, outcome)] := by
  cases expr with
  | binary position op left right =>
      cases op with
      | logic connective => cases simple
      | arith op | compare op => rw [outcomes] <;> simp
  | unary position op operand =>
      cases op with
      | not => cases simple
      | neg => rw [outcomes] <;> simp
  | int | double | string | load | call => rw [outcomes] <;> simp

theorem connects_of_not_junction {expr : Expr} {core : Nat} {parts : List Outline}
    {edges : List Edge} (simple : expr.isJunction = false) :
    Connects edges ⟨.expr expr, start, core, stop, parts⟩ := by
  rintro position connective left right ⟨⟩
  cases simple

/-- Code that ends in a branch decides a condition by it. -/
theorem decides_of_branch {outline : Outline} {op : Op} {onTrue onFalse : Nat}
    (init : Outlined image code start middle row [] outlines)
    (branch : BranchAt code middle op onTrue onFalse) (isBranch : op.isBranch = true)
    (atStart : outline.start = start) (atStop : outline.stop = middle + 5)
    (ends : ∀ outcome, outline.outcomes outcome = [(outline.stop - 5, outcome)]) :
    outline.Decides
      (edgesOf (row ++ [⟨middle, op, littleEndian 2 onTrue ++ littleEndian 2 onFalse⟩]))
      (cond · onTrue onFalse) := by
  rw [edgesOf_append, edgesOf_singleton, Instr.edges_branch isBranch branch.1 branch.2.1]
  have atBranch : outline.stop - 5 = middle := by omega
  rw [atBranch] at ends
  have le := init.inOrder.le
  constructor
  · intro outcome way member
    rw [ends, List.mem_singleton] at member
    rw [member]
    refine ⟨⟨?_, ?_⟩, ?_⟩
    · rwa [atStart]
    · rw [atStop]
      exact Nat.lt_add_of_pos_right (by decide)
    · cases outcome <;> simp
  · intro edge member spans
    rcases List.mem_append.mp member with member | member
    · rcases init.flows edge member with exit | ⟨above, below, -⟩
      · cases exit
      · exact .inl ⟨by omega, by omega⟩
    · have isEdge : ∃ outcome, edge = ⟨middle, some outcome, cond outcome onTrue onFalse⟩ := by
        rcases List.mem_cons.mp member with rfl | member
        · exact ⟨true, rfl⟩
        · exact ⟨false, List.mem_singleton.mp member⟩
      obtain ⟨outcome, rfl⟩ := isEdge
      exact .inr ⟨outcome, ⟨outcome, rfl, by simp [ends]⟩, rfl⟩

/-- A connective is decided by the outcome of its left operand that decides, and else by the right
operand. -/
theorem decides_connective {edges : List Edge} {first second : Outline} {position : Position}
    {connective : Connective} {left right : Expr} {target : Bool → Nat}
    (firstDecides : first.Decides edges fun outcome =>
      if outcome = connective.decisive then target outcome else second.start)
    (secondDecides : second.Decides edges target) (next : second.start = first.stop)
    (firstLt : first.start < first.stop) (secondLt : second.start < second.stop) :
    Decides edges ⟨.expr (.binary position (.logic connective) left right), first.start,
      second.stop, second.stop, [first, second]⟩ target := by
  have covered {offset : Nat} (spans : first.Spans offset ∨ second.Spans offset) :
      first.start ≤ offset ∧ offset < second.stop := by
    rw [Spans, Spans] at spans
    omega
  constructor
  · intro outcome way member
    rw [outcomes] at member
    split at member
    case isTrue decisive =>
        rcases List.mem_append.mp member with member | member
        · obtain ⟨spans, leads⟩ := firstDecides.leads outcome way member
          rw [if_pos decisive] at leads
          exact ⟨covered (.inl spans), leads⟩
        · exact (secondDecides.leads outcome way member).imp_left (covered <| .inr ·)
    case isFalse => exact (secondDecides.leads outcome way member).imp_left (covered <| .inr ·)
  · intro edge member spans
    rw [spans_mk] at spans ⊢
    by_cases inFirst : edge.source < first.stop
    · rcases firstDecides.leaves edge member ⟨spans.1, inFirst⟩ with
        inside | ⟨outcome, takes, leads⟩
      · exact .inl (covered (.inl inside))
      · by_cases decisive : outcome = connective.decisive
        · rw [if_pos decisive] at leads
          obtain ⟨holds, side, among⟩ := takes
          refine .inr ⟨outcome, ⟨holds, side, ?_⟩, leads⟩
          rw [outcomes, if_pos decisive]
          exact List.mem_append_left _ among
        · rw [if_neg decisive] at leads
          exact .inl ⟨by omega, by omega⟩
    · rcases secondDecides.leaves edge member ⟨by omega, spans.2⟩ with
        inside | ⟨outcome, ⟨holds, side, among⟩, leads⟩
      · exact .inl (covered (.inr inside))
      · refine .inr ⟨outcome, ⟨holds, side, ?_⟩, leads⟩
        rw [outcomes]
        split
        · exact List.mem_append_right _ among
        · exact among

theorem decides_not {edges : List Edge} {operand : Outline} {position : Position} {expr : Expr}
    {onTrue onFalse : Nat} (decides : operand.Decides edges (cond · onFalse onTrue)) :
    Decides edges ⟨.expr (.unary position .not expr), operand.start, operand.stop, operand.stop,
      [operand]⟩ (cond · onTrue onFalse) := by
  constructor
  · intro outcome way member
    rw [outcomes] at member
    have leads := decides.leads (!outcome) way member
    cases outcome <;> exact leads
  · intro edge member spans
    rcases decides.leaves edge member spans with inside | ⟨outcome, ⟨holds, side, among⟩, leads⟩
    · exact .inl inside
    · refine .inr ⟨!outcome, ⟨holds, side, ?_⟩, ?_⟩
      · rw [outcomes, Bool.not_not]
        exact among
      · cases outcome <;> exact leads

end Outline

namespace ExprPart

/-- The two addresses at which code that decides a condition goes on. -/
def addresses : ExprPart → List Nat
  | .branch _ onTrue onFalse | .condition _ onTrue onFalse => [onTrue, onFalse]
  | _ => []

/-- Code that decides a condition goes on outside of a range. -/
def Apart (start stop : Nat) : ExprPart → Prop
  | .branch _ onTrue onFalse | .condition _ onTrue onFalse =>
      (onTrue < start ∨ stop ≤ onTrue) ∧ (onFalse < start ∨ stop ≤ onFalse)
  | _ => True

/-- The outlines of a part of an expression that stands between two offsets and has the given
edges. -/
def OutlinedBy (start stop : Nat) (edges : List Edge) (outlines : List Outline) : ExprPart → Prop
  | .value expr _ =>
      expr.isJunction = false ∧ ∃ parts, outlines = [⟨.expr expr, start, stop, stop, parts⟩]
  | .branch expr onTrue onFalse =>
      start < stop ∧ ∃ parts, outlines = [⟨.expr expr, start, stop, stop, parts⟩] ∧
        Decides edges ⟨.expr expr, start, stop, stop, parts⟩ (cond · onTrue onFalse)
  | .operand expr _ | .converted expr _ =>
      ∃ core parts, outlines = [⟨.expr expr, start, core, stop, parts⟩]
  | .condition expr onTrue onFalse =>
      start < stop ∧ ∃ core parts, outlines = [⟨.expr expr, start, core, stop, parts⟩] ∧
        Decides edges ⟨.expr expr, start, core, stop, parts⟩ (cond · onTrue onFalse)
  | .operands left right _ => outlines.map Outline.node = [.expr left, .expr right]
  | .args exprs _ => outlines.map Outline.node = (exprs.map Node.expr).reverse

/-- There is an outline of the code of a part of an expression. -/
def HasOutline (image : Image) (code : List UInt8) (start stop : Nat) (part : ExprPart) : Prop :=
  ∃ row outlines, Outlined image code start stop row part.addresses outlines ∧
    part.OutlinedBy start stop (edgesOf row) outlines

end ExprPart

theorem ExprCode.start_le_stop {names : Names} {part : ExprPart}
    (exprCode : ExprCode image code names part start stop) : start ≤ stop := by
  induction exprCode with
  | load _ instr => cases instr <;> omega
  | _ => omega

theorem Outlined.value {expr : Expr} {ty : Ty} (names : Names)
    (outlined : Outlined image code start stop row [] outlines)
    (parts : outlines.map Outline.node = (Node.expr expr).parts) (simple : expr.isJunction = false)
    (exprCode : ExprCode image code names (.value expr ty) start stop) :
    (ExprPart.value expr ty).HasOutline image code start stop :=
  ⟨row, _, outlined.enclose parts ⟨names, _, rfl, exprCode⟩ (connects_of_not_junction simple),
    simple, _, rfl⟩

theorem Outlined.junction {names : Names} {expr : Expr} {onTrue onFalse : Nat}
    (outlined : Outlined image code start stop row [onTrue, onFalse] outlines)
    (parts : outlines.map Outline.node = (Node.expr expr).parts)
    (exprCode : ExprCode image code names (.branch expr onTrue onFalse) start stop)
    (connects : Connects (edgesOf row) ⟨.expr expr, start, stop, stop, outlines⟩)
    (decides : Decides (edgesOf row) ⟨.expr expr, start, stop, stop, outlines⟩
      (cond · onTrue onFalse)) (lt : start < stop) :
    (ExprPart.branch expr onTrue onFalse).HasOutline image code start stop :=
  ⟨row, _, outlined.enclose parts ⟨names, _, rfl, exprCode⟩ connects, lt, _, rfl, decides⟩

/-- A condition that becomes a number. -/
theorem Outlined.diamondAfter {expr : Expr} {parts : List Outline} {numeric : Numeric}
    (outlined : Outlined image code start middle row [middle, middle + 4]
      [⟨.expr expr, start, middle, middle, parts⟩]) (diamond : DiamondAt code middle numeric)
    (isCode : (Node.expr expr).IsCode image code start (middle + 5)) :
    ∃ row, Outlined image code start (middle + 5) row []
      [⟨.expr expr, start, middle, middle + 5, parts⟩] := by
  obtain ⟨more, diamondOutlined⟩ : ∃ row, Outlined image code middle (middle + 5) row [] [] :=
    Outlined.diamond diamond
  have le := outlined.inOrder.le
  refine ⟨_, ((outlined.andThen diamondOutlined).close ?_).extend isCode⟩
  intro exit member
  refine .inr ?_
  have cases : exit = middle ∨ exit = middle + 4 := by simpa using member
  refine ⟨by omega, by omega, List.forall_mem_singleton.mpr ?_⟩
  rw [spans_mk]
  omega

/-- Two conditions joined by a connective. -/
theorem ExprPart.HasOutline.connective {names : Names} {position : Position}
    {connective : Connective} {left right : Expr} {firstTrue firstFalse onTrue onFalse : Nat}
    (first : (condition left firstTrue firstFalse).HasOutline image code start middle)
    (second : (condition right onTrue onFalse).HasOutline image code middle stop)
    (targets : ∀ outcome, cond outcome firstTrue firstFalse =
      if outcome = connective.decisive then cond outcome onTrue onFalse else middle)
    (apart : ∀ outcome, cond outcome onTrue onFalse < start ∨ stop ≤ cond outcome onTrue onFalse)
    (exprCode : ExprCode image code names
      (.branch (.binary position (.logic connective) left right) onTrue onFalse) start stop) :
    (branch (.binary position (.logic connective) left right) onTrue onFalse).HasOutline image code
      start stop := by
  obtain ⟨row, _, first, firstLt, core, parts, rfl, firstDecides⟩ := first
  obtain ⟨more, _, second, secondLt, other, otherParts, rfl, secondDecides⟩ := second
  rw [funext targets] at firstDecides
  have firstDecides := firstDecides.append fun edge member (spans : _ ∧ _) =>
    Nat.lt_irrefl _ (Nat.lt_of_lt_of_le spans.2 (second.reads.source member).1)
  have secondDecides := secondDecides.prepend fun edge member (spans : _ ∧ _) =>
    Nat.lt_irrefl _ (Nat.lt_of_lt_of_le (first.reads.source member).2 spans.1)
  rw [← edgesOf_append] at firstDecides secondDecides
  have both := first.trans second
  refine (both.close ?_).junction rfl exprCode ?_
    (decides_connective firstDecides secondDecides rfl firstLt secondLt)
    (Nat.lt_trans firstLt secondLt)
  · have placed : ∀ outcome, cond outcome firstTrue firstFalse ∈ [onTrue, onFalse] ∨
        cond outcome firstTrue firstFalse = middle := by
      intro outcome
      rw [targets]
      split
      · cases outcome <;> simp
      · exact .inr rfl
    have atMiddle : start ≤ middle ∧ middle ≤ stop ∧
        ∀ outline ∈ [(⟨.expr left, start, core, middle, parts⟩ : Outline),
          ⟨.expr right, middle, other, stop, otherParts⟩],
          outline.Spans middle → middle = outline.start := by
      refine ⟨Nat.le_of_lt firstLt, Nat.le_of_lt secondLt, List.forall_mem_cons.mpr
        ⟨fun spans => ?_, List.forall_mem_singleton.mpr fun _ => rfl⟩⟩
      exact absurd spans.2 (Nat.lt_irrefl _)
    rintro exit member
    rcases List.mem_append.mp member with member | member
    · obtain ⟨outcome, rfl⟩ : ∃ outcome, exit = cond outcome firstTrue firstFalse := by
        rcases List.mem_cons.mp member with rfl | member
        · exact ⟨true, rfl⟩
        · exact ⟨false, List.mem_singleton.mp member⟩
      refine (placed outcome).imp_right fun same => ?_
      rw [same]
      exact atMiddle
    · exact .inl member
  · rintro _ _ _ _ ⟨⟩
    refine ⟨_, _, cond connective.decisive onTrue onFalse, rfl, rfl, rfl, rfl, firstLt, secondLt,
      apart _, ?_⟩
    have same : (fun outcome => if outcome = connective.decisive then cond outcome onTrue onFalse
        else middle) = fun outcome => if outcome = connective.decisive then
          cond connective.decisive onTrue onFalse else middle := by
      funext outcome
      split
      case isTrue decisive => rw [decisive]
      case isFalse => rfl
    exact same ▸ firstDecides

/-- A condition whose outcomes both lead to the end of its code. -/
theorem Outlined.closeAtStop {expr : Expr} {parts : List Outline}
    (outlined : Outlined image code start stop row [stop, stop]
      [⟨.expr expr, start, stop, stop, parts⟩]) :
    Outlined image code start stop row [] [⟨.expr expr, start, stop, stop, parts⟩] := by
  refine outlined.close fun exit member => .inr ?_
  obtain rfl : exit = stop := by simpa using member
  refine ⟨outlined.inOrder.le, Nat.le_refl _, List.forall_mem_singleton.mpr fun spans => ?_⟩
  exact absurd spans.2 (Nat.lt_irrefl _)

theorem Op.straight_i2d : Op.i2d.Straight [.int] [.double] :=
  Op.straight_of_convert? rfl

/-- The code of an expression has an outline, if the addresses at which it goes on are not inside
it. -/
theorem ExprCode.hasOutline {names : Names} {part : ExprPart}
    (exprCode : ExprCode image code names part start stop)
    (apart : part.Apart start stop) :
    part.HasOutline image code start stop := by
  induction exprCode with
  | int instr => exact (Outlined.straight instr rfl rfl).value names rfl rfl (.int instr)
  | double instr => exact (Outlined.straight instr rfl rfl).value names rfl rfl (.double instr)
  | string constant instr =>
      exact (Outlined.straight instr rfl rfl).value names rfl rfl (.string constant instr)
  | load resolved instr =>
      obtain ⟨row, outlined⟩ := Outlined.load instr
      exact outlined.value names rfl rfl (.load resolved instr)
  | arith operands member instr ih =>
      obtain ⟨row, outlines, outlined, nodes⟩ := ih trivial
      exact (outlined.andThen (.plain instr (ArithOp.straight_of_instr? member))).value names nodes
        rfl (.arith operands member instr)
  | @compare position op left right numeric onTrue onFalse start middle operands compareAt zero
      branch ih =>
      obtain ⟨row, outlines, outlined, nodes⟩ := ih trivial
      have init := (outlined.andThen (.plain compareAt numeric.straight_compareOp)).andThen
        (.plain zero Numeric.int.straight_zeroOp)
      have le := operands.start_le_stop
      exact (init.andThen (.branch branch op.isBranch_branchOp)).junction nodes
        (.compare operands compareAt zero branch) (connects_of_not_junction rfl)
        (decides_of_branch init branch op.isBranch_branchOp rfl rfl (outcomes_of_not_junction rfl))
        (by omega)
  | @and position left right onTrue onFalse start middle stop first second ihFirst ihSecond =>
      obtain ⟨trueApart, falseApart⟩ := apart
      have firstLe := first.start_le_stop
      have secondLe := second.start_le_stop
      exact .connective (ihFirst ⟨by omega, by omega⟩) (ihSecond ⟨by omega, by omega⟩)
        (fun outcome => by cases outcome <;> rfl) (fun outcome => by cases outcome <;> assumption)
        (.and first second)
  | @or position left right onTrue onFalse start middle stop first second ihFirst ihSecond =>
      obtain ⟨trueApart, falseApart⟩ := apart
      have firstLe := first.start_le_stop
      have secondLe := second.start_le_stop
      exact .connective (ihFirst ⟨by omega, by omega⟩) (ihSecond ⟨by omega, by omega⟩)
        (fun outcome => by cases outcome <;> rfl) (fun outcome => by cases outcome <;> assumption)
        (.or first second)
  | @not position operand onTrue onFalse start stop inner ih =>
      obtain ⟨trueApart, falseApart⟩ := apart
      obtain ⟨row, _, outlined, lt, core, parts, rfl, decides⟩ :=
        ih ⟨falseApart, trueApart⟩
      have swapped : Outlined image code start stop row [onTrue, onFalse] _ :=
        outlined.close fun exit member => .inl (List.mem_reverse.mp member)
      exact swapped.junction rfl (.not inner) (by rintro _ _ _ _ ⟨⟩) (decides_not decides) lt
  | @neg position operand numeric start middle inner minusOne multiply ih =>
      obtain ⟨row, outlines, outlined, core, parts, rfl⟩ := ih trivial
      exact ((outlined.andThen (.plain minusOne numeric.straight_minusOneOp)).andThen
        (.plain multiply numeric.straight_mulOp)).value names rfl rfl (.neg inner minusOne multiply)
  | call resolved registered declared count pushed instr ih =>
      obtain ⟨row, outlines, outlined, nodes⟩ := ih trivial
      exact (outlined.andThen (.straight instr rfl rfl)).value names nodes rfl
        (.call resolved registered declared count pushed instr)
  | operandValue value ih | same value ih | unwanted value ih =>
      obtain ⟨row, outlines, outlined, -, parts, rfl⟩ := ih trivial
      exact ⟨row, _, outlined, _, parts, rfl⟩
  | operandBranch branch diamond ih =>
      obtain ⟨row, _, outlined, -, parts, rfl, -⟩ := ih ⟨.inr (Nat.le_refl _), .inr (by omega)⟩
      obtain ⟨more, done⟩ := outlined.diamondAfter diamond
        ⟨names, _, rfl, .operandBranch branch diamond⟩
      exact ⟨more, _, done, _, parts, rfl⟩
  | conditionBranch branch ih =>
      obtain ⟨row, outlines, outlined, lt, parts, same, decides⟩ := ih apart
      exact ⟨row, _, outlined, lt, _, parts, same, decides⟩
  | @conditionInt expr onTrue onFalse start middle value zero branch ih =>
      obtain ⟨row, _, outlined, simple, parts, rfl⟩ := ih trivial
      have init := outlined.andThen (.plain zero Numeric.int.straight_zeroOp)
      have le := value.start_le_stop
      exact ⟨_, _, (init.andThen (.branch branch rfl)).extend
        ⟨names, _, rfl, .conditionInt value zero branch⟩, by omega, _, parts, rfl,
        decides_of_branch init branch rfl rfl rfl (outcomes_of_not_junction simple)⟩
  | @conditionDouble expr onTrue onFalse start middle value zero compareAt intZero branch ih =>
      obtain ⟨row, _, outlined, simple, parts, rfl⟩ := ih trivial
      have init := ((outlined.andThen (.plain zero Numeric.double.straight_zeroOp)).andThen
        (.plain compareAt Numeric.double.straight_compareOp)).andThen
        (.plain intZero Numeric.int.straight_zeroOp)
      have le := value.start_le_stop
      exact ⟨_, _, (init.andThen (.branch branch rfl)).extend
        ⟨names, _, rfl, .conditionDouble value zero compareAt intZero branch⟩, by omega, _, parts,
        rfl, decides_of_branch init branch rfl rfl rfl (outcomes_of_not_junction simple)⟩
  | convert value conversion instr ih =>
      obtain ⟨row, _, outlined, -, parts, rfl⟩ := ih trivial
      exact ⟨_, _, (outlined.andThen (.plain instr (Op.straight_of_convert? conversion))).extend
        ⟨names, _, rfl, .convert value conversion instr⟩, _, parts, rfl⟩
  | convertBranch branch diamond ih =>
      obtain ⟨row, _, outlined, -, parts, rfl, -⟩ := ih ⟨.inr (Nat.le_refl _), .inr (by omega)⟩
      obtain ⟨more, done⟩ := outlined.diamondAfter diamond
        ⟨names, _, rfl, .convertBranch branch diamond⟩
      exact ⟨more, _, done, _, parts, rfl⟩
  | @unwantedBranch expr start stop branch ih =>
      obtain ⟨row, _, outlined, -, parts, rfl, -⟩ :=
        ih ⟨.inr (Nat.le_refl _), .inr (Nat.le_refl _)⟩
      exact ⟨row, _, outlined.closeAtStop, _, parts, rfl⟩
  | alike first second ihFirst ihSecond =>
      obtain ⟨row, _, outlined, core, parts, rfl⟩ := ihFirst trivial
      obtain ⟨more, _, moreOutlined, other, otherParts, rfl⟩ := ihSecond trivial
      exact ⟨_, _, outlined.trans moreOutlined, rfl⟩
  | widenLeft first instr second ihFirst ihSecond =>
      obtain ⟨row, _, outlined, core, parts, rfl⟩ := ihFirst trivial
      obtain ⟨more, _, moreOutlined, other, otherParts, rfl⟩ := ihSecond trivial
      exact ⟨_, _, (outlined.andThen (.plain instr Op.straight_i2d)).trans moreOutlined, rfl⟩
  | widenRight first second instr ihFirst ihSecond =>
      obtain ⟨row, _, outlined, core, parts, rfl⟩ := ihFirst trivial
      obtain ⟨more, _, moreOutlined, other, otherParts, rfl⟩ := ihSecond trivial
      exact ⟨_, _, (outlined.trans moreOutlined).andThen (.plain instr Op.straight_i2d), rfl⟩
  | noArgs => exact ⟨_, _, .nil, rfl⟩
  | arg later first ihLater ihFirst =>
      obtain ⟨row, outlines, outlined, nodes⟩ := ihLater trivial
      obtain ⟨more, _, moreOutlined, core, parts, rfl⟩ := ihFirst trivial
      refine ⟨_, _, outlined.trans moreOutlined, ?_⟩
      have nodes : outlines.map Outline.node = _ := nodes
      simp [ExprPart.OutlinedBy, nodes]

namespace StmtPart

/-- The outlines of a part of a block that stands between two offsets. -/
def OutlinedBy (start stop : Nat) (outlines : List Outline) : StmtPart → Prop
  | .stmt statement => ∃ parts, outlines = [⟨.stmt statement, start, stop, stop, parts⟩]
  | .stmts statements => outlines.map Outline.node = statements.map Node.stmt
  | .block body => ∃ parts, outlines = [⟨.block body, start, stop, stop, parts⟩]
  | .otherwise body =>
      outlines.map Outline.node = body.toList.map Node.block ∧
        ∀ outline ∈ outlines, outline.start = start
  | .prints args => outlines.map Outline.node = args.map Node.expr

/-- There is an outline of the code of a part of a block. -/
def HasOutline (image : Image) (code : List UInt8) (start stop : Nat) (part : StmtPart) : Prop :=
  ∃ row outlines, Outlined image code start stop row [] outlines ∧
    part.OutlinedBy start stop outlines

end StmtPart

theorem Outlined.stmt {env : Env} {stmt : Stmt}
    (outlined : Outlined image code start stop row [] outlines)
    (parts : outlines.map Outline.node = (Node.stmt stmt).parts)
    (stmtCode : StmtCode image code env (.stmt stmt) start stop) :
    (StmtPart.stmt stmt).HasOutline image code start stop :=
  ⟨row, _, outlined.enclose parts ⟨env, stmtCode⟩ (by rintro _ _ _ _ ⟨⟩), _, rfl⟩

theorem Outlined.block {env : Env} {body : Block}
    (outlined : Outlined image code start stop row [] outlines)
    (parts : outlines.map Outline.node = (Node.block body).parts)
    (stmtCode : StmtCode image code env (.block body) start stop) :
    (StmtPart.block body).HasOutline image code start stop :=
  ⟨row, _, outlined.enclose parts ⟨env, stmtCode⟩ (by rintro _ _ _ _ ⟨⟩), _, rfl⟩

theorem StmtCode.hasOutline {env : Env} {part : StmtPart}
    (stmtCode : StmtCode image code env part start stop) :
    part.HasOutline image code start stop := by
  induction stmtCode with
  | assign resolved valueCode store =>
      obtain ⟨row, _, outlined, core, parts, rfl⟩ := valueCode.hasOutline trivial
      obtain ⟨more, stores⟩ := Outlined.store store
      exact (outlined.andThen stores).stmt rfl (.assign resolved valueCode store)
  | update resolved updates member load valueCode instrAt store =>
      obtain ⟨row, _, outlined, core, parts, rfl⟩ := valueCode.hasOutline trivial
      obtain ⟨loadRow, loads⟩ := Outlined.load load
      obtain ⟨storeRow, stores⟩ := Outlined.store store
      exact (((loads.before outlined).andThen
        (.plain instrAt (ArithOp.straight_of_instr? member))).andThen stores).stmt rfl
        (.update resolved updates member load valueCode instrAt store)
  | @ifElse env cond thenBlock elseBlock start thenStop elseStop stop toCond thenCode thenExit
      elseCode elseExit condCode ihThen ihElse =>
      obtain ⟨thenRow, _, thenOutlined, thenParts, rfl⟩ := ihThen
      obtain ⟨elseRow, elseOutlines, elseOutlined, elseNodes, elseStarts⟩ := ihElse
      have thenLe := thenOutlined.inOrder.le
      have elseLe := elseOutlined.inOrder.le
      obtain ⟨condRow, _, condOutlined, condLt, core, parts, rfl, -⟩ :=
        condCode.hasOutline ⟨.inl (by omega), .inl (by omega)⟩
      have whole := (((((Outlined.jump toCond).before thenOutlined).andThen (.jump thenExit)).trans
        elseOutlined).andThen (.jump elseExit)).trans condOutlined
      refine (whole.close fun exit member => .inr ?_).stmt ?_
        (.ifElse toCond thenCode thenExit elseCode elseExit condCode)
      · have placed : exit = elseStop + 3 ∨ exit = stop ∨ exit = start + 3 ∨
            exit = thenStop + 3 := by
          simpa [ExprPart.addresses] using member
        refine ⟨by omega, by omega, List.forall_mem_append.mpr ⟨List.forall_mem_append.mpr
          ⟨List.forall_mem_singleton.mpr ?_, fun outline among spans => ?_⟩,
          List.forall_mem_singleton.mpr ?_⟩⟩
        · simp only [spans_mk]
          omega
        · have := elseStarts outline among
          have := elseOutlined.inOrder.inside among
          have := spans.1
          have := spans.2
          omega
        · simp only [spans_mk]
          omega
      · simp [elseNodes, Node.parts]
  | @whileDo env cond body start entry bodyStop condCode bodyCode again ih =>
      obtain ⟨bodyRow, _, bodyOutlined, bodyParts, rfl⟩ := ih
      have bodyLe := bodyOutlined.inOrder.le
      obtain ⟨condRow, _, condOutlined, condLt, core, parts, rfl, -⟩ :=
        condCode.hasOutline ⟨.inr (Nat.le_refl _), .inr (by omega)⟩
      have whole := (condOutlined.trans bodyOutlined).andThen (.jump again)
      refine (whole.close fun exit member => .inr ?_).stmt rfl (.whileDo condCode bodyCode again)
      have placed : exit = entry ∨ exit = bodyStop + 3 ∨ exit = start := by
        simpa [ExprPart.addresses] using member
      refine ⟨by omega, by omega, List.forall_mem_cons.mpr ⟨?_, List.forall_mem_singleton.mpr ?_⟩⟩
      all_goals
        simp only [spans_mk]
        omega
  | @forRange env position name low high body slot numeric start lowStop lowStored highStop head
      slotLoaded boundLoaded bodyStop reloaded back resolved number available lowCode storeLow
      highCode storeBound loadSlot loadBound compareAt zero branch bodyCode reload one add storeNext
      again ih =>
      obtain ⟨lowRow, _, lowOutlined, lowCore, lowParts, rfl⟩ := lowCode.hasOutline trivial
      obtain ⟨_, storesLow⟩ := Outlined.store storeLow
      obtain ⟨highRow, _, highOutlined, highCore, highParts, rfl⟩ := highCode.hasOutline trivial
      obtain ⟨_, storesBound⟩ := Outlined.store storeBound
      obtain ⟨_, loadsSlot⟩ := Outlined.load loadSlot
      obtain ⟨_, loadsBound⟩ := Outlined.load loadBound
      obtain ⟨bodyRow, _, bodyOutlined, bodyParts, rfl⟩ := ih
      obtain ⟨_, reloads⟩ := Outlined.load reload
      obtain ⟨_, storesNext⟩ := Outlined.store storeNext
      have bounds := ((lowOutlined.andThen storesLow).trans highOutlined).andThen storesBound
      have test := ((((loadsSlot.andThen loadsBound).andThen
        (.plain compareAt numeric.straight_compareOp)).andThen
        (.plain zero Numeric.int.straight_zeroOp)).andThen (.branch branch rfl))
      have step := (((reloads.andThen (.plain one numeric.straight_oneOp)).andThen
        (.plain add numeric.straight_addOp)).andThen storesNext).andThen (.jump again)
      have whole := ((bounds.andThen test).trans bodyOutlined).andThen step
      refine (whole.close fun exit member => .inr ?_).stmt rfl (.forRange resolved number available
        lowCode storeLow highCode storeBound loadSlot loadBound compareAt zero branch bodyCode
        reload one add storeNext again)
      have placed : exit = boundLoaded + 7 ∨ exit = back + 3 ∨ exit = head := by
        simpa [ExprPart.addresses] using member
      have lowLe := (lowOutlined.andThen storesLow).inOrder.le
      have highLe := highOutlined.inOrder.le
      have storedLe := storesBound.inOrder.le
      have loadedLe := (loadsSlot.andThen loadsBound).inOrder.le
      have bodyLe := bodyOutlined.inOrder.le
      have stepLe := step.inOrder.le
      have lowBefore := storesLow.inOrder.le
      refine ⟨by omega, by omega, List.forall_mem_cons.mpr ⟨?_, List.forall_mem_cons.mpr ⟨?_,
        List.forall_mem_singleton.mpr ?_⟩⟩⟩
      all_goals
        simp only [spans_mk]
        omega
  | print prints ih =>
      obtain ⟨row, outlines, outlined, nodes⟩ := ih
      exact outlined.stmt nodes (.print prints)
  | returnVoid void instr => exact (Outlined.ret instr).stmt rfl (.returnVoid void instr)
  | returnValue notVoid valueCode instr =>
      obtain ⟨row, _, outlined, core, parts, rfl⟩ := valueCode.hasOutline trivial
      exact (outlined.andThen (.ret instr)).stmt rfl (.returnValue notVoid valueCode instr)
  | callVoid valueCode =>
      obtain ⟨row, _, outlined, -, parts, rfl⟩ := valueCode.hasOutline trivial
      exact outlined.stmt rfl (.callVoid valueCode)
  | dropValue notVoid valueCode instr =>
      obtain ⟨row, _, outlined, -, parts, rfl⟩ := valueCode.hasOutline trivial
      exact (outlined.andThen (.straight instr rfl rfl)).stmt rfl
        (.dropValue notVoid valueCode instr)
  | dropBranch valueCode =>
      obtain ⟨row, _, outlined, -, parts, rfl, -⟩ :=
        valueCode.hasOutline ⟨.inr (Nat.le_refl _), .inr (Nat.le_refl _)⟩
      exact outlined.closeAtStop.stmt rfl (.dropBranch valueCode)
  | nested bodyCode ih =>
      obtain ⟨row, _, outlined, parts, rfl⟩ := ih
      exact outlined.stmt rfl (.nested bodyCode)
  | noStmts | noPrints => exact ⟨_, _, .nil, rfl⟩
  | stmts firstCode restCode ihFirst ihRest =>
      obtain ⟨row, _, outlined, parts, rfl⟩ := ihFirst
      obtain ⟨more, outlines, moreOutlined, nodes⟩ := ihRest
      exact ⟨_, _, outlined.trans moreOutlined, congrArg (_ :: ·) nodes⟩
  | block inner ih =>
      obtain ⟨row, outlines, outlined, nodes⟩ := ih
      exact outlined.block nodes (.block inner)
  | noElse => exact ⟨_, _, .nil, rfl, List.forall_mem_nil _⟩
  | someElse inner ih =>
      obtain ⟨row, _, outlined, parts, rfl⟩ := ih
      exact ⟨row, _, outlined, rfl, List.forall_mem_singleton.mpr rfl⟩
  | prints valueCode member instr rest ih =>
      obtain ⟨row, _, outlined, core, parts, rfl⟩ := valueCode.hasOutline trivial
      obtain ⟨more, outlines, moreOutlined, nodes⟩ := ih
      exact ⟨_, _, (outlined.andThen (.plain instr (Op.straight_of_print? member))).trans
        moreOutlined, congrArg (_ :: ·) nodes⟩

theorem ParamsCode.outlined {env : Env} {params : List ParamDecl}
    (paramsCode : ParamsCode image code env params start stop) :
    ∃ row, Outlined image code start stop row [] [] := by
  induction paramsCode with
  | nil => exact ⟨_, .nil⟩
  | cons store rest ih =>
      obtain ⟨row, stores⟩ := Outlined.store store
      obtain ⟨more, outlined⟩ := ih
      exact ⟨_, stores.trans outlined⟩

/-- The whole code of a function with a block is outlined by the block. -/
theorem RoutineCode.outlined {env : Env} {name : String} {returnType : Ty}
    {params : List ParamDecl} {body : Block} {position : Position} {routine : Routine}
    (routineCode :
      RoutineCode image (env, ⟨name, returnType, params, .block body, position⟩) routine) :
    ∃ row outline, outline.node = .block body ∧
      Outlined image routine.code.bytes.toList 0 routine.code.size row [] [outline] := by
  have bodyCode := routineCode.body
  generalize routine.code.size = size at bodyCode
  obtain @⟨_, _, _, _, _, entry, stop, paramsCode, blockCode, ret⟩ := bodyCode
  obtain ⟨paramsRow, stores⟩ := paramsCode.outlined
  obtain ⟨row, _, outlined, parts, rfl⟩ := blockCode.hasOutline
  exact ⟨_, _, rfl, (stores.before outlined).andThen (.ret ret)⟩

end Backpatch
