import Backpatch.Proofs.CodeOutlines

/-!
# Short-circuit evaluation

In the finished code of a function the operands of a connective stand directly behind each other,
and the code of the right operand is entered at its start only, and only from the left operand when
that has come out so that it does not decide.  When it decides, control leaves both operands, and
gets to the right one again only through the start of the left one.
-/

namespace Backpatch

open Outline

/-- Control at a connective, whose operands have the given outlines. -/
structure ShortCircuits (edges : List Edge) (connective : Connective) (first second : Outline) :
    Prop where
  next : second.start = first.stop
  first_lt : first.start < first.stop
  second_lt : second.start < second.stop
  /-- The left operand can come out either way. -/
  taken : ∀ outcome, ∃ edge ∈ edges, first.Takes outcome edge
  /-- Its code is left by its outcomes only. -/
  leaves : ∀ edge ∈ edges, first.Spans edge.source →
    first.Spans edge.target ∨ ∃ outcome, first.Takes outcome edge
  /-- An outcome that does not decide leads to the right operand. -/
  continues : ∀ edge ∈ edges, first.Takes (!connective.decisive) edge →
    first.Spans edge.source ∧ edge.target = second.start
  /-- An outcome that decides leads away from both operands. -/
  decided : ∀ edge ∈ edges, first.Takes connective.decisive edge →
    first.Spans edge.source ∧ ¬ (first.start ≤ edge.target ∧ edge.target < second.stop)
  /-- Nothing but an outcome that does not decide leads into the right operand. -/
  enters : ∀ edge ∈ edges, ¬ second.Spans edge.source → second.Spans edge.target →
    edge.target = second.start ∧ first.Takes (!connective.decisive) edge
  /-- No instruction of the left operand just goes on in the right one. -/
  not_falls : ∀ edge ∈ edges, first.Spans edge.source → second.Spans edge.target →
    edge.holds ≠ none
  /-- Behind an outcome that decides, no route inside the operands leads to the right one. -/
  no_route : ∀ edge ∈ edges, first.Takes connective.decisive edge → ∀ offset, second.Spans offset →
    ¬ Route edges (fun through => first.start ≤ through ∧ through < second.stop) edge.target offset
  /-- Neither does any other route, unless the left operand is begun again. -/
  no_detour : ∀ edge ∈ edges, first.Takes connective.decisive edge → ∀ offset,
    second.Spans offset → ¬ Route edges (· ≠ first.start) edge.target offset

variable {image : Image} {code : List UInt8} {start stop : Nat} {row : List Instr}
  {outlines : List Outline}

/-- An outcome of a condition leads to its target. -/
theorem Outline.Decides.target_eq {outline : Outline} {target : Bool → Nat} {outcome : Bool}
    {edge : Edge} (decides : outline.Decides (edgesOf row) target)
    (reads : Reads code start stop row) (member : edge ∈ edgesOf row)
    (takes : outline.Takes outcome edge) :
    outline.Spans edge.source ∧ edge.target = target outcome := by
  obtain ⟨holds, side, among⟩ := takes
  obtain ⟨spans, leads⟩ := decides.leads outcome _ among
  have same := reads.edge_eq member leads rfl side rfl
  exact ⟨spans, congrArg Edge.target same⟩

theorem Outline.Decides.shortCircuits {connective : Connective} {first second : Outline}
    {away : Nat} (decides : first.Decides (edgesOf row) fun outcome =>
      if outcome = connective.decisive then away else second.start)
    (reads : Reads code start stop row) (next : second.start = first.stop)
    (firstLt : first.start < first.stop) (secondLt : second.start < second.stop)
    (isAway : away < first.start ∨ second.stop ≤ away)
    (respects : ∀ edge ∈ edgesOf row, edge.Respects first.start second.stop)
    (respectsSecond : ∀ edge ∈ edgesOf row, edge.Respects second.start second.stop) :
    ShortCircuits (edgesOf row) connective first second := by
  have decided : ∀ edge ∈ edgesOf row, first.Takes connective.decisive edge →
      first.Spans edge.source ∧ ¬ (first.start ≤ edge.target ∧ edge.target < second.stop) := by
    intro edge member takes
    obtain ⟨spans, leads⟩ := decides.target_eq reads member takes
    rw [if_pos rfl] at leads
    exact ⟨spans, by omega⟩
  have enters : ∀ edge ∈ edgesOf row, ¬ second.Spans edge.source → second.Spans edge.target →
      edge.target = second.start ∧ first.Takes (!connective.decisive) edge := by
    intro edge member outside inside
    obtain ⟨above, below⟩ := inside
    have atStart : edge.target = second.start :=
      (respectsSecond edge member above below).resolve_left outside
    -- The two operands together are entered at the start of the left one, so the edge is in them.
    have fromFirst : first.Spans edge.source := by
      have := respects edge member (by omega) below
      rw [Spans] at outside ⊢
      omega
    rcases decides.leaves edge member fromFirst with stays | ⟨outcome, takes, leads⟩
    · have := stays.2
      omega
    · by_cases decisive : outcome = connective.decisive
      · rw [if_pos decisive] at leads
        omega
      · rw [← Bool.eq_not.mpr decisive]
        exact ⟨atStart, takes⟩
  exact
    { next := next
      first_lt := firstLt
      second_lt := secondLt
      taken := fun outcome => by
        obtain ⟨way, among⟩ := exists_mem_outcomes first outcome
        exact ⟨_, (decides.leads outcome way among).2, way.2, rfl, among⟩
      leaves := fun edge member spans =>
        (decides.leaves edge member spans).imp_right (Exists.imp fun _ => And.left)
      continues := fun edge member takes => by
        obtain ⟨spans, leads⟩ := decides.target_eq reads member takes
        rw [if_neg (by simp)] at leads
        exact ⟨spans, leads⟩
      decided := decided
      enters := enters
      not_falls := fun edge member fromFirst inside => by
        have outside : ¬ second.Spans edge.source := by
          rw [Spans] at fromFirst ⊢
          omega
        obtain ⟨-, holds, side, -⟩ := enters edge member outside inside
        rw [side]
        exact Option.some_ne_none holds
      no_route := fun edge member takes offset spans route =>
        (decided edge member takes).2 route.allowed_origin
      no_detour := fun edge member takes offset spans route => by
        refine route.stays_outside respects (decided edge member takes).2 ⟨?_, spans.2⟩
        have := spans.1
        omega }

namespace Outlined

/-- Once all exits are placed, no edge leads into the range of a node from outside, unless to its
start. -/
theorem kept {outline inner : Outline} {edge : Edge}
    (outlined : Outlined image code start stop row [] outlines) (among : outline ∈ outlines)
    (within : inner.Within outline) (member : edge ∈ edgesOf row) : Kept edge inner := by
  rcases outlined.flows edge member with exit | ⟨-, -, kept⟩
  · cases exit
  · exact kept outline among inner within

theorem shortCircuits {outline inner : Outline} {position : Position} {connective : Connective}
    {left right : Expr} (outlined : Outlined image code start stop row [] outlines)
    (among : outline ∈ outlines) (within : inner.Within outline)
    (isConnective : inner.node = .expr (.binary position (.logic connective) left right)) :
    ∃ first second, inner.parts = [first, second] ∧ first.node = .expr left ∧
      second.node = .expr right ∧ first.start = inner.start ∧
      ShortCircuits (edgesOf row) connective first second := by
  obtain ⟨first, second, away, parts, atStart, next, atCore, firstLt, secondLt, isAway, decides⟩ :=
    outlined.connected outline among inner within position connective left right isConnective
  have nodes := (outlined.coded outline among inner within).parts
  rw [parts, isConnective] at nodes
  obtain ⟨isLeft, isRight⟩ : first.node = .expr left ∧ second.node = .expr right := by
    simpa [Node.parts] using nodes
  rw [← atStart, ← atCore] at isAway
  refine ⟨first, second, parts, isLeft, isRight, atStart, decides.shortCircuits outlined.reads next
    firstLt secondLt isAway (fun edge member => ?_) fun edge member => ?_⟩
  · rw [atStart, atCore]
    exact (outlined.kept among within member).1
  · have secondWithin : second.Within inner := .part (by simp [parts]) (.refl second)
    exact (outlined.kept among (secondWithin.trans within) member).2

end Outlined

/-- The code of every function is outlined, with an outline of every statement and every expression
in it, and connectives are evaluated with short circuits. -/
theorem Program.shortCircuits_of_compile {program : Program} {options : Options} {image : Image}
    (compiled : program.compile options = .ok image) (index : Nat) {env : Env} {name : String}
    {returnType : Ty} {params : List ParamDecl} {body : Block} {position : Position}
    (found : program.definitions[index]? =
      some (env, ⟨name, returnType, params, .block body, position⟩)) :
    ∃ routine instrs outline, image.routines[index]? = some routine ∧ routine.name = name ∧
      routine.code.instructions = .ok instrs ∧ outline.node = .block body ∧
      outline.stop ≤ routine.code.size ∧
      outline.All (Coded image routine.code.bytes.toList) ∧
      (∀ node : Node, node.Within (.block body) →
        ∃ inner : Outline, inner.Within outline ∧ inner.node = node) ∧
      ∀ inner : Outline, inner.Within outline → ∀ position connective left right,
        inner.node = .expr (.binary position (.logic connective) left right) →
        ∃ first second, inner.parts = [first, second] ∧ first.node = .expr left ∧
          second.node = .expr right ∧ first.start = inner.start ∧
          ShortCircuits (edgesOf instrs) connective first second := by
  rw [compile_eq_emit] at compiled
  obtain ⟨routine, lookup, routineCode⟩ := (realizes_of_emit compiled).routine index _ found
  obtain ⟨instrs, outline, isBlock, outlined⟩ := routineCode.outlined
  have among : outline ∈ [outline] := List.mem_singleton.mpr rfl
  have coded := outlined.coded outline among
  exact ⟨routine, instrs, outline, lookup, routineCode.name,
    Buffer.instructions_of_reads outlined.reads, isBlock, (outlined.inOrder.inside among).2, coded,
    fun _ within => exists_within coded isBlock within,
    fun _ within _ _ _ _ isConnective => outlined.shortCircuits among within isConnective⟩

/-- In the example, the function is not called when the first comparison does not hold. -/
theorem Program.shortCircuits_of_compile_halving :
    ∃ image routine instrs first second, halving.compile .default = .ok image ∧
      image.routines[0]? = some routine ∧ routine.code.instructions = .ok instrs ∧
      first.node = .expr (.binary 14 (.compare .lt) (.load 15 "i") (.int 16 5)) ∧
      second.node =
        .expr (.binary 17 (.compare .gt) (.call 18 "half" [.load 19 "i"]) (.int 20 1)) ∧
      ShortCircuits (edgesOf instrs) .and first second := by
  obtain ⟨image, emitted⟩ := halving_emits
  have compiled : halving.compile .default = .ok image := by rw [compile_eq_emit, emitted]
  obtain ⟨routine, instrs, outline, lookup, -, instructions, -, -, -, covers, connectives⟩ :=
    shortCircuits_of_compile compiled 0 rfl
  -- The loop, its body, the statement in it, and its condition.
  obtain ⟨inner, within, isConnective⟩ := covers _
    (.part (.head _) (.part (.tail _ (.tail _ (.head _))) (.part (.head _)
      (.part (.tail _ (.tail _ (.head _))) (.refl _)))))
  obtain ⟨first, second, -, isLeft, isRight, -, shortCircuits⟩ :=
    connectives inner within _ _ _ _ isConnective
  exact ⟨image, routine, instrs, first, second, compiled, lookup, instructions, isLeft, isRight,
    shortCircuits⟩

end Backpatch
