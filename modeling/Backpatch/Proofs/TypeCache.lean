import Backpatch.Program.Equality
import Backpatch.Proofs.Plans
import Backpatch.Proofs.StaticTypes

/-!
# The table of types

A compilation that notes down the types it has found may later answer from its table, in a state
that is no longer the one in which the entry was made.  This file proves that it never answers
wrongly.  Whenever an expression is about to be compiled, each entry for a node of it is the type
that the node has there; and so the compilation with the table does what it does without one.

Two things make this so.  The nodes of different parts of a program have different addresses, so
that nothing is known about a part before its turn.  And between the time when an operand is asked
for its type and the time when it is compiled, nothing is declared.  An answer that comes from a
table is therefore the type that the code of the expression leaves.
-/

namespace Backpatch

namespace NodePath

/-- The address is that of a node, or of one below it. -/
def Below (node path : NodePath) : Prop :=
  node <:+ path

/-- The address belongs to one of the given parts of a node. -/
def Parts (node : NodePath) (parts : List Nat) (path : NodePath) : Prop :=
  ∃ part ∈ parts, Below (part :: node) path

variable {node path : NodePath} {part other : Nat} {parts more : List Nat}

theorem Below.refl (node : NodePath) : Below node node :=
  List.suffix_refl node

theorem Below.of_cons (below : Below (part :: node) path) : Below node path :=
  (List.suffix_cons part node).trans below

theorem not_below_of_cons (part : Nat) (node : NodePath) : ¬Below (part :: node) node := by
  intro below
  have longer := below.length_le
  rw [List.length_cons] at longer
  omega

/-- An address belongs to one part of a node only. -/
theorem Below.part_eq (one : Below (part :: node) path) (two : Below (other :: node) path) :
    part = other := by
  have suffix : (part :: node) <:+ (other :: node) :=
    List.suffix_of_suffix_length_le one two (Nat.le_refl _)
  exact (List.cons.inj (suffix.eq_of_length rfl)).1

theorem apart_of_ne (different : part ≠ other) (path : NodePath)
    (below : Below (part :: node) path) : ¬Below (other :: node) path :=
  fun belowOther => different (below.part_eq belowOther)

theorem Parts.below (among : Parts node parts path) : Below node path := by
  obtain ⟨part, -, below⟩ := among
  exact below.of_cons

theorem Parts.mono (subset : parts ⊆ more) (among : Parts node parts path) :
    Parts node more path := by
  obtain ⟨part, member, below⟩ := among
  exact ⟨part, subset member, below⟩

end NodePath

open NodePath

namespace TypeTable

/-- Nothing is known in a region. -/
def Fresh (region : NodePath → Prop) (types : TypeTable) : Prop :=
  ∀ path, region path → types[path]? = none

/-- Nothing has changed outside of a region. -/
def Fills (region : NodePath → Prop) (before after : TypeTable) : Prop :=
  ∀ path, ¬region path → after[path]? = before[path]?

/-- The entry for a node, if there is one, is the type of its expression. -/
def Fits (typing : Expr → Except CompileError Ty) (types : TypeTable) (node : NodePath)
    (expr : Expr) : Prop :=
  ∀ ty, types[node]? = some ty → typing expr = .ok ty

/-- Every entry for a node of the expression at an address is the type of that node.  There is none
for the arguments of a call. -/
def Knows (typing : Expr → Except CompileError Ty) (types : TypeTable) : NodePath → Expr → Prop
  | node, .binary position op left right =>
      types.Fits typing node (.binary position op left right) ∧
        Knows typing types (0 :: node) left ∧ Knows typing types (1 :: node) right
  | node, .unary position op operand =>
      types.Fits typing node (.unary position op operand) ∧ Knows typing types (0 :: node) operand
  | node, leaf =>
      types.Fits typing node leaf ∧ ∀ part, types.Fresh (Below (part :: node))

variable {typing : Expr → Except CompileError Ty} {region wider : NodePath → Prop}
  {types before middle after : TypeTable} {node : NodePath} {expr : Expr}

theorem Fills.refl (region : NodePath → Prop) (types : TypeTable) : types.Fills region types :=
  fun _ _ => rfl

theorem Fills.mono (fills : before.Fills region after) (within : ∀ path, region path → wider path) :
    before.Fills wider after :=
  fun path outside => fills path fun inside => outside (within path inside)

theorem Fills.trans (one : before.Fills region middle) (two : middle.Fills region after) :
    before.Fills region after :=
  fun path outside => (two path outside).trans (one path outside)

theorem Fresh.mono (fresh : types.Fresh wider) (within : ∀ path, region path → wider path) :
    types.Fresh region :=
  fun path inside => fresh path (within path inside)

theorem Fresh.of_fills (fresh : before.Fresh wider) (fills : before.Fills region after)
    (apart : ∀ path, wider path → ¬region path) : after.Fresh wider :=
  fun path inside => (fills path (apart path inside)).trans (fresh path inside)

theorem fills_insert (types : TypeTable) (node : NodePath) (ty : Ty) :
    types.Fills (· = node) (types.insert node ty) := by
  intro path different
  rw [Std.ExtTreeMap.getElem?_insert, if_neg]
  exact fun same => different (Std.LawfulEqCmp.compare_eq_iff_eq.mp same).symm

theorem Fits.congr (fits : before.Fits typing node expr) (same : after[node]? = before[node]?) :
    after.Fits typing node expr := by
  rwa [Fits, same]

theorem Fresh.fits (fresh : types.Fresh (Below node)) : types.Fits typing node expr := by
  intro ty found
  rw [fresh node (.refl node)] at found
  cases found

namespace Knows

theorem fits (knows : types.Knows typing node expr) : types.Fits typing node expr := by
  cases expr <;> exact knows.1

/-- Only entries at the address of the expression or below it matter. -/
theorem congr : {expr : Expr} → {node : NodePath} → before.Knows typing node expr →
    (∀ path, Below node path → after[path]? = before[path]?) → after.Knows typing node expr
  | .binary .., node, ⟨fits, knowsLeft, knowsRight⟩, same =>
      ⟨fits.congr (same node (.refl node)),
        knowsLeft.congr fun path below => same path below.of_cons,
        knowsRight.congr fun path below => same path below.of_cons⟩
  | .unary .., node, ⟨fits, knowsOperand⟩, same =>
      ⟨fits.congr (same node (.refl node)),
        knowsOperand.congr fun path below => same path below.of_cons⟩
  | .int .., node, ⟨fits, fresh⟩, same | .double .., node, ⟨fits, fresh⟩, same
  | .string .., node, ⟨fits, fresh⟩, same | .load .., node, ⟨fits, fresh⟩, same
  | .call .., node, ⟨fits, fresh⟩, same =>
      ⟨fits.congr (same node (.refl node)),
        fun part path below => (same path below.of_cons).trans (fresh part path below)⟩

/-- What is noted down elsewhere does not matter. -/
theorem of_fills (knows : before.Knows typing node expr) (fills : before.Fills region after)
    (apart : ∀ path, Below node path → ¬region path) : after.Knows typing node expr :=
  knows.congr fun path below => fills path (apart path below)

/-- Where there are no entries, there are no wrong ones. -/
theorem of_fresh : {expr : Expr} → {node : NodePath} → types.Fresh (Below node) →
    types.Knows typing node expr
  | .binary .., _, fresh =>
      ⟨fresh.fits, of_fresh (fresh.mono fun _ below => below.of_cons),
        of_fresh (fresh.mono fun _ below => below.of_cons)⟩
  | .unary .., _, fresh => ⟨fresh.fits, of_fresh (fresh.mono fun _ below => below.of_cons)⟩
  | .int .., _, fresh | .double .., _, fresh | .string .., _, fresh | .load .., _, fresh
  | .call .., _, fresh => ⟨fresh.fits, fun _ => fresh.mono fun _ below => below.of_cons⟩

/-- The type of the expression itself may be noted down. -/
theorem insert {ty : Ty} (knows : types.Knows typing node expr) (typed : typing expr = .ok ty) :
    Knows typing (types.insert node ty) node expr := by
  have fits : Fits typing (types.insert node ty) node expr := by
    intro other found
    rw [Std.ExtTreeMap.getElem?_insert_self] at found
    cases found
    exact typed
  have apart : ∀ part path, Below (part :: node) path → path ≠ node := by
    rintro part path below rfl
    exact not_below_of_cons part path below
  have same := fills_insert types node ty
  cases expr with
  | binary =>
      exact ⟨fits, knows.2.1.of_fills same (apart 0), knows.2.2.of_fills same (apart 1)⟩
  | unary => exact ⟨fits, knows.2.of_fills same (apart 0)⟩
  | int | double | string | load | call =>
      exact ⟨fits, fun part => (knows.2 part).of_fills same (apart part)⟩

end Knows

/-- A type or an error, together with a table. -/
def answer (types : TypeTable) : Except CompileError Ty → EStateM.Result CompileError TypeTable Ty
  | .ok ty => .ok ty types
  | .error error => .error error types

/-- The action finds the type of an expression.  It notes down nothing wrong, and nothing about
other nodes. -/
def Finds (typing : Expr → Except CompileError Ty) (node : NodePath) (expr : Expr)
    (find : TypingM Ty) (types : TypeTable) : Prop :=
  ∃ later : TypeTable, types.Fills (Below node) later ∧ later.Knows typing node expr ∧
    find types = later.answer (typing expr)

end TypeTable

namespace TypingM

open TypeTable

variable {typing : Expr → Except CompileError Ty} {types : TypeTable} {node : NodePath}
  {find : TypingM Ty}

theorem bind_apply {α β : Type} (action : TypingM α) (next : α → TypingM β) (types : TypeTable) :
    (action >>= next) types =
      match action types with
      | .ok result later => next result later
      | .error error later => .error error later := by
  change EStateM.bind action next types = _
  rw [EStateM.bind]
  cases action types <;> rfl

theorem get_apply (types : TypeTable) :
    (MonadState.get : TypingM TypeTable) types = .ok types types :=
  rfl

theorem memo_of_some {ty : Ty} (known : types[node]? = some ty) :
    memo node find types = .ok ty types := by
  unfold memo
  rw [bind_apply]
  simp only [get_apply, known]
  rfl

theorem memo_of_none (unknown : types[node]? = none) :
    memo node find types =
      match find types with
      | .ok ty later => .ok ty (later.insert node ty)
      | .error error later => .error error later := by
  unfold memo
  rw [bind_apply]
  simp only [get_apply, unknown, bind_apply]
  cases find types <;> rfl

/-- An answer from the table is as good as one that has just been found. -/
theorem finds_memo {expr : Expr} (knows : types.Knows typing node expr)
    (finds : Finds typing node expr find types) :
    Finds typing node expr (memo node find) types := by
  cases found : types[node]? with
  | some ty =>
      refine ⟨types, .refl _ _, knows, ?_⟩
      rw [memo_of_some found, knows.fits ty found]
      rfl
  | none =>
      obtain ⟨later, fills, knowsLater, result⟩ := finds
      rw [Finds, memo_of_none found, result]
      cases typed : typing expr with
      | error error => exact ⟨later, fills, knowsLater, rfl⟩
      | ok ty =>
          refine ⟨later.insert node ty, ?_, knowsLater.insert typed, rfl⟩
          refine fills.trans ((fills_insert later node ty).mono ?_)
          rintro _ rfl
          exact .refl _

theorem finds_ofExcept {expr : Expr} (knows : types.Knows typing node expr) :
    Finds typing node expr (MonadExcept.ofExcept (typing expr)) types := by
  refine ⟨types, .refl _ _, knows, ?_⟩
  cases typing expr <;> rfl

end TypingM

namespace Emitter

open TypeTable

/-- With a table that knows nothing wrong about it, the type of an expression is found as it would
be without one. -/
theorem finds_typeOfMemo (emitter : Emitter) : (expr : Expr) → {node : NodePath} →
    {types : TypeTable} → types.Knows emitter.typing node expr →
    Finds emitter.typing node expr (expr.typeOfMemo emitter.scopes emitter.image node) types
  | .binary position op left right, node, types, knows => by
      rw [Expr.typeOfMemo]
      apply TypingM.finds_memo knows
      obtain ⟨fits, knowsLeft, knowsRight⟩ := knows
      obtain ⟨leftTypes, leftFills, leftKnows, leftResult⟩ :=
        finds_typeOfMemo emitter left knowsLeft
      have rightUntouched := knowsRight.of_fills leftFills (apart_of_ne (by decide))
      obtain ⟨rightTypes, rightFills, rightKnows, rightResult⟩ :=
        finds_typeOfMemo emitter right rightUntouched
      have fitsLeft := fits.congr (leftFills node (not_below_of_cons 0 node))
      have fitsRight := fitsLeft.congr (rightFills node (not_below_of_cons 1 node))
      have leftWithin := leftFills.mono fun _ => Below.of_cons
      have rightWithin := leftWithin.trans (rightFills.mono fun _ => Below.of_cons)
      rw [Finds, TypingM.bind_apply, leftResult]
      simp only [typing] at leftResult rightResult ⊢
      cases leftTyped : left.typeOf emitter.scopes emitter.image with
      | error error =>
          refine ⟨leftTypes, leftWithin, ⟨fitsLeft, leftKnows, rightUntouched⟩, ?_⟩
          simp only [Expr.typeOf, leftTyped]
          rfl
      | ok leftTy =>
          refine ⟨rightTypes, rightWithin, ⟨fitsRight,
            leftKnows.of_fills rightFills (apart_of_ne (by decide)), rightKnows⟩, ?_⟩
          simp only [answer, TypingM.bind_apply, rightResult, Expr.typeOf, leftTyped]
          cases right.typeOf emitter.scopes emitter.image <;> rfl
  | .unary position op operand, node, types, knows => by
      rw [Expr.typeOfMemo]
      apply TypingM.finds_memo knows
      obtain ⟨fits, knowsOperand⟩ := knows
      obtain ⟨later, fills, knowsLater, result⟩ := finds_typeOfMemo emitter operand knowsOperand
      refine ⟨later, fills.mono fun _ => Below.of_cons,
        ⟨fits.congr (fills node (not_below_of_cons 0 node)), knowsLater⟩, ?_⟩
      rw [TypingM.bind_apply, result]
      simp only [typing, Expr.typeOf]
      cases operand.typeOf emitter.scopes emitter.image <;> rfl
  | .int .., _, _, knows | .double .., _, _, knows | .string .., _, _, knows
  | .load .., _, _, knows | .call .., _, _, knows =>
      TypingM.finds_memo knows (TypingM.finds_ofExcept knows)

/-- All that is known at a moment about the expression to be compiled is right. -/
def Moment.Informed (moment : Moment) : Prop :=
  ∀ node expr, moment.next = some (node, expr) →
    moment.state.types.Knows moment.state.emitter.typing node expr

namespace Caching

theorem predictedType_eq {state : Caching} {node : NodePath} {expr : Expr}
    (knows : state.types.Knows state.emitter.typing node expr) :
    ∃ later : TypeTable, state.types.Fills (Below node) later ∧
      later.Knows state.emitter.typing node expr ∧
      predictedType node expr state = attach later (Emitter.predictedType expr state.emitter) := by
  obtain ⟨later, fills, knowsLater, result⟩ := finds_typeOfMemo state.emitter expr knows
  refine ⟨later, fills, knowsLater, ?_⟩
  simp only [predictedType, Emitter.predictedType, ask, result, typing]
  cases expr.typeOf state.emitter.scopes state.emitter.image <;> rfl

end Caching

namespace Plan

variable {α β : Type} {action : EmitM α} {next : α → EmitM β} {region wider : NodePath → Prop}
  {state : Caching}

/-- From a state on, a plan with the table does what its action does without one.  It notes down
types in a region only, and the table is right at every moment on the way. -/
structure Steady (region : NodePath → Prop) (plan : Plan action) (state : Caching) : Prop where
  agrees : ∃ types : TypeTable, state.types.Fills region types ∧
    plan.run state = Caching.attach types (action state.emitter)
  informed : ∀ moment ∈ plan.moments state, moment.Informed

namespace Steady

theorem mono {plan : Plan action} (steady : plan.Steady region state)
    (within : ∀ path, region path → wider path) : plan.Steady wider state := by
  obtain ⟨⟨types, fills, ran⟩, informed⟩ := steady
  exact ⟨⟨types, fills.mono within, ran⟩, informed⟩

/-- At a moment without an expression there is nothing to be known. -/
theorem informed_of_none (state : Caching) : ∀ moment ∈ [(⟨state, none⟩ : Moment)],
    moment.Informed := by
  intro moment member
  obtain rfl := List.mem_singleton.mp member
  intro node expr found
  cases found

theorem act (orderly : Orderly action) : (act orderly).Steady region state where
  agrees := ⟨state.types, .refl _ _, rfl⟩
  informed := informed_of_none state

/-- The rest of a plan begins with the state and the table that the first part leaves. -/
theorem bind {first : Plan action} {rest : (result : α) → Plan (next result)}
    (one : first.Steady region state)
    (two : ∀ result after types, first.run state = .ok result ⟨after, types⟩ →
      action state.emitter = .ok result after → state.types.Fills region types →
      (rest result).Steady wider ⟨after, types⟩)
    (within : ∀ path, region path → wider path) : (first.bind rest).Steady wider state := by
  obtain ⟨⟨types, fills, ran⟩, informed⟩ := one
  cases began : action state.emitter with
  | ok result after =>
      rw [began] at ran
      obtain ⟨⟨later, laterFills, laterRan⟩, laterInformed⟩ :=
        two result after types ran began fills
      constructor
      · refine ⟨later, (fills.mono within).trans laterFills, ?_⟩
        simp only [Plan.run, Caching.bind_apply, Emitter.bind_apply, ran, began]
        exact laterRan
      · intro moment member
        simp only [moments, ran, List.mem_append] at member
        exact member.elim (informed moment) (laterInformed moment)
  | error error after =>
      rw [began] at ran
      constructor
      · refine ⟨types, fills.mono within, ?_⟩
        simp only [Plan.run, Caching.bind_apply, Emitter.bind_apply, ran, began]
        rfl
      · intro moment member
        simp only [moments, ran, Caching.attach, List.append_nil] at member
        exact informed moment member

/-- A small action leaves the table as it is. -/
theorem act_bind {orderly : Orderly action} {rest : (result : α) → Plan (next result)}
    (two : ∀ result after, action state.emitter = .ok result after →
      (rest result).Steady region ⟨after, state.types⟩) :
    ((Plan.act orderly).bind rest).Steady region state := by
  have one : (Plan.act orderly).Steady region state := .act orderly
  refine one.bind (fun result after types ran began _ => ?_) fun _ => id
  simp only [Plan.run, began, Caching.attach] at ran
  cases ran
  exact two result after began

theorem predict {node : NodePath} {operand : Expr}
    (knows : state.types.Knows state.emitter.typing node operand) :
    (predict node operand).Steady (Below node) state := by
  obtain ⟨later, fills, -, ran⟩ := Caching.predictedType_eq knows
  exact ⟨⟨later, fills, ran⟩, informed_of_none state⟩

theorem expr {node : NodePath} {value : Expr} {code : Plan (emitExpr value)}
    (knows : state.types.Knows state.emitter.typing node value)
    (steady : code.Steady region state) : (expr node value code).Steady region state where
  agrees := steady.agrees
  informed moment member := by
    rcases List.mem_cons.mp member with rfl | later
    · intro path expr found
      cases found
      exact knows
    · exact steady.informed moment later

theorem latch {default : α} {inner : Plan action} (steady : inner.Steady region state) :
    (latch default inner).Steady region state where
  agrees := by
    obtain ⟨types, fills, ran⟩ := steady.agrees
    refine ⟨types, fills, ?_⟩
    simp only [Plan.run, Caching.latch, Emitter.latch, ran]
    cases action state.emitter <;> rfl
  informed := steady.informed

theorem unlessFailed {action : EmitM Unit} {inner : Plan action}
    (steady : inner.Steady region state) : (unlessFailed inner).Steady region state := by
  by_cases failed : state.emitter.fault.isSome
  · constructor
    · refine ⟨state.types, .refl _ _, ?_⟩
      simp only [Plan.run, Emitter.unlessFailed, if_pos failed]
      rfl
    · simp only [moments, if_pos failed]
      exact informed_of_none state
  · constructor
    · simp only [Plan.run, Emitter.unlessFailed, if_neg failed]
      exact steady.agrees
    · simp only [moments, if_neg failed]
      exact steady.informed

end Steady

/-- A plan that notes down types in the given parts of a node only, and that is steady if nothing is
known about them. -/
def Careful (node : NodePath) (parts : List Nat) (plan : Plan action) : Prop :=
  ∀ state : Caching, state.types.Fresh (Parts node parts) → plan.Steady (Parts node parts) state

namespace Careful

variable {node : NodePath} {part : Nat} {parts more : List Nat} {plan : Plan action}
  {rest : (result : α) → Plan (next result)}

theorem act (orderly : Orderly action) : Careful node parts (act orderly) :=
  fun _ _ => .act orderly

theorem mono (careful : Careful node parts plan) (subset : parts ⊆ more) :
    Careful node more plan := by
  intro state fresh
  exact (careful state (fresh.mono fun _ => Parts.mono subset)).mono fun _ => Parts.mono subset

theorem act_bind {orderly : Orderly action} (careful : ∀ result, Careful node parts (rest result)) :
    Careful node parts ((Plan.act orderly).bind rest) :=
  fun _ fresh => .act_bind fun result after _ => careful result ⟨after, _⟩ fresh

/-- One part after the other: nothing is known about the second when the first is done. -/
theorem bind (first : Careful node parts plan) (second : ∀ result, Careful node more (rest result))
    (apart : ∀ part ∈ parts, part ∉ more) : Careful node (parts ++ more) (plan.bind rest) := by
  have left : parts ⊆ parts ++ more := List.subset_append_left parts more
  have right : more ⊆ parts ++ more := List.subset_append_right parts more
  intro state fresh
  have one := first state (fresh.mono fun _ => Parts.mono left)
  refine one.bind (fun result after types _ _ fills => ?_) fun _ => Parts.mono left
  have freshMore : types.Fresh (Parts node more) := by
    refine (fresh.mono fun _ => Parts.mono right).of_fills fills ?_
    rintro path ⟨one, oneMem, below⟩ ⟨two, twoMem, belowToo⟩
    obtain rfl := below.part_eq belowToo
    exact apart one twoMem oneMem
  exact (second result ⟨after, types⟩ freshMore).mono fun _ => Parts.mono right

theorem last (first : Careful node parts plan) (second : ∀ result, Careful node [] (rest result)) :
    Careful node parts (plan.bind rest) := by
  have both := first.bind second fun _ _ => List.not_mem_nil
  rwa [List.append_nil] at both

/-- What is done in parts of a part is done in that part. -/
theorem child (careful : Careful (part :: node) parts plan) : Careful node [part] plan := by
  have within : ∀ path, Parts (part :: node) parts path → Parts node [part] path :=
    fun path among => ⟨part, List.mem_singleton_self part, among.below⟩
  intro state fresh
  exact (careful state (fresh.mono within)).mono within

/-- Nothing wrong is known about an expression of which nothing is known. -/
theorem of_knows {expr : Expr} {plan : Plan (emitExpr expr)}
    (steady : ∀ {state : Caching}, state.types.Knows state.emitter.typing (part :: node) expr →
      plan.Steady (Below (part :: node)) state) : Careful node [part] plan := by
  have within : ∀ path, Below (part :: node) path → Parts node [part] path :=
    fun path below => ⟨part, List.mem_singleton_self part, below⟩
  intro state fresh
  exact (steady (.of_fresh (fresh.mono within))).mono within

theorem latch {default : α} (careful : Careful node parts plan) :
    Careful node parts (latch default plan) :=
  fun state fresh => (careful state fresh).latch

theorem unlessFailed {action : EmitM Unit} {plan : Plan action}
    (careful : Careful node parts plan) : Careful node parts (unlessFailed plan) :=
  fun state fresh => (careful state fresh).unlessFailed

end Careful

section Expressions

variable {node : NodePath}

/-- Between its prediction and its compilation, nothing but the left operand is compiled before the
right one. -/
theorem steady_operands (op : BinOp) (position leftPosition rightPosition : Position)
    (predicted : Ty) {left right : EmitM Compiled} {leftPlan : Plan left} {rightPlan : Plan right}
    (leftKeeps : KeepsTypes left) (leftSteady : leftPlan.Steady (Below (0 :: node)) state)
    (rightSteady : ∀ (after : Emitter) (types : TypeTable), after.typing = state.emitter.typing →
      state.types.Fills (Below (0 :: node)) types →
      rightPlan.Steady (Below (1 :: node)) ⟨after, types⟩) :
    (operands op position leftPosition rightPosition predicted leftPlan rightPlan).Steady
      (Below node) state := by
  refine leftSteady.bind (fun _ leftAfter types _ leftRan fills => ?_) fun _ => Below.of_cons
  refine .act_bind fun _ valueAfter valued => .act_bind fun _ reservedAfter reserved => ?_
  have sameTypes : reservedAfter.typing = state.emitter.typing := by
    rw [KeepsTypes.of_coding (.reserveConversion _ _) _ _ _ reserved,
      KeepsTypes.of_coding (.materializeValue _) _ _ _ valued, leftKeeps _ _ _ leftRan]
  exact (rightSteady reservedAfter types sameTypes fills).bind (fun _ _ _ _ _ _ => .act _)
    fun _ => Below.of_cons

theorem steady_logical (op : Connective) {left right : EmitM PendingBranch} {leftPlan : Plan left}
    {rightPlan : Plan right} (leftKeeps : KeepsTypes left)
    (leftSteady : leftPlan.Steady (Below (0 :: node)) state)
    (rightSteady : ∀ (after : Emitter) (types : TypeTable), after.typing = state.emitter.typing →
      state.types.Fills (Below (0 :: node)) types →
      rightPlan.Steady (Below (1 :: node)) ⟨after, types⟩) :
    (logical op leftPlan rightPlan).Steady (Below node) state := by
  cases op with
  | and | or =>
      refine leftSteady.bind (fun _ leftAfter types _ leftRan fills => ?_) fun _ => Below.of_cons
      refine .act_bind fun _ _ located => .act_bind fun _ patchedAfter patched => ?_
      have sameTypes : patchedAfter.typing = state.emitter.typing := by
        rw [KeepsTypes.of_coding (.patch _ _) _ _ _ patched,
          KeepsTypes.of_coding .offset _ _ _ located, leftKeeps _ _ _ leftRan]
      exact (rightSteady patchedAfter types sameTypes fills).bind (fun _ _ _ _ _ _ => .act _)
        fun _ => Below.of_cons

/-- The table knows the type of the right operand once that is predicted, and what the left operand
notes down does not touch it. -/
theorem steady_predicted (op : BinOp) (position : Position) {left right : Expr}
    {finish : Ty → EmitM β} (orderly : ∀ ty, Orderly (finish ty))
    (knowsLeft : state.types.Knows state.emitter.typing (0 :: node) left)
    (knowsRight : state.types.Knows state.emitter.typing (1 :: node) right)
    (leftSteady : ∀ {state : Caching},
      state.types.Knows state.emitter.typing (0 :: node) left →
      (ofExpr (0 :: node) left).Steady (Below (0 :: node)) state)
    (rightSteady : ∀ {state : Caching},
      state.types.Knows state.emitter.typing (1 :: node) right →
      (ofExpr (1 :: node) right).Steady (Below (1 :: node)) state) :
    ((predict (1 :: node) right).bind fun predicted =>
      (operands op position left.position right.position predicted (ofExpr (0 :: node) left)
        (ofExpr (1 :: node) right)).bind fun ty => act (orderly ty)).Steady (Below node) state := by
  obtain ⟨later, fills, knowsLater, result⟩ := Caching.predictedType_eq knowsRight
  refine (Steady.predict knowsRight).bind (fun predicted after types ran foreseen _ => ?_)
    fun _ => Below.of_cons
  simp only [Plan.run, result, foreseen, Caching.attach] at ran
  cases ran
  have sameTypes : after.typing = state.emitter.typing := KeepsTypes.ask _ _ _ _ foreseen
  have untouched := knowsLeft.of_fills fills (apart_of_ne (by decide))
  rw [← sameTypes] at untouched knowsLater
  refine (steady_operands op position _ _ predicted (.emitExpr left) (leftSteady untouched)
    fun rightBefore rightTypes sameLater leftFills => rightSteady ?_).bind
      (fun _ _ _ _ _ _ => .act _) fun _ => id
  rw [sameLater]
  exact knowsLater.of_fills leftFills (apart_of_ne (by decide))

mutual

/-- Compiling an expression is steady if all that is known about it is right. -/
theorem steady_ofExpr : (value : Expr) → {node : NodePath} → {state : Caching} →
    state.types.Knows state.emitter.typing node value →
    (ofExpr node value).Steady (Below node) state
  | .int .., _, _, knows | .double .., _, _, knows | .string .., _, _, knows
  | .load .., _, _, knows => .expr knows (.act _)
  | .binary _ (.logic connective) left right, node, state, knows => by
      refine .expr knows (steady_logical connective
        ((KeepsTypes.emitExpr left).bind fun _ => .of_coding (.branchOnValue _ _)) ?_ ?_)
      · exact (steady_ofExpr left knows.2.1).bind (fun _ _ _ _ _ _ => .act _) fun _ => id
      · intro after types sameTypes fills
        have untouched := knows.2.2.of_fills fills (apart_of_ne (by decide))
        rw [← sameTypes] at untouched
        exact (steady_ofExpr right untouched).bind (fun _ _ _ _ _ _ => .act _) fun _ => id
  | .binary _ (.compare _) left right, _, _, knows =>
      .expr knows (steady_predicted _ _ _ knows.2.1 knows.2.2
        (fun known => steady_ofExpr left known) (fun known => steady_ofExpr right known))
  | .binary _ (.arith _) left right, _, _, knows =>
      .expr knows (steady_predicted _ _ _ knows.2.1 knows.2.2
        (fun known => steady_ofExpr left known) (fun known => steady_ofExpr right known))
  | .unary _ .not operand, _, _, knows =>
      .expr knows ((steady_ofExpr operand knows.2).bind (fun _ _ _ _ _ _ => .act _)
        fun _ => Below.of_cons)
  | .unary _ .neg operand, _, _, knows =>
      .expr knows ((steady_ofExpr operand knows.2).bind (fun _ _ _ _ _ _ => .act _)
        fun _ => Below.of_cons)
  | .call _ _ args, node, state, knows => by
      have fresh : state.types.Fresh (Parts node [0, 1]) := by
        rintro path ⟨part, -, below⟩
        exact knows.2 part path below
      refine .expr knows (.act_bind fun _ after _ => ?_)
      exact (careful_ofArgs args _ ⟨after, _⟩ fresh).bind (fun _ _ _ _ _ _ => .act _)
        fun _ => Parts.below

theorem careful_ofArgs : (args : List Expr) → (types : List Ty) → {node : NodePath} →
    Careful node [0, 1] (ofArgs node args types)
  | [], _, _ => .act _
  | arg :: args, types, node => by
      have tail : Careful node [1] (ofArgs (1 :: node) args types.tail) :=
        (careful_ofArgs args types.tail).child
      have head : Careful node [0] (ofExpr (0 :: node) arg) :=
        .of_knows fun known => steady_ofExpr arg known
      exact (tail.bind (fun _ => head.last fun _ => .act _) (by decide)).mono (by decide)

end

end Expressions

namespace Careful

variable {node : NodePath}

theorem ofExpr (part : Nat) (expr : Expr) : Careful node [part] (ofExpr (part :: node) expr) :=
  .of_knows fun known => steady_ofExpr expr known

theorem condition (part : Nat) (expr : Expr) :
    Careful node [part] (condition (part :: node) expr) :=
  (ofExpr part expr).last fun _ => .act _

theorem valueAs (part : Nat) (expr : Expr) (ty : Ty) :
    Careful node [part] (valueAs (part :: node) expr ty) :=
  (ofExpr part expr).last fun _ => .act _

theorem ite {cond : Prop} [decision : Decidable cond] {parts : List Nat} {one two : EmitM α}
    {yes : Plan one} {no : Plan two} (yesCareful : Careful node parts yes)
    (noCareful : Careful node parts no) : Careful node parts (ite cond yes no) := by
  cases decision with
  | isTrue _ => exact yesCareful
  | isFalse _ => exact noCareful

theorem update (slot : Slot) (value : Expr) (refusal : CompileError) (instr? : Option Op) :
    Careful node [0] (update node slot value refusal instr?) := by
  cases instr? with
  | none => exact .act _
  | some instr => exact .act_bind fun _ => (valueAs 0 value slot.ty).last fun _ => .act _

theorem assignment (position : Position) (name : String) (op : StoreOp) (value : Expr) :
    Careful node [0] (assignment node position name op value) := by
  refine .act_bind fun slot => ?_
  cases op.update? with
  | none => exact (valueAs 0 value slot.ty).last fun _ => .act _
  | some arith => exact update slot value _ (arith.instr? slot.ty)

theorem prints : (args : List Expr) → {node : NodePath} → Careful node [0, 1] (prints node args)
  | [], _ => .act _
  | arg :: args, node => by
      have head : Careful node [0] (print (0 :: node) arg) :=
        (ofExpr 0 arg).last fun _ => .act_bind fun _ => .act _
      exact head.bind (fun _ => (prints args).child) (by decide)

theorem return_ (position : Position) (value : Option Expr) :
    Careful node [0] (return_ node position value) := by
  cases value with
  | none => exact .act_bind fun _ => .ite (.act _) (.act _)
  | some value =>
      exact .act_bind fun _ => .ite (.act _) ((valueAs 0 value _).last fun _ => .act _)

theorem discarded (value : Expr) : Careful node [0] (discarded node value) :=
  (ofExpr 0 value).last fun _ => .act _

theorem ifElse (cond : Expr) {thenBlock elseBlock : EmitM Unit} {thenPlan : Plan thenBlock}
    {elsePlan : Plan elseBlock} (thenCareful : Careful node [1] thenPlan)
    (elseCareful : Careful node [2] elsePlan) :
    Careful node [1, 2, 0] (ifElse node cond thenPlan elsePlan) := by
  refine .act_bind fun _ => .act_bind fun _ => thenCareful.bind (fun _ => ?_) (by decide)
  refine .act_bind fun _ => .act_bind fun _ => elseCareful.bind (fun _ => ?_) (by decide)
  refine .act_bind fun _ => .act_bind fun _ => .act_bind fun _ => ?_
  refine (condition 0 cond).last fun _ => ?_
  exact .act_bind fun _ => .act_bind fun _ => .act_bind fun _ => .act _

theorem whileDo (cond : Expr) {body : EmitM Unit} {bodyPlan : Plan body}
    (bodyCareful : Careful node [1] bodyPlan) :
    Careful node [0, 1] (whileDo node cond bodyPlan) := by
  refine .act_bind fun _ => (condition 0 cond).bind (fun _ => ?_) (by decide)
  refine .act_bind fun _ => bodyCareful.last fun _ => ?_
  exact .act_bind fun _ => .act_bind fun _ => .act_bind fun _ => .act _

theorem forRange (position : Position) (name : String) (low high : Expr) {body : EmitM Unit}
    {bodyPlan : Plan body} (bodyCareful : Careful node [2] bodyPlan) :
    Careful node [0, 1, 2] (forRange node position name low high bodyPlan) := by
  refine .act_bind fun slot => ?_
  cases Numeric.ofTy? slot.ty with
  | none => exact .act _
  | some numeric =>
      refine .act_bind fun bound => (valueAs 0 low slot.ty).bind (fun _ => ?_) (by decide)
      refine .act_bind fun _ => (valueAs 1 high slot.ty).bind (fun _ => ?_) (by decide)
      refine .act_bind fun _ => .act_bind fun _ => .act_bind fun _ => .act_bind fun _ =>
        .act_bind fun _ => .act_bind fun _ => .act_bind fun _ => .act_bind fun _ =>
          bodyCareful.last fun _ => ?_
      exact .act_bind fun _ => .act_bind fun _ => .act_bind fun _ => .act_bind fun _ =>
        .act_bind fun _ => .act_bind fun _ => .act_bind fun _ => .act _

theorem function (id : UInt16) (returnType : Ty) {parts : List Nat} {body : EmitM Unit}
    {bodyPlan : Plan body} (bodyCareful : Careful node parts bodyPlan) :
    Careful node parts (function id returnType bodyPlan) := by
  refine .unlessFailed (.act_bind fun _ => bodyCareful.last fun _ => ?_)
  exact .latch (.act _)

mutual

theorem ofStmt (options : Options) : (stmt : Stmt) → {node : NodePath} →
    Careful node [0, 1, 2] (ofStmt options node stmt)
  | .store position name op value, _ => (assignment position name op value).mono (by decide)
  | .ifElse cond thenBlock none, _ =>
      (ifElse cond (ofBlock options thenBlock).child (.act _)).mono (by decide)
  | .ifElse cond thenBlock (some elseBlock), _ =>
      (ifElse cond (ofBlock options thenBlock).child (ofBlock options elseBlock).child).mono
        (by decide)
  | .whileDo cond body, _ => (whileDo cond (ofBlock options body).child).mono (by decide)
  | .forRange position name low high body, _ =>
      forRange position name low high (ofBlock options body).child
  | .print _ args, _ => (prints args).mono (by decide)
  | .ret position value, _ => (return_ position value).mono (by decide)
  | .expr value, _ => (discarded value).mono (by decide)
  | .block body, _ => (ofBlock options body).child.mono (by decide)

theorem ofStmts (options : Options) : (stmts : List Stmt) → {node : NodePath} →
    Careful node [0, 1] (ofStmts options node stmts)
  | [], _ => .act _
  | stmt :: stmts, _ =>
      (ofStmt options stmt).child.latch.unlessFailed.bind (fun _ => (ofStmts options stmts).child)
        (by decide)

theorem ofBlock (options : Options) : (block : Block) → {node : NodePath} →
    Careful node [0, 1] (ofBlock options node block)
  | ⟨vars, functions, stmts⟩, node => by
      have declared : Careful node [] (Plan.latch [] (Plan.act (.declareBlock vars functions))) :=
        .latch (.act _)
      refine .unlessFailed (.act_bind fun _ => declared.bind (fun ids => ?_) (by decide))
      exact (ofFunctions options functions ids).child.bind
        (fun _ => (ofStmts options stmts).child.last fun _ => .act _) (by decide)

theorem ofFunctions (options : Options) : (definitions : List FnDef) → (ids : List UInt16) →
    {node : NodePath} → Careful node [0, 1] (ofFunctions options node definitions ids)
  | definition :: definitions, id :: ids, _ =>
      (function id definition.returnType (ofBody options definition)).child.bind
        (fun _ => (ofFunctions options definitions ids).child) (by decide)
  | [], _, _ => .act _
  | _ :: _, [], _ => .act _

theorem ofBody (options : Options) : (definition : FnDef) → {node : NodePath} →
    Careful node [0] (ofBody options node definition)
  | ⟨_, _, params, .block block, position⟩, node => by
      have stored : Careful node []
          (Plan.latch () (Plan.act (.forM (.emitParam position) params))) := .latch (.act _)
      refine stored.bind (fun _ => ?_) (by decide)
      exact (ofBlock options block).child.last fun _ => .unlessFailed (.act _)
  | ⟨_, returnType, params, .native symbol, position⟩, node => by
      have called : Careful node [] (Plan.latch () (Plan.act
          (.emitNativeCall options position (.ofDecls returnType params) symbol))) :=
        .latch (.act _)
      exact called.bind (fun _ => .unlessFailed (.act _)) (by decide)

end

end Careful

end Plan

theorem Caching.typeOf_eq {state : Caching} {node : NodePath} {expr : Expr}
    (knows : state.types.Knows state.emitter.typing node expr) :
    state.typeOf node expr = state.emitter.typing expr := by
  obtain ⟨later, -, -, result⟩ := finds_typeOfMemo state.emitter expr knows
  rw [typeOf, result]
  cases state.emitter.typing expr <;> rfl

end Emitter

namespace Program

open Emitter

variable (program : Program) (options : Options)

theorem fresh_empty (region : NodePath → Prop) : TypeTable.Fresh region ∅ :=
  fun _ _ => Std.ExtTreeMap.getElem?_empty

theorem steady_plan : (program.plan options).Steady (Parts [] [0]) ⟨start program, ∅⟩ := by
  have careful : Plan.Careful [] [0] (program.plan options) :=
    (Plan.Careful.ofBody options program.top).last fun _ => .act _
  exact careful _ (fresh_empty _)

/-- The table of types does not show in the image. -/
theorem emitCaching_eq_emit : program.emitCaching options = program.emit options := by
  obtain ⟨types, -, ran⟩ := (program.steady_plan options).agrees
  rw [emitCaching, emit_eq_start, ran]
  cases (do emitBody options program.top; finish : EmitM Unit) (start program) <;> rfl

/-- Wherever an expression is about to be compiled, in any state that a compilation passes through,
the table answers with the type that the expression has in this state.  The answer is the same
without a table.  If the expression is then compiled, its code leaves a value of that type, or a
condition if the type is the logical one. -/
theorem typeOf_of_moment {moment : Moment} {node : NodePath} {expr : Expr}
    (passed : moment ∈ program.moments options) (next : moment.next = some (node, expr)) :
    (∃ types, (Plan.ofExpr node expr).run moment.state =
      Caching.attach types (emitExpr expr moment.state.emitter)) ∧
    (∀ compiled after, (Plan.ofExpr node expr).run moment.state = .ok compiled after →
      moment.state.typeOf node expr = .ok compiled.ty) ∧
    moment.state.typeOf node expr = Caching.typeOf ⟨moment.state.emitter, ∅⟩ node expr := by
  have knows := (program.steady_plan options).informed moment passed node expr next
  obtain ⟨types, -, ran⟩ := (Plan.steady_ofExpr expr knows).agrees
  refine ⟨⟨types, ran⟩, fun compiled after done => ?_, ?_⟩
  · rw [ran] at done
    cases compiles : emitExpr expr moment.state.emitter with
    | ok result emitter =>
        rw [compiles] at done
        cases done
        rw [Caching.typeOf_eq knows, typing_of_emitExpr expr compiles]
    | error error emitter =>
        rw [compiles] at done
        cases done
  · have unknown : TypeTable.Knows moment.state.emitter.typing ∅ node expr :=
      .of_fresh (fresh_empty _)
    rw [Caching.typeOf_eq knows, Caching.typeOf_eq unknown]

/-- A right operand that is an operation itself. -/
def product : Expr :=
  .binary 5 (.arith .mul) (.int 6 2) (.load 7 "x")

/-- A program in which a type is found before its turn and noted down:

    void main() { double x; x = 1 + 2 * x; }
-/
def nested : Program where
  top := ⟨"main", .void, [], .block ⟨[⟨"x", .double, 1⟩], [],
    [.store 2 "x" .assign (.binary 3 (.arith .add) (.int 4 1) product)]⟩, 0⟩

theorem nested_typeOf_of_moment :
    ∃ moment ∈ nested.moments .default, moment.next = some ([1, 0, 0, 1, 0], product) ∧
      moment.state.types[[1, 0, 0, 1, 0]]? = some .double ∧
      moment.state.typeOf [1, 0, 0, 1, 0] product = .ok .double := by
  have found : ∃ moment ∈ nested.moments .default,
      moment.next = some ([1, 0, 0, 1, 0], product) ∧
        moment.state.types[[1, 0, 0, 1, 0]]? = some .double ∧
        EStateM.run' (Plan.ofExpr [1, 0, 0, 1, 0] product).run moment.state =
          some (.value .double) := by
    decide +kernel
  obtain ⟨moment, passed, next, known, leaves⟩ := found
  obtain ⟨after, ran⟩ := exists_of_run' leaves
  exact ⟨moment, passed, next, known,
    (typeOf_of_moment nested .default passed next).2.1 _ after ran⟩

end Program

end Backpatch
