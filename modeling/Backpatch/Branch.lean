import Backpatch.Buffer

/-!
# Pending branches

A condition is not computed as a value.  Its code ends in branches whose targets are still open, and
what is known about the condition is which of these targets are taken when it is true and which when
it is false.  Negation exchanges the two lists; the connectives join them.  No code is written for
any of this.
-/

namespace Backpatch

/-- The open jump targets of a condition. -/
structure PendingBranch where
  /-- The targets taken when the condition is true. -/
  trueSites : List Site
  /-- The targets taken when the condition is false. -/
  falseSites : List Site
  deriving DecidableEq, Repr, Inhabited

namespace PendingBranch

/-- A condition without any target. -/
def empty : PendingBranch :=
  ⟨[], []⟩

/-- The condition of a single two-way branch. -/
def ofSites (trueSite falseSite : Site) : PendingBranch :=
  ⟨[trueSite], [falseSite]⟩

/-- The negated condition. -/
def negate (branch : PendingBranch) : PendingBranch :=
  ⟨branch.falseSites, branch.trueSites⟩

/-- The conjunction, once the true targets of the left condition lead to the right one. -/
def conj (left right : PendingBranch) : PendingBranch :=
  ⟨right.trueSites, left.falseSites ++ right.falseSites⟩

/-- The disjunction, once the false targets of the left condition lead to the right one. -/
def disj (left right : PendingBranch) : PendingBranch :=
  ⟨left.trueSites ++ right.trueSites, right.falseSites⟩

/-- Let both outcomes lead to the same place. -/
def resolve (branch : PendingBranch) (target : Nat) : BufferM Unit := do
  Buffer.patchTargets branch.trueSites target
  Buffer.patchTargets branch.falseSites target

@[simp]
theorem negate_negate (branch : PendingBranch) : branch.negate.negate = branch :=
  rfl

theorem negate_conj (left right : PendingBranch) :
    (left.conj right).negate = left.negate.disj right.negate :=
  rfl

theorem negate_disj (left right : PendingBranch) :
    (left.disj right).negate = left.negate.conj right.negate :=
  rfl

end PendingBranch

/-- Append a two-way branch with both targets open. -/
def Buffer.emitBranch (buffer : Buffer) (op : Op) : PendingBranch × Buffer :=
  let (trueSite, buffer) := (buffer.emit op).reserveWord
  let (falseSite, buffer) := buffer.reserveWord
  (.ofSites trueSite falseSite, buffer)

end Backpatch
