import Std.Data.ExtTreeMap

/-!
# Maps from names

Finite maps from names, listed in the order of the names.  Two maps are equal when they hold the
same entries, however they were built.
-/

namespace Backpatch

/-- Finite maps from names. -/
abbrev NameMap (α : Type) := Std.ExtTreeMap String α

end Backpatch
