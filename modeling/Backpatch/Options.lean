import Backpatch.Image

/-!
# Options

What the environment decides about a compilation: the addresses of native functions by symbol, and
whether the finished image is checked.
-/

namespace Backpatch

/-- Options of a compilation. -/
structure Options where
  /-- The addresses of native functions. -/
  natives : NameMap UInt64
  /-- Check the finished image. -/
  validate : Bool
  deriving DecidableEq

namespace Options

/-- No native function is known, and images are checked. -/
def default : Options where
  natives := ∅
  validate := true

instance : Inhabited Options :=
  ⟨default⟩

/-- Give a symbol an address, in place of the one it may have. -/
def bind (options : Options) (symbol : String) (address : UInt64) : Options :=
  { options with natives := options.natives.insert symbol address }

def address? (options : Options) (symbol : String) : Option UInt64 :=
  options.natives[symbol]?

end Options

end Backpatch
