import Backpatch.CodeError
import Backpatch.Double
import Backpatch.Word
import Std.Data.ExtTreeSet

/-!
# Code buffers

The instruction stream of one function while it is being written.  Bytes are appended, or written
over in place, but never inserted or removed, so an offset stays valid for the life of the buffer.
A jump to an address that is not known yet leaves a *site*: a reserved place that is open until it
is patched.  A buffer knows its open sites.

Appending cannot fail and is a plain function on buffers.  Patching can, and is an action that
leaves the buffer as it was when it does.
-/

namespace Backpatch

/-- A reserved place in a code buffer: two bytes for a jump target or one byte for an opcode. -/
structure Site where
  offset : Nat
  deriving DecidableEq, Repr, Inhabited

/-- The instruction stream of a function, with the sites that are still to be patched. -/
structure Buffer where
  bytes : Array UInt8
  openSites : Std.ExtTreeSet Nat
  deriving DecidableEq

/-- Actions on a code buffer that may fail. -/
abbrev BufferM := EStateM CodeError Buffer

namespace Buffer

/-- The greatest offset that a jump can name. -/
def maxTarget : Nat := 65535

/-- A buffer of given bytes without open sites. -/
def ofBytes (bytes : Array UInt8) : Buffer where
  bytes := bytes
  openSites := ∅

def empty : Buffer :=
  ofBytes #[]

instance : Inhabited Buffer :=
  ⟨empty⟩

/-- The number of bytes, which is the offset of the next byte to be written. -/
def size (buffer : Buffer) : Nat :=
  buffer.bytes.size

def append (buffer : Buffer) (bytes : List UInt8) : Buffer :=
  { buffer with bytes := buffer.bytes ++ bytes }

def emit (buffer : Buffer) (op : Op) : Buffer :=
  { buffer with bytes := buffer.bytes.push op.toByte }

def emitWord (buffer : Buffer) (word : UInt16) : Buffer :=
  buffer.append (littleEndian 2 word.toNat)

def emitInt (buffer : Buffer) (value : Int64) : Buffer :=
  buffer.append (littleEndian 8 value.toUInt64.toNat)

def emitDouble (buffer : Buffer) (value : Double) : Buffer :=
  buffer.append (littleEndian 8 value.bits.toNat)

/-- Append an instruction with one two-byte operand. -/
def emitWithWord (buffer : Buffer) (op : Op) (word : UInt16) : Buffer :=
  (buffer.emit op).emitWord word

/-- Record the place at an offset as open. -/
def openAt (buffer : Buffer) (offset : Nat) : Buffer :=
  { buffer with openSites := buffer.openSites.insert offset }

/-- Reserve two bytes for a jump target. -/
def reserveWord (buffer : Buffer) : Site × Buffer :=
  let offset := buffer.size
  (⟨offset⟩, (buffer.emitWord 0xFFFF).openAt offset)

/-- Reserve one byte for an opcode. -/
def reserveOp (buffer : Buffer) : Site × Buffer :=
  let offset := buffer.size
  (⟨offset⟩, (buffer.emit .invalid).openAt offset)

/-- Write over the bytes from an offset on, as far as there are any. -/
def overwrite (buffer : Buffer) : (offset : Nat) → List UInt8 → Buffer
  | _, [] => buffer
  | offset, byte :: bytes =>
      overwrite { buffer with bytes := buffer.bytes.setIfInBounds offset byte } (offset + 1) bytes

/-- Write over bytes that have been written before.  An offset is a natural number, so that the end
of the bytes is never too large for it.  If offsets were machine words, the end of two bytes would
wrap around for the two greatest of them.  No buffer reaches so far, and they are refused here like
every offset that lies outside. -/
def patchBytes (offset : Nat) (bytes : List UInt8) : BufferM Unit := fun buffer =>
  if offset + bytes.length ≤ buffer.size then
    .ok () (buffer.overwrite offset bytes)
  else
    .error (.patchOutOfRange offset buffer.size) buffer

/-- Write over two bytes. -/
def patchWord (offset : Nat) (word : UInt16) : BufferM Unit :=
  patchBytes offset (littleEndian 2 word.toNat)

/-- Write over an opcode. -/
def patchOp (offset : Nat) (op : Op) : BufferM Unit :=
  patchBytes offset [op.toByte]

/-- Record a site as patched. -/
def close (site : Site) : BufferM Unit :=
  modify fun buffer => { buffer with openSites := buffer.openSites.erase site.offset }

/-- Fill a jump target and close its site. -/
def patchTarget (site : Site) (target : Nat) : BufferM Unit :=
  if target > maxTarget then
    throw (.codeTooLarge target)
  else do
    patchWord site.offset (UInt16.ofNat target)
    close site

/-- Fill the same jump target in a list of sites, in order. -/
def patchTargets (sites : List Site) (target : Nat) : BufferM Unit :=
  sites.forM fun site => patchTarget site target

/-- Fill an opcode and close its site. -/
def patchOpSite (site : Site) (op : Op) : BufferM Unit := do
  patchOp site.offset op
  close site

/-- Fails on the lowest site that is open. -/
def ensurePatched (buffer : Buffer) : Except CodeError Unit :=
  match buffer.openSites.toList with
  | [] => .ok ()
  | offset :: _ => .error (.unpatchedSite offset)

/-- The two-byte number at an offset, if both bytes are there.  At the two greatest offsets of a
machine word, behind which two bytes would have no end, there are none. -/
def readWord? (buffer : Buffer) (offset : Nat) : Option UInt16 := do
  let low ← buffer.bytes[offset]?
  let high ← buffer.bytes[offset + 1]?
  return UInt16.ofNat (ofLittleEndian [low, high])

end Buffer

end Backpatch
