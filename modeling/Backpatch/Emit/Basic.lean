import Backpatch.Branch
import Backpatch.CompileError
import Backpatch.Scope

/-!
# Writing code

The state of a compilation and the small actions of which it is made.  Code goes to the buffer of
the current function.  An action stops at the first error, with the state as it is then.

A compilation as a whole does not stop there: the error is *kept* in the state, statements and
blocks that come later are skipped, and what has been opened is closed.  The error that is kept
first is the one reported.
-/

namespace Backpatch

/-- The state of a compilation. -/
structure Emitter where
  image : Image
  scopes : Scopes
  /-- The first error that was met. -/
  fault : Option CompileError
  deriving DecidableEq

/-- Actions of a compilation. -/
abbrev EmitM := EStateM CompileError Emitter

namespace Emitter

variable {α : Type}

/-- The buffer of the current function. -/
@[inline]
def buffer (emitter : Emitter) : Buffer :=
  emitter.scopes.current.buffer

/-- The state with another buffer for the current function. -/
def withBuffer (emitter : Emitter) (buffer : Buffer) : Emitter :=
  let scopes := emitter.scopes
  { emitter with scopes := { scopes with current := { scopes.current with buffer := buffer } } }

/-- Run an action on the buffer of the current function. -/
@[inline]
def onBuffer (action : BufferM α) : EmitM α
  | ⟨image, ⟨⟨id, returnType, buffer, bodyScope, frame, params, blocks⟩, enclosing, nextScope⟩,
      fault⟩ =>
    match action buffer with
    | .ok result buffer =>
        .ok result
          ⟨image,
            ⟨⟨id, returnType, buffer, bodyScope, frame, params, blocks⟩, enclosing, nextScope⟩,
            fault⟩
    | .error error buffer =>
        .error (.internal error)
          ⟨image,
            ⟨⟨id, returnType, buffer, bodyScope, frame, params, blocks⟩, enclosing, nextScope⟩,
            fault⟩

theorem onBuffer_apply (action : BufferM α) (emitter : Emitter) :
    onBuffer action emitter =
      match action emitter.buffer with
      | .ok result buffer => .ok result (emitter.withBuffer buffer)
      | .error error buffer => .error (.internal error) (emitter.withBuffer buffer) :=
  rfl

/-- Run an action on the image. -/
@[inline]
def onImage (action : ImageM α) : EmitM α
  | ⟨image, scopes, fault⟩ =>
    match action image with
    | .ok result image => .ok result ⟨image, scopes, fault⟩
    | .error error image => .error (.internal error) ⟨image, scopes, fault⟩

/-- Change the scopes and take a result from the change; fail with an error where there is none. -/
@[inline]
def onScopes (change : Scopes → Option (α × Scopes)) (error : CompileError) : EmitM α
  | ⟨image, scopes, fault⟩ =>
    match change scopes with
    | some (result, scopes) => .ok result ⟨image, scopes, fault⟩
    | none => .error error ⟨image, scopes, fault⟩

/-- Ask the state a question that may have no answer. -/
@[inline]
def ask (question : Emitter → Except CompileError α) : EmitM α := fun emitter =>
  match question emitter with
  | .ok answer => .ok answer emitter
  | .error error => .error error emitter

/-- The offset of the next byte of code. -/
def offset : EmitM Nat :=
  return (← get).buffer.size

/-- Append to the code. -/
@[inline]
def write (append : Buffer → Buffer) : EmitM Unit :=
  onBuffer fun buffer => .ok () (append buffer)

/-- Append to the code and take a result from that. -/
@[inline]
def writeWith (append : Buffer → α × Buffer) : EmitM α :=
  onBuffer fun buffer =>
    let (result, buffer) := append buffer
    .ok result buffer

def emit (op : Op) : EmitM Unit :=
  write (·.emit op)

def emitWithWord (op : Op) (word : UInt16) : EmitM Unit :=
  write (·.emitWithWord op word)

/-- A jump to an address that is not known yet. -/
def emitJump : EmitM Site :=
  writeWith fun buffer => (buffer.emit .jump).reserveWord

/-- A jump to an address of code that is already written. -/
def emitJumpTo (target : Nat) : EmitM Unit :=
  if target > Buffer.maxTarget then
    throw (.internal (.codeTooLarge target))
  else
    emitWithWord .jump (UInt16.ofNat target)

/-- A two-way branch to addresses that are not known yet. -/
def emitBranch (op : Op) : EmitM PendingBranch :=
  writeWith (·.emitBranch op)

/-- Let jumps lead to a target. -/
def patch (sites : List Site) (target : Nat) : EmitM Unit :=
  onBuffer (Buffer.patchTargets sites target)

/-- The variable that a name means at a position. -/
def resolveVar (name : String) (position : Position) : EmitM Slot :=
  ask fun emitter =>
    match emitter.scopes.resolve? name .outward with
    | some slot => .ok slot
    | none => .error (.undefinedVariable name position)

/-- The variable belongs to another function than the current one. -/
def isForeign (slot : Slot) : EmitM Bool :=
  return slot.context != (← get).scopes.current.id

/-- The operands by which an instruction names a variable. -/
def emitVarAccess (op : Op) (slot : Slot) (foreign : Bool) : EmitM Unit :=
  write fun buffer =>
    let buffer := buffer.emit op
    let buffer := if foreign then buffer.emitWord slot.context else buffer
    buffer.emitWord slot.index

/-- Push a variable. -/
def emitLoad (slot : Slot) : EmitM Unit := do
  let foreign ← isForeign slot
  match Op.load? slot.ty foreign with
  | some op => emitVarAccess op slot foreign
  | none => throw (.invariant (.noLoad slot.ty))

/-- Pop into a variable. -/
def emitStore (slot : Slot) : EmitM Unit := do
  let foreign ← isForeign slot
  match Op.store? slot.ty foreign with
  | some op => emitVarAccess op slot foreign
  | none => throw (.invariant (.noStore slot.ty))

/-- Run an action; if it fails, keep its error unless there is an earlier one, and go on with the
given result. -/
@[inline]
def latch (default : α) (action : EmitM α) : EmitM α := fun emitter =>
  match action emitter with
  | .ok result emitter => .ok result emitter
  | .error error emitter => .ok default { emitter with fault := emitter.fault.or (some error) }

/-- Run an action unless an error has been met. -/
@[inline]
def unlessFailed (action : EmitM Unit) : EmitM Unit := fun emitter =>
  if emitter.fault.isSome then .ok () emitter else action emitter

end Emitter

end Backpatch
