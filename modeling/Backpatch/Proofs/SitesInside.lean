import Backpatch.Proofs.SideBySide
import Backpatch.Proofs.Surroundings

/-!
# Open sites lie inside the code

A site is opened where bytes have just been reserved for it, and code never gets shorter.  So every
open site of a function that is being compiled lies inside the code of that function, and new code
has no site in common with it.  This is so after every small action of the compiler, also after one
that has failed.
-/

namespace Backpatch

/-- Every open site of the buffer lies inside of it. -/
def Buffer.Inside (buffer : Buffer) : Prop :=
  ∀ offset ∈ buffer.openSites, offset < buffer.size

namespace Buffer

variable {α β : Type} {buffer : Buffer}

namespace Inside

theorem empty : Buffer.empty.Inside :=
  fun _ member => absurd member Std.ExtTreeSet.not_mem_empty

theorem append (inside : buffer.Inside) (bytes : List UInt8) : (buffer.append bytes).Inside := by
  intro offset member
  rw [size_append]
  exact Nat.lt_add_right _ (inside offset member)

theorem emit (inside : buffer.Inside) (op : Op) : (buffer.emit op).Inside := by
  rw [emit_eq_append]
  exact inside.append _

theorem openAt (inside : buffer.Inside) {place : Nat} (within : place < buffer.size) :
    (buffer.openAt place).Inside := by
  intro offset member
  rcases mem_openAt.mp member with old | rfl
  · exact inside offset old
  · exact within

theorem reserveWord (inside : buffer.Inside) : buffer.reserveWord.2.Inside := by
  refine (inside.append (littleEndian 2 0xFFFF)).openAt ?_
  rw [size_append, length_littleEndian]
  exact Nat.lt_add_of_pos_right Nat.two_pos

theorem reserveOp (inside : buffer.Inside) : buffer.reserveOp.2.Inside := by
  refine (inside.emit .invalid).openAt ?_
  rw [size_emit]
  exact Nat.lt_succ_self _

theorem filled (inside : buffer.Inside) (place : Nat) (bytes : List UInt8) :
    (buffer.filled place bytes).Inside := by
  intro offset member
  rw [size_filled]
  exact inside offset (mem_filled.mp member).1

end Inside

/-- However it ends, the action keeps the open sites inside the buffer. -/
def Orderly (action : BufferM α) : Prop :=
  ∀ buffer, buffer.Inside →
    match action buffer with
    | .ok _ after => after.Inside
    | .error _ after => after.Inside

namespace Orderly

theorem bind {action : BufferM α} {next : α → BufferM β} (first : Orderly action)
    (rest : ∀ result, Orderly (next result)) : Orderly (action >>= next) := by
  intro buffer inside
  have began := first buffer inside
  change match EStateM.bind action next buffer with
  | .ok _ after => after.Inside
  | .error _ after => after.Inside
  rw [EStateM.bind]
  cases ran : action buffer with
  | ok result after =>
      rw [ran] at began
      exact rest result after began
  | error error after =>
      rw [ran] at began
      exact began

theorem patchTarget (site : Site) (target : Nat) : Orderly (patchTarget site target) := by
  intro buffer inside
  rw [patchTarget_apply]
  split
  case h_1 done =>
      split at done
      case isTrue => cases done; exact inside.filled _ _
      case isFalse => split at done <;> cases done
  case h_2 failed =>
      split at failed
      case isTrue => cases failed
      case isFalse => split at failed <;> cases failed <;> exact inside

theorem patchTargets (sites : List Site) (target : Nat) : Orderly (patchTargets sites target) := by
  induction sites with
  | nil => exact fun _ inside => inside
  | cons site sites ih => exact (patchTarget site target).bind fun _ => ih

theorem patchOpSite (site : Site) (op : Op) : Orderly (patchOpSite site op) := by
  intro buffer inside
  rw [patchOpSite_apply]
  split
  case h_1 done =>
      split at done <;> cases done
      exact inside.filled _ _
  case h_2 failed =>
      split at failed <;> cases failed
      exact inside

theorem resolve (pending : PendingBranch) (target : Nat) : Orderly (pending.resolve target) :=
  (patchTargets _ target).bind fun _ => patchTargets _ target

end Orderly

end Buffer

namespace Emitter

variable {α β : Type}

/-- The open sites of all open functions lie inside their code. -/
def Inside (emitter : Emitter) : Prop :=
  ∀ context ∈ emitter.scopes.contexts, context.buffer.Inside

theorem Inside.buffer {emitter : Emitter} (inside : emitter.Inside) : emitter.buffer.Inside :=
  inside _ List.mem_cons_self

theorem Inside.withBuffer {emitter : Emitter} (inside : emitter.Inside) {buffer : Buffer}
    (within : buffer.Inside) : (emitter.withBuffer buffer).Inside := by
  intro context member
  rcases List.mem_cons.mp member with rfl | outer
  · exact within
  · exact inside context (List.mem_cons_of_mem _ outer)

theorem inside_start (program : Program) : (start program).Inside := by
  intro context member
  obtain rfl := List.mem_singleton.mp member
  exact .empty

/-- However it ends, the action keeps the open sites of every function inside its code. -/
def Orderly (action : EmitM α) : Prop :=
  ∀ before, before.Inside → (ending (action before)).Inside

namespace Orderly

theorem bind {action : EmitM α} {next : α → EmitM β} (first : Orderly action)
    (rest : ∀ result, Orderly (next result)) : Orderly (action >>= next) := by
  intro before inside
  have began := first before inside
  rw [bind_apply]
  cases ran : action before with
  | ok result after =>
      rw [ran] at began
      exact rest result after began
  | error error after =>
      rw [ran] at began
      exact began

theorem pure (result : α) : Orderly (pure result : EmitM α) :=
  fun _ inside => inside

theorem throw (error : CompileError) : Orderly (throw error : EmitM α) :=
  fun _ inside => inside

theorem get : Orderly (MonadState.get : EmitM Emitter) :=
  fun _ inside => inside

theorem forM {action : α → EmitM Unit} (each : ∀ item, Orderly (action item)) (items : List α) :
    Orderly (items.forM action) := by
  induction items with
  | nil => exact pure ()
  | cons item items ih => exact (each item).bind fun _ => ih

theorem ask (question : Emitter → Except CompileError α) : Orderly (ask question) := by
  intro before inside
  unfold Emitter.ask
  cases question before <;> exact inside

theorem onImage (action : ImageM α) : Orderly (onImage action) := by
  intro before inside
  simp only [Emitter.onImage]
  cases action before.image <;> exact inside

theorem onBuffer {action : BufferM α} (orderly : Buffer.Orderly action) :
    Orderly (onBuffer action) := by
  intro before inside
  have within := orderly before.buffer inside.buffer
  rw [onBuffer_apply]
  cases ran : action before.buffer <;> rw [ran] at within <;> exact inside.withBuffer within

theorem onScopes {change : Scopes → Option (α × Scopes)} (error : CompileError)
    (blindly : Scopes.Blindly change) : Orderly (onScopes change error) := by
  intro before inside
  simp only [Emitter.onScopes]
  split
  case h_2 => exact inside
  case h_1 changed =>
      obtain ⟨-, sameBuffer, sameEnclosing⟩ := blindly _ _ _ changed
      intro context member
      rcases List.mem_cons.mp member with rfl | outer
      · exact sameBuffer ▸ inside.buffer
      · exact inside context (List.mem_cons_of_mem _ (sameEnclosing ▸ outer))

theorem offset : Orderly Emitter.offset :=
  get.bind fun _ => pure _

theorem write {append : Buffer → Buffer}
    (appends : ∀ buffer : Buffer, buffer.Inside → (append buffer).Inside) :
    Orderly (write append) :=
  onBuffer appends

theorem writeWith {append : Buffer → α × Buffer}
    (appends : ∀ buffer : Buffer, buffer.Inside → (append buffer).2.Inside) :
    Orderly (writeWith append) :=
  onBuffer appends

theorem emit (op : Op) : Orderly (emit op) :=
  write fun _ inside => inside.emit op

theorem emitWithWord (op : Op) (word : UInt16) : Orderly (emitWithWord op word) :=
  write fun _ inside => (inside.emit op).append _

theorem emitJump : Orderly emitJump :=
  writeWith fun _ inside => (inside.emit .jump).reserveWord

theorem emitBranch (op : Op) : Orderly (emitBranch op) :=
  writeWith fun _ inside => (inside.emit op).reserveWord.reserveWord

theorem patch (sites : List Site) (target : Nat) : Orderly (patch sites target) :=
  onBuffer (.patchTargets sites target)

theorem emitJumpTo (target : Nat) : Orderly (emitJumpTo target) := by
  unfold Emitter.emitJumpTo
  split
  · exact throw _
  · exact emitWithWord _ _

theorem emitVarAccess (op : Op) (slot : Slot) (foreign : Bool) :
    Orderly (emitVarAccess op slot foreign) := by
  refine write fun buffer inside => Buffer.Inside.append ?_ _
  cases foreign with
  | false => exact inside.emit op
  | true => exact (inside.emit op).append _

/-- An instruction of a family that names a slot. -/
theorem access (family : Ty → Bool → Option Op) (slot : Slot) (error : CompileError) :
    Orderly (do
      let foreign ← isForeign slot
      match family slot.ty foreign with
      | some op => Emitter.emitVarAccess op slot foreign
      | none => MonadExcept.throw error) := by
  refine (get.bind fun _ => pure _).bind fun foreign => ?_
  cases family slot.ty foreign with
  | none => exact throw _
  | some op => exact emitVarAccess op slot foreign

theorem emitLoad (slot : Slot) : Orderly (emitLoad slot) :=
  access Op.load? slot _

theorem emitStore (slot : Slot) : Orderly (emitStore slot) :=
  access Op.store? slot _

theorem convert (source target : Ty) (site : Option Site) (position : Position) :
    Orderly (convert source target site position) := by
  unfold Emitter.convert
  split
  · exact pure _
  · cases Op.convert? source target with
    | none => exact throw _
    | some op =>
        cases site with
        | none => exact emit op
        | some site => exact onBuffer (.patchOpSite site op)

theorem materialize (pending : PendingBranch) (numeric : Numeric) :
    Orderly (materialize pending numeric) :=
  offset.bind fun _ => (emit _).bind fun _ => emitJump.bind fun _ => offset.bind fun _ =>
    (emit _).bind fun _ => offset.bind fun _ => (patch _ _).bind fun _ =>
      (patch _ _).bind fun _ => patch _ _

theorem materializeValue (compiled : Compiled) : Orderly (materializeValue compiled) := by
  cases compiled with
  | value ty => exact pure _
  | branch pending => exact (materialize pending .int).bind fun _ => pure _

theorem resolve (pending : PendingBranch) :
    Orderly (do Emitter.onBuffer (pending.resolve (← Emitter.offset))) :=
  offset.bind fun _ => onBuffer (.resolve pending _)

theorem coerce (compiled : Compiled) (target : Ty) (position : Position) :
    Orderly (coerce compiled target position) := by
  cases compiled with
  | value source => exact convert source target none position
  | branch pending =>
      cases target with
      | int => exact materialize pending .int
      | double => exact materialize pending .double
      | void => exact resolve pending
      | logic | string | invalid => exact throw _

theorem branchOnValue (compiled : Compiled) (position : Position) :
    Orderly (branchOnValue compiled position) := by
  cases compiled with
  | branch pending => exact pure _
  | value ty =>
      cases ty with
      | int => exact (emit _).bind fun _ => emitBranch _
      | double =>
          exact (emit _).bind fun _ => (emit _).bind fun _ => (emit _).bind fun _ => emitBranch _
      | logic | string | void | invalid => exact throw _

theorem reserveConversion (leftTy predicted : Ty) :
    Orderly (reserveConversion leftTy predicted) := by
  unfold Emitter.reserveConversion
  split
  · exact (writeWith fun _ inside => inside.reserveOp).bind fun _ => pure _
  · exact pure _

theorem numericType (op : BinOp) (leftTy rightTy : Ty) (position : Position) :
    Orderly (numericType op leftTy rightTy position) := by
  unfold Emitter.numericType
  dsimp only
  split
  · exact pure _
  · exact throw _

theorem convertLeft (op : BinOp) (leftTy common : Ty) (position : Position) (site : Option Site) :
    Orderly (convertLeft op leftTy common position site) := by
  cases site with
  | some site => exact convert leftTy common (some site) position
  | none =>
      simp only [Emitter.convertLeft]
      split
      · exact pure _
      · exact throw _

/-- What is left to be done when both operands are written. -/
theorem convertOperands (op : BinOp) (position leftPosition rightPosition : Position) (leftTy : Ty)
    (site : Option Site) (compiled : Compiled) :
    Orderly (do
      let rightTy ← Emitter.materializeValue compiled
      let common ← Emitter.numericType op leftTy rightTy position
      Emitter.convertLeft op leftTy common leftPosition site
      Emitter.convert rightTy common none rightPosition
      return common) :=
  (materializeValue _).bind fun _ => (numericType _ _ _ _).bind fun _ =>
    (convertLeft _ _ _ _ _).bind fun _ => (convert _ _ _ _).bind fun _ => pure _

theorem emitArithmetic (op : ArithOp) (ty : Ty) (position : Position) :
    Orderly (emitArithmetic op ty position) := by
  unfold Emitter.emitArithmetic
  cases op.instr? ty with
  | none => exact throw _
  | some instr => exact (emit _).bind fun _ => pure _

theorem emitComparison (op : Comparison) (ty : Ty) : Orderly (emitComparison op ty) :=
  (emit _).bind fun _ => (emit _).bind fun _ => (emitBranch _).bind fun _ => pure _

theorem emitNegation (compiled : Compiled) (position : Position) :
    Orderly (emitNegation compiled position) := by
  refine (materializeValue compiled).bind fun ty => ?_
  cases Numeric.ofTy? ty with
  | none => exact throw _
  | some numeric => exact (emit _).bind fun _ => (emit _).bind fun _ => pure _

theorem allocateHidden (ty : Ty) (error : CompileError) :
    Orderly (Emitter.onScopes (·.allocateHidden? ty) error) :=
  onScopes error (Scopes.blindly_allocateHidden? ty)

theorem declareVar (var : VarDecl) : Orderly (declareVar var) :=
  (onScopes _ (Scopes.blindly_declare? var.name var.ty)).bind fun _ => pure _

theorem emitParam (position : Position) (param : ParamDecl) :
    Orderly (emitParam position param) :=
  (onScopes _ (Scopes.blindly_declareParam? param.name param.ty)).bind fun slot => emitStore slot

theorem declareFunction (definition : FnDef) : Orderly (declareFunction definition) :=
  (onImage _).bind fun id =>
    (onScopes _ (Scopes.blindly_declareFunction? definition.name id)).bind fun _ => pure id

theorem declareBlock (vars : List VarDecl) (functions : List FnDef) :
    Orderly (declareBlock vars functions) := by
  refine (forM declareVar vars).bind fun _ => ?_
  induction functions with
  | nil => exact pure []
  | cons definition definitions ih =>
      rw [List.mapM_cons]
      exact (declareFunction definition).bind fun id => ih.bind fun ids => pure _

theorem emitNativeCall (options : Options) (position : Position) (signature : Signature)
    (symbol : String) : Orderly (emitNativeCall options position signature symbol) := by
  unfold Emitter.emitNativeCall
  cases options.address? symbol with
  | none => exact throw _
  | some address => exact (onImage _).bind fun id => emitWithWord _ id

theorem enterBlock : Orderly
    (modify fun emitter =>
      { emitter with scopes := emitter.scopes.enterBlock.2 } : EmitM Unit) := by
  intro before inside context member
  rcases List.mem_cons.mp member with rfl | outer
  · exact inside.buffer
  · exact inside context (List.mem_cons_of_mem _ outer)

theorem exitBlock : Orderly
    (modify fun emitter => { emitter with scopes := emitter.scopes.exitBlock } : EmitM Unit) := by
  intro before inside context member
  rcases List.mem_cons.mp member with rfl | outer
  · exact inside.buffer
  · exact inside context (List.mem_cons_of_mem _ outer)

/-- A function begins without code. -/
theorem push (id : UInt16) (returnType : Ty) : Orderly
    (modify fun emitter =>
      { emitter with scopes := emitter.scopes.push (.start id returnType) } : EmitM Unit) := by
  intro before inside context member
  rcases List.mem_cons.mp member with rfl | outer
  · exact .empty
  · exact inside context outer

theorem storeRoutine (context : Context) : Orderly (storeRoutine context) :=
  (ask _).bind fun _ _ inside => inside

theorem closeFunction : Orderly closeFunction := by
  refine bind (fun before inside => ?_) storeRoutine
  simp only [Emitter.onScopes, Scopes.pop?]
  cases enclosed : before.scopes.enclosing with
  | nil => exact inside
  | cons outer enclosing =>
      intro context member
      refine inside context (List.mem_cons_of_mem _ ?_)
      rw [enclosed]
      exact member

theorem finish : Orderly finish := by
  refine get.bind fun emitter => ?_
  cases emitter.fault with
  | some error => exact throw error
  | none => exact get.bind fun _ => storeRoutine _

end Orderly

end Emitter

end Backpatch
