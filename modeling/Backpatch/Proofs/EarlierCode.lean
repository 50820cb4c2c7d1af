import Backpatch.Proofs.EmissionExpr
import Backpatch.Proofs.Course

/-!
# Earlier code is left alone

Compiling an expression appends code and fills sites that it has opened itself.  It does not look at
the code that was there before, nor does it change it.  So if a byte that was reserved earlier is
filled at once, and not after the expression has been compiled, the result is the same.
-/

namespace Backpatch

namespace Buffer

variable {buffer : Buffer} {place : Nat} {byte : UInt8}

theorem eq_of_toList {first second : Buffer} (bytes : first.toList = second.toList)
    (sites : ∀ offset, offset ∈ first.openSites ↔ offset ∈ second.openSites) : first = second := by
  obtain ⟨firstBytes, firstSites⟩ := first
  obtain ⟨secondBytes, secondSites⟩ := second
  obtain rfl : firstBytes = secondBytes := Array.toList_inj.mp bytes
  obtain rfl : firstSites = secondSites := Std.ExtTreeSet.ext_mem fun {_} => sites _
  rfl

theorem mem_filled {bytes : List UInt8} {offset : Nat} :
    offset ∈ (buffer.filled place bytes).openSites ↔
      offset ∈ buffer.openSites ∧ offset ≠ place := by
  rw [filled, mem_erase, (toList_overwrite buffer place bytes).2.1]

theorem getElem?_filled (bytes : List UInt8) (index : Nat) :
    (buffer.filled place bytes).toList[index]? =
      if place ≤ index ∧ index < place + bytes.length ∧ index < buffer.size then
        bytes[index - place]?
      else buffer.toList[index]? :=
  (toList_overwrite buffer place bytes).2.2 index

theorem toList_filled_singleton :
    (buffer.filled place [byte]).toList = buffer.toList.set place byte :=
  Array.toList_setIfInBounds

theorem emit_eq_append (buffer : Buffer) (op : Op) : buffer.emit op = buffer.append [op.toByte] :=
  eq_of_toList (by rw [toList_emit, toList_append]) fun _ => .rfl

theorem append_append (buffer : Buffer) (first second : List UInt8) :
    (buffer.append first).append second = buffer.append (first ++ second) :=
  eq_of_toList (by simp) fun _ => .rfl

theorem filled_append (inside : place < buffer.size) (bytes : List UInt8) :
    (buffer.filled place [byte]).append bytes = (buffer.append bytes).filled place [byte] := by
  refine eq_of_toList ?_ fun offset => ?_
  · have inList : place < buffer.toList.length := inside
    rw [toList_append, toList_filled_singleton, toList_filled_singleton, toList_append,
      List.set_append_left _ _ inList]
  · rw [openSites_append, mem_filled, mem_filled, openSites_append]

theorem filled_openAt {opened : Nat} (different : opened ≠ place) :
    (buffer.filled place [byte]).openAt opened = (buffer.openAt opened).filled place [byte] := by
  refine eq_of_toList ?_ fun offset => ?_
  · rw [toList_openAt, toList_filled_singleton, toList_filled_singleton, toList_openAt]
  · rw [mem_openAt, mem_filled, mem_filled, mem_openAt]
    constructor
    · rintro (⟨member, notPlace⟩ | rfl)
      · exact ⟨.inl member, notPlace⟩
      · exact ⟨.inr rfl, different⟩
    · rintro ⟨member | same, notPlace⟩
      · exact .inl ⟨member, notPlace⟩
      · exact .inr same

/-- Places that share no byte are filled in either order. -/
theorem filled_filled {later : Nat} (behind : place < later) (bytes : List UInt8) :
    (buffer.filled place [byte]).filled later bytes =
      (buffer.filled later bytes).filled place [byte] := by
  refine eq_of_toList ?_ fun offset => ?_
  · refine List.ext_getElem? fun index => ?_
    simp only [getElem?_filled, size_filled, List.length_singleton]
    split <;> split <;> first | rfl | omega
  · simp only [mem_filled]
    exact and_right_comm

theorem filled_emit (inside : place < buffer.size) (op : Op) :
    (buffer.filled place [byte]).emit op = (buffer.emit op).filled place [byte] := by
  rw [emit_eq_append, filled_append inside, emit_eq_append]

theorem filled_reserveWord (inside : place < buffer.size) :
    (buffer.filled place [byte]).reserveWord =
      (buffer.reserveWord.1, buffer.reserveWord.2.filled place [byte]) := by
  simp only [reserveWord, emitWord, size_filled, filled_append inside,
    filled_openAt (Nat.ne_of_gt inside)]

theorem filled_reserveOp (inside : place < buffer.size) :
    (buffer.filled place [byte]).reserveOp =
      (buffer.reserveOp.1, buffer.reserveOp.2.filled place [byte]) := by
  simp only [reserveOp, size_filled, filled_emit inside, filled_openAt (Nat.ne_of_gt inside)]

theorem filled_emitJump (inside : place < buffer.size) :
    ((buffer.filled place [byte]).emit .jump).reserveWord =
      ((buffer.emit .jump).reserveWord.1,
        (buffer.emit .jump).reserveWord.2.filled place [byte]) := by
  rw [filled_emit inside, filled_reserveWord (by rw [size_emit]; omega)]

theorem filled_emitBranch (inside : place < buffer.size) (op : Op) :
    (buffer.filled place [byte]).emitBranch op =
      ((buffer.emitBranch op).1, (buffer.emitBranch op).2.filled place [byte]) := by
  have first : place < (buffer.emit op).size := by
    rw [size_emit]
    omega
  have second : place < (buffer.emit op).reserveWord.2.size := by
    rw [size_reserveWord]
    omega
  simp only [emitBranch, filled_emit inside, filled_reserveWord first, filled_reserveWord second]

/-- Patching a jump target fills its site, if a jump can name the target and the site is there. -/
theorem patchTarget_apply (site : Site) (target : Nat) (buffer : Buffer) :
    patchTarget site target buffer =
      if target ≤ maxTarget ∧ site.offset + 2 ≤ buffer.size then
        .ok () (buffer.filled site.offset (littleEndian 2 target))
      else if target ≤ maxTarget then .error (.patchOutOfRange site.offset buffer.size) buffer
      else .error (.codeTooLarge target) buffer := by
  unfold patchTarget
  by_cases near : target ≤ maxTarget
  · have number : (UInt16.ofNat target).toNat = target :=
      UInt16.toNat_ofNat_of_lt' (Nat.lt_succ_of_le near)
    rw [if_neg (Nat.not_lt.mpr near), if_pos near]
    change EStateM.bind (patchBytes _ (littleEndian 2 (UInt16.ofNat target).toNat)) _ _ = _
    rw [bind_patchBytes, number, length_littleEndian]
    simp only [near, true_and]
    rfl
  · rw [if_pos (Nat.lt_of_not_le near), if_neg fun both => near both.1, if_neg near]
    rfl

/-- Patching an opcode fills its site, if the site is there. -/
theorem patchOpSite_apply (site : Site) (op : Op) (buffer : Buffer) :
    patchOpSite site op buffer =
      if site.offset + 1 ≤ buffer.size then .ok () (buffer.filled site.offset [op.toByte])
      else .error (.patchOutOfRange site.offset buffer.size) buffer :=
  bind_patchBytes site.offset [op.toByte] _ buffer

/-- An action does the same to a buffer whether an earlier place is filled before it or after it,
and its result is of the given kind. -/
def Passes {α : Type} (place : Nat) (kind : α → Prop) (action : BufferM α) : Prop :=
  ∀ byte buffer result after, place < buffer.size → action buffer = .ok result after →
    action (buffer.filled place [byte]) = .ok result (after.filled place [byte]) ∧
      place < after.size ∧ kind result

theorem passes_patchTarget {site : Site} (behind : place < site.offset) (target : Nat) :
    Passes place (fun _ => True) (patchTarget site target) := by
  intro byte buffer _ after inside ran
  rw [patchTarget_apply] at ran ⊢
  rw [size_filled]
  split at ran
  case isFalse => split at ran <;> cases ran
  case isTrue fits =>
      cases ran
      rw [if_pos fits, filled_filled behind, size_filled]
      exact ⟨rfl, inside, trivial⟩

theorem passes_patchOpSite {site : Site} (behind : place < site.offset) (op : Op) :
    Passes place (fun _ => True) (patchOpSite site op) := by
  intro byte buffer _ after inside ran
  rw [patchOpSite_apply] at ran ⊢
  rw [size_filled]
  split at ran
  case isFalse => cases ran
  case isTrue fits =>
      cases ran
      rw [if_pos fits, filled_filled behind, size_filled]
      exact ⟨rfl, inside, trivial⟩

theorem passes_patchTargets {sites : List Site} (behind : ∀ site ∈ sites, place < site.offset)
    (target : Nat) : Passes place (fun _ => True) (patchTargets sites target) := by
  induction sites with
  | nil =>
      intro byte buffer _ after inside ran
      cases ran
      exact ⟨rfl, inside, trivial⟩
  | cons site sites ih =>
      rw [List.forall_mem_cons] at behind
      intro byte buffer result after inside ran
      change
        EStateM.bind (patchTarget site target) (fun _ => patchTargets sites target) _ = _ at ran
      change EStateM.bind (patchTarget site target) (fun _ => patchTargets sites target) _ = _ ∧ _
      rw [EStateM.bind.eq_1] at ran ⊢
      cases first : patchTarget site target buffer with
      | error error middle =>
          rw [first] at ran
          cases ran
      | ok _ middle =>
          rw [first] at ran
          obtain ⟨same, grown, -⟩ := passes_patchTarget behind.1 target byte _ _ _ inside first
          rw [same]
          exact ih behind.2 byte _ _ _ grown ran

end Buffer

/-- All sites of a condition are behind a place. -/
def PendingBranch.Behind (place : Nat) (pending : PendingBranch) : Prop :=
  (∀ site ∈ pending.trueSites, place < site.offset) ∧
    ∀ site ∈ pending.falseSites, place < site.offset

/-- If an expression leaves a condition, all its sites are behind a place. -/
def Compiled.Behind (place : Nat) : Compiled → Prop
  | value _ => True
  | branch pending => pending.Behind place

namespace Emitter

variable {α β : Type} {place : Nat}

/-- The state with a byte of the code filled and the site there closed. -/
def fillAt (emitter : Emitter) (place : Nat) (byte : UInt8) : Emitter :=
  emitter.withBuffer (emitter.buffer.filled place [byte])

/-- The type of an expression does not depend on the code. -/
theorem typeOf_withBuffer (emitter : Emitter) (buffer : Buffer) : (expr : Expr) →
    expr.typeOf (emitter.withBuffer buffer).scopes (emitter.withBuffer buffer).image =
      expr.typeOf emitter.scopes emitter.image
  | .int .. | .double .. | .string .. | .load .. | .call .. => rfl
  | .binary _ _ left right => by
      simp only [Expr.typeOf, typeOf_withBuffer emitter buffer left,
        typeOf_withBuffer emitter buffer right]
  | .unary _ _ operand => by
      simp only [Expr.typeOf, typeOf_withBuffer emitter buffer operand]

/-- An action leads to the same whether an earlier place is filled before it or after it, and its
result is of the given kind. -/
def Passes (place : Nat) (kind : α → Prop) (action : EmitM α) : Prop :=
  ∀ byte emitter result after, place < emitter.buffer.size → action emitter = .ok result after →
    action (emitter.fillAt place byte) = .ok result (after.fillAt place byte) ∧
      place < after.buffer.size ∧ kind result

namespace Passes

variable {kind : α → Prop} {later : β → Prop} {action : EmitM α} {next : α → EmitM β}

theorem pure {result : α} (isKind : kind result) : Passes place kind (pure result) := by
  rintro byte emitter _ _ inside ⟨⟩
  exact ⟨rfl, inside, isKind⟩

theorem throw {error : CompileError} : Passes place kind (throw error) := by
  rintro byte emitter _ _ inside ⟨⟩

theorem bind (first : Passes place kind action)
    (rest : ∀ result, kind result → Passes place later (next result)) :
    Passes place later (action >>= next) := by
  intro byte emitter result after inside ran
  obtain ⟨value, middle, began, ended⟩ := exists_of_bind_eq_ok ran
  obtain ⟨same, grown, isKind⟩ := first byte emitter value middle inside began
  rw [bind_apply, same]
  exact rest value isKind byte middle result after grown ended

/-- A question that is not about the code. -/
theorem ask {question : Emitter → Except CompileError α}
    (same : ∀ emitter buffer, question (emitter.withBuffer buffer) = question emitter) :
    Passes place (fun _ => True) (ask question) := by
  intro byte emitter result after inside ran
  unfold Emitter.ask at ran ⊢
  rw [fillAt, same]
  cases asked : question emitter with
  | error error =>
      rw [asked] at ran
      cases ran
  | ok answer =>
      rw [asked] at ran
      cases ran
      exact ⟨rfl, inside, trivial⟩

theorem offset : Passes place (place < ·) Emitter.offset := by
  rintro byte emitter _ _ inside ⟨⟩
  refine ⟨?_, inside, inside⟩
  change EStateM.Result.ok (emitter.buffer.filled place [byte]).size _ = _
  rw [Buffer.size_filled]

theorem onImage (action : ImageM α) : Passes place (fun _ => True) (onImage action) := by
  intro byte emitter result after inside ran
  obtain ⟨image, scopes, fault⟩ := emitter
  unfold Emitter.onImage at ran ⊢
  dsimp only [fillAt, withBuffer] at ran ⊢
  cases performed : action image with
  | error error changed =>
      rw [performed] at ran
      cases ran
  | ok value changed =>
      rw [performed] at ran
      cases ran
      exact ⟨rfl, inside, trivial⟩

theorem onBuffer {action : BufferM α} (passes : Buffer.Passes place kind action) :
    Passes place kind (onBuffer action) := by
  intro byte emitter result after inside ran
  rw [onBuffer_apply] at ran ⊢
  cases performed : action emitter.buffer with
  | error error buffer =>
      rw [performed] at ran
      cases ran
  | ok value buffer =>
      rw [performed] at ran
      cases ran
      obtain ⟨same, grown, isKind⟩ := passes byte emitter.buffer result buffer inside performed
      rw [fillAt, buffer_withBuffer, same]
      exact ⟨rfl, grown, isKind⟩

theorem write {append : Buffer → Buffer} {bytes : List UInt8}
    (appends : ∀ buffer, append buffer = buffer.append bytes) :
    Passes place (fun _ => True) (write append) := by
  refine onBuffer ?_
  rintro byte buffer _ _ inside ⟨⟩
  rw [appends, Buffer.size_append]
  refine ⟨congrArg (EStateM.Result.ok ()) ?_, Nat.lt_add_right _ inside, trivial⟩
  rw [appends, Buffer.filled_append inside]

theorem emit (op : Op) : Passes place (fun _ => True) (emit op) :=
  write fun buffer => buffer.emit_eq_append op

theorem writeAfter (op : Op) (bytes : List UInt8) :
    Passes place (fun _ => True) (Emitter.write fun buffer => (buffer.emit op).append bytes) :=
  write fun buffer => by
    rw [Buffer.emit_eq_append, Buffer.append_append]

theorem emitWithWord (op : Op) (word : UInt16) :
    Passes place (fun _ => True) (emitWithWord op word) :=
  write fun buffer => by
    rw [Buffer.emitWithWord, Buffer.emitWord, Buffer.emit_eq_append, Buffer.append_append]

theorem emitVarAccess (op : Op) (slot : Slot) (foreign : Bool) :
    Passes place (fun _ => True) (emitVarAccess op slot foreign) := by
  cases foreign with
  | false =>
      refine @write place _ (op.toByte :: littleEndian 2 slot.index.toNat) fun buffer => ?_
      change (buffer.emit op).emitWord slot.index = _
      rw [Buffer.emit_eq_append, Buffer.emitWord, Buffer.append_append]
      rfl
  | true =>
      refine @write place _ (op.toByte :: littleEndian 2 slot.context.toNat ++
        littleEndian 2 slot.index.toNat) fun buffer => ?_
      change ((buffer.emit op).emitWord slot.context).emitWord slot.index = _
      rw [Buffer.emit_eq_append, Buffer.emitWord, Buffer.emitWord, Buffer.append_append,
        Buffer.append_append]
      rfl

theorem emitLoad (slot : Slot) : Passes place (fun _ => True) (emitLoad slot) := by
  have isForeign : Passes place (fun _ => True) (isForeign slot) := by
    rintro byte emitter _ _ inside ⟨⟩
    exact ⟨rfl, inside, trivial⟩
  refine isForeign.bind fun foreign _ => ?_
  cases Op.load? slot.ty foreign with
  | none => exact throw
  | some op => exact emitVarAccess op slot foreign

theorem writeWith {append : Buffer → α × Buffer}
    (grows : ∀ buffer, buffer.size ≤ (append buffer).2.size)
    (commutes : ∀ byte buffer, place < buffer.size → append (buffer.filled place [byte]) =
      ((append buffer).1, (append buffer).2.filled place [byte]))
    (isKind : ∀ buffer, place < buffer.size → kind (append buffer).1) :
    Passes place kind (writeWith append) := by
  refine onBuffer ?_
  rintro byte buffer _ _ inside ⟨⟩
  refine ⟨?_, Nat.lt_of_lt_of_le inside (grows buffer), isKind buffer inside⟩
  dsimp only
  rw [commutes byte buffer inside]

theorem reserveOp : Passes place (place < ·.offset) (Emitter.writeWith (·.reserveOp)) :=
  writeWith (fun _ => by rw [Buffer.size_reserveOp]; omega)
    (fun _ _ inside => Buffer.filled_reserveOp inside) fun _ inside => inside

theorem emitJump : Passes place (place < ·.offset) emitJump :=
  writeWith (fun _ => by rw [Buffer.size_emitJump]; omega)
    (fun _ _ inside => Buffer.filled_emitJump inside) fun buffer inside => by
      change place < (buffer.emit .jump).size
      rw [Buffer.size_emit]
      omega

theorem emitBranch (op : Op) : Passes place (PendingBranch.Behind place) (emitBranch op) := by
  refine writeWith (fun _ => by rw [Buffer.size_emitBranch]; omega)
    (fun _ _ inside => Buffer.filled_emitBranch inside op) fun buffer inside => ?_
  have first : place < (buffer.emit op).size := by
    rw [Buffer.size_emit]
    omega
  have second : place < (buffer.emit op).reserveWord.2.size := by
    rw [Buffer.size_reserveWord]
    omega
  exact ⟨List.forall_mem_singleton.mpr first, List.forall_mem_singleton.mpr second⟩

theorem patch {sites : List Site} (behind : ∀ site ∈ sites, place < site.offset) (target : Nat) :
    Passes place (fun _ => True) (patch sites target) :=
  onBuffer (Buffer.passes_patchTargets behind target)

theorem patchOpSite {site : Site} (behind : place < site.offset) (op : Op) :
    Passes place (fun _ => True) (Emitter.onBuffer (Buffer.patchOpSite site op)) :=
  onBuffer (Buffer.passes_patchOpSite behind op)

theorem forall_mem_none (kind : Site → Prop) : ∀ site ∈ (none : Option Site), kind site := by
  rintro _ ⟨⟩

theorem convert {site : Option Site} (behind : ∀ site' ∈ site, place < site'.offset)
    (source target : Ty) (position : Position) :
    Passes place (fun _ => True) (convert source target site position) := by
  unfold Emitter.convert
  split
  · exact pure trivial
  · cases Op.convert? source target with
    | none => exact throw
    | some op =>
        cases site with
        | none => exact emit op
        | some site => exact patchOpSite (behind site rfl) op

theorem materialize {pending : PendingBranch} (behind : pending.Behind place) (numeric : Numeric) :
    Passes place (fun _ => True) (materialize pending numeric) :=
  offset.bind fun _ _ => (emit _).bind fun _ _ => emitJump.bind fun _ isBehind =>
    offset.bind fun _ _ => (emit _).bind fun _ _ => offset.bind fun _ _ =>
      (patch (List.forall_mem_singleton.mpr isBehind) _).bind fun _ _ =>
        (patch behind.1 _).bind fun _ _ => patch behind.2 _

theorem materializeValue {compiled : Compiled} (behind : compiled.Behind place) :
    Passes place (fun _ => True) (materializeValue compiled) := by
  cases compiled with
  | value ty => exact pure trivial
  | branch pending => exact (materialize behind .int).bind fun _ _ => pure trivial

theorem coerce {compiled : Compiled} (behind : compiled.Behind place) (target : Ty)
    (position : Position) : Passes place (fun _ => True) (coerce compiled target position) := by
  cases compiled with
  | value source => exact convert (forall_mem_none _) source target position
  | branch pending =>
      cases target with
      | int => exact materialize behind .int
      | double => exact materialize behind .double
      | void =>
          refine offset.bind fun next _ => ?_
          rw [onBuffer_resolve]
          exact (patch behind.1 next).bind fun _ _ => patch behind.2 next
      | logic | string | invalid => exact throw

theorem branchOnValue {compiled : Compiled} (behind : compiled.Behind place)
    (position : Position) :
    Passes place (PendingBranch.Behind place) (branchOnValue compiled position) := by
  cases compiled with
  | branch pending => exact pure behind
  | value source =>
      cases source with
      | int => exact (emit _).bind fun _ _ => emitBranch _
      | double =>
          exact (emit _).bind fun _ _ => (emit _).bind fun _ _ => (emit _).bind fun _ _ =>
            emitBranch _
      | logic | string | void | invalid => exact throw

theorem predictedType (expr : Expr) : Passes place (fun _ => True) (predictedType expr) :=
  ask fun emitter buffer => by rw [typeOf_withBuffer]

theorem reserveConversion (leftTy predicted : Ty) :
    Passes place (fun site => ∀ site' ∈ site, place < site'.offset)
      (reserveConversion leftTy predicted) := by
  unfold Emitter.reserveConversion
  split
  · refine reserveOp.bind fun site behind => pure ?_
    rintro _ ⟨⟩
    exact behind
  · exact pure (forall_mem_none _)

theorem numericType (op : BinOp) (leftTy rightTy : Ty) (position : Position) :
    Passes place (fun _ => True) (numericType op leftTy rightTy position) := by
  unfold Emitter.numericType
  dsimp only
  split
  · exact pure trivial
  · exact throw

theorem convertLeft {site : Option Site} (behind : ∀ site' ∈ site, place < site'.offset)
    (op : BinOp) (leftTy common : Ty) (position : Position) :
    Passes place (fun _ => True) (convertLeft op leftTy common position site) := by
  cases site with
  | some site => exact convert behind leftTy common position
  | none =>
      change Passes place _ (if leftTy = common then _ else _)
      split
      · exact pure trivial
      · exact throw

theorem emitOperands {left right : EmitM Compiled}
    (leftPasses : Passes place (Compiled.Behind place) left)
    (rightPasses : Passes place (Compiled.Behind place) right) (op : BinOp) (predicted : Ty)
    (position leftPosition rightPosition : Position) :
    Passes place (fun _ => True)
      (emitOperands op position predicted left leftPosition right rightPosition) :=
  leftPasses.bind fun _ leftBehind => (materializeValue leftBehind).bind fun _ _ =>
    (reserveConversion _ _).bind fun _ siteBehind =>
      rightPasses.bind fun _ rightBehind => (materializeValue rightBehind).bind fun _ _ =>
        (numericType _ _ _ _).bind fun _ _ => (convertLeft siteBehind _ _ _ _).bind fun _ _ =>
          (convert (forall_mem_none _) _ _ _).bind fun _ _ => pure trivial

theorem emitArithmetic (op : ArithOp) (ty : Ty) (position : Position) :
    Passes place (Compiled.Behind place) (emitArithmetic op ty position) := by
  unfold Emitter.emitArithmetic
  cases op.instr? ty with
  | none => exact throw
  | some instr => exact (emit instr).bind fun _ _ => pure trivial

theorem emitComparison (op : Comparison) (ty : Ty) :
    Passes place (Compiled.Behind place) (emitComparison op ty) :=
  (emit _).bind fun _ _ => (emit _).bind fun _ _ => (emitBranch _).bind fun _ behind => pure behind

theorem emitLogical {left right : EmitM PendingBranch}
    (leftPasses : Passes place (PendingBranch.Behind place) left)
    (rightPasses : Passes place (PendingBranch.Behind place) right) (op : Connective) :
    Passes place (Compiled.Behind place) (emitLogical op left right) := by
  refine leftPasses.bind fun leftBranch leftBehind => offset.bind fun start _ => ?_
  cases op with
  | and =>
      refine (patch leftBehind.1 start).bind fun _ _ => ?_
      refine rightPasses.bind fun rightBranch rightBehind => pure ?_
      exact ⟨rightBehind.1, List.forall_mem_append.mpr ⟨leftBehind.2, rightBehind.2⟩⟩
  | or =>
      refine (patch leftBehind.2 start).bind fun _ _ => ?_
      refine rightPasses.bind fun rightBranch rightBehind => pure ?_
      exact ⟨List.forall_mem_append.mpr ⟨leftBehind.1, rightBehind.1⟩, rightBehind.2⟩

theorem emitNegation {compiled : Compiled} (behind : compiled.Behind place)
    (position : Position) :
    Passes place (Compiled.Behind place) (emitNegation compiled position) := by
  refine (materializeValue behind).bind fun ty _ => ?_
  cases Numeric.ofTy? ty with
  | none => exact throw
  | some numeric => exact (emit _).bind fun _ _ => (emit _).bind fun _ _ => pure trivial

mutual

/-- Compiling an expression leaves earlier code alone. -/
theorem emitExpr : (expr : Expr) → Passes place (Compiled.Behind place) (emitExpr expr)
  | .int _ value => by
      rw [Emitter.emitExpr]
      exact (writeAfter .iLoad (littleEndian 8 value.toUInt64.toNat)).bind fun _ _ => pure trivial
  | .double _ value => by
      rw [Emitter.emitExpr]
      exact (writeAfter .dLoad (littleEndian 8 value.bits.toNat)).bind fun _ _ => pure trivial
  | .string _ value => by
      rw [Emitter.emitExpr]
      exact (onImage _).bind fun _ _ => (emitWithWord _ _).bind fun _ _ => pure trivial
  | .load position name => by
      rw [Emitter.emitExpr]
      refine (ask fun _ _ => rfl).bind fun slot _ => ?_
      exact (emitLoad slot).bind fun _ _ => pure trivial
  | .binary position (.logic connective) left right => by
      rw [Emitter.emitExpr]
      exact emitLogical
        ((emitExpr left).bind fun _ behind => branchOnValue behind _)
        ((emitExpr right).bind fun _ behind => branchOnValue behind _) connective
  | .binary position (.compare comparison) left right => by
      rw [Emitter.emitExpr]
      exact (predictedType right).bind fun _ _ =>
        (emitOperands (emitExpr left) (emitExpr right) _ _ _ _ _).bind fun _ _ =>
          emitComparison comparison _
  | .binary position (.arith arith) left right => by
      rw [Emitter.emitExpr]
      exact (predictedType right).bind fun _ _ =>
        (emitOperands (emitExpr left) (emitExpr right) _ _ _ _ _).bind fun _ _ =>
          emitArithmetic arith _ _
  | .unary position .not operand => by
      rw [Emitter.emitExpr]
      exact (emitExpr operand).bind fun _ behind =>
        (branchOnValue behind _).bind fun _ behind => pure ⟨behind.2, behind.1⟩
  | .unary position .neg operand => by
      rw [Emitter.emitExpr]
      exact (emitExpr operand).bind fun _ behind => emitNegation behind _
  | .call position name args => by
      rw [Emitter.emitExpr]
      refine (ask fun _ _ => rfl).bind fun answer _ => ?_
      exact (emitArgs args _).bind fun _ _ => (emitWithWord _ _).bind fun _ _ => pure trivial

theorem emitArgs : (args : List Expr) → (types : List Ty) →
    Passes place (fun _ => True) (emitArgs args types)
  | [], _ => pure trivial
  | arg :: args, types => by
      rw [Emitter.emitArgs]
      exact (emitArgs args types.tail).bind fun _ _ =>
        (emitExpr arg).bind fun _ behind => coerce behind _ _

end

end Passes

end Emitter

end Backpatch
