import Backpatch.Compile

/-!
# Plain actions

Most of a compilation only writes code: it appends to the code of the current function or patches
it, and the names of a program play no part in that.  A plain action may also ask the state a
question, add a string constant, or give a variable its slot.  It numbers no function, enters no
block and ends no function.  What the small actions have in common is so known of expressions and of
all statements without blocks.  Statements with blocks are gone through once, for any property that
tells what an action adds.
-/

namespace Backpatch

/-- The same functions are open, and as many blocks have been entered. -/
structure Scopes.Stays (before after : Scopes) : Prop where
  id : after.current.id = before.current.id
  bodyScope : after.current.bodyScope = before.current.bodyScope
  enclosing : after.enclosing = before.enclosing
  nextScope : after.nextScope = before.nextScope

namespace Scopes

variable {scopes later : Scopes} {name : String} {ty : Ty} {slot : Slot}

theorem stays_of_allocate? {context : Context}
    (given : scopes.current.allocate? ty = some (slot, context)) :
    scopes.Stays { scopes with current := context } := by
  obtain ⟨_, _, same⟩ := Option.bind_eq_some_iff.mp given
  cases same
  exact ⟨rfl, rfl, rfl, rfl⟩

theorem stays_of_declareParam? (given : scopes.declareParam? name ty = some (slot, later)) :
    scopes.Stays later := by
  obtain ⟨_, allocates, same⟩ := Option.bind_eq_some_iff.mp given
  cases same
  exact { stays_of_allocate? allocates with }

theorem stays_of_allocateHidden? (given : scopes.allocateHidden? ty = some (slot, later)) :
    scopes.Stays later := by
  obtain ⟨_, allocates, same⟩ := Option.bind_eq_some_iff.mp given
  cases same
  exact stays_of_allocate? allocates

theorem stays_of_declare? (given : scopes.declare? name ty = some (slot, later)) :
    scopes.Stays later := by
  unfold declare? at given
  split at given
  case h_1 => cases given
  case h_2 =>
      obtain ⟨_, allocates, same⟩ := Option.bind_eq_some_iff.mp given
      cases same
      exact { stays_of_allocate? allocates with }

theorem stays_of_declareFunction? {id : UInt16}
    (given : scopes.declareFunction? name id = some later) : scopes.Stays later := by
  unfold declareFunction? at given
  split at given
  case h_1 => cases given
  case h_2 =>
      split at given
      · cases given
      · cases given
        exact ⟨rfl, rfl, rfl, rfl⟩

end Scopes

/-- What is wrong is told without a name from the program. -/
def Misuse.isNameless : Misuse → Bool
  | tooManyVariables .. | undeclarable .. | badLoopVariable .. => false
  | _ => true

/-- The error tells no name from the program. -/
def CompileError.isNameless : CompileError → Bool
  | undefinedFunction .. | parameterCountMismatch .. | undefinedVariable ..
  | duplicateFunction .. => false
  | invalidOperation misuse _ => misuse.isNameless
  | _ => true

namespace Emitter

/-- The action is made of small ones that look at no more than the number and the code of the
current function, and that change its code only. -/
inductive Coding : {α : Type} → EmitM α → Prop
  | pure {α : Type} (result : α) : Coding (pure result)
  | throw {α : Type} {error : CompileError} (nameless : error.isNameless = true) :
      Coding (throw error : EmitM α)
  | bind {α β : Type} {action : EmitM α} {next : α → EmitM β} (first : Coding action)
      (rest : ∀ result, Coding (next result)) : Coding (action >>= next)
  | observe {α : Type} (question : UInt16 → Buffer → α) :
      Coding (do
        let emitter ← get
        return question emitter.scopes.current.id emitter.buffer)
  | onBuffer {α : Type} (action : BufferM α) : Coding (onBuffer action)

namespace Coding

attribute [simp] pure onBuffer

@[simp]
theorem offset : Coding Emitter.offset :=
  observe fun _ buffer => buffer.size

theorem write (append : Buffer → Buffer) : Coding (write append) := by
  unfold Emitter.write
  exact onBuffer _

theorem writeWith {α : Type} (append : Buffer → α × Buffer) : Coding (writeWith append) := by
  unfold Emitter.writeWith
  exact onBuffer _

@[simp]
theorem emit (op : Op) : Coding (emit op) :=
  write _

@[simp]
theorem emitWithWord (op : Op) (word : UInt16) : Coding (emitWithWord op word) :=
  write _

@[simp]
theorem emitJump : Coding emitJump :=
  writeWith _

@[simp]
theorem emitBranch (op : Op) : Coding (emitBranch op) :=
  writeWith _

@[simp]
theorem patch (sites : List Site) (target : Nat) : Coding (patch sites target) :=
  onBuffer _

@[simp]
theorem emitJumpTo (target : Nat) : Coding (emitJumpTo target) := by
  unfold Emitter.emitJumpTo
  split
  · exact throw rfl
  · exact emitWithWord _ _

theorem isForeign (slot : Slot) : Coding (isForeign slot) :=
  observe fun id _ => slot.context != id

@[simp]
theorem emitLoad (slot : Slot) : Coding (emitLoad slot) := by
  refine (isForeign slot).bind fun foreign => ?_
  cases Op.load? slot.ty foreign with
  | none => exact throw rfl
  | some op => exact write _

@[simp]
theorem emitStore (slot : Slot) : Coding (emitStore slot) := by
  refine (isForeign slot).bind fun foreign => ?_
  cases Op.store? slot.ty foreign with
  | none => exact throw rfl
  | some op => exact write _

@[simp]
theorem convert (source target : Ty) (site : Option Site) (position : Position) :
    Coding (convert source target site position) := by
  unfold Emitter.convert
  split
  · exact pure _
  · cases Op.convert? source target with
    | none => exact throw rfl
    | some op =>
        cases site with
        | none => exact emit op
        | some site => exact onBuffer _

theorem materialize (pending : PendingBranch) (numeric : Numeric) :
    Coding (materialize pending numeric) :=
  offset.bind fun _ => (emit _).bind fun _ => emitJump.bind fun _ => offset.bind fun _ =>
    (emit _).bind fun _ => offset.bind fun _ => (patch _ _).bind fun _ =>
      (patch _ _).bind fun _ => patch _ _

@[simp]
theorem materializeValue (compiled : Compiled) : Coding (materializeValue compiled) := by
  cases compiled with
  | value ty => exact pure _
  | branch pending => exact (materialize pending .int).bind fun _ => pure _

@[simp]
theorem resolve (pending : PendingBranch) :
    Coding (do Emitter.onBuffer (pending.resolve (← Emitter.offset))) :=
  offset.bind fun _ => onBuffer _

@[simp]
theorem coerce (compiled : Compiled) (target : Ty) (position : Position) :
    Coding (coerce compiled target position) := by
  cases compiled with
  | value source => exact convert source target none position
  | branch pending =>
      cases target with
      | int => exact materialize pending .int
      | double => exact materialize pending .double
      | void => exact resolve pending
      | logic | string | invalid => exact throw rfl

@[simp]
theorem branchOnValue (compiled : Compiled) (position : Position) :
    Coding (branchOnValue compiled position) := by
  cases compiled with
  | branch pending => exact pure _
  | value ty =>
      cases ty with
      | int => exact (emit _).bind fun _ => emitBranch _
      | double =>
          exact (emit _).bind fun _ => (emit _).bind fun _ => (emit _).bind fun _ => emitBranch _
      | logic | string | void | invalid => exact throw rfl

@[simp]
theorem reserveConversion (leftTy predicted : Ty) :
    Coding (reserveConversion leftTy predicted) := by
  unfold Emitter.reserveConversion
  split
  · exact (writeWith _).bind fun _ => pure _
  · exact pure _

@[simp]
theorem numericType (op : BinOp) (leftTy rightTy : Ty) (position : Position) :
    Coding (numericType op leftTy rightTy position) := by
  unfold Emitter.numericType
  dsimp only
  split
  · exact pure _
  · exact throw rfl

@[simp]
theorem convertLeft (op : BinOp) (leftTy common : Ty) (position : Position) (site : Option Site) :
    Coding (convertLeft op leftTy common position site) := by
  cases site with
  | some site => exact convert leftTy common (some site) position
  | none =>
      simp only [Emitter.convertLeft]
      split
      · exact pure _
      · exact throw rfl

/-- What is left to be done when both operands are written. -/
theorem convertOperands (op : BinOp) (position leftPosition rightPosition : Position) (leftTy : Ty)
    (site : Option Site) (compiled : Compiled) :
    Coding (do
      let rightTy ← Emitter.materializeValue compiled
      let common ← Emitter.numericType op leftTy rightTy position
      Emitter.convertLeft op leftTy common leftPosition site
      Emitter.convert rightTy common none rightPosition
      return common) :=
  (materializeValue _).bind fun _ => (numericType _ _ _ _).bind fun _ =>
    (convertLeft _ _ _ _ _).bind fun _ => (convert _ _ _ _).bind fun _ => pure _

@[simp]
theorem emitArithmetic (op : ArithOp) (ty : Ty) (position : Position) :
    Coding (emitArithmetic op ty position) := by
  unfold Emitter.emitArithmetic
  cases op.instr? ty with
  | none => exact throw rfl
  | some instr => exact (emit _).bind fun _ => pure _

@[simp]
theorem emitComparison (op : Comparison) (ty : Ty) : Coding (emitComparison op ty) :=
  (emit _).bind fun _ => (emit _).bind fun _ => (emitBranch _).bind fun _ => pure _

@[simp]
theorem emitNegation (compiled : Compiled) (position : Position) :
    Coding (emitNegation compiled position) := by
  refine (materializeValue compiled).bind fun ty => ?_
  cases Numeric.ofTy? ty with
  | none => exact throw rfl
  | some numeric => exact (emit _).bind fun _ => (emit _).bind fun _ => pure _

end Coding

/-- The action is made of small ones that number no function, enter no block and end no function. -/
inductive Plain : {α : Type} → EmitM α → Prop
  | pure {α : Type} (result : α) : Plain (pure result)
  | throw {α : Type} (error : CompileError) : Plain (throw error : EmitM α)
  | bind {α β : Type} {action : EmitM α} {next : α → EmitM β} (first : Plain action)
      (rest : ∀ result, Plain (next result)) : Plain (action >>= next)
  | get : Plain (MonadState.get : EmitM Emitter)
  | ask {α : Type} (question : Emitter → Except CompileError α) : Plain (ask question)
  | onBuffer {α : Type} (action : BufferM α) : Plain (onBuffer action)
  | constant (value : String) : Plain (onImage (Image.internConstant value))
  | onScopes {α : Type} {change : Scopes → Option (α × Scopes)} (error : CompileError)
      (stays : ∀ scopes result later, change scopes = some (result, later) → scopes.Stays later) :
      Plain (onScopes change error)

theorem Coding.plain {α : Type} {action : EmitM α} (coding : Coding action) : Plain action := by
  induction coding with
  | pure result => exact .pure result
  | throw => exact .throw _
  | bind _ _ ihFirst ihRest => exact ihFirst.bind ihRest
  | observe question => exact Plain.get.bind fun _ => .pure _
  | onBuffer action => exact .onBuffer action

namespace Plain

variable {α : Type}

theorem forM {action : α → EmitM Unit} (each : ∀ item, Plain (action item)) (items : List α) :
    Plain (items.forM action) := by
  induction items with
  | nil => exact .pure ()
  | cons item items ih => exact (each item).bind fun _ => ih

theorem offset : Plain Emitter.offset :=
  Coding.offset.plain

theorem emit (op : Op) : Plain (emit op) :=
  (Coding.emit op).plain

theorem emitWithWord (op : Op) (word : UInt16) : Plain (emitWithWord op word) :=
  (Coding.emitWithWord op word).plain

theorem emitJump : Plain emitJump :=
  Coding.emitJump.plain

theorem emitBranch (op : Op) : Plain (emitBranch op) :=
  (Coding.emitBranch op).plain

theorem patch (sites : List Site) (target : Nat) : Plain (patch sites target) :=
  (Coding.patch sites target).plain

theorem emitJumpTo (target : Nat) : Plain (emitJumpTo target) :=
  (Coding.emitJumpTo target).plain

theorem emitLoad (slot : Slot) : Plain (emitLoad slot) :=
  (Coding.emitLoad slot).plain

theorem emitStore (slot : Slot) : Plain (emitStore slot) :=
  (Coding.emitStore slot).plain

theorem emitOperands (op : BinOp) (position leftPosition rightPosition : Position) (predicted : Ty)
    {left right : EmitM Compiled} (leftPlain : Plain left) (rightPlain : Plain right) :
    Plain (emitOperands op position predicted left leftPosition right rightPosition) :=
  leftPlain.bind fun _ => (Coding.materializeValue _).plain.bind fun _ =>
    (Coding.reserveConversion _ _).plain.bind fun _ => rightPlain.bind fun _ =>
      (Coding.convertOperands _ _ _ _ _ _ _).plain

theorem emitLogical (op : Connective) {left right : EmitM PendingBranch} (leftPlain : Plain left)
    (rightPlain : Plain right) : Plain (emitLogical op left right) := by
  cases op with
  | and =>
      exact leftPlain.bind fun _ => offset.bind fun _ => (patch _ _).bind fun _ =>
        rightPlain.bind fun _ => pure _
  | or =>
      exact leftPlain.bind fun _ => offset.bind fun _ => (patch _ _).bind fun _ =>
        rightPlain.bind fun _ => pure _

mutual

theorem emitExpr : (expr : Expr) → Plain (emitExpr expr)
  | .int _ _ | .double _ _ => (Coding.write _).plain.bind fun _ => pure _
  | .string _ _ => (constant _).bind fun _ => (emitWithWord _ _).bind fun _ => pure _
  | .load _ _ => (ask _).bind fun slot => (emitLoad slot).bind fun _ => pure _
  | .binary _ (.logic connective) left right =>
      emitLogical connective ((emitExpr left).bind fun _ => (Coding.branchOnValue _ _).plain)
        ((emitExpr right).bind fun _ => (Coding.branchOnValue _ _).plain)
  | .binary _ (.compare comparison) left right =>
      (ask _).bind fun _ =>
        (emitOperands _ _ _ _ _ (emitExpr left) (emitExpr right)).bind fun ty =>
          (Coding.emitComparison comparison ty).plain
  | .binary _ (.arith arith) left right =>
      (ask _).bind fun _ =>
        (emitOperands _ _ _ _ _ (emitExpr left) (emitExpr right)).bind fun ty =>
          (Coding.emitArithmetic arith ty _).plain
  | .unary _ .not operand =>
      (emitExpr operand).bind fun _ => (Coding.branchOnValue _ _).plain.bind fun _ => pure _
  | .unary _ .neg operand => (emitExpr operand).bind fun _ => (Coding.emitNegation _ _).plain
  | .call _ _ args =>
      (ask _).bind fun _ => (emitArgs args _).bind fun _ => (emitWithWord _ _).bind fun _ => pure _

theorem emitArgs : (args : List Expr) → (types : List Ty) → Plain (emitArgs args types)
  | [], _ => pure _
  | arg :: args, types =>
      (emitArgs args types.tail).bind fun _ => (emitExpr arg).bind fun _ =>
        (Coding.coerce _ _ _).plain

end

theorem emitCondition (expr : Expr) : Plain (emitCondition expr) :=
  (emitExpr expr).bind fun _ => (Coding.branchOnValue _ _).plain

theorem emitAs (expr : Expr) (ty : Ty) : Plain (emitAs expr ty) :=
  (emitExpr expr).bind fun _ => (Coding.coerce _ _ _).plain

theorem emitAssignment (position : Position) (name : String) (op : StoreOp) (value : Expr) :
    Plain (emitAssignment position name op value) := by
  refine (ask _).bind fun slot => ?_
  cases op.update? with
  | none => exact (emitAs value slot.ty).bind fun _ => emitStore slot
  | some arith =>
      cases instrEq : arith.instr? slot.ty with
      | none => simpa only [instrEq] using throw _
      | some instr =>
          simpa only [instrEq] using
            (emitLoad slot).bind fun _ => (emitAs value slot.ty).bind fun _ =>
              (emit instr).bind fun _ => emitStore slot

theorem emitPrint (arg : Expr) : Plain (emitPrint arg) := by
  refine (emitExpr arg).bind fun _ => (Coding.materializeValue _).plain.bind fun ty => ?_
  cases Op.print? ty with
  | none => exact throw _
  | some op => exact emit op

theorem emitReturn (value : Option Expr) (position : Position) :
    Plain (emitReturn value position) := by
  refine get.bind fun emitter => ?_
  cases value with
  | none =>
      dsimp only
      split
      · exact emit _
      · exact throw _
  | some value =>
      dsimp only
      split
      · exact throw _
      · exact (emitAs value _).bind fun _ => emit _

theorem emitDiscarded (value : Expr) : Plain (emitDiscarded value) := by
  refine (emitExpr value).bind fun compiled => ?_
  cases compiled with
  | branch pending => exact (Coding.resolve pending).plain
  | value ty =>
      cases ty with
      | void => exact pure _
      | logic | int | double | string | invalid => exact emit _

theorem allocateHidden (ty : Ty) (error : CompileError) :
    Plain (Emitter.onScopes (·.allocateHidden? ty) error) :=
  onScopes error fun _ _ _ => Scopes.stays_of_allocateHidden?

theorem declareVar (var : VarDecl) : Plain (declareVar var) :=
  (onScopes _ fun _ _ _ => Scopes.stays_of_declare?).bind fun _ => pure _

theorem emitParam (position : Position) (param : ParamDecl) : Plain (emitParam position param) :=
  (onScopes _ fun _ _ _ => Scopes.stays_of_declareParam?).bind fun slot => emitStore slot

end Plain

/-- A property of actions that tells from which stage of a compilation to which they lead, and what
they add on the way.  Writing code adds nothing, an expression adds what is given for it, and
actions in a row add together what each of them adds. -/
structure Graded {Stage Sum : Type} (holds : {α : Type} → Stage → Stage → Sum → EmitM α → Prop)
    (nothing : Sum) (plus : Sum → Sum → Sum) (ofExpr : Expr → Sum) : Prop where
  nothing_plus : ∀ s, plus nothing s = s
  plus_nothing : ∀ s, plus s nothing = s
  coding : ∀ {α : Type} {action : EmitM α} {i : Stage}, Coding action → holds i i nothing action
  ask : ∀ {α : Type} {i : Stage} (question : Emitter → Except CompileError α),
    holds i i nothing (ask question)
  allocate : ∀ {i : Stage} (ty : Ty) (error : CompileError),
    holds i i nothing (onScopes (·.allocateHidden? ty) error)
  throw : ∀ {α : Type} {i j : Stage} {s : Sum} (error : CompileError),
    holds i j s (throw error : EmitM α)
  condition : ∀ {i : Stage} (expr : Expr), holds i i (ofExpr expr) (emitCondition expr)
  valueAs : ∀ {i : Stage} (expr : Expr) (ty : Ty), holds i i (ofExpr expr) (emitAs expr ty)
  bind : ∀ {α β : Type} {i j k : Stage} {s t : Sum} {action : EmitM α} {next : α → EmitM β},
    holds i j s action → (∀ result, holds j k t (next result)) →
      holds i k (plus s t) (action >>= next)

namespace Graded

variable {Stage Sum : Type} {holds : {α : Type} → Stage → Stage → Sum → EmitM α → Prop}
  {nothing : Sum} {plus : Sum → Sum → Sum} {ofExpr : Expr → Sum} {i j k : Stage} {s t : Sum}

/-- If expressions add nothing, it is enough to know of plain actions that they do not either. -/
theorem of_plain (nothing_plus : ∀ s, plus nothing s = s) (plus_nothing : ∀ s, plus s nothing = s)
    (plain : ∀ {α : Type} {action : EmitM α} {i : Stage}, Plain action → holds i i nothing action)
    (throw : ∀ {α : Type} {i j : Stage} {s : Sum} (error : CompileError),
      holds i j s (MonadExcept.throw error : EmitM α))
    (bind : ∀ {α β : Type} {i j k : Stage} {s t : Sum} {action : EmitM α} {next : α → EmitM β},
      holds i j s action → (∀ result, holds j k t (next result)) →
        holds i k (plus s t) (action >>= next)) :
    Graded holds nothing plus fun _ => nothing where
  nothing_plus := nothing_plus
  plus_nothing := plus_nothing
  coding coding := plain coding.plain
  ask question := plain (.ask question)
  allocate ty error := plain (.allocateHidden ty error)
  throw := throw
  condition expr := plain (.emitCondition expr)
  valueAs expr ty := plain (.emitAs expr ty)
  bind := bind

variable (graded : Graded holds nothing plus ofExpr)

include graded

/-- What comes first adds nothing. -/
theorem seq {α β : Type} {action : EmitM α} {next : α → EmitM β} (first : holds i j nothing action)
    (rest : ∀ result, holds j k s (next result)) : holds i k s (action >>= next) :=
  graded.nothing_plus s ▸ graded.bind first rest

theorem after_coding {α β : Type} {action : EmitM α} {next : α → EmitM β} (coding : Coding action)
    (rest : ∀ result, holds i j s (next result)) : holds i j s (action >>= next) :=
  graded.seq (graded.coding coding) rest

theorem before_coding {α β : Type} {action : EmitM α} {next : α → EmitM β}
    (first : holds i j s action) (coding : ∀ result, Coding (next result)) :
    holds i j s (action >>= next) :=
  graded.plus_nothing s ▸ graded.bind first fun result => graded.coding (coding result)

/-- The condition is written behind both blocks. -/
theorem emitIf {thenBlock elseBlock : EmitM Unit} (cond : Expr) (one : holds i j s thenBlock)
    (two : holds j k t elseBlock) :
    holds i k (plus s (plus t (ofExpr cond))) (emitIf cond thenBlock elseBlock) := by
  refine graded.after_coding .emitJump fun _ => graded.after_coding .offset fun _ =>
    graded.bind one fun _ => ?_
  refine graded.after_coding .emitJump fun _ => graded.after_coding .offset fun _ =>
    graded.bind two fun _ => ?_
  refine graded.after_coding .emitJump fun _ => graded.after_coding .offset fun _ =>
    graded.after_coding (.patch _ _) fun _ => ?_
  exact graded.before_coding (graded.condition cond) fun _ =>
    (Coding.patch _ _).bind fun _ => (Coding.patch _ _).bind fun _ =>
      Coding.offset.bind fun _ => .patch _ _

theorem emitWhile {body : EmitM Unit} (cond : Expr) (one : holds i j s body) :
    holds i j (plus (ofExpr cond) s) (emitWhile cond body) := by
  refine graded.after_coding .offset fun _ => graded.bind (graded.condition cond) fun _ => ?_
  refine graded.after_coding .offset fun _ => graded.before_coding one fun _ => ?_
  exact (Coding.emitJumpTo _).bind fun _ => Coding.offset.bind fun _ =>
    (Coding.patch _ _).bind fun _ => .patch _ _

theorem emitFor {body : EmitM Unit} (position : Position) (name : String) (low high : Expr)
    (one : holds i j s body) :
    holds i j (plus (ofExpr low) (plus (ofExpr high) s))
      (emitFor position name low high body) := by
  refine graded.seq (graded.ask _) fun slot => ?_
  cases Numeric.ofTy? slot.ty with
  | none => exact graded.throw _
  | some numeric =>
      refine graded.seq (graded.allocate _ _) fun bound => ?_
      refine graded.bind (graded.valueAs low _) fun _ => ?_
      refine graded.after_coding (.emitStore slot) fun _ => ?_
      refine graded.bind (graded.valueAs high _) fun _ => ?_
      refine graded.after_coding (.emitStore bound) fun _ => ?_
      -- The test is written before the body, and the step to the next value behind it.
      refine graded.after_coding .offset fun _ => graded.after_coding (.emitLoad slot) fun _ =>
        graded.after_coding (.emitLoad bound) fun _ => graded.after_coding (.emit _) fun _ =>
          graded.after_coding (.emit _) fun _ => graded.after_coding (.emitBranch _) fun _ =>
            graded.after_coding .offset fun _ => graded.before_coding one fun _ => ?_
      exact (Coding.emitLoad slot).bind fun _ => (Coding.emit _).bind fun _ =>
        (Coding.emit _).bind fun _ => (Coding.emitStore slot).bind fun _ =>
          (Coding.emitJumpTo _).bind fun _ => Coding.offset.bind fun _ =>
            (Coding.patch _ _).bind fun _ => .patch _ _

end Graded

/-- A property of actions that plain ones have, and that actions have together if each of them has
it. -/
structure Composes (holds : {α : Type} → EmitM α → Prop) : Prop where
  plain : ∀ {α : Type} {action : EmitM α}, Plain action → holds action
  bind : ∀ {α β : Type} {action : EmitM α} {next : α → EmitM β}, holds action →
    (∀ result, holds (next result)) → holds (action >>= next)

namespace Composes

variable {holds : {α : Type} → EmitM α → Prop} (composes : Composes holds)

include composes

/-- There is one stage only, and nothing is ever added. -/
theorem graded :
    Graded (fun (_ _ _ : Unit) action => holds action) () (fun _ _ => ()) fun _ => () :=
  .of_plain (fun _ => rfl) (fun _ => rfl) composes.plain (fun _ => composes.plain (.throw _))
    composes.bind

theorem emitIf {thenBlock elseBlock : EmitM Unit} (cond : Expr) (one : holds thenBlock)
    (two : holds elseBlock) : holds (emitIf cond thenBlock elseBlock) :=
  composes.graded.emitIf (i := ()) (j := ()) (k := ()) (s := ()) (t := ()) cond one two

theorem emitWhile {body : EmitM Unit} (cond : Expr) (one : holds body) :
    holds (emitWhile cond body) :=
  composes.graded.emitWhile (i := ()) (j := ()) (s := ()) cond one

theorem emitFor {body : EmitM Unit} (position : Position) (name : String) (low high : Expr)
    (one : holds body) : holds (emitFor position name low high body) :=
  composes.graded.emitFor (i := ()) (j := ()) (s := ()) position name low high one

end Composes

end Emitter

end Backpatch
