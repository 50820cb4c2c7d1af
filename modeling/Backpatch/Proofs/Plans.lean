import Backpatch.Proofs.SitesInside

/-!
# Plans of a compilation

A compilation is one action, and its result says nothing about the states on the way to it.  A
*plan* of an action tells the small actions that it is made of, where it asks for the type of an
operand, and where it compiles an expression.  Since it is indexed by the action, the parts of a
plan make up the whole of the action.

A plan can be carried out with a table of the types that have been found so far, which then answers
for the nodes in it.  It also gives all moments that such a compilation passes through: those before
each small action, and those before each expression that is about to be compiled.  The nodes of a
whole program share one table, so each has an address of its own: below the address of a statement,
a list or a block, the parts of it are numbered.
-/

namespace Backpatch

theorem exists_of_run' {ε σ α : Type} {action : EStateM ε σ α} {state : σ} {result : α}
    (leaves : action.run' state = some result) : ∃ after, action state = .ok result after := by
  unfold EStateM.run' EStateM.run at leaves
  cases ran : action state with
  | ok other after =>
      simp only [ran] at leaves
      cases leaves
      exact ⟨after, rfl⟩
  | error error after =>
      simp only [ran] at leaves
      cases leaves

namespace Emitter

/-- The state of a compilation that notes down the types it has found. -/
structure Caching where
  emitter : Emitter
  types : TypeTable

/-- Actions of a compilation that notes down types. -/
abbrev CachingM := EStateM CompileError Caching

namespace Caching

variable {α β : Type}

/-- The outcome of an action, together with a table. -/
def attach (types : TypeTable) :
    EStateM.Result CompileError Emitter α → EStateM.Result CompileError Caching α
  | .ok result emitter => .ok result ⟨emitter, types⟩
  | .error error emitter => .error error ⟨emitter, types⟩

/-- The type of the expression at a node, with the help of the table. -/
def typeOf (state : Caching) (node : NodePath) (expr : Expr) : Except CompileError Ty :=
  match expr.typeOfMemo state.emitter.scopes state.emitter.image node state.types with
  | .ok ty _ => .ok ty
  | .error error _ => .error error

/-- The type that an operand is expected to have as a value, with the help of the table. -/
def predictedType (node : NodePath) (expr : Expr) : CachingM Ty := fun ⟨emitter, types⟩ =>
  match expr.typeOfMemo emitter.scopes emitter.image node types with
  | .ok ty types => .ok ty.asValue ⟨emitter, types⟩
  | .error _ types => .ok .invalid ⟨emitter, types⟩

/-- Run an action; if it fails, keep its error unless there is an earlier one, and go on with the
given result. -/
def latch (default : α) (action : CachingM α) : CachingM α := fun state =>
  match action state with
  | .ok result state => .ok result state
  | .error error ⟨emitter, types⟩ =>
      .ok default ⟨{ emitter with fault := emitter.fault.or (some error) }, types⟩

theorem bind_apply (action : CachingM α) (next : α → CachingM β) (state : Caching) :
    (action >>= next) state =
      match action state with
      | .ok result later => next result later
      | .error error later => .error error later := by
  change EStateM.bind action next state = _
  rw [EStateM.bind]
  cases action state <;> rfl

end Caching

/-- A state that a compilation passes through, and the expression that is about to be compiled
there, if there is one, with its address. -/
structure Moment where
  state : Caching
  next : Option (NodePath × Expr)

/-- How an action is made of smaller ones. -/
inductive Plan : {α : Type} → EmitM α → Type 1
  /-- A small action, which asks for no type and compiles no expression. -/
  | act {α : Type} {action : EmitM α} (orderly : Orderly action) : Plan action
  | bind {α β : Type} {action : EmitM α} {next : α → EmitM β} (first : Plan action)
      (rest : (result : α) → Plan (next result)) : Plan (action >>= next)
  /-- Find out the type of the operand at a node. -/
  | predict (node : NodePath) (operand : Expr) : Plan (predictedType operand)
  /-- Compile the expression at a node. -/
  | expr (node : NodePath) (value : Expr) (code : Plan (emitExpr value)) : Plan (emitExpr value)
  | latch {α : Type} (default : α) {action : EmitM α} (inner : Plan action) :
      Plan (Emitter.latch default action)
  | unlessFailed {action : EmitM Unit} (inner : Plan action) : Plan (Emitter.unlessFailed action)

namespace Plan

variable {α β : Type}

/-- Carry out a plan with a table of types. -/
def run {α : Type} {action : EmitM α} : Plan action → CachingM α
  | act _ => fun state => Caching.attach state.types (action state.emitter)
  | bind first rest => first.run >>= fun result => (rest result).run
  | predict node operand => Caching.predictedType node operand
  | expr _ _ code => code.run
  | latch default inner => Caching.latch default inner.run
  | unlessFailed inner => fun state =>
      if state.emitter.fault.isSome then .ok () state else inner.run state

/-- The moments that a plan passes through. -/
def moments {α : Type} {action : EmitM α} : Plan action → Caching → List Moment
  | act _, state => [⟨state, none⟩]
  | bind first rest, state =>
      first.moments state ++
        match first.run state with
        | .ok result after => (rest result).moments after
        | .error _ _ => []
  | predict _ _, state => [⟨state, none⟩]
  | expr node value code, state => ⟨state, some (node, value)⟩ :: code.moments state
  | latch _ inner, state => inner.moments state
  | unlessFailed inner, state =>
      if state.emitter.fault.isSome then [⟨state, none⟩] else inner.moments state

/-- A plan with two ways. -/
def ite (cond : Prop) [decision : Decidable cond] {one two : EmitM α} (yes : Plan one)
    (no : Plan two) : Plan (if cond then one else two) :=
  match decision with
  | isTrue _ => yes
  | isFalse _ => no

def operands (op : BinOp) (position leftPosition rightPosition : Position) (predicted : Ty)
    {left right : EmitM Compiled} (leftPlan : Plan left) (rightPlan : Plan right) :
    Plan (emitOperands op position predicted left leftPosition right rightPosition) :=
  leftPlan.bind fun _ => (act (.materializeValue _)).bind fun _ =>
    (act (.reserveConversion _ _)).bind fun _ => rightPlan.bind fun _ =>
      act (.convertOperands _ _ _ _ _ _ _)

def logical (op : Connective) {left right : EmitM PendingBranch} (leftPlan : Plan left)
    (rightPlan : Plan right) : Plan (emitLogical op left right) :=
  match op with
  | .and =>
      leftPlan.bind fun _ => (act .offset).bind fun _ => (act (.patch _ _)).bind fun _ =>
        rightPlan.bind fun _ => act (.pure _)
  | .or =>
      leftPlan.bind fun _ => (act .offset).bind fun _ => (act (.patch _ _)).bind fun _ =>
        rightPlan.bind fun _ => act (.pure _)

mutual

/-- The plan of the expression at a node. -/
def ofExpr (node : NodePath) : (value : Expr) → Plan (emitExpr value)
  | .int position value =>
      .expr node (.int position value) <| .act <|
        (Orderly.write fun _ inside => (inside.emit .iLoad).append _).bind fun _ => .pure _
  | .double position value =>
      .expr node (.double position value) <| .act <|
        (Orderly.write fun _ inside => (inside.emit .dLoad).append _).bind fun _ => .pure _
  | .string position value =>
      .expr node (.string position value) <| .act <|
        (Orderly.onImage _).bind fun _ => (Orderly.emitWithWord _ _).bind fun _ => .pure _
  | .load position name =>
      .expr node (.load position name) <| .act <|
        (Orderly.ask _).bind fun slot => (Orderly.emitLoad slot).bind fun _ => .pure _
  | .binary position (.logic connective) left right =>
      .expr node (.binary position (.logic connective) left right) <|
        logical connective
          ((ofExpr (0 :: node) left).bind fun _ => act (.branchOnValue _ _))
          ((ofExpr (1 :: node) right).bind fun _ => act (.branchOnValue _ _))
  | .binary position (.compare comparison) left right =>
      .expr node (.binary position (.compare comparison) left right) <|
        (predict (1 :: node) right).bind fun _ =>
          (operands _ _ _ _ _ (ofExpr (0 :: node) left) (ofExpr (1 :: node) right)).bind fun _ =>
            act (.emitComparison _ _)
  | .binary position (.arith arith) left right =>
      .expr node (.binary position (.arith arith) left right) <|
        (predict (1 :: node) right).bind fun _ =>
          (operands _ _ _ _ _ (ofExpr (0 :: node) left) (ofExpr (1 :: node) right)).bind fun _ =>
            act (.emitArithmetic _ _ _)
  | .unary position .not operand =>
      .expr node (.unary position .not operand) <|
        (ofExpr (0 :: node) operand).bind fun _ =>
          act ((Orderly.branchOnValue _ _).bind fun _ => .pure _)
  | .unary position .neg operand =>
      .expr node (.unary position .neg operand) <|
        (ofExpr (0 :: node) operand).bind fun _ => act (.emitNegation _ _)
  | .call position name args =>
      .expr node (.call position name args) <|
        (act (.ask _)).bind fun _ => (ofArgs node args _).bind fun _ =>
          act ((Orderly.emitWithWord _ _).bind fun _ => .pure _)

/-- The plan of arguments; their addresses are those of a list. -/
def ofArgs (node : NodePath) :
    (args : List Expr) → (types : List Ty) → Plan (emitArgs args types)
  | [], _ => act (.pure _)
  | arg :: args, types =>
      (ofArgs (1 :: node) args types.tail).bind fun _ =>
        (ofExpr (0 :: node) arg).bind fun _ => act (.coerce _ _ _)

end

def condition (node : NodePath) (expr : Expr) : Plan (emitCondition expr) :=
  (ofExpr node expr).bind fun _ => act (.branchOnValue _ _)

def valueAs (node : NodePath) (expr : Expr) (ty : Ty) : Plan (emitAs expr ty) :=
  (ofExpr node expr).bind fun _ => act (.coerce _ _ _)

/-- The plan of an assignment that begins with the value of its variable. -/
def update (node : NodePath) (slot : Slot) (value : Expr) (refusal : CompileError) :
    (instr? : Option Op) →
      Plan (match instr? with
        | none => throw refusal
        | some instr => do
            emitLoad slot
            emitAs value slot.ty
            emit instr
            emitStore slot)
  | none => act (.throw refusal)
  | some instr =>
      (act (.emitLoad slot)).bind fun _ => (valueAs (0 :: node) value slot.ty).bind fun _ =>
        act ((Orderly.emit instr).bind fun _ => .emitStore slot)

def assignment (node : NodePath) (position : Position) (name : String) (op : StoreOp)
    (value : Expr) : Plan (emitAssignment position name op value) :=
  (act (.ask _)).bind fun slot =>
    match op.update? with
    | none => (valueAs (0 :: node) value slot.ty).bind fun _ => act (.emitStore slot)
    | some arith => update node slot value _ (arith.instr? slot.ty)

def print (node : NodePath) (arg : Expr) : Plan (emitPrint arg) :=
  (ofExpr node arg).bind fun _ => (act (.materializeValue _)).bind fun ty =>
    act (by
      cases Op.print? ty with
      | none => exact .throw _
      | some op => exact .emit op)

def prints (node : NodePath) : (args : List Expr) → Plan (args.forM emitPrint)
  | [] => act (.pure ())
  | arg :: args => (print (0 :: node) arg).bind fun _ => prints (1 :: node) args

def return_ (node : NodePath) (position : Position) :
    (value : Option Expr) → Plan (emitReturn value position)
  | none => (act .get).bind fun _ => ite _ (act (.emit .ret)) (act (.throw _))
  | some value =>
      (act .get).bind fun _ =>
        ite _ (act (.throw _)) ((valueAs (0 :: node) value _).bind fun _ => act (.emit .ret))

def discarded (node : NodePath) (value : Expr) : Plan (emitDiscarded value) :=
  (ofExpr (0 :: node) value).bind fun compiled =>
    act (by
      rcases compiled with ty | pending
      · cases ty with
        | void => exact .pure ()
        | logic | int | double | string | invalid => exact .emit .pop
      · exact Orderly.resolve pending)

def ifElse (node : NodePath) (cond : Expr) {thenBlock elseBlock : EmitM Unit}
    (thenPlan : Plan thenBlock) (elsePlan : Plan elseBlock) :
    Plan (emitIf cond thenBlock elseBlock) :=
  (act .emitJump).bind fun _ => (act .offset).bind fun _ => thenPlan.bind fun _ =>
    (act .emitJump).bind fun _ => (act .offset).bind fun _ => elsePlan.bind fun _ =>
      (act .emitJump).bind fun _ => (act .offset).bind fun _ => (act (.patch _ _)).bind fun _ =>
        (condition (0 :: node) cond).bind fun _ => (act (.patch _ _)).bind fun _ =>
          (act (.patch _ _)).bind fun _ => (act .offset).bind fun _ => act (.patch _ _)

def whileDo (node : NodePath) (cond : Expr) {body : EmitM Unit} (bodyPlan : Plan body) :
    Plan (emitWhile cond body) :=
  (act .offset).bind fun _ => (condition (0 :: node) cond).bind fun _ =>
    (act .offset).bind fun _ => bodyPlan.bind fun _ => (act (.emitJumpTo _)).bind fun _ =>
      (act .offset).bind fun _ => (act (.patch _ _)).bind fun _ => act (.patch _ _)

def forRange (node : NodePath) (position : Position) (name : String) (low high : Expr)
    {body : EmitM Unit} (bodyPlan : Plan body) : Plan (emitFor position name low high body) :=
  (act (.ask _)).bind fun slot =>
    match Numeric.ofTy? slot.ty with
    | none => act (.throw _)
    | some _ =>
        (act (.allocateHidden _ _)).bind fun bound =>
          (valueAs (0 :: node) low slot.ty).bind fun _ => (act (.emitStore slot)).bind fun _ =>
            (valueAs (1 :: node) high slot.ty).bind fun _ => (act (.emitStore bound)).bind fun _ =>
              (act .offset).bind fun _ => (act (.emitLoad slot)).bind fun _ =>
                (act (.emitLoad bound)).bind fun _ => (act (.emit _)).bind fun _ =>
                  (act (.emit _)).bind fun _ => (act (.emitBranch _)).bind fun _ =>
                    (act .offset).bind fun _ => bodyPlan.bind fun _ =>
                      (act (.emitLoad slot)).bind fun _ => (act (.emit _)).bind fun _ =>
                        (act (.emit _)).bind fun _ => (act (.emitStore slot)).bind fun _ =>
                          (act (.emitJumpTo _)).bind fun _ => (act .offset).bind fun _ =>
                            (act (.patch _ _)).bind fun _ => act (.patch _ _)

def function (id : UInt16) (returnType : Ty) {body : EmitM Unit} (bodyPlan : Plan body) :
    Plan (emitFunction id returnType body) :=
  unlessFailed <| (act (.push id returnType)).bind fun _ => bodyPlan.bind fun _ =>
    latch () (act .closeFunction)

mutual

def ofStmt (options : Options) (node : NodePath) : (stmt : Stmt) → Plan (emitStmt options stmt)
  | .store position name op value => assignment node position name op value
  | .ifElse cond thenBlock none =>
      ifElse node cond (ofBlock options (1 :: node) thenBlock) (act (.pure ()))
  | .ifElse cond thenBlock (some elseBlock) =>
      ifElse node cond (ofBlock options (1 :: node) thenBlock)
        (ofBlock options (2 :: node) elseBlock)
  | .whileDo cond body => whileDo node cond (ofBlock options (1 :: node) body)
  | .forRange position name low high body =>
      forRange node position name low high (ofBlock options (2 :: node) body)
  | .print _ args => prints node args
  | .ret position value => return_ node position value
  | .expr value => discarded node value
  | .block body => ofBlock options (0 :: node) body

def ofStmts (options : Options) (node : NodePath) :
    (stmts : List Stmt) → Plan (emitStmts options stmts)
  | [] => act (.pure ())
  | stmt :: stmts =>
      (unlessFailed (latch () (ofStmt options (0 :: node) stmt))).bind fun _ =>
        ofStmts options (1 :: node) stmts

def ofBlock (options : Options) (node : NodePath) :
    (block : Block) → Plan (emitBlock options block)
  | ⟨vars, functions, stmts⟩ =>
      unlessFailed <| (act .enterBlock).bind fun _ =>
        (latch [] (act (.declareBlock vars functions))).bind fun ids =>
          (ofFunctions options (0 :: node) functions ids).bind fun _ =>
            (ofStmts options (1 :: node) stmts).bind fun _ => act .exitBlock

def ofFunctions (options : Options) (node : NodePath) :
    (definitions : List FnDef) → (ids : List UInt16) → Plan (emitFunctions options definitions ids)
  | definition :: definitions, id :: ids =>
      (function id definition.returnType (ofBody options (0 :: node) definition)).bind fun _ =>
        ofFunctions options (1 :: node) definitions ids
  | [], _ => act (.pure ())
  | _ :: _, [] => act (.pure ())

def ofBody (options : Options) (node : NodePath) :
    (definition : FnDef) → Plan (emitBody options definition)
  | ⟨_, _, params, .block block, position⟩ =>
      (latch () (act (.forM (.emitParam position) params))).bind fun _ =>
        (ofBlock options (0 :: node) block).bind fun _ => unlessFailed (act (.emit .ret))
  | ⟨_, returnType, params, .native symbol, position⟩ =>
      (latch () (act (.emitNativeCall options position (.ofDecls returnType params) symbol))).bind
        fun _ => unlessFailed (act (.emit .ret))

end

end Plan

end Emitter

namespace Program

open Emitter

/-- The plan of a compilation. -/
def plan (program : Program) (options : Options) :
    Plan (do emitBody options program.top; finish) :=
  (Plan.ofBody options [] program.top).bind fun _ => .act .finish

/-- The image of a program, not checked, compiled with a table of types. -/
def emitCaching (program : Program) (options : Options) : Except CompileError Image :=
  match (program.plan options).run ⟨start program, ∅⟩ with
  | .ok _ state => .ok state.emitter.image
  | .error error _ => .error error

/-- The moments that a compilation passes through, which notes down types from the beginning. -/
def moments (program : Program) (options : Options) : List Moment :=
  (program.plan options).moments ⟨start program, ∅⟩

end Program

end Backpatch
