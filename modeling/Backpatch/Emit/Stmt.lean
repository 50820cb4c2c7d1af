import Backpatch.Emit.Expr
import Backpatch.Options

/-!
# Code of statements, blocks and functions

The code of a conditional begins with a jump to its condition, which is written after both of its
blocks; a loop has its condition first.  A block first gives slots to its variables and numbers to
its functions, then compiles the functions, and then writes its statements.  A function begins by
storing its arguments, of which the first is on top of the stack, and ends with a return; one that
stands for a native function only calls it.
-/

namespace Backpatch

/-- The signature of a function that is declared with the given return type and parameters. -/
def Signature.ofDecls (returnType : Ty) (params : List ParamDecl) : Signature :=
  .of returnType (params.map fun param => ⟨param.ty, param.name⟩)

/-- The signature of a defined function. -/
def FnDef.signature (definition : FnDef) : Signature :=
  .ofDecls definition.returnType definition.params

/-- Why a variable got no slot. -/
def storageError (name : String) (ty : Ty) (position : Position) : CompileError :=
  if ty.isStorable then .invalidOperation (.tooManyVariables ty name) position
  else .invalidOperation (.undeclarable name ty) position

namespace Emitter

/-- Assign to a variable, or add to it or subtract from it. -/
def emitAssignment (position : Position) (name : String) (op : StoreOp) (value : Expr) :
    EmitM Unit := do
  let slot ← resolveVar name position
  match op.update? with
  | none =>
      emitAs value slot.ty
      emitStore slot
  | some arith =>
      match arith.instr? slot.ty with
      | none => throw (.invalidOperation (.noUpdate arith slot.ty) position)
      | some instr =>
          emitLoad slot
          emitAs value slot.ty
          emit instr
          emitStore slot

/-- Print one value. -/
def emitPrint (arg : Expr) : EmitM Unit := do
  let ty ← materializeValue (← emitExpr arg)
  match Op.print? ty with
  | some op => emit op
  | none => throw (.invalidOperation (.unprintable ty) arg.position)

/-- Return from the current function. -/
def emitReturn (value : Option Expr) (position : Position) : EmitM Unit := do
  let returnType := (← get).scopes.current.returnType
  match value with
  | none =>
      if returnType = .void then
        emit .ret
      else
        throw (.invalidOperation (.missingResult returnType) position)
  | some value =>
      if returnType = .void then
        throw (.invalidOperation .unexpectedResult position)
      else
        emitAs value returnType
        emit .ret

/-- Evaluate an expression and drop its value. -/
def emitDiscarded (value : Expr) : EmitM Unit := do
  match ← emitExpr value with
  | .value .void => pure ()
  | .value _ => emit .pop
  | .branch pending =>
      let next ← offset
      onBuffer (pending.resolve next)

/-- Two ways: a jump to the condition, both blocks with a jump to the end after each, and the
condition. -/
def emitIf (cond : Expr) (thenBlock elseBlock : EmitM Unit) : EmitM Unit := do
  let toCond ← emitJump
  let thenStart ← offset
  thenBlock
  let thenExit ← emitJump
  let elseStart ← offset
  elseBlock
  let elseExit ← emitJump
  let condStart ← offset
  patch [toCond] condStart
  let pending ← emitCondition cond
  patch pending.trueSites thenStart
  patch pending.falseSites elseStart
  let done ← offset
  patch [thenExit, elseExit] done

/-- A loop as long as a condition is true. -/
def emitWhile (cond : Expr) (body : EmitM Unit) : EmitM Unit := do
  let condStart ← offset
  let pending ← emitCondition cond
  let bodyStart ← offset
  body
  emitJumpTo condStart
  let exit ← offset
  patch pending.trueSites bodyStart
  patch pending.falseSites exit

/-- A loop over a range of numbers.  The upper bound is evaluated once and kept in a slot that no
name means. -/
def emitFor (position : Position) (name : String) (low high : Expr) (body : EmitM Unit) :
    EmitM Unit := do
  let slot ← resolveVar name position
  match Numeric.ofTy? slot.ty with
  | none => throw (.invalidOperation (.badLoopVariable name slot.ty) position)
  | some numeric =>
      let bound ← onScopes (·.allocateHidden? slot.ty) (storageError name slot.ty position)
      emitAs low slot.ty
      emitStore slot
      emitAs high slot.ty
      emitStore bound
      let head ← offset
      emitLoad slot
      emitLoad bound
      emit numeric.compareOp
      emit .iLoad0
      let pending ← emitBranch .ifICmpLe
      let bodyStart ← offset
      body
      emitLoad slot
      emit numeric.oneOp
      emit numeric.addOp
      emitStore slot
      emitJumpTo head
      let exit ← offset
      patch pending.trueSites bodyStart
      patch pending.falseSites exit

/-- Give a variable of the innermost block its slot. -/
def declareVar (var : VarDecl) : EmitM Unit := do
  let _ ← onScopes (·.declare? var.name var.ty) (storageError var.name var.ty var.position)

/-- Number a function of the innermost block and name it there. -/
def declareFunction (definition : FnDef) : EmitM UInt16 := do
  let id ← onImage (Image.addRoutine (.declare definition.name definition.signature))
  onScopes (fun scopes => (scopes.declareFunction? definition.name id).map ((), ·))
    (.duplicateFunction definition.name definition.position)
  return id

/-- Declare all that a block declares, and tell the numbers of its functions. -/
def declareBlock (vars : List VarDecl) (functions : List FnDef) : EmitM (List UInt16) := do
  vars.forM declareVar
  functions.mapM declareFunction

/-- Give a parameter its slot and store the argument on top of the stack into it. -/
def emitParam (position : Position) (param : ParamDecl) : EmitM Unit := do
  let slot ← onScopes (·.declareParam? param.name param.ty)
    (storageError param.name param.ty position)
  emitStore slot

/-- Call the native function of a symbol in place of a body. -/
def emitNativeCall (options : Options) (position : Position) (signature : Signature)
    (symbol : String) : EmitM Unit :=
  match options.address? symbol with
  | none => throw (.unresolvedNative symbol position)
  | some address => do
      let id ← onImage (Image.internNative ⟨symbol, signature, address⟩)
      emitWithWord .callNative id

/-- Why the code of a finished function cannot be put into an image. -/
def storeFault? (context : Context) (image : Image) : Option CompileError :=
  match context.buffer.ensurePatched with
  | .error error => some (.internal error)
  | .ok () =>
      if context.buffer.size > Buffer.maxTarget then
        some (.internal (.codeTooLarge context.buffer.size))
      else if (image.routine? context.id).isNone then
        some (.invariant (.unregisteredFunction context.id))
      else
        none

/-- Put the code of a finished function into the image. -/
def storeRoutine (context : Context) : EmitM Unit := do
  ask fun emitter =>
    match storeFault? context emitter.image with
    | some error => .error error
    | none => .ok ()
  modify fun emitter =>
    { emitter with
      image := emitter.image.modifyRoutine context.id fun routine =>
        { routine with
          frame := context.frame
          scopeId := context.bodyScope.getD 0
          code := context.buffer } }

/-- End the current function and put its code into the image. -/
def closeFunction : EmitM Unit := do
  let context ← onScopes (·.pop?) (.invariant .contextUnderflow)
  storeRoutine context

/-- Compile a function inside the current one, with its code given by an action. -/
def emitFunction (id : UInt16) (returnType : Ty) (body : EmitM Unit) : EmitM Unit :=
  unlessFailed do
    modify fun emitter =>
      { emitter with scopes := emitter.scopes.push (.start id returnType) }
    body
    latch () closeFunction

mutual

/-- Write a statement; stops at the first error outside the blocks in it. -/
def emitStmt (options : Options) : Stmt → EmitM Unit
  | .store position name op value => emitAssignment position name op value
  | .ifElse cond thenBlock none => emitIf cond (emitBlock options thenBlock) (pure ())
  | .ifElse cond thenBlock (some elseBlock) =>
      emitIf cond (emitBlock options thenBlock) (emitBlock options elseBlock)
  | .whileDo cond body => emitWhile cond (emitBlock options body)
  | .forRange position name low high body =>
      emitFor position name low high (emitBlock options body)
  | .print _ args => args.forM emitPrint
  | .ret position value => emitReturn value position
  | .expr value => emitDiscarded value
  | .block body => emitBlock options body

/-- Write statements one after the other, until an error is met. -/
def emitStmts (options : Options) : List Stmt → EmitM Unit
  | [] => pure ()
  | stmt :: stmts => do
      unlessFailed (latch () (emitStmt options stmt))
      emitStmts options stmts

/-- Write a block. -/
def emitBlock (options : Options) : Block → EmitM Unit
  | ⟨vars, functions, stmts⟩ => unlessFailed do
      modify fun emitter => { emitter with scopes := emitter.scopes.enterBlock.2 }
      let ids ← latch [] (declareBlock vars functions)
      emitFunctions options functions ids
      emitStmts options stmts
      modify fun emitter => { emitter with scopes := emitter.scopes.exitBlock }

/-- Compile functions under their numbers. -/
def emitFunctions (options : Options) : List FnDef → List UInt16 → EmitM Unit
  | definition :: definitions, id :: ids => do
      emitFunction id definition.returnType (emitBody options definition)
      emitFunctions options definitions ids
  | _, _ => pure ()
termination_by structural definitions => definitions

/-- Write the code of the current function. -/
def emitBody (options : Options) : FnDef → EmitM Unit
  | ⟨_, _, params, .block block, position⟩ => do
      latch () (params.forM (emitParam position))
      emitBlock options block
      unlessFailed (emit .ret)
  | ⟨_, returnType, params, .native symbol, position⟩ => do
      latch () (emitNativeCall options position (.ofDecls returnType params) symbol)
      unlessFailed (emit .ret)

end

end Emitter

end Backpatch
