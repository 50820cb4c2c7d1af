import Backpatch.Proofs.Checked
import Backpatch.Proofs.Renaming

/-!
# Names do not matter

A program with new names is compiled like the old one.  Every action of the compilation has a mirror
image: it begins in a state with the new names and ends in the state in which the action ends, or
with the error with which it fails, with the new names there as well.  For actions that only write
code the mirror image is the action itself.
-/

namespace Backpatch

namespace Emitter

variable {α β γ δ : Type} {naming : Renaming}

/-- The second action does in a state with new names what the first one does in the old state.  The
result of the second action is that of the first one, changed. -/
def Mirrors (naming : Renaming) (change : α → β) (action : EmitM α) (other : EmitM β) : Prop :=
  ∀ emitter, other (emitter.rename naming) =
    mapAnswer change (·.rename naming) (·.rename naming) (action emitter)

theorem storeFault?_rename (naming : Renaming) (context : Context) (image : Image) :
    storeFault? (context.rename naming) (image.rename naming) =
      (storeFault? context image).map (·.rename naming) := by
  have sameBuffer : (context.rename naming).buffer = context.buffer := rfl
  have sameId : (context.rename naming).id = context.id := rfl
  have registered : ((image.rename naming).routine? context.id).isNone =
      (image.routine? context.id).isNone := by
    rw [image.routine?_rename, Option.isNone_map]
  unfold storeFault?
  rw [sameBuffer, sameId, registered]
  cases context.buffer.ensurePatched with
  | error error => rfl
  | ok patched =>
      dsimp only
      split
      · rfl
      · split <;> rfl

namespace Mirrors

theorem bind {change : α → β} {final : γ → δ} {action : EmitM α} {other : EmitM β}
    {next : α → EmitM γ} {otherNext : β → EmitM δ} (first : Mirrors naming change action other)
    (rest : ∀ result, Mirrors naming final (next result) (otherNext (change result))) :
    Mirrors naming final (action >>= next) (other >>= otherNext) := by
  intro emitter
  rw [bind_apply, bind_apply, first emitter]
  cases action emitter with
  | ok result after => exact rest result after
  | error error after => rfl

theorem seq {final : γ → δ} {action other : EmitM α} {next : α → EmitM γ} {otherNext : α → EmitM δ}
    (first : Mirrors naming id action other)
    (rest : ∀ result, Mirrors naming final (next result) (otherNext result)) :
    Mirrors naming final (action >>= next) (other >>= otherNext) :=
  first.bind rest

theorem get : Mirrors naming (Emitter.rename naming) get get :=
  fun _ => rfl

theorem throw (error : CompileError) :
    Mirrors naming (id : α → α) (throw error) (throw (error.rename naming)) :=
  fun _ => rfl

theorem ask {change : α → β} {question : Emitter → Except CompileError α}
    {other : Emitter → Except CompileError β}
    (same : ∀ emitter, other (emitter.rename naming) =
      ((question emitter).map change).mapError (·.rename naming)) :
    Mirrors naming change (ask question) (ask other) := by
  intro emitter
  rw [Emitter.ask, Emitter.ask, same emitter]
  cases question emitter <;> rfl

theorem onScopes {result : α → β} {change : Scopes → Option (α × Scopes)}
    {other : Scopes → Option (β × Scopes)} (error : CompileError)
    (same : ∀ scopes, other (scopes.rename naming) =
      (change scopes).map fun found => (result found.1, found.2.rename naming)) :
    Mirrors naming result (onScopes change error) (onScopes other (error.rename naming)) := by
  rintro ⟨image, scopes, fault⟩
  simp only [Emitter.onScopes, Emitter.rename, same]
  cases change scopes <;> rfl

theorem onImage {action other : ImageM α}
    (same : ∀ image : Image, other (image.rename naming) =
      mapAnswer id id (·.rename naming) (action image)) :
    Mirrors naming id (onImage action) (onImage other) := by
  rintro ⟨image, scopes, fault⟩
  simp only [Emitter.onImage, Emitter.rename, same]
  cases action image <;> rfl

theorem modify {change other : Emitter → Emitter}
    (same : ∀ emitter, other (emitter.rename naming) = (change emitter).rename naming) :
    Mirrors naming id (modify change : EmitM Unit) (modify other) :=
  fun emitter => congrArg (EStateM.Result.ok ()) (same emitter)

theorem of_coding {action : EmitM α} (coding : Coding action) :
    Mirrors naming id action action := by
  induction coding with
  | pure result => exact fun _ => rfl
  | throw nameless =>
      intro emitter
      exact congrArg (EStateM.Result.error · (emitter.rename naming))
        (CompileError.rename_of_isNameless naming nameless).symm
  | bind _ _ ihFirst ihRest => exact ihFirst.bind ihRest
  | observe question => exact fun _ => rfl
  | onBuffer action =>
      intro emitter
      have sameBuffer : (emitter.rename naming).buffer = emitter.buffer := rfl
      rw [onBuffer_apply, onBuffer_apply, sameBuffer]
      cases action emitter.buffer <;> rfl

theorem after_coding {final : γ → δ} {action : EmitM α} {next : α → EmitM γ}
    {otherNext : α → EmitM δ} (coding : Coding action)
    (rest : ∀ result, Mirrors naming final (next result) (otherNext result)) :
    Mirrors naming final (action >>= next) (action >>= otherNext) :=
  (of_coding coding).bind rest

theorem before_coding {action other : EmitM α} {next : α → EmitM β}
    (first : Mirrors naming id action other) (coding : ∀ result, Coding (next result)) :
    Mirrors naming id (action >>= next) (other >>= next) :=
  first.bind fun result => of_coding (coding result)

theorem resolveVar (name : String) (position : Position) :
    Mirrors naming id (resolveVar name position) (resolveVar (naming.var name) position) := by
  refine ask fun emitter => ?_
  rw [scopes_rename, Scopes.resolve?_rename]
  cases emitter.scopes.resolve? name .outward <;> rfl

theorem predictedType (expr : Expr) :
    Mirrors naming id (predictedType expr) (predictedType (expr.rename naming)) := by
  refine ask fun emitter => ?_
  rw [scopes_rename, image_rename, Expr.typeOf_rename]
  cases expr.typeOf emitter.scopes emitter.image <;> rfl

theorem callee (name : String) (count : Nat) (position : Position) :
    Mirrors naming (fun answer => (answer.1, answer.2.rename naming))
      (Emitter.ask (callee name count position))
      (Emitter.ask (Emitter.callee (naming.function name) count position)) := by
  refine ask fun emitter => ?_
  rw [Emitter.callee, Emitter.callee, scopes_rename, image_rename, resolveFunction?_rename]
  cases resolveFunction? emitter.scopes emitter.image name with
  | none => rfl
  | some id =>
      simp only [Image.routine?_rename]
      cases emitter.image.routine? id with
      | none => rfl
      | some routine =>
          simp only [Option.map_some, Routine.rename, Signature.rename, List.length_map]
          split <;> rfl

theorem emitOperands {left otherLeft right otherRight : EmitM Compiled} (op : BinOp)
    (position leftPosition rightPosition : Position) (predicted : Ty)
    (one : Mirrors naming id left otherLeft) (two : Mirrors naming id right otherRight) :
    Mirrors naming id (emitOperands op position predicted left leftPosition right rightPosition)
      (emitOperands op position predicted otherLeft leftPosition otherRight rightPosition) :=
  one.bind fun _ => after_coding (.materializeValue _) fun _ =>
    after_coding (.reserveConversion _ _) fun _ => two.before_coding fun _ =>
      .convertOperands _ _ _ _ _ _ _

theorem emitLogical {left otherLeft right otherRight : EmitM PendingBranch} (op : Connective)
    (one : Mirrors naming id left otherLeft) (two : Mirrors naming id right otherRight) :
    Mirrors naming id (emitLogical op left right) (emitLogical op otherLeft otherRight) := by
  cases op with
  | and | or =>
      exact one.bind fun _ => after_coding .offset fun _ => after_coding (.patch _ _) fun _ =>
        two.before_coding fun _ => .pure _

mutual

theorem emitExpr : (expr : Expr) →
    Mirrors naming id (emitExpr expr) (emitExpr (expr.rename naming))
  | .int _ _ | .double _ _ => by
      rw [Expr.rename, Emitter.emitExpr]
      exact of_coding ((Coding.write _).bind fun _ => .pure _)
  | .string _ value => by
      rw [Expr.rename, Emitter.emitExpr]
      exact (onImage fun image => image.internConstant_rename naming value).before_coding fun _ =>
        (Coding.emitWithWord _ _).bind fun _ => .pure _
  | .load position name => by
      rw [Expr.rename, Emitter.emitExpr, Emitter.emitExpr]
      exact (resolveVar name position).before_coding fun _ =>
        (Coding.emitLoad _).bind fun _ => .pure _
  | .binary _ (.logic connective) left right => by
      rw [Expr.rename, Emitter.emitExpr, Emitter.emitExpr, Expr.position_rename,
        Expr.position_rename]
      exact emitLogical connective ((emitExpr left).before_coding fun _ => .branchOnValue _ _)
        ((emitExpr right).before_coding fun _ => .branchOnValue _ _)
  | .binary _ (.compare comparison) left right => by
      rw [Expr.rename, Emitter.emitExpr, Emitter.emitExpr, Expr.position_rename,
        Expr.position_rename]
      exact (predictedType right).bind fun _ => (emitOperands _ _ _ _ _ (emitExpr left)
        (emitExpr right)).before_coding fun _ => .emitComparison comparison _
  | .binary _ (.arith arith) left right => by
      rw [Expr.rename, Emitter.emitExpr, Emitter.emitExpr, Expr.position_rename,
        Expr.position_rename]
      exact (predictedType right).bind fun _ => (emitOperands _ _ _ _ _ (emitExpr left)
        (emitExpr right)).before_coding fun _ => .emitArithmetic arith _ _
  | .unary _ .not operand => by
      rw [Expr.rename, Emitter.emitExpr, Emitter.emitExpr, Expr.position_rename]
      exact (emitExpr operand).before_coding fun _ =>
        (Coding.branchOnValue _ _).bind fun _ => .pure _
  | .unary _ .neg operand => by
      rw [Expr.rename, Emitter.emitExpr, Emitter.emitExpr]
      exact (emitExpr operand).before_coding fun _ => .emitNegation _ _
  | .call position name args => by
      rw [Expr.rename, Emitter.emitExpr, Emitter.emitExpr, Expr.length_renameAll]
      refine (callee name args.length position).bind fun answer => ?_
      have types : (answer.2.rename naming).params.map (·.ty) = answer.2.params.map (·.ty) :=
        List.map_map
      dsimp only
      rw [types]
      exact (emitArgs args _).before_coding fun _ =>
        (Coding.emitWithWord _ _).bind fun _ => .pure _

theorem emitArgs : (args : List Expr) → (types : List Ty) →
    Mirrors naming id (emitArgs args types) (emitArgs (Expr.renameAll naming args) types)
  | [], _ => by
      rw [Expr.renameAll, Emitter.emitArgs]
      exact of_coding (.pure _)
  | arg :: args, types => by
      rw [Expr.renameAll, Emitter.emitArgs, Emitter.emitArgs, Expr.position_rename]
      exact (emitArgs args types.tail).bind fun _ =>
        (emitExpr arg).before_coding fun _ => .coerce _ _ _

end

theorem emitCondition (expr : Expr) :
    Mirrors naming id (emitCondition expr) (emitCondition (expr.rename naming)) := by
  rw [Emitter.emitCondition, Emitter.emitCondition, Expr.position_rename]
  exact (emitExpr expr).before_coding fun _ => .branchOnValue _ _

theorem emitAs (expr : Expr) (ty : Ty) :
    Mirrors naming id (emitAs expr ty) (emitAs (expr.rename naming) ty) := by
  rw [Emitter.emitAs, Emitter.emitAs, Expr.position_rename]
  exact (emitExpr expr).before_coding fun _ => .coerce _ _ _

theorem emitAssignment (position : Position) (name : String) (op : StoreOp) (value : Expr) :
    Mirrors naming id (emitAssignment position name op value)
      (emitAssignment position (naming.var name) op (value.rename naming)) := by
  refine (resolveVar name position).bind fun slot => ?_
  cases op.update? with
  | none => exact (emitAs value slot.ty).before_coding fun _ => .emitStore slot
  | some arith =>
      cases instrEq : arith.instr? slot.ty with
      | none => simpa only [instrEq, id] using of_coding (.throw rfl)
      | some instr =>
          simpa only [instrEq, id] using after_coding (.emitLoad slot) fun _ =>
            (emitAs value slot.ty).before_coding fun _ =>
              (Coding.emit instr).bind fun _ => .emitStore slot

theorem emitPrint (arg : Expr) :
    Mirrors naming id (emitPrint arg) (emitPrint (arg.rename naming)) := by
  rw [Emitter.emitPrint, Emitter.emitPrint, Expr.position_rename]
  refine (emitExpr arg).before_coding fun _ => (Coding.materializeValue _).bind fun ty => ?_
  cases Op.print? ty with
  | none => exact .throw rfl
  | some op => exact .emit op

theorem emitPrints (args : List Expr) :
    Mirrors naming id (args.forM Emitter.emitPrint)
      ((Expr.renameAll naming args).forM Emitter.emitPrint) := by
  induction args with
  | nil =>
      rw [Expr.renameAll]
      exact of_coding (.pure ())
  | cons arg args ih =>
      rw [Expr.renameAll]
      exact (emitPrint arg).bind fun _ => ih

theorem emitReturn (value : Option Expr) (position : Position) :
    Mirrors naming id (emitReturn value position)
      (emitReturn (value.map (·.rename naming)) position) := by
  refine get.bind fun emitter => ?_
  have sameType : (emitter.rename naming).scopes.current.returnType =
      emitter.scopes.current.returnType := rfl
  cases value with
  | none =>
      dsimp only [Option.map]
      rw [sameType]
      split
      · exact of_coding (.emit _)
      · exact of_coding (.throw rfl)
  | some value =>
      dsimp only [Option.map]
      rw [sameType]
      split
      · exact of_coding (.throw rfl)
      · exact (emitAs value _).before_coding fun _ => .emit _

theorem emitDiscarded (value : Expr) :
    Mirrors naming id (emitDiscarded value) (emitDiscarded (value.rename naming)) := by
  refine (emitExpr value).before_coding fun compiled => ?_
  cases compiled with
  | branch pending => exact .resolve pending
  | value ty =>
      cases ty with
      | void => exact .pure _
      | logic | int | double | string | invalid => exact .emit _

theorem emitIf {thenBlock otherThen elseBlock otherElse : EmitM Unit} (cond : Expr)
    (one : Mirrors naming id thenBlock otherThen) (two : Mirrors naming id elseBlock otherElse) :
    Mirrors naming id (emitIf cond thenBlock elseBlock)
      (emitIf (cond.rename naming) otherThen otherElse) := by
  refine after_coding .emitJump fun _ => after_coding .offset fun _ => one.bind fun _ =>
    after_coding .emitJump fun _ => after_coding .offset fun _ => two.bind fun _ =>
      after_coding .emitJump fun _ => after_coding .offset fun _ =>
        after_coding (.patch _ _) fun _ => (emitCondition cond).before_coding fun _ => ?_
  exact (Coding.patch _ _).bind fun _ => (Coding.patch _ _).bind fun _ =>
    Coding.offset.bind fun _ => .patch _ _

theorem emitWhile {body otherBody : EmitM Unit} (cond : Expr)
    (one : Mirrors naming id body otherBody) :
    Mirrors naming id (emitWhile cond body) (emitWhile (cond.rename naming) otherBody) := by
  refine after_coding .offset fun _ => (emitCondition cond).bind fun _ =>
    after_coding .offset fun _ => one.before_coding fun _ => ?_
  exact (Coding.emitJumpTo _).bind fun _ => Coding.offset.bind fun _ =>
    (Coding.patch _ _).bind fun _ => .patch _ _

theorem emitFor {body otherBody : EmitM Unit} (position : Position) (name : String)
    (low high : Expr) (one : Mirrors naming id body otherBody) :
    Mirrors naming id (emitFor position name low high body)
      (emitFor position (naming.var name) (low.rename naming) (high.rename naming) otherBody) := by
  refine (resolveVar name position).bind fun slot => ?_
  dsimp only [id]
  cases Numeric.ofTy? slot.ty with
  | none => exact throw _
  | some numeric =>
      dsimp only
      rw [storageError_rename]
      refine (onScopes _ fun scopes => scopes.allocateHidden?_rename naming slot.ty).bind
        fun bound => (emitAs low _).bind fun _ => after_coding (.emitStore slot) fun _ =>
          (emitAs high _).bind fun _ => after_coding (.emitStore bound) fun _ =>
            after_coding .offset fun _ => after_coding (.emitLoad slot) fun _ =>
              after_coding (.emitLoad bound) fun _ => after_coding (.emit _) fun _ =>
                after_coding (.emit _) fun _ => after_coding (.emitBranch _) fun _ =>
                  after_coding .offset fun _ => one.before_coding fun _ => ?_
      exact (Coding.emitLoad slot).bind fun _ => (Coding.emit _).bind fun _ =>
        (Coding.emit _).bind fun _ => (Coding.emitStore slot).bind fun _ =>
          (Coding.emitJumpTo _).bind fun _ => Coding.offset.bind fun _ =>
            (Coding.patch _ _).bind fun _ => .patch _ _

theorem declareVar (var : VarDecl) :
    Mirrors naming id (declareVar var) (declareVar (var.rename naming)) := by
  rw [Emitter.declareVar, Emitter.declareVar, VarDecl.rename, storageError_rename]
  exact (onScopes _ fun scopes => scopes.declare?_rename naming _ _).before_coding fun _ => .pure _

theorem declareFunction (definition : FnDef) :
    Mirrors naming id (declareFunction definition)
      (declareFunction (definition.rename naming)) := by
  obtain ⟨name, -, signature, position⟩ := definition.rename_eq naming
  rw [Emitter.declareFunction, Emitter.declareFunction, name, signature, position]
  refine (onImage fun image => image.addRoutine_rename naming _ _).bind fun number => ?_
  have declares (scopes : Scopes) :
      ((scopes.rename naming).declareFunction? (naming.function definition.name) number).map
          ((), ·) =
        ((scopes.declareFunction? definition.name number).map ((), ·)).map
          fun found => (found.1, found.2.rename naming) := by
    rw [scopes.declareFunction?_rename, Option.map_map, Option.map_map]
    rfl
  exact before_coding (onScopes (.duplicateFunction _ _) declares) fun _ => .pure _

theorem declareBlock (vars : List VarDecl) (functions : List FnDef) :
    Mirrors naming id (declareBlock vars functions)
      (declareBlock (vars.map (·.rename naming)) (FnDef.renameAll naming functions)) := by
  have varsDeclared : Mirrors naming id (vars.forM Emitter.declareVar)
      ((vars.map (·.rename naming)).forM Emitter.declareVar) := by
    induction vars with
    | nil => exact of_coding (.pure ())
    | cons var vars ih => exact (declareVar var).bind fun _ => ih
  refine varsDeclared.bind fun _ => ?_
  induction functions with
  | nil =>
      rw [FnDef.renameAll]
      exact of_coding (.pure _)
  | cons definition definitions ih =>
      rw [FnDef.renameAll, List.mapM_cons, List.mapM_cons]
      exact (declareFunction definition).bind fun _ => ih.before_coding fun _ => .pure _

theorem emitParam (position : Position) (param : ParamDecl) :
    Mirrors naming id (emitParam position param) (emitParam position (param.rename naming)) := by
  rw [Emitter.emitParam, Emitter.emitParam, ParamDecl.rename, storageError_rename]
  exact (onScopes _ fun scopes => scopes.declareParam?_rename naming _ _).before_coding
    fun slot => .emitStore slot

theorem emitParams (position : Position) (params : List ParamDecl) :
    Mirrors naming id (params.forM (Emitter.emitParam position))
      ((params.map (·.rename naming)).forM (Emitter.emitParam position)) := by
  induction params with
  | nil => exact of_coding (.pure ())
  | cons param params ih => exact (emitParam position param).bind fun _ => ih

theorem emitNativeCall (options : Options) (position : Position) (signature : Signature)
    (symbol : String) :
    Mirrors naming id (emitNativeCall options position signature symbol)
      (emitNativeCall options position (signature.rename naming) symbol) := by
  unfold Emitter.emitNativeCall
  cases options.address? symbol with
  | none => exact throw _
  | some address =>
      have interned (image : Image) :=
        image.internNative_rename naming ⟨symbol, signature, address⟩
      exact (onImage interned).before_coding fun _ => .emitWithWord _ _

theorem storeRoutine (context : Context) :
    Mirrors naming id (storeRoutine context) (storeRoutine (context.rename naming)) := by
  refine seq (ask fun emitter => ?_) fun _ => modify fun emitter => ?_
  · rw [image_rename, storeFault?_rename]
    cases storeFault? context emitter.image <;> rfl
  · refine congrArg (fun image => { emitter.rename naming with image := image })
      (emitter.image.modifyRoutine_rename naming context.id ?_)
    exact fun _ => rfl

theorem closeFunction : Mirrors naming id Strict.closeFunction Strict.closeFunction := by
  refine seq (ask fun emitter => ?_) fun _ =>
    bind (onScopes _ fun scopes => scopes.pop?_rename naming) storeRoutine
  have sameFault : Strict.closingFault? (emitter.rename naming) =
      (Strict.closingFault? emitter).map (·.rename naming) := by
    have enclosed : (emitter.rename naming).scopes.enclosing.isEmpty =
        emitter.scopes.enclosing.isEmpty := List.isEmpty_map
    rw [Strict.closingFault?, Strict.closingFault?, enclosed]
    split
    · rfl
    · exact storeFault?_rename naming emitter.scopes.current emitter.image
  rw [sameFault]
  cases Strict.closingFault? emitter <;> rfl

theorem function {body otherBody : EmitM Unit} (number : UInt16) (returnType : Ty)
    (one : Mirrors naming id body otherBody) :
    Mirrors naming id (Strict.function number returnType body)
      (Strict.function number returnType otherBody) := by
  refine seq (modify fun emitter => ?_) fun _ => one.bind fun _ => closeFunction
  exact congrArg (fun scopes => { emitter.rename naming with scopes := scopes })
    (emitter.scopes.push_rename naming number returnType)

theorem finish : Mirrors naming id Strict.finish Strict.finish := by
  refine get.bind fun emitter => ?_
  rw [scopes_rename, Scopes.top_rename]
  exact storeRoutine _

mutual

theorem stmt (options : Options) : (statement : Stmt) →
    Mirrors naming id (Strict.stmt options statement)
      (Strict.stmt options (statement.rename naming))
  | .store position name op value => by
      rw [Stmt.rename, Strict.stmt, Strict.stmt]
      exact emitAssignment position name op value
  | .ifElse cond thenBlock none => by
      rw [Stmt.rename, Strict.stmt, Strict.stmt]
      exact emitIf cond (block options thenBlock) (of_coding (.pure ()))
  | .ifElse cond thenBlock (some elseBlock) => by
      rw [Stmt.rename, Strict.stmt, Strict.stmt]
      exact emitIf cond (block options thenBlock) (block options elseBlock)
  | .whileDo cond body => by
      rw [Stmt.rename, Strict.stmt, Strict.stmt]
      exact emitWhile cond (block options body)
  | .forRange position name low high body => by
      rw [Stmt.rename, Strict.stmt, Strict.stmt]
      exact emitFor position name low high (block options body)
  | .print _ args => by
      rw [Stmt.rename, Strict.stmt, Strict.stmt]
      exact emitPrints args
  | .ret position value => by
      rw [Stmt.rename, Strict.stmt, Strict.stmt]
      exact emitReturn value position
  | .expr value => by
      rw [Stmt.rename, Strict.stmt, Strict.stmt]
      exact emitDiscarded value
  | .block body => by
      rw [Stmt.rename, Strict.stmt, Strict.stmt]
      exact block options body

theorem stmts (options : Options) : (statements : List Stmt) →
    Mirrors naming id (Strict.stmts options statements)
      (Strict.stmts options (Stmt.renameAll naming statements))
  | [] => by
      rw [Stmt.renameAll, Strict.stmts]
      exact of_coding (.pure ())
  | first :: rest => by
      rw [Stmt.renameAll, Strict.stmts, Strict.stmts]
      exact (stmt options first).bind fun _ => stmts options rest

theorem block (options : Options) : (body : Block) →
    Mirrors naming id (Strict.block options body) (Strict.block options (body.rename naming))
  | ⟨vars, definitions, statements⟩ => by
      rw [Block.rename, Strict.block, Strict.block]
      refine (modify fun _ => ?_).bind fun _ => (declareBlock vars definitions).bind fun ids =>
        (functions options definitions ids).bind fun _ => (stmts options statements).bind fun _ =>
          modify fun _ => ?_
      · exact congrArg (fun scopes => { Emitter.rename naming _ with scopes := scopes })
          (Scopes.enterBlock_rename naming _)
      · exact congrArg (fun scopes => { Emitter.rename naming _ with scopes := scopes })
          (Scopes.exitBlock_rename naming _)

theorem functions (options : Options) : (definitions : List FnDef) → (ids : List UInt16) →
    Mirrors naming id (Strict.functions options definitions ids)
      (Strict.functions options (FnDef.renameAll naming definitions) ids)
  | definition :: definitions, id :: ids => by
      rw [FnDef.renameAll, Strict.functions, Strict.functions, (definition.rename_eq naming).2.1]
      exact (function id definition.returnType (body options definition)).bind fun _ =>
        functions options definitions ids
  | [], _ => by
      rw [FnDef.renameAll]
      exact of_coding (.pure ())
  | _ :: _, [] => by
      rw [FnDef.renameAll]
      exact of_coding (.pure ())

theorem body (options : Options) : (definition : FnDef) →
    Mirrors naming id (Strict.body options definition)
      (Strict.body options (definition.rename naming))
  | ⟨_, _, params, .block statements, position⟩ => by
      rw [FnDef.rename, Strict.body, Strict.body]
      exact (emitParams position params).bind fun _ =>
        (block options statements).before_coding fun _ => .emit .ret
  | ⟨_, _, _, .native _, _⟩ => by
      rw [FnDef.rename, Strict.body, Strict.body, Signature.ofDecls_rename]
      exact (emitNativeCall _ _ _ _).before_coding fun _ => .emit .ret

end

end Mirrors

theorem start_rename (naming : Renaming) (program : Program) :
    start (program.rename naming) = (start program).rename naming := by
  obtain ⟨name, returnType, signature, -⟩ := program.top.rename_eq naming
  have index := NameMap.insertIfNew_rename naming.function_injective (∅ : NameMap UInt16)
    program.top.name 0
  simp [start, Program.rename, Emitter.rename, Image.rename, Image.empty, Routine.rename,
    Routine.declare, Scopes.start, Scopes.rename, Context.start, Context.rename, name, returnType,
    signature, ← index, NameMap.rename_empty]

end Emitter

theorem Program.emit_rename (naming : Renaming) (program : Program) (options : Options) :
    (program.rename naming).emit options =
      ((program.emit options).map (·.rename naming)).mapError (·.rename naming) := by
  have mirrors : Emitter.Mirrors naming id
      (do Emitter.Strict.body options program.top; Emitter.Strict.finish)
      (do Emitter.Strict.body options (program.rename naming).top; Emitter.Strict.finish) :=
    (Emitter.Mirrors.body options program.top).bind fun _ => .finish
  have ran := mirrors (Emitter.start program)
  rw [← Emitter.start_rename] at ran
  rw [program.emit_eq_run, (program.rename naming).emit_eq_run, Emitter.Strict.run,
    Emitter.Strict.run, ran]
  cases (do Emitter.Strict.body options program.top; Emitter.Strict.finish : EmitM Unit)
    (Emitter.start program) <;> rfl

namespace Signature

/-- What a function returns and takes. -/
def types (signature : Signature) : Parameter × List Ty :=
  (signature.result, signature.params.map (·.ty))

def paramNames (signature : Signature) : List String :=
  signature.params.map (·.name)

variable (naming : Renaming) (signature : Signature)

@[simp]
theorem types_rename : (signature.rename naming).types = signature.types := by
  simp [types, Signature.rename, Function.comp_def]

@[simp]
theorem paramNames_rename :
    (signature.rename naming).paramNames = signature.paramNames.map naming.var := by
  simp [paramNames, Signature.rename, Function.comp_def]

end Signature

/-- The second image is the first one but for the names of routines and of parameters, and for the
index by name. -/
structure Image.Renames (naming : Renaming) (image other : Image) : Prop where
  version : other.version = image.version
  entry : other.entry = image.entry
  constants : other.constants = image.constants
  /-- Routines have the same number, code, slots, scope and types. -/
  routines : other.routines.map (fun routine => (routine.id, routine.code, routine.frame,
      routine.scopeId, routine.signature.types)) =
    image.routines.map fun routine => (routine.id, routine.code, routine.frame, routine.scopeId,
      routine.signature.types)
  /-- Natives have the same symbol, address and types. -/
  natives : other.natives.map (fun native => (native.name, native.address,
      native.signature.types)) =
    image.natives.map fun native => (native.name, native.address, native.signature.types)
  names : other.routines.map (·.name) =
    image.routines.map fun routine => naming.function routine.name
  params : other.routines.map (·.signature.paramNames) =
    image.routines.map fun routine => routine.signature.paramNames.map naming.var
  nativeParams : other.natives.map (·.signature.paramNames) =
    image.natives.map fun native => native.signature.paramNames.map naming.var
  /-- The index has the new names instead of the old ones, and no others. -/
  index : ∀ name number, other.routineIds[name]? = some number ↔
    ∃ old, naming.function old = name ∧ image.routineIds[old]? = some number

theorem Image.renames_rename (naming : Renaming) (image : Image) :
    image.Renames naming (image.rename naming) where
  version := rfl
  entry := rfl
  constants := rfl
  routines := by simp [Image.rename, Routine.rename, Function.comp_def]
  natives := by simp [Image.rename, Native.rename, Function.comp_def]
  names := by simp [Image.rename, Routine.rename, Function.comp_def]
  params := by simp [Image.rename, Routine.rename, Function.comp_def]
  nativeParams := by simp [Image.rename, Native.rename, Function.comp_def]
  index _ _ := NameMap.getElem?_rename_eq_some naming.function_injective

/-- Names do not matter.  If the variables and parameters of a program are given new names and its
functions, too, so that different names stay different, it is compiled if and only if the program
with the old names is.  The image has the same entry, code, slots, scopes, constants and natives,
and differs only in the names of functions and parameters and in the index by name.  If there is an
error, it is one of the same kind at the same position. -/
theorem Program.compile_rename (naming : Renaming) (program : Program) (options : Options) :
    (program.rename naming).compile options =
      ((program.compile options).map (·.rename naming)).mapError (·.rename naming) ∧
    (∀ image : Image, image.Renames naming (image.rename naming)) ∧
    ∀ error : CompileError, (error.rename naming).ctorIdx = error.ctorIdx ∧
      (error.rename naming).position? = error.position? := by
  refine ⟨?_, Image.renames_rename naming, fun error => ?_⟩
  · rw [program.compile_eq_emit, (program.rename naming).compile_eq_emit, program.emit_rename]
  · cases error <;> exact ⟨rfl, rfl⟩

/-- Names that tell a variable from a function. -/
def Renaming.marked : Renaming where
  var name := "v" ++ name
  function name := "f" ++ name
  var_injective _ _ same := (String.append_right_inj _).mp same
  function_injective _ _ same := (String.append_right_inj _).mp same

/-- One name for a variable, a function and its parameter:

    void main() {
      int n;
      int n(int n) { return n; }
      n = n(n);
    }
-/
def Program.sharing : Program where
  top :=
    { name := "main"
      returnType := .void
      params := []
      body := .block
        { vars := [⟨"n", .int, 1⟩]
          functions :=
            [⟨"n", .int, [⟨"n", .int⟩], .block ⟨[], [], [.ret 2 (some (.load 3 "n"))]⟩, 4⟩]
          stmts := [.store 5 "n" .assign (.call 6 "n" [.load 7 "n"])] }
      position := 0 }

theorem Program.compile_rename_marked :
    ((sharing.rename .marked).compile .default).toOption.map
        (·.routines.map fun routine => (routine.name, routine.signature.paramNames)) =
      some #[("fmain", []), ("fn", ["vn"])] := by
  rw [(compile_rename .marked sharing .default).1]
  decide +kernel

end Backpatch
