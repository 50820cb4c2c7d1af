import Backpatch.Proofs.CompiledProgram

/-!
# Laws of conditions

A condition is jumps that are still to be routed, so that negating it and joining it with another
writes no code.  Two conditions that are equal by the laws of De Morgan, by associativity or by
double negation have the same code: the same branches in the same order, with the same sites in the
lists of their outcomes.

This file says what it is to rewrite one occurrence in a program by such a law, and proves that the
program is compiled to the same image then, or is rejected with the same error.
-/

namespace Backpatch

open Emitter

/-- What is wanted of an expression where it stands. -/
inductive Use
  /-- Its value. -/
  | value
  /-- Only whether it is true. -/
  | condition

/-- The connective that negation makes of another. -/
def Connective.dual : Connective → Connective
  | and => or
  | or => and

/-- What a binary operator wants of its operands. -/
def BinOp.use : BinOp → Use
  | logic _ => .condition
  | arith _ | compare _ => .value

/-- What a unary operator wants of its operand. -/
def UnaryOp.use : UnaryOp → Use
  | not => .condition
  | neg => .value

/-- One occurrence in an expression is rewritten by a law, where the expression stands for the given
use.  Nodes that a law makes new may be at any position, but the root keeps its own. -/
inductive Expr.Rewrites : Use → Expr → Expr → Prop
  | deMorgan {position inner first second : Position} {connective : Connective}
      {left right : Expr} :
      Rewrites .value
        (.unary position .not (.binary inner (.logic connective) left right))
        (.binary position (.logic connective.dual) (.unary first .not left)
          (.unary second .not right))
  | assoc {position inner other : Position} {connective : Connective} {left middle right : Expr} :
      Rewrites .value
        (.binary position (.logic connective) (.binary inner (.logic connective) left middle) right)
        (.binary position (.logic connective) left (.binary other (.logic connective) middle right))
  | notNot {inner : Position} {expr : Expr} :
      Rewrites .condition expr (.unary expr.position .not (.unary inner .not expr))
  /-- What is a law for values is one for conditions. -/
  | decide {expr other : Expr} (rewrites : Rewrites .value expr other) :
      Rewrites .condition expr other
  | left {position : Position} {op : BinOp} {left other right : Expr}
      (rewrites : Rewrites op.use left other) :
      Rewrites .value (.binary position op left right) (.binary position op other right)
  | right {position : Position} {op : BinOp} {left right other : Expr}
      (rewrites : Rewrites op.use right other) :
      Rewrites .value (.binary position op left right) (.binary position op left other)
  | operand {position : Position} {op : UnaryOp} {operand other : Expr}
      (rewrites : Rewrites op.use operand other) :
      Rewrites .value (.unary position op operand) (.unary position op other)
  | arg {position : Position} {name : String} (before after : List Expr) {arg other : Expr}
      (rewrites : Rewrites .value arg other) :
      Rewrites .value (.call position name (before ++ arg :: after))
        (.call position name (before ++ other :: after))

mutual

/-- One occurrence in a statement is rewritten by a law. -/
inductive Stmt.Rewrites : Stmt → Stmt → Prop
  | store {position : Position} {name : String} {op : StoreOp} {value other : Expr}
      (rewrites : Expr.Rewrites .value value other) :
      Stmt.Rewrites (.store position name op value) (.store position name op other)
  | ifCond {cond other : Expr} {thenBlock : Block} {elseBlock : Option Block}
      (rewrites : Expr.Rewrites .condition cond other) :
      Stmt.Rewrites (.ifElse cond thenBlock elseBlock) (.ifElse other thenBlock elseBlock)
  | ifThen {cond : Expr} {thenBlock other : Block} {elseBlock : Option Block}
      (rewrites : Block.Rewrites thenBlock other) :
      Stmt.Rewrites (.ifElse cond thenBlock elseBlock) (.ifElse cond other elseBlock)
  | ifElse {cond : Expr} {thenBlock elseBlock other : Block}
      (rewrites : Block.Rewrites elseBlock other) :
      Stmt.Rewrites (.ifElse cond thenBlock (some elseBlock)) (.ifElse cond thenBlock (some other))
  | whileCond {cond other : Expr} {body : Block} (rewrites : Expr.Rewrites .condition cond other) :
      Stmt.Rewrites (.whileDo cond body) (.whileDo other body)
  | whileBody {cond : Expr} {body other : Block} (rewrites : Block.Rewrites body other) :
      Stmt.Rewrites (.whileDo cond body) (.whileDo cond other)
  | forLow {position : Position} {name : String} {low other high : Expr} {body : Block}
      (rewrites : Expr.Rewrites .value low other) :
      Stmt.Rewrites (.forRange position name low high body)
        (.forRange position name other high body)
  | forHigh {position : Position} {name : String} {low high other : Expr} {body : Block}
      (rewrites : Expr.Rewrites .value high other) :
      Stmt.Rewrites (.forRange position name low high body) (.forRange position name low other body)
  | forBody {position : Position} {name : String} {low high : Expr} {body other : Block}
      (rewrites : Block.Rewrites body other) :
      Stmt.Rewrites (.forRange position name low high body) (.forRange position name low high other)
  | print {position : Position} (before after : List Expr) {arg other : Expr}
      (rewrites : Expr.Rewrites .value arg other) :
      Stmt.Rewrites (.print position (before ++ arg :: after))
        (.print position (before ++ other :: after))
  | ret {position : Position} {value other : Expr} (rewrites : Expr.Rewrites .value value other) :
      Stmt.Rewrites (.ret position (some value)) (.ret position (some other))
  | expr {value other : Expr} (rewrites : Expr.Rewrites .value value other) :
      Stmt.Rewrites (.expr value) (.expr other)
  | block {body other : Block} (rewrites : Block.Rewrites body other) :
      Stmt.Rewrites (.block body) (.block other)

/-- One occurrence in a block is rewritten by a law. -/
inductive Block.Rewrites : Block → Block → Prop
  | function {vars : List VarDecl} (before after : List FnDef) {definition other : FnDef}
      {stmts : List Stmt} (rewrites : FnDef.Rewrites definition other) :
      Block.Rewrites ⟨vars, before ++ definition :: after, stmts⟩
        ⟨vars, before ++ other :: after, stmts⟩
  | stmt {vars : List VarDecl} {functions : List FnDef} (before after : List Stmt)
      {stmt other : Stmt} (rewrites : Stmt.Rewrites stmt other) :
      Block.Rewrites ⟨vars, functions, before ++ stmt :: after⟩
        ⟨vars, functions, before ++ other :: after⟩

/-- One occurrence in a function is rewritten by a law. -/
inductive FnDef.Rewrites : FnDef → FnDef → Prop
  | body {name : String} {returnType : Ty} {params : List ParamDecl} {body other : Block}
      {position : Position} (rewrites : Block.Rewrites body other) :
      FnDef.Rewrites ⟨name, returnType, params, .block body, position⟩
        ⟨name, returnType, params, .block other, position⟩

end

/-- One occurrence in a program is rewritten by a law. -/
def Program.Rewrites (program other : Program) : Prop :=
  program.top.Rewrites other.top

/-- The type of an expression, if it has one. -/
def Expr.type? (scopes : Scopes) (image : Image) (expr : Expr) : Option Ty :=
  (expr.typeOf scopes image).toOption

/-- What an expression of a type is, where only the use matters. -/
def Use.see : Use → Ty → Ty
  | value, ty => ty
  | condition, _ => .logic

section Types

variable {scopes : Scopes} {image : Image} {position : Position}

/-- An operator knows of its operands what it wants of them. -/
theorem Expr.type?_binary (op : BinOp) (left right : Expr) :
    Expr.type? scopes image (.binary position op left right) =
      ((left.type? scopes image).map op.use.see).bind fun leftTy =>
        ((right.type? scopes image).map op.use.see).map fun rightTy =>
          op.resultType leftTy.asValue rightTy.asValue := by
  simp only [type?, typeOf]
  cases left.typeOf scopes image with
  | error error => rfl
  | ok leftTy => cases right.typeOf scopes image <;> cases op <;> rfl

theorem Expr.type?_unary (op : UnaryOp) (operand : Expr) :
    Expr.type? scopes image (.unary position op operand) =
      ((operand.type? scopes image).map op.use.see).map op.resultType := by
  simp only [type?, typeOf]
  cases operand.typeOf scopes image <;> cases op <;> rfl

end Types

theorem predictedType_eq_of_type? {expr other : Expr}
    (same : ∀ scopes image, other.type? scopes image = expr.type? scopes image) :
    predictedType other = predictedType expr := by
  have answer (expr : Expr) : predictedType expr = ask fun emitter =>
      .ok ((expr.type? emitter.scopes emitter.image).elim .invalid Ty.asValue) := by
    unfold predictedType Expr.type?
    congr 1
    funext emitter
    cases expr.typeOf emitter.scopes emitter.image <;> rfl
  simp only [answer, same]

section Code

variable {position : Position}

theorem emitExpr_not (operand : Expr) :
    emitExpr (.unary position .not operand) =
      (do return .branch (← emitCondition operand).negate) := by
  rw [emitExpr, emitCondition]
  simp only [bind_assoc]

theorem emitCondition_not (operand : Expr) :
    emitCondition (.unary position .not operand) =
      (do return (← emitCondition operand).negate) := by
  rw [emitCondition, emitExpr_not]
  simp only [bind_assoc, pure_bind]
  rfl

/-- The outcome of the left condition that leads to the right one. -/
def Connective.undecided : Connective → PendingBranch → List Site
  | and => PendingBranch.trueSites
  | or => PendingBranch.falseSites

/-- The joined condition, once its undecided outcome leads from the left one to the right one. -/
def Connective.join : Connective → PendingBranch → PendingBranch → PendingBranch
  | and => PendingBranch.conj
  | or => PendingBranch.disj

theorem Connective.join_assoc (connective : Connective) (left middle right : PendingBranch) :
    connective.join (connective.join left middle) right =
      connective.join left (connective.join middle right) := by
  cases connective <;> simp [join, PendingBranch.conj, PendingBranch.disj]

theorem Connective.undecided_join (connective : Connective) (left right : PendingBranch) :
    connective.undecided (connective.join left right) = connective.undecided right := by
  cases connective <;> rfl

/-- The condition that two conditions make, of which the left one leads to the right one. -/
def emitJoined (connective : Connective) (left right : EmitM PendingBranch) :
    EmitM PendingBranch := do
  let leftBranch ← left
  let rightStart ← offset
  patch (connective.undecided leftBranch) rightStart
  let rightBranch ← right
  return connective.join leftBranch rightBranch

theorem emitLogical_eq (connective : Connective) (left right : EmitM PendingBranch) :
    emitLogical connective left right =
      (do return .branch (← emitJoined connective left right)) := by
  rw [emitLogical, emitJoined]
  cases connective <;> simp only [bind_assoc, pure_bind] <;> rfl

theorem emitExpr_logic (connective : Connective) (left right : Expr) :
    emitExpr (.binary position (.logic connective) left right) =
      (do return .branch (← emitJoined connective (emitCondition left) (emitCondition right))) := by
  rw [emitExpr]
  exact emitLogical_eq connective (emitCondition left) (emitCondition right)

theorem emitCondition_logic (connective : Connective) (left right : Expr) :
    emitCondition (.binary position (.logic connective) left right) =
      emitJoined connective (emitCondition left) (emitCondition right) := by
  rw [emitCondition, emitExpr_logic]
  simp only [bind_assoc, pure_bind]
  exact bind_pure _

theorem emitJoined_assoc (connective : Connective) (left middle right : EmitM PendingBranch) :
    emitJoined connective (emitJoined connective left middle) right =
      emitJoined connective left (emitJoined connective middle right) := by
  simp only [emitJoined, bind_assoc, pure_bind, Connective.undecided_join, Connective.join_assoc]

/-- Negation exchanges the outcomes, and with them the connective. -/
theorem negate_emitJoined (connective : Connective) (left right : EmitM PendingBranch) :
    (do return (← emitJoined connective left right).negate) =
      emitJoined connective.dual (do return (← left).negate) (do return (← right).negate) := by
  simp only [emitJoined, bind_assoc, pure_bind]
  cases connective <;> rfl

end Code

/-- An expression can stand in the place of another for the given use. -/
structure Expr.Replaces (use : Use) (other expr : Expr) : Prop where
  position : other.position = expr.position
  value : use = .value → emitExpr other = emitExpr expr
  condition : emitCondition other = emitCondition expr
  type : ∀ scopes image,
    (other.type? scopes image).map use.see = (expr.type? scopes image).map use.see

namespace Expr.Replaces

variable {use : Use} {expr other : Expr} {position : Position}

theorem of_value (same : other.position = expr.position) (value : emitExpr other = emitExpr expr)
    (type : ∀ scopes image, other.type? scopes image = expr.type? scopes image) :
    other.Replaces use expr where
  position := same
  value _ := value
  condition := by rw [emitCondition, emitCondition, value, same]
  type scopes image := by rw [type]

theorem type?_eq (replaces : other.Replaces .value expr) (scopes : Scopes) (image : Image) :
    other.type? scopes image = expr.type? scopes image := by
  have same := replaces.type scopes image
  rwa [show Use.value.see = id from rfl, Option.map_id, id, id] at same

theorem emitAs_eq (replaces : other.Replaces .value expr) (ty : Ty) :
    emitAs other ty = emitAs expr ty := by
  rw [emitAs, emitAs, replaces.value rfl, replaces.position]

theorem notNot {inner : Position} :
    Expr.Replaces .condition (.unary expr.position .not (.unary inner .not expr)) expr where
  position := rfl
  value := by rintro ⟨⟩
  condition := by
    rw [emitCondition_not, emitCondition_not]
    simp only [bind_assoc, pure_bind, PendingBranch.negate_negate]
    exact bind_pure _
  type scopes image := by
    rw [type?_unary, type?_unary]
    cases expr.type? scopes image <;> rfl

theorem deMorgan {inner first second : Position} {connective : Connective} {left right : Expr} :
    Expr.Replaces use
      (.binary position (.logic connective.dual) (.unary first .not left)
        (.unary second .not right))
      (.unary position .not (.binary inner (.logic connective) left right)) := by
  refine of_value rfl ?_ fun scopes image => ?_
  · rw [emitExpr_logic, emitExpr_not, emitCondition_not, emitCondition_not, emitCondition_logic,
      ← negate_emitJoined]
    simp only [bind_assoc, pure_bind]
  · simp only [type?_binary, type?_unary]
    cases left.type? scopes image <;> cases right.type? scopes image <;> rfl

theorem assoc {inner outer : Position} {connective : Connective} {left middle right : Expr} :
    Expr.Replaces use
      (.binary position (.logic connective) left (.binary outer (.logic connective) middle right))
      (.binary position (.logic connective) (.binary inner (.logic connective) left middle)
        right) := by
  refine of_value rfl ?_ fun scopes image => ?_
  · rw [emitExpr_logic, emitExpr_logic, emitCondition_logic, emitCondition_logic, emitJoined_assoc]
  · simp only [type?_binary]
    cases left.type? scopes image with
    | none => rfl
    | some => cases middle.type? scopes image <;> cases right.type? scopes image <;> rfl

theorem left {op : BinOp} {right : Expr} (replaces : other.Replaces op.use expr) :
    Expr.Replaces use (.binary position op other right) (.binary position op expr right) := by
  refine of_value rfl ?_ fun scopes image => ?_
  · cases op with
    | logic connective => rw [emitExpr_logic, emitExpr_logic, replaces.condition]
    | compare | arith =>
        rw [emitExpr, emitExpr]
        simp only [replaces.value rfl, replaces.position]
  · rw [type?_binary, type?_binary, replaces.type]

theorem right {op : BinOp} {left : Expr} (replaces : other.Replaces op.use expr) :
    Expr.Replaces use (.binary position op left other) (.binary position op left expr) := by
  refine of_value rfl ?_ fun scopes image => ?_
  · cases op with
    | logic connective => rw [emitExpr_logic, emitExpr_logic, replaces.condition]
    | compare | arith =>
        rw [emitExpr, emitExpr]
        simp only [replaces.value rfl, replaces.position,
          predictedType_eq_of_type? replaces.type?_eq]
  · rw [type?_binary, type?_binary, replaces.type]

theorem operand {op : UnaryOp} (replaces : other.Replaces op.use expr) :
    Expr.Replaces use (.unary position op other) (.unary position op expr) := by
  refine of_value rfl ?_ fun scopes image => ?_
  · cases op with
    | not => rw [emitExpr_not, emitExpr_not, replaces.condition]
    | neg =>
        rw [emitExpr, emitExpr]
        simp only [replaces.value rfl]
  · rw [type?_unary, type?_unary, replaces.type]

theorem emitArgs_eq (replaces : other.Replaces .value expr) (before after : List Expr)
    (types : List Ty) :
    emitArgs (before ++ other :: after) types = emitArgs (before ++ expr :: after) types := by
  induction before generalizing types with
  | nil =>
      rw [List.nil_append, List.nil_append, emitArgs, emitArgs, replaces.value rfl,
        replaces.position]
  | cons arg before ih => rw [List.cons_append, List.cons_append, emitArgs, emitArgs, ih]

theorem arg (replaces : other.Replaces .value expr) (name : String) (before after : List Expr) :
    Expr.Replaces use (.call position name (before ++ other :: after))
      (.call position name (before ++ expr :: after)) := by
  refine of_value rfl ?_ fun _ _ => rfl
  have count : (before ++ other :: after).length = (before ++ expr :: after).length := by simp
  rw [emitExpr, emitExpr, count]
  simp only [replaces.emitArgs_eq]

end Expr.Replaces

/-- An expression in which an occurrence is rewritten can stand in the place of the expression. -/
theorem Expr.Rewrites.replaces {use : Use} {expr other : Expr}
    (rewrites : Expr.Rewrites use expr other) : other.Replaces use expr := by
  induction rewrites with
  | deMorgan => exact .deMorgan
  | assoc => exact .assoc
  | notNot => exact .notNot
  | decide _ ih => exact .of_value ih.position (ih.value rfl) ih.type?_eq
  | left _ ih => exact ih.left
  | right _ ih => exact ih.right
  | operand _ ih => exact ih.operand
  | arg before after _ ih => exact ih.arg _ before after

theorem emitPrints_eq {expr other : Expr} (replaces : other.Replaces .value expr)
    (before after : List Expr) :
    (before ++ other :: after).forM emitPrint = (before ++ expr :: after).forM emitPrint := by
  have same : emitPrint other = emitPrint expr := by
    rw [emitPrint, emitPrint, replaces.value rfl, replaces.position]
  simp only [List.forM_eq_forM, List.forM_append, List.forM_cons, same]

theorem emitStmt_ifElse (options : Options) (cond : Expr) (thenBlock : Block)
    (elseBlock : Option Block) :
    emitStmt options (.ifElse cond thenBlock elseBlock) =
      emitIf cond (emitBlock options thenBlock)
        (elseBlock.elim (pure ()) (emitBlock options)) := by
  cases elseBlock <;> rw [emitStmt] <;> rfl

theorem emitStmts_eq {options : Options} {stmt other : Stmt}
    (same : emitStmt options other = emitStmt options stmt) (before after : List Stmt) :
    emitStmts options (before ++ other :: after) = emitStmts options (before ++ stmt :: after) := by
  induction before with
  | nil => rw [List.nil_append, List.nil_append, emitStmts, emitStmts, same]
  | cons first before ih => rw [List.cons_append, List.cons_append, emitStmts, emitStmts, ih]

/-- Functions are declared alike and have the same code. -/
structure FnDef.Replaces (options : Options) (other definition : FnDef) : Prop where
  name : other.name = definition.name
  signature : other.signature = definition.signature
  returnType : other.returnType = definition.returnType
  position : other.position = definition.position
  code : emitBody options other = emitBody options definition

namespace FnDef.Replaces

variable {options : Options} {definition other : FnDef}

theorem declareFunction_eq (replaces : other.Replaces options definition) :
    declareFunction other = declareFunction definition := by
  rw [declareFunction, declareFunction, replaces.name, replaces.signature, replaces.position]

theorem declareBlock_eq (replaces : other.Replaces options definition) (vars : List VarDecl)
    (before after : List FnDef) :
    declareBlock vars (before ++ other :: after) =
      declareBlock vars (before ++ definition :: after) := by
  simp only [declareBlock, List.mapM_append, List.mapM_cons, replaces.declareFunction_eq]

theorem emitFunctions_eq (replaces : other.Replaces options definition) (before after : List FnDef)
    (ids : List UInt16) :
    emitFunctions options (before ++ other :: after) ids =
      emitFunctions options (before ++ definition :: after) ids := by
  induction before generalizing ids with
  | nil =>
      cases ids with
      | nil => rfl
      | cons id ids =>
          rw [List.nil_append, List.nil_append, emitFunctions, emitFunctions, replaces.returnType,
            replaces.code]
  | cons first before ih =>
      cases ids with
      | nil => rfl
      | cons id ids => rw [List.cons_append, List.cons_append, emitFunctions, emitFunctions, ih]

end FnDef.Replaces

mutual

theorem Stmt.Rewrites.emitStmt_eq (options : Options) {stmt other : Stmt} :
    stmt.Rewrites other → emitStmt options other = emitStmt options stmt
  | .store rewrites => by
      rw [emitStmt, emitStmt, emitAssignment, emitAssignment]
      simp only [rewrites.replaces.emitAs_eq]
  | .ifCond rewrites => by
      rw [emitStmt_ifElse, emitStmt_ifElse, emitIf, emitIf, rewrites.replaces.condition]
  | .ifThen rewrites => by
      rw [emitStmt_ifElse, emitStmt_ifElse, rewrites.emitBlock_eq options]
  | .ifElse rewrites => by
      rw [emitStmt, emitStmt, rewrites.emitBlock_eq options]
  | .whileCond rewrites => by
      rw [emitStmt, emitStmt, emitWhile, emitWhile, rewrites.replaces.condition]
  | .whileBody rewrites => by
      rw [emitStmt, emitStmt, rewrites.emitBlock_eq options]
  | .forLow rewrites => by
      rw [emitStmt, emitStmt, emitFor, emitFor]
      simp only [rewrites.replaces.emitAs_eq]
  | .forHigh rewrites => by
      rw [emitStmt, emitStmt, emitFor, emitFor]
      simp only [rewrites.replaces.emitAs_eq]
  | .forBody rewrites => by
      rw [emitStmt, emitStmt, rewrites.emitBlock_eq options]
  | .print before after rewrites => by
      rw [emitStmt, emitStmt, emitPrints_eq rewrites.replaces before after]
  | .ret rewrites => by
      rw [emitStmt, emitStmt, emitReturn, emitReturn]
      simp only [rewrites.replaces.emitAs_eq]
  | .expr rewrites => by
      rw [emitStmt, emitStmt, emitDiscarded, emitDiscarded, rewrites.replaces.value rfl]
  | .block rewrites => by
      rw [emitStmt, emitStmt, rewrites.emitBlock_eq options]

theorem Block.Rewrites.emitBlock_eq (options : Options) {block other : Block} :
    block.Rewrites other → emitBlock options other = emitBlock options block
  | .function before after rewrites => by
      have replaces := rewrites.replaces options
      rw [emitBlock, emitBlock, replaces.declareBlock_eq _ before after]
      simp only [replaces.emitFunctions_eq before after]
  | .stmt before after rewrites => by
      rw [emitBlock, emitBlock, emitStmts_eq (rewrites.emitStmt_eq options) before after]

theorem FnDef.Rewrites.replaces (options : Options) {definition other : FnDef} :
    definition.Rewrites other → other.Replaces options definition
  | .body rewrites => by
      refine ⟨rfl, rfl, rfl, rfl, ?_⟩
      rw [emitBody, emitBody, rewrites.emitBlock_eq options]

end

/-- Rewriting an occurrence in a program by a law of conditions changes neither the image to which
the program is compiled nor the error with which it is rejected. -/
theorem Program.compile_eq_of_rewrites {program other : Program}
    (rewrites : program.Rewrites other) (options : Options) :
    other.compile options = program.compile options := by
  have replaces := FnDef.Rewrites.replaces options rewrites
  have same : other.emit options = program.emit options := by
    simp only [emit, replaces.name, replaces.signature, replaces.returnType, replaces.code]
  rw [compile, compile, same]

/-- A program whose inner function counts its argument down and adds a truth value to a number. -/
def Program.weighing (value : Expr) : Program where
  top := ⟨"main", .void, [], .block
    ⟨[], [⟨"weigh", .int, [⟨"n", .int⟩], .block
        ⟨[], [], [.whileDo (.load 1 "n") ⟨[], [], [.store 2 "n" .decrease (.int 3 1)]⟩,
          .ret 4 (some (.binary 5 (.arith .add) (.int 6 2) value))]⟩, 7⟩],
      [.print 8 [.call 9 "weigh" [.int 10 3]]]⟩, 0⟩

/-- `!(n && weigh(n))` -/
def Expr.notBoth : Expr :=
  .unary 11 .not (.binary 12 (.logic .and) (.load 13 "n") (.call 14 "weigh" [.load 15 "n"]))

/-- `!n || !weigh(n)` -/
def Expr.eitherNot : Expr :=
  .binary 11 (.logic .or) (.unary 13 .not (.load 13 "n"))
    (.unary 14 .not (.call 14 "weigh" [.load 15 "n"]))

theorem Program.compile_eq_of_rewrites_weighing :
    (weighing .notBoth).Rewrites (weighing .eitherNot) ∧
      ∃ image, (weighing .notBoth).compile .default = .ok image ∧
        (weighing .eitherNot).compile .default = .ok image := by
  -- The law is used in the right operand of the sum that the inner function returns.
  have rewrites : (weighing .notBoth).Rewrites (weighing .eitherNot) :=
    .body (.function [] [] (.body (.stmt [_] [] (.ret (.right .deMorgan)))))
  obtain ⟨image, compiles⟩ : ∃ image, (weighing .notBoth).compile .default = .ok image :=
    exists_of_isOk (by decide +kernel)
  exact ⟨rewrites, image, compiles, .trans (compile_eq_of_rewrites rewrites .default) compiles⟩

end Backpatch
