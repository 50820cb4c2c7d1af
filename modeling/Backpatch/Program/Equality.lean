import Backpatch.Program

/-!
# Equality of programs

Programs are equal when they have the same shape with the same names, literals and positions in it;
doubles are compared by their bits.  Equality is decided by walking both programs at once.
-/

namespace Backpatch

mutual

def Expr.beq : Expr → Expr → Bool
  | .int position value, .int position' value' => position == position' && value == value'
  | .double position value, .double position' value' => position == position' && value == value'
  | .string position value, .string position' value' => position == position' && value == value'
  | .load position name, .load position' name' => position == position' && name == name'
  | .binary position op left right, .binary position' op' left' right' =>
      position == position' && op == op' && left.beq left' && right.beq right'
  | .unary position op operand, .unary position' op' operand' =>
      position == position' && op == op' && operand.beq operand'
  | .call position name args, .call position' name' args' =>
      position == position' && name == name' && Expr.beqList args args'
  | _, _ => false

def Expr.beqList : List Expr → List Expr → Bool
  | [], [] => true
  | expr :: exprs, expr' :: exprs' => expr.beq expr' && Expr.beqList exprs exprs'
  | _, _ => false

end

mutual

theorem Expr.beq_iff : (expr other : Expr) → (expr.beq other = true ↔ expr = other)
  | .int .., other => by cases other <;> simp [Expr.beq]
  | .double .., other => by cases other <;> simp [Expr.beq]
  | .string .., other => by cases other <;> simp [Expr.beq]
  | .load .., other => by cases other <;> simp [Expr.beq]
  | .binary _ _ left right, other => by
      cases other <;> simp [Expr.beq, Expr.beq_iff left, Expr.beq_iff right, and_assoc]
  | .unary _ _ operand, other => by
      cases other <;> simp [Expr.beq, Expr.beq_iff operand, and_assoc]
  | .call _ _ args, other => by
      cases other <;> simp [Expr.beq, Expr.beqList_iff args, and_assoc]

theorem Expr.beqList_iff :
    (exprs others : List Expr) → (Expr.beqList exprs others = true ↔ exprs = others)
  | [], others => by cases others <;> simp [Expr.beqList]
  | expr :: exprs, others => by
      cases others <;> simp [Expr.beqList, Expr.beq_iff expr, Expr.beqList_iff exprs]

end

instance : DecidableEq Expr := fun expr other =>
  decidable_of_iff _ (Expr.beq_iff expr other)

mutual

def Stmt.beq : Stmt → Stmt → Bool
  | .store position name op value, .store position' name' op' value' =>
      position == position' && name == name' && op == op' && value == value'
  | .ifElse cond thenBlock elseBlock, .ifElse cond' thenBlock' elseBlock' =>
      cond == cond' && thenBlock.beq thenBlock' && Block.beqOption elseBlock elseBlock'
  | .whileDo cond body, .whileDo cond' body' => cond == cond' && body.beq body'
  | .forRange position name low high body, .forRange position' name' low' high' body' =>
      position == position' && name == name' && low == low' && high == high' && body.beq body'
  | .print position args, .print position' args' => position == position' && args == args'
  | .ret position value, .ret position' value' => position == position' && value == value'
  | .expr value, .expr value' => value == value'
  | .block body, .block body' => body.beq body'
  | _, _ => false

def Stmt.beqList : List Stmt → List Stmt → Bool
  | [], [] => true
  | stmt :: stmts, stmt' :: stmts' => stmt.beq stmt' && Stmt.beqList stmts stmts'
  | _, _ => false

def Block.beq : Block → Block → Bool
  | ⟨vars, functions, stmts⟩, ⟨vars', functions', stmts'⟩ =>
      vars == vars' && FnDef.beqList functions functions' && Stmt.beqList stmts stmts'

def Block.beqOption : Option Block → Option Block → Bool
  | none, none => true
  | some block, some block' => block.beq block'
  | _, _ => false

def FnDef.beq : FnDef → FnDef → Bool
  | ⟨name, returnType, params, body, position⟩, ⟨name', returnType', params', body', position'⟩ =>
      name == name' && returnType == returnType' && params == params' && body.beq body' &&
        position == position'

def FnDef.beqList : List FnDef → List FnDef → Bool
  | [], [] => true
  | definition :: definitions, definition' :: definitions' =>
      definition.beq definition' && FnDef.beqList definitions definitions'
  | _, _ => false

def FnBody.beq : FnBody → FnBody → Bool
  | .block block, .block block' => block.beq block'
  | .native symbol, .native symbol' => symbol == symbol'
  | _, _ => false

end

mutual

theorem Stmt.beq_iff : (stmt other : Stmt) → (stmt.beq other = true ↔ stmt = other)
  | .store .., other => by cases other <;> simp [Stmt.beq, and_assoc]
  | .ifElse _ thenBlock elseBlock, other => by
      cases other <;>
        simp [Stmt.beq, Block.beq_iff thenBlock, Block.beqOption_iff elseBlock, and_assoc]
  | .whileDo _ body, other => by cases other <;> simp [Stmt.beq, Block.beq_iff body]
  | .forRange _ _ _ _ body, other => by
      cases other <;> simp [Stmt.beq, Block.beq_iff body, and_assoc]
  | .print .., other => by cases other <;> simp [Stmt.beq]
  | .ret .., other => by cases other <;> simp [Stmt.beq]
  | .expr .., other => by cases other <;> simp [Stmt.beq]
  | .block body, other => by cases other <;> simp [Stmt.beq, Block.beq_iff body]

theorem Stmt.beqList_iff :
    (stmts others : List Stmt) → (Stmt.beqList stmts others = true ↔ stmts = others)
  | [], others => by cases others <;> simp [Stmt.beqList]
  | stmt :: stmts, others => by
      cases others <;> simp [Stmt.beqList, Stmt.beq_iff stmt, Stmt.beqList_iff stmts]

theorem Block.beq_iff : (block other : Block) → (block.beq other = true ↔ block = other)
  | ⟨_, functions, stmts⟩, ⟨_, _, _⟩ => by
      simp [Block.beq, FnDef.beqList_iff functions, Stmt.beqList_iff stmts, and_assoc]

theorem Block.beqOption_iff :
    (block other : Option Block) → (Block.beqOption block other = true ↔ block = other)
  | none, other => by cases other <;> simp [Block.beqOption]
  | some block, other => by cases other <;> simp [Block.beqOption, Block.beq_iff block]

theorem FnDef.beq_iff :
    (definition other : FnDef) → (definition.beq other = true ↔ definition = other)
  | ⟨_, _, _, body, _⟩, ⟨_, _, _, _, _⟩ => by
      simp [FnDef.beq, FnBody.beq_iff body, and_assoc]

theorem FnDef.beqList_iff :
    (definitions others : List FnDef) →
      (FnDef.beqList definitions others = true ↔ definitions = others)
  | [], others => by cases others <;> simp [FnDef.beqList]
  | definition :: definitions, others => by
      cases others <;>
        simp [FnDef.beqList, FnDef.beq_iff definition, FnDef.beqList_iff definitions]

theorem FnBody.beq_iff : (body other : FnBody) → (body.beq other = true ↔ body = other)
  | .block block, other => by cases other <;> simp [FnBody.beq, Block.beq_iff block]
  | .native .., other => by cases other <;> simp [FnBody.beq]

end

instance : DecidableEq Program := fun program other =>
  decidable_of_iff (program.top.beq other.top = true) (by
    rw [FnDef.beq_iff]
    cases program
    cases other
    simp)

end Backpatch
