import Backpatch.Double
import Backpatch.Ty

/-!
# Programs

The syntax of the language: a program is a function, a function has a block for its body or stands
for a native one, and a block declares variables and functions and lists statements.  Everything
that a block declares is visible in all of it, whatever the order.  Nodes about which something can
be wrong carry the position at which they stand in the source text.
-/

namespace Backpatch

/-- A place in the source text. -/
abbrev Position := UInt32

/-- Arithmetic and bitwise operators. -/
inductive ArithOp
  | add
  | sub
  | mul
  | div
  | mod
  | bitAnd
  | bitOr
  | bitXor
  deriving DecidableEq, Repr, Inhabited

/-- Comparisons. -/
inductive Comparison
  | eq
  | neq
  | lt
  | lte
  | gt
  | gte
  deriving DecidableEq, Repr, Inhabited

/-- Logical connectives, which evaluate the right operand only when the left one does not decide. -/
inductive Connective
  | and
  | or
  deriving DecidableEq, Repr, Inhabited

/-- Binary operators. -/
inductive BinOp
  | arith (op : ArithOp)
  | compare (op : Comparison)
  | logic (op : Connective)
  deriving DecidableEq, Repr, Inhabited

/-- Unary operators. -/
inductive UnaryOp
  | neg
  | not
  deriving DecidableEq, Repr, Inhabited

/-- Expressions. -/
inductive Expr
  | int (position : Position) (value : Int64)
  | double (position : Position) (value : Double)
  | string (position : Position) (value : String)
  /-- The value of a variable. -/
  | load (position : Position) (name : String)
  | binary (position : Position) (op : BinOp) (left right : Expr)
  | unary (position : Position) (op : UnaryOp) (operand : Expr)
  | call (position : Position) (name : String) (args : List Expr)
  deriving Inhabited

/-- What an assignment does with the old value of its variable. -/
inductive StoreOp
  /-- `=` -/
  | assign
  /-- `+=` -/
  | increase
  /-- `-=` -/
  | decrease
  deriving DecidableEq, Repr, Inhabited

/-- A variable declared by a block. -/
structure VarDecl where
  name : String
  ty : Ty
  position : Position
  deriving DecidableEq, Repr, Inhabited

/-- A parameter declared by a function. -/
structure ParamDecl where
  name : String
  ty : Ty
  deriving DecidableEq, Repr, Inhabited

mutual

/-- Statements. -/
inductive Stmt
  | store (position : Position) (name : String) (op : StoreOp) (value : Expr)
  | ifElse (cond : Expr) (thenBlock : Block) (elseBlock : Option Block)
  | whileDo (cond : Expr) (body : Block)
  /-- A loop over a range of numbers that includes both bounds. -/
  | forRange (position : Position) (name : String) (low high : Expr) (body : Block)
  | print (position : Position) (args : List Expr)
  | ret (position : Position) (value : Option Expr)
  /-- An expression whose value is not used. -/
  | expr (value : Expr)
  | block (body : Block)

/-- A scope with the statements in it. -/
structure Block where
  vars : List VarDecl
  functions : List FnDef
  stmts : List Stmt

/-- A function definition. -/
structure FnDef where
  name : String
  returnType : Ty
  params : List ParamDecl
  body : FnBody
  position : Position

/-- What a function does when it is called. -/
inductive FnBody
  | block (body : Block)
  /-- The native function bound to a symbol. -/
  | native (symbol : String)

end

/-- A program is its top-level function. -/
structure Program where
  top : FnDef

/-- The block that declares and does nothing. -/
def Block.empty : Block :=
  ⟨[], [], []⟩

instance : Inhabited Block :=
  ⟨.empty⟩

instance : Inhabited Stmt :=
  ⟨.block .empty⟩

instance : Inhabited FnDef :=
  ⟨⟨"", .void, [], .block .empty, 0⟩⟩

instance : Inhabited Program :=
  ⟨⟨default⟩⟩

namespace ArithOp

def symbol : ArithOp → String
  | add => "+"
  | sub => "-"
  | mul => "*"
  | div => "/"
  | mod => "%"
  | bitAnd => "&"
  | bitOr => "|"
  | bitXor => "^"

end ArithOp

namespace BinOp

/-- Every binary operator. -/
def all : List BinOp :=
  [arith .add, arith .sub, arith .mul, arith .div, arith .mod, arith .bitAnd, arith .bitOr,
    arith .bitXor, compare .eq, compare .neq, compare .lt, compare .lte, compare .gt, compare .gte,
    logic .and, logic .or]

def symbol : BinOp → String
  | arith op => op.symbol
  | compare .eq => "=="
  | compare .neq => "!="
  | compare .lt => "<"
  | compare .lte => "<="
  | compare .gt => ">"
  | compare .gte => ">="
  | logic .and => "&&"
  | logic .or => "||"

def isComparison : BinOp → Bool
  | compare _ => true
  | _ => false

def isLogical : BinOp → Bool
  | logic _ => true
  | _ => false

end BinOp

/-- The operator that joins the old value with the new one, unless the old value is dropped. -/
def StoreOp.update? : StoreOp → Option ArithOp
  | assign => none
  | increase => some .add
  | decrease => some .sub

namespace Expr

def position : Expr → Position
  | int position _ | double position _ | string position _ | load position _
  | binary position _ _ _ | unary position _ _ | call position _ _ => position

/-- The same expression at another position. -/
def withPosition (position : Position) : Expr → Expr
  | int _ value => int position value
  | double _ value => double position value
  | string _ value => string position value
  | load _ name => load position name
  | binary _ op left right => binary position op left right
  | unary _ op operand => unary position op operand
  | call _ name args => call position name args

end Expr

end Backpatch
