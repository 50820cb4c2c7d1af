import Backpatch.Document.Double
import Backpatch.Document.Image
import Backpatch.Program

/-!
# Programs as documents

Expressions are records of a kind and a position; statements, bodies and kinds of expressions are
choices.  Positions may be left out and are then zero, and so may the parts of a block and the
parameters of a function, which are then empty.
-/

namespace Backpatch

open Json (Reader Record)

def BinOp.tag : BinOp → String
  | arith .add => "Add"
  | arith .sub => "Sub"
  | arith .mul => "Mul"
  | arith .div => "Div"
  | arith .mod => "Mod"
  | arith .bitAnd => "BitAnd"
  | arith .bitOr => "BitOr"
  | arith .bitXor => "BitXor"
  | compare .eq => "Eq"
  | compare .neq => "Neq"
  | compare .lt => "Lt"
  | compare .lte => "Lte"
  | compare .gt => "Gt"
  | compare .gte => "Gte"
  | logic .and => "And"
  | logic .or => "Or"

def BinOp.ofTag? (tag : String) : Option BinOp :=
  BinOp.all.find? (·.tag == tag)

def BinOp.read : Reader BinOp :=
  Json.readTag BinOp.ofTag?

def UnaryOp.tag : UnaryOp → String
  | neg => "Neg"
  | not => "Not"

def UnaryOp.ofTag? : String → Option UnaryOp
  | "Neg" => some neg
  | "Not" => some not
  | _ => none

def UnaryOp.read : Reader UnaryOp :=
  Json.readTag UnaryOp.ofTag?

def StoreOp.tag : StoreOp → String
  | assign => "Assign"
  | increase => "Incr"
  | decrease => "Decr"

def StoreOp.ofTag? : String → Option StoreOp
  | "Assign" => some assign
  | "Incr" => some increase
  | "Decr" => some decrease
  | _ => none

def StoreOp.read : Reader StoreOp :=
  Json.readTag StoreOp.ofTag?

def Json.ofPosition (position : Position) : Json :=
  .ofNat position.toNat

/-- An expression of the given kind. -/
def Json.ofExpr (position : Position) (tag : String) (contents : Json) : Json :=
  .object [("kind", .choice tag contents), ("position", .ofPosition position)]

mutual

def Expr.toJson : Expr → Json
  | .int position value => .ofExpr position "Int" (.number (.ofInt value.toInt))
  | .double position value => .ofExpr position "Double" value.toJson
  | .string position value => .ofExpr position "Str" (.string value)
  | .load position name => .ofExpr position "Load" (.string name)
  | .binary position op left right =>
      .ofExpr position "Binary" (.object
        [("op", .string op.tag), ("left", left.toJson), ("right", right.toJson)])
  | .unary position op operand =>
      .ofExpr position "Unary" (.object [("op", .string op.tag), ("operand", operand.toJson)])
  | .call position name args =>
      .ofExpr position "Call" (.object
        [("name", .string name), ("args", .array (Expr.listToJson args []))])

/-- The documents of expressions, behind those in `done`, of which the last one comes first. -/
def Expr.listToJson : List Expr → (done : List Json) → List Json
  | [], done => done.reverse
  | expr :: exprs, done => Expr.listToJson exprs (expr.toJson :: done)

end

def VarDecl.toJson (var : VarDecl) : Json :=
  .object
    [("name", .string var.name), ("ty", var.ty.toJson), ("position", .ofPosition var.position)]

def ParamDecl.toJson (param : ParamDecl) : Json :=
  .object [("name", .string param.name), ("ty", param.ty.toJson)]

mutual

def Stmt.toJson : Stmt → Json
  | .store position name op value =>
      .choice "Store" (.object
        [("name", .string name), ("op", .string op.tag), ("value", value.toJson),
          ("position", .ofPosition position)])
  | .ifElse cond thenBlock elseBlock =>
      .choice "If" (.object
        [("cond", cond.toJson), ("then_block", thenBlock.toJson),
          ("else_block",
            match elseBlock with
            | none => .null
            | some elseBlock => elseBlock.toJson)])
  | .whileDo cond body =>
      .choice "While" (.object [("cond", cond.toJson), ("body", body.toJson)])
  | .forRange position name low high body =>
      .choice "For" (.object
        [("var", .string name), ("low", low.toJson), ("high", high.toJson),
          ("body", body.toJson), ("position", .ofPosition position)])
  | .print position args =>
      .choice "Print" (.object
        [("args", .ofList Expr.toJson args), ("position", .ofPosition position)])
  | .ret position value =>
      .choice "Return" (.object
        [("value", .ofOption Expr.toJson value), ("position", .ofPosition position)])
  | .expr value => .choice "Expr" value.toJson
  | .block body => .choice "Block" body.toJson

/-- The documents of statements, behind those in `done`, of which the last one comes first. -/
def Stmt.listToJson : List Stmt → (done : List Json) → List Json
  | [], done => done.reverse
  | stmt :: stmts, done => Stmt.listToJson stmts (stmt.toJson :: done)

def Block.toJson : Block → Json
  | ⟨vars, functions, stmts⟩ =>
      .object
        [("vars", .ofList VarDecl.toJson vars),
          ("functions", .array (FnDef.listToJson functions [])),
          ("stmts", .array (Stmt.listToJson stmts []))]

def FnDef.toJson : FnDef → Json
  | ⟨name, returnType, params, body, position⟩ =>
      .object
        [("name", .string name), ("return_type", returnType.toJson),
          ("params", .ofList ParamDecl.toJson params),
          ("body",
            match body with
            | .block block => .choice "Block" block.toJson
            | .native symbol => .choice "Native" (.object [("symbol", .string symbol)])),
          ("position", .ofPosition position)]

/-- The documents of functions, behind those in `done`, of which the last one comes first. -/
def FnDef.listToJson : List FnDef → (done : List Json) → List Json
  | [], done => done.reverse
  | definition :: definitions, done =>
      FnDef.listToJson definitions (definition.toJson :: done)

end

def Program.toJson (program : Program) : Json :=
  .object [("top", program.top.toJson)]

/-- The document of a program as a text. -/
def Program.render (program : Program) : String :=
  program.toJson.render .pretty

/-- The position of a record, which may be left out. -/
def Json.Record.position (record : Record) (depth : Nat) : Option Position :=
  record.withDefault "position" 0 (Json.readUInt32 depth)

mutual

def Expr.read : Reader Expr
  | 0, _ => none
  | depth + 1, json => do
      let record ← Record.ofJson? ["kind", "position"] json
      let expr ← record.required "kind" (Expr.readKind depth)
      let position ← record.position depth
      return expr.withPosition position

/-- An expression of which the position is not known yet. -/
def Expr.readKind : Reader Expr
  | depth + 1, .object [(tag, contents)] =>
      match tag with
      | "Int" => do return .int 0 (← Json.readInt64 depth contents)
      | "Double" => do return .double 0 (← Json.readDouble depth contents)
      | "Str" => do return .string 0 (← Json.readString depth contents)
      | "Load" => do return .load 0 (← Json.readString depth contents)
      | "Binary" => Expr.readBinary depth contents
      | "Unary" => Expr.readUnary depth contents
      | "Call" => Expr.readCall depth contents
      | _ => none
  | _, _ => none

def Expr.readBinary : Reader Expr
  | 0, _ => none
  | depth + 1, json => do
      let record ← Record.ofJson? ["op", "left", "right"] json
      let op ← record.required "op" (BinOp.read depth)
      let left ← record.required "left" (Expr.read depth)
      let right ← record.required "right" (Expr.read depth)
      return .binary 0 op left right

def Expr.readUnary : Reader Expr
  | 0, _ => none
  | depth + 1, json => do
      let record ← Record.ofJson? ["op", "operand"] json
      let op ← record.required "op" (UnaryOp.read depth)
      let operand ← record.required "operand" (Expr.read depth)
      return .unary 0 op operand

def Expr.readCall : Reader Expr
  | 0, _ => none
  | depth + 1, json => do
      let record ← Record.ofJson? ["name", "args"] json
      let name ← record.required "name" (Json.readString depth)
      let args ← record.required "args" (Expr.readList depth)
      return .call 0 name args

def Expr.readList : Reader (List Expr)
  | depth + 1, .array items => items.mapM (Expr.read depth)
  | _, _ => none

end

def VarDecl.read : Reader VarDecl
  | 0, _ => none
  | depth + 1, json => do
      let record ← Record.ofJson? ["name", "ty", "position"] json
      let name ← record.required "name" (Json.readString depth)
      let ty ← record.required "ty" (Ty.read depth)
      let position ← record.position depth
      return ⟨name, ty, position⟩

def ParamDecl.read : Reader ParamDecl
  | 0, _ => none
  | depth + 1, json => do
      let record ← Record.ofJson? ["name", "ty"] json
      let name ← record.required "name" (Json.readString depth)
      let ty ← record.required "ty" (Ty.read depth)
      return ⟨name, ty⟩

def Stmt.readStore : Reader Stmt
  | 0, _ => none
  | depth + 1, json => do
      let record ← Record.ofJson? ["name", "op", "value", "position"] json
      let name ← record.required "name" (Json.readString depth)
      let op ← record.required "op" (StoreOp.read depth)
      let value ← record.required "value" (Expr.read depth)
      let position ← record.position depth
      return .store position name op value

def Stmt.readPrint : Reader Stmt
  | 0, _ => none
  | depth + 1, json => do
      let record ← Record.ofJson? ["args", "position"] json
      let args ← record.required "args" (Expr.readList depth)
      let position ← record.position depth
      return .print position args

def Stmt.readReturn : Reader Stmt
  | 0, _ => none
  | depth + 1, json => do
      let record ← Record.ofJson? ["value", "position"] json
      let value ← record.optional "value" (Json.readOption Expr.read depth)
      let position ← record.position depth
      return .ret position value

mutual

def Stmt.read : Reader Stmt
  | depth + 1, .object [(tag, contents)] =>
      match tag with
      | "Store" => Stmt.readStore depth contents
      | "If" => Stmt.readIf depth contents
      | "While" => Stmt.readWhile depth contents
      | "For" => Stmt.readFor depth contents
      | "Print" => Stmt.readPrint depth contents
      | "Return" => Stmt.readReturn depth contents
      | "Expr" => do return .expr (← Expr.read depth contents)
      | "Block" => do return .block (← Block.read depth contents)
      | _ => none
  | _, _ => none

def Stmt.readIf : Reader Stmt
  | 0, _ => none
  | depth + 1, json => do
      let record ← Record.ofJson? ["cond", "then_block", "else_block"] json
      let cond ← record.required "cond" (Expr.read depth)
      let thenBlock ← record.required "then_block" (Block.read depth)
      let elseBlock ← record.optional "else_block" fun
        | .null => some none
        | json => (Block.read depth json).map some
      return .ifElse cond thenBlock elseBlock

def Stmt.readWhile : Reader Stmt
  | 0, _ => none
  | depth + 1, json => do
      let record ← Record.ofJson? ["cond", "body"] json
      let cond ← record.required "cond" (Expr.read depth)
      let body ← record.required "body" (Block.read depth)
      return .whileDo cond body

def Stmt.readFor : Reader Stmt
  | 0, _ => none
  | depth + 1, json => do
      let record ← Record.ofJson? ["var", "low", "high", "body", "position"] json
      let name ← record.required "var" (Json.readString depth)
      let low ← record.required "low" (Expr.read depth)
      let high ← record.required "high" (Expr.read depth)
      let body ← record.required "body" (Block.read depth)
      let position ← record.position depth
      return .forRange position name low high body

def Block.read : Reader Block
  | 0, _ => none
  | depth + 1, json => do
      let record ← Record.ofJson? ["vars", "functions", "stmts"] json
      let vars ← record.withDefault "vars" [] (Json.readList VarDecl.read depth)
      let functions ← record.withDefault "functions" [] (FnDef.readList depth)
      let stmts ← record.withDefault "stmts" [] (Stmt.readList depth)
      return ⟨vars, functions, stmts⟩

def FnDef.read : Reader FnDef
  | 0, _ => none
  | depth + 1, json => do
      let record ← Record.ofJson? ["name", "return_type", "params", "body", "position"] json
      let name ← record.required "name" (Json.readString depth)
      let returnType ← record.required "return_type" (Ty.read depth)
      let params ← record.withDefault "params" [] (Json.readList ParamDecl.read depth)
      let body ← record.required "body" (FnBody.read depth)
      let position ← record.position depth
      return ⟨name, returnType, params, body, position⟩

def FnBody.read : Reader FnBody
  | depth + 1, .object [(tag, contents)] =>
      match tag with
      | "Block" => do return .block (← Block.read depth contents)
      | "Native" => FnBody.readNative depth contents
      | _ => none
  | _, _ => none

def FnBody.readNative : Reader FnBody
  | 0, _ => none
  | depth + 1, json => do
      let record ← Record.ofJson? ["symbol"] json
      return .native (← record.required "symbol" (Json.readString depth))

def Stmt.readList : Reader (List Stmt)
  | depth + 1, .array items => items.mapM (Stmt.read depth)
  | _, _ => none

def FnDef.readList : Reader (List FnDef)
  | depth + 1, .array items => items.mapM (FnDef.read depth)
  | _, _ => none

end

def Program.read : Reader Program
  | 0, _ => none
  | depth + 1, json => do
      let record ← Record.ofJson? ["top"] json
      return ⟨← record.required "top" (FnDef.read depth)⟩

/-- Read the document of a program. -/
def Program.parse? (bytes : List UInt8) : Option Program :=
  Json.readDocument Program.read bytes

end Backpatch
