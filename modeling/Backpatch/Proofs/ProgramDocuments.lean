import Backpatch.Document.Program
import Backpatch.Proofs.DecimalReading
import Backpatch.Proofs.DocumentDepth
import Backpatch.Proofs.StoredImage

/-!
# Documents of programs are read back

A program whose doubles are finite is given back by its document, as long as not too many arrays and
objects are open at once in it; a document that is nested more deeply is refused.  There is one
lemma for each constructor of the syntax, which says that a document with its parts is read back if
the parts are.
-/

namespace Backpatch

namespace Json

theorem restores_position (position : Position) :
    Restores readUInt32 (.ofPosition position) position := by
  refine restores_flat rfl fun depth => ?_
  simp [readUInt32, ofPosition, readNat_ofNat position.toNat_lt]

theorem restores_double {double : Double} (finite : double.isFinite = true) :
    Restores readDouble double.toJson double := by
  obtain ⟨number, written, -⟩ := Double.exists_toNumber? finite
  refine restores_flat ?_ fun depth => readDouble_toJson depth finite
  rw [Double.toJson, written]
  rfl

end Json

open Json (Reader Record Restores)

theorem Ty.restores (ty : Ty) : Restores Ty.read ty.toJson ty :=
  Json.restores_flat rfl fun depth => Ty.read_toJson depth ty

theorem BinOp.restores (op : BinOp) : Restores BinOp.read (.string op.tag) op :=
  Json.restores_tag <| by cases op <;> rename_i op <;> cases op <;> decide

theorem UnaryOp.restores (op : UnaryOp) : Restores UnaryOp.read (.string op.tag) op :=
  Json.restores_tag <| by cases op <;> rfl

theorem StoreOp.restores (op : StoreOp) : Restores StoreOp.read (.string op.tag) op :=
  Json.restores_tag <| by cases op <;> rfl

attribute [local simp] Record.required Record.withDefault Record.optional Record.position
  List.lookup_cons Json.fieldsDepth Json.bind_ite_some Json.ite_ite_none

theorem VarDecl.restores (var : VarDecl) : Restores VarDecl.read var.toJson var := by
  refine Json.restores_object rfl fun depth => ?_
  rw [VarDecl.read, Record.ofJson?_object]
  · simp [Json.restores_string _ depth, Ty.restores _ depth, Json.restores_position _ depth]
  · rfl
  · decide

theorem ParamDecl.restores (param : ParamDecl) : Restores ParamDecl.read param.toJson param := by
  refine Json.restores_object rfl fun depth => ?_
  rw [ParamDecl.read, Record.ofJson?_object]
  · simp [Json.restores_string _ depth, Ty.restores _ depth]
  · rfl
  · decide

/-- An expression is read from its kind and its position. -/
theorem Expr.restores_ofExpr {expr : Expr} {tag : String} {contents : Json}
    (kind : Restores Expr.readKind (.choice tag contents) expr) (position : Position) :
    Restores Expr.read (.ofExpr position tag contents) (expr.withPosition position) := by
  refine Json.restores_object rfl fun depth => ?_
  rw [Expr.read, Record.ofJson?_object]
  · simp [kind depth, Json.restores_position _ depth]
  · rfl
  · decide

mutual

/-- The doubles in an expression. -/
def Expr.doubles : Expr → List Double
  | .double _ value => [value]
  | .binary _ _ left right => left.doubles ++ right.doubles
  | .unary _ _ operand => operand.doubles
  | .call _ _ args => Expr.doublesAll args
  | _ => []

/-- The doubles in a list of expressions. -/
def Expr.doublesAll : List Expr → List Double
  | [] => []
  | expr :: exprs => expr.doubles ++ Expr.doublesAll exprs

end

theorem Expr.readList_eq (depth : Nat) (document : Json) :
    Expr.readList depth document = Json.readList Expr.read depth document := by
  unfold Expr.readList Json.readList
  rfl

theorem Expr.restores_list {exprs : List Expr}
    (restores : ∀ expr ∈ exprs, Restores Expr.read expr.toJson expr) :
    Restores Expr.readList (.array (Expr.listToJson exprs [])) exprs :=
  Json.restores_collected (fun _ => rfl) (fun _ _ _ => rfl) Expr.readList_eq restores

/-- All doubles of a list are finite. -/
def AllFinite (doubles : List Double) : Prop :=
  ∀ double ∈ doubles, double.isFinite = true

@[simp]
theorem allFinite_append (first second : List Double) :
    AllFinite (first ++ second) ↔ AllFinite first ∧ AllFinite second :=
  List.forall_mem_append

theorem Expr.restores_binary {left right : Expr} (position : Position) (op : BinOp)
    (leftRestores : Restores Expr.read left.toJson left)
    (rightRestores : Restores Expr.read right.toJson right) :
    Restores Expr.read (Expr.binary position op left right).toJson
      (.binary position op left right) := by
  have contents : Restores Expr.readBinary
      (.object [("op", .string op.tag), ("left", left.toJson), ("right", right.toJson)])
      (.binary 0 op left right) := by
    refine Json.restores_object rfl fun depth => ?_
    rw [Expr.readBinary, Record.ofJson?_object]
    · simp [BinOp.restores _ depth, leftRestores depth, rightRestores depth]
    · rfl
    · decide
  exact Expr.restores_ofExpr (Json.restores_choice "Binary" contents rfl fun _ => rfl) position

theorem Expr.restores_unary {operand : Expr} (position : Position) (op : UnaryOp)
    (restores : Restores Expr.read operand.toJson operand) :
    Restores Expr.read (Expr.unary position op operand).toJson (.unary position op operand) := by
  have contents : Restores Expr.readUnary
      (.object [("op", .string op.tag), ("operand", operand.toJson)]) (.unary 0 op operand) := by
    refine Json.restores_object rfl fun depth => ?_
    rw [Expr.readUnary, Record.ofJson?_object]
    · simp [UnaryOp.restores _ depth, restores depth]
    · rfl
    · decide
  exact Expr.restores_ofExpr (Json.restores_choice "Unary" contents rfl fun _ => rfl) position

theorem Expr.restores_call {args : List Expr} (position : Position) (name : String)
    (restores : ∀ arg ∈ args, Restores Expr.read arg.toJson arg) :
    Restores Expr.read (Expr.call position name args).toJson (.call position name args) := by
  have contents : Restores Expr.readCall
      (.object [("name", .string name), ("args", .array (Expr.listToJson args []))])
      (.call 0 name args) := by
    refine Json.restores_object rfl fun depth => ?_
    rw [Expr.readCall, Record.ofJson?_object]
    · simp [Json.restores_string _ depth, Expr.restores_list restores depth]
    · rfl
    · decide
  exact Expr.restores_ofExpr (Json.restores_choice "Call" contents rfl fun _ => rfl) position

mutual

/-- An expression is read back from its document. -/
theorem Expr.restores : (expr : Expr) → AllFinite expr.doubles →
    Restores Expr.read expr.toJson expr
  | .int position value, _ => by
      have contents := (Json.restores_int64 value).make (Expr.int 0)
      exact Expr.restores_ofExpr (Json.restores_choice "Int" contents rfl fun _ => rfl) position
  | .double position value, finite => by
      have contents :=
        (Json.restores_double (finite value List.mem_cons_self)).make (Expr.double 0)
      exact Expr.restores_ofExpr (Json.restores_choice "Double" contents rfl fun _ => rfl) position
  | .string position value, _ => by
      have contents := (Json.restores_string value).make (Expr.string 0)
      exact Expr.restores_ofExpr (Json.restores_choice "Str" contents rfl fun _ => rfl) position
  | .load position name, _ => by
      have contents := (Json.restores_string name).make (Expr.load 0)
      exact Expr.restores_ofExpr (Json.restores_choice "Load" contents rfl fun _ => rfl) position
  | .binary position op left right, finite => by
      rw [Expr.doubles, allFinite_append] at finite
      exact Expr.restores_binary position op (Expr.restores left finite.1)
        (Expr.restores right finite.2)
  | .unary position op operand, finite =>
      Expr.restores_unary position op (Expr.restores operand finite)
  | .call position name args, finite =>
      Expr.restores_call position name (Expr.restoresAll args finite)

theorem Expr.restoresAll : (exprs : List Expr) → AllFinite (Expr.doublesAll exprs) →
    ∀ expr ∈ exprs, Restores Expr.read expr.toJson expr
  | [], _ => fun _ member => by cases member
  | expr :: exprs, finite => by
      rw [Expr.doublesAll, allFinite_append] at finite
      exact List.forall_mem_cons.mpr
        ⟨Expr.restores expr finite.1, Expr.restoresAll exprs finite.2⟩

end

theorem Expr.toJson_ne_null (expr : Expr) : expr.toJson ≠ .null := by
  cases expr <;> rintro ⟨⟩

mutual

/-- The doubles in a statement. -/
def Stmt.doubles : Stmt → List Double
  | .store _ _ _ value => value.doubles
  | .ifElse cond thenBlock elseBlock =>
      cond.doubles ++ thenBlock.doubles ++
        match elseBlock with
        | none => []
        | some elseBlock => elseBlock.doubles
  | .whileDo cond body => cond.doubles ++ body.doubles
  | .forRange _ _ low high body => low.doubles ++ high.doubles ++ body.doubles
  | .print _ args => Expr.doublesAll args
  | .ret _ value => Expr.doublesAll value.toList
  | .expr value => value.doubles
  | .block body => body.doubles

/-- The doubles in a list of statements. -/
def Stmt.doublesAll : List Stmt → List Double
  | [] => []
  | stmt :: stmts => stmt.doubles ++ Stmt.doublesAll stmts

/-- The doubles in a block. -/
def Block.doubles : Block → List Double
  | ⟨_, functions, stmts⟩ => FnDef.doublesAll functions ++ Stmt.doublesAll stmts

/-- The doubles in a function definition. -/
def FnDef.doubles : FnDef → List Double
  | ⟨_, _, _, body, _⟩ =>
      match body with
      | .block block => block.doubles
      | .native _ => []

/-- The doubles in a list of function definitions. -/
def FnDef.doublesAll : List FnDef → List Double
  | [] => []
  | definition :: definitions => definition.doubles ++ FnDef.doublesAll definitions

end

/-- The doubles in a program. -/
def Program.doubles (program : Program) : List Double :=
  program.top.doubles

theorem Stmt.restores_list {stmts : List Stmt}
    (restores : ∀ stmt ∈ stmts, Restores Stmt.read stmt.toJson stmt) :
    Restores Stmt.readList (.array (Stmt.listToJson stmts [])) stmts := by
  refine Json.restores_collected (fun _ => rfl) (fun _ _ _ => rfl) (fun _ _ => ?_) restores
  unfold Stmt.readList Json.readList
  rfl

theorem FnDef.restores_list {definitions : List FnDef}
    (restores : ∀ definition ∈ definitions, Restores FnDef.read definition.toJson definition) :
    Restores FnDef.readList (.array (FnDef.listToJson definitions [])) definitions := by
  refine Json.restores_collected (fun _ => rfl) (fun _ _ _ => rfl) (fun _ _ => ?_) restores
  unfold FnDef.readList Json.readList
  rfl

theorem Stmt.restores_store {value : Expr} (position : Position) (name : String) (op : StoreOp)
    (restores : Restores Expr.read value.toJson value) :
    Restores Stmt.read (Stmt.store position name op value).toJson
      (.store position name op value) := by
  have contents : Restores Stmt.readStore
      (.object [("name", .string name), ("op", .string op.tag), ("value", value.toJson),
        ("position", .ofPosition position)]) (.store position name op value) := by
    refine Json.restores_object rfl fun depth => ?_
    rw [Stmt.readStore, Record.ofJson?_object]
    · simp [Json.restores_string _ depth, StoreOp.restores _ depth, restores depth,
        Json.restores_position _ depth]
    · rfl
    · decide
  exact Json.restores_choice "Store" contents rfl fun _ => rfl

theorem Stmt.restores_print {args : List Expr} (position : Position)
    (restores : ∀ arg ∈ args, Restores Expr.read arg.toJson arg) :
    Restores Stmt.read (Stmt.print position args).toJson (.print position args) := by
  have argsRestore := Json.restores_list restores
  have contents : Restores Stmt.readPrint
      (.object [("args", .ofList Expr.toJson args), ("position", .ofPosition position)])
      (.print position args) := by
    refine Json.restores_object rfl fun depth => ?_
    rw [Stmt.readPrint, Record.ofJson?_object]
    · simp [Expr.readList_eq, argsRestore depth, Json.restores_position _ depth]
    · rfl
    · decide
  exact Json.restores_choice "Print" contents rfl fun _ => rfl

theorem Stmt.restores_ret {value : Option Expr} (position : Position)
    (restores : ∀ expr ∈ value, Restores Expr.read expr.toJson expr) :
    Restores Stmt.read (Stmt.ret position value).toJson (.ret position value) := by
  have valueRestores := Json.restores_option restores Expr.toJson_ne_null
  have contents : Restores Stmt.readReturn
      (.object [("value", .ofOption Expr.toJson value), ("position", .ofPosition position)])
      (.ret position value) := by
    refine Json.restores_object rfl fun depth => ?_
    rw [Stmt.readReturn, Record.ofJson?_object]
    · simp [valueRestores depth, Json.restores_position _ depth]
    · rfl
    · decide
  exact Json.restores_choice "Return" contents rfl fun _ => rfl

theorem Block.toJson_eq_object (block : Block) : ∃ fields, block.toJson = .object fields := by
  cases block
  exact ⟨_, rfl⟩

theorem Stmt.restores_ifElse {cond : Expr} {thenBlock : Block} {elseBlock : Option Block}
    (condRestores : Restores Expr.read cond.toJson cond)
    (thenRestores : Restores Block.read thenBlock.toJson thenBlock)
    (elseRestores : ∀ block ∈ elseBlock, Restores Block.read block.toJson block) :
    Restores Stmt.read (Stmt.ifElse cond thenBlock elseBlock).toJson
      (.ifElse cond thenBlock elseBlock) := by
  have contents : Restores Stmt.readIf
      (.object [("cond", cond.toJson), ("then_block", thenBlock.toJson),
        ("else_block", .ofOption Block.toJson elseBlock)]) (.ifElse cond thenBlock elseBlock) := by
    refine Json.restores_object rfl fun depth => ?_
    rw [Stmt.readIf, Record.ofJson?_object]
    · cases elseBlock with
      | none => simp [condRestores depth, thenRestores depth, Json.ofOption, Json.depth]
      | some block =>
          have elseReads := elseRestores block rfl depth
          obtain ⟨fields, isObject⟩ := block.toJson_eq_object
          rw [isObject] at elseReads
          simp [condRestores depth, thenRestores depth, Json.ofOption, isObject, elseReads,
            Option.map_eq_bind]
    · rfl
    · decide
  cases elseBlock with
  | none => exact Json.restores_choice "If" contents rfl fun _ => rfl
  | some block => exact Json.restores_choice "If" contents rfl fun _ => rfl

theorem Stmt.restores_whileDo {cond : Expr} {body : Block}
    (condRestores : Restores Expr.read cond.toJson cond)
    (bodyRestores : Restores Block.read body.toJson body) :
    Restores Stmt.read (Stmt.whileDo cond body).toJson (.whileDo cond body) := by
  have contents : Restores Stmt.readWhile
      (.object [("cond", cond.toJson), ("body", body.toJson)]) (.whileDo cond body) := by
    refine Json.restores_object rfl fun depth => ?_
    rw [Stmt.readWhile, Record.ofJson?_object]
    · simp [condRestores depth, bodyRestores depth]
    · rfl
    · decide
  exact Json.restores_choice "While" contents rfl fun _ => rfl

theorem Stmt.restores_forRange {low high : Expr} {body : Block} (position : Position)
    (name : String) (lowRestores : Restores Expr.read low.toJson low)
    (highRestores : Restores Expr.read high.toJson high)
    (bodyRestores : Restores Block.read body.toJson body) :
    Restores Stmt.read (Stmt.forRange position name low high body).toJson
      (.forRange position name low high body) := by
  have contents : Restores Stmt.readFor
      (.object [("var", .string name), ("low", low.toJson), ("high", high.toJson),
        ("body", body.toJson), ("position", .ofPosition position)])
      (.forRange position name low high body) := by
    refine Json.restores_object rfl fun depth => ?_
    rw [Stmt.readFor, Record.ofJson?_object]
    · simp [Json.restores_string _ depth, lowRestores depth, highRestores depth,
        bodyRestores depth, Json.restores_position _ depth]
    · rfl
    · decide
  exact Json.restores_choice "For" contents rfl fun _ => rfl

theorem Block.restores_mk {functions : List FnDef} {stmts : List Stmt} (vars : List VarDecl)
    (functionsRestore : ∀ definition ∈ functions,
      Restores FnDef.read definition.toJson definition)
    (stmtsRestore : ∀ stmt ∈ stmts, Restores Stmt.read stmt.toJson stmt) :
    Restores Block.read (Block.mk vars functions stmts).toJson ⟨vars, functions, stmts⟩ := by
  have varsRestore := Json.restores_list fun var (_ : var ∈ vars) => var.restores
  refine Json.restores_object rfl fun depth => ?_
  rw [Block.read, Record.ofJson?_object]
  · simp [varsRestore depth, FnDef.restores_list functionsRestore depth,
      Stmt.restores_list stmtsRestore depth]
  · rfl
  · decide

theorem FnBody.restores_native (symbol : String) :
    Restores FnBody.read (.choice "Native" (.object [("symbol", .string symbol)]))
      (.native symbol) := by
  have contents : Restores FnBody.readNative (.object [("symbol", .string symbol)])
      (.native symbol) := by
    refine Json.restores_object rfl fun depth => ?_
    rw [FnBody.readNative, Record.ofJson?_object]
    · simp [Json.restores_string _ depth]
    · rfl
    · decide
  exact Json.restores_choice "Native" contents rfl fun _ => rfl

theorem FnDef.restores_mk {body : FnBody} {document : Json} (name : String) (returnType : Ty)
    (params : List ParamDecl) (position : Position)
    (bodyRestores : Restores FnBody.read document body) :
    Restores FnDef.read
      (.object [("name", .string name), ("return_type", returnType.toJson),
        ("params", .ofList ParamDecl.toJson params), ("body", document),
        ("position", .ofPosition position)])
      ⟨name, returnType, params, body, position⟩ := by
  have paramsRestore := Json.restores_list fun param (_ : param ∈ params) => param.restores
  refine Json.restores_object rfl fun depth => ?_
  rw [FnDef.read, Record.ofJson?_object]
  · simp [Json.restores_string _ depth, Ty.restores _ depth, paramsRestore depth,
      bodyRestores depth, Json.restores_position _ depth]
  · rfl
  · decide

mutual

/-- A statement is read back from its document. -/
theorem Stmt.restores : (stmt : Stmt) → AllFinite stmt.doubles →
    Restores Stmt.read stmt.toJson stmt
  | .store position name op value, finite =>
      Stmt.restores_store position name op (value.restores finite)
  | .ifElse cond thenBlock none, finite => by
      simp only [Stmt.doubles, allFinite_append] at finite
      exact Stmt.restores_ifElse (cond.restores finite.1.1) (Block.restores thenBlock finite.1.2)
        fun _ member => by cases member
  | .ifElse cond thenBlock (some elseBlock), finite => by
      simp only [Stmt.doubles, allFinite_append] at finite
      refine Stmt.restores_ifElse (cond.restores finite.1.1)
        (Block.restores thenBlock finite.1.2) ?_
      rintro _ ⟨⟩
      exact Block.restores elseBlock finite.2
  | .whileDo cond body, finite => by
      simp only [Stmt.doubles, allFinite_append] at finite
      exact Stmt.restores_whileDo (cond.restores finite.1) (Block.restores body finite.2)
  | .forRange position name low high body, finite => by
      simp only [Stmt.doubles, allFinite_append] at finite
      exact Stmt.restores_forRange position name (low.restores finite.1.1)
        (high.restores finite.1.2) (Block.restores body finite.2)
  | .print position args, finite =>
      Stmt.restores_print position (Expr.restoresAll args finite)
  | .ret position value, finite =>
      Stmt.restores_ret position fun expr member =>
        Expr.restoresAll value.toList finite expr (Option.mem_toList.mpr member)
  | .expr value, finite =>
      Json.restores_choice "Expr" ((value.restores finite).make Stmt.expr) rfl fun _ => rfl
  | .block body, finite =>
      Json.restores_choice "Block" ((Block.restores body finite).make Stmt.block) rfl fun _ => rfl

theorem Stmt.restoresAll : (stmts : List Stmt) → AllFinite (Stmt.doublesAll stmts) →
    ∀ stmt ∈ stmts, Restores Stmt.read stmt.toJson stmt
  | [], _ => fun _ member => by cases member
  | stmt :: stmts, finite => by
      rw [Stmt.doublesAll, allFinite_append] at finite
      exact List.forall_mem_cons.mpr
        ⟨Stmt.restores stmt finite.1, Stmt.restoresAll stmts finite.2⟩

theorem Block.restores : (block : Block) → AllFinite block.doubles →
    Restores Block.read block.toJson block
  | ⟨vars, functions, stmts⟩, finite => by
      rw [Block.doubles, allFinite_append] at finite
      exact Block.restores_mk vars (FnDef.restoresAll functions finite.1)
        (Stmt.restoresAll stmts finite.2)

/-- A function definition is read back from its document. -/
theorem FnDef.restores : (definition : FnDef) → AllFinite definition.doubles →
    Restores FnDef.read definition.toJson definition
  | ⟨name, returnType, params, .block block, position⟩, finite =>
      FnDef.restores_mk name returnType params position <|
        Json.restores_choice "Block" ((Block.restores block finite).make FnBody.block) rfl
          fun _ => rfl
  | ⟨name, returnType, params, .native symbol, position⟩, _ =>
      FnDef.restores_mk name returnType params position (FnBody.restores_native symbol)

theorem FnDef.restoresAll : (definitions : List FnDef) →
    AllFinite (FnDef.doublesAll definitions) →
    ∀ definition ∈ definitions, Restores FnDef.read definition.toJson definition
  | [], _ => fun _ member => by cases member
  | definition :: definitions, finite => by
      rw [FnDef.doublesAll, allFinite_append] at finite
      exact List.forall_mem_cons.mpr
        ⟨FnDef.restores definition finite.1, FnDef.restoresAll definitions finite.2⟩

end

namespace Program

theorem restores {program : Program} (finite : AllFinite program.doubles) :
    Restores Program.read program.toJson program := by
  refine Json.restores_object rfl fun depth => ?_
  rw [Program.read, Record.ofJson?_object]
  · simp [FnDef.restores program.top finite depth]
  · rfl
  · decide

theorem parse?_eq_ite {program : Program} (finite : AllFinite program.doubles) :
    Program.parse? (utf8 program.render) =
      if program.toJson.depth ≤ 127 then some program else none := by
  rw [Program.parse?, Json.readDocument, Program.render, Json.parse?_render,
    Option.bind_eq_bind, Option.bind_some]
  exact restores finite Json.maxDepth

/-- A program whose doubles are finite is read back from its document if at no point of the document
more than 127 arrays and objects are open, and otherwise the document is refused. -/
theorem parse?_render_of_opensWithin {program : Program}
    (finite : ∀ double ∈ program.doubles, double.isFinite = true) :
    ∃ tokens, Json.Token.scan? (utf8 program.render) = some tokens ∧
      (Json.OpensWithin 127 tokens → Program.parse? (utf8 program.render) = some program) ∧
      (¬Json.OpensWithin 127 tokens → Program.parse? (utf8 program.render) = none) := by
  refine ⟨program.toJson.tokens, Json.scan?_render _ _, ?_⟩
  have limit := program.toJson.depth_le_iff 127
  rw [parse?_eq_ite finite]
  exact ⟨fun within => if_pos (limit.mpr within), fun exceeds => if_neg (mt limit.mp exceeds)⟩

/-- One tenth under a number of minus signs. -/
def negations (count : Nat) : Program :=
  ⟨⟨"main", .void, [], .block ⟨[], [],
    [.expr (Nat.repeat (Expr.unary 0 .neg) count (.double 0 ⟨0x3FB999999999999A⟩))]⟩, 0⟩⟩

theorem parse?_render_of_opensWithin_negations :
    Program.parse? (utf8 (negations 39).render) = some (negations 39) ∧
      Program.parse? (utf8 (negations 40).render) = none := by
  have shallow : (negations 39).toJson.depth ≤ 127 := by decide +kernel
  have deep : ¬(negations 40).toJson.depth ≤ 127 := by decide +kernel
  rw [Json.depth_le_iff] at shallow deep
  have shallowFinite : ∀ double ∈ (negations 39).doubles, double.isFinite = true := by
    decide +kernel
  have deepFinite : ∀ double ∈ (negations 40).doubles, double.isFinite = true := by
    decide +kernel
  obtain ⟨tokens, scanned, restored, -⟩ := parse?_render_of_opensWithin shallowFinite
  obtain ⟨deepTokens, deepScanned, -, refused⟩ := parse?_render_of_opensWithin deepFinite
  rw [render, Json.scan?_render, Option.some.injEq] at scanned deepScanned
  subst scanned deepScanned
  exact ⟨restored shallow, refused deep⟩

end Program

end Backpatch
