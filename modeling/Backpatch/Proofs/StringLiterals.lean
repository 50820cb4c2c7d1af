import Backpatch.Proofs.References
import Backpatch.Proofs.TableGrowth
import Backpatch.Proofs.TableLimits

/-!
# String literals and string constants

The string constants of a compiled program are the literals in it and the empty string.  A literal
is added when it is compiled for the first time, so the order of the constants is that in which the
parts of a program are compiled: the functions of a block before its statements, the condition of a
conditional after its blocks, and the last argument of a call first.

The code of a function loads the literals that stand in it, one instruction for each, and the
literals of the functions inside it are loaded by these.
-/

namespace Backpatch

mutual

/-- The string literals of an expression in the order in which they are compiled. -/
def Expr.literals : Expr → List String
  | .string _ value => [value]
  | .int .. | .double .. | .load .. => []
  | .binary _ _ left right => left.literals ++ right.literals
  | .unary _ _ operand => operand.literals
  | .call _ _ args => Expr.literalsAll args

/-- The string literals of arguments; the last argument comes first. -/
def Expr.literalsAll : List Expr → List String
  | [] => []
  | arg :: args => Expr.literalsAll args ++ arg.literals

end

mutual

/-- The string literals of a statement in the order in which they are compiled, with or without
those of the functions nested in it. -/
def Stmt.literals (nested : Bool) : Stmt → List String
  | .store _ _ _ value => value.literals
  | .ifElse cond thenBlock none => thenBlock.literals nested ++ cond.literals
  | .ifElse cond thenBlock (some elseBlock) =>
      thenBlock.literals nested ++ elseBlock.literals nested ++ cond.literals
  | .whileDo cond body => cond.literals ++ body.literals nested
  | .forRange _ _ low high body => low.literals ++ high.literals ++ body.literals nested
  | .print _ args => args.flatMap (·.literals)
  | .ret _ value => value.elim [] (·.literals)
  | .expr value => value.literals
  | .block body => body.literals nested

def Stmt.literalsAll (nested : Bool) : List Stmt → List String
  | [] => []
  | stmt :: stmts => stmt.literals nested ++ Stmt.literalsAll nested stmts

/-- The functions of a block are compiled before its statements. -/
def Block.literals (nested : Bool) : Block → List String
  | ⟨_, functions, stmts⟩ =>
      (if nested then FnDef.literalsAll nested functions else []) ++
        Stmt.literalsAll nested stmts

def FnDef.literalsAll (nested : Bool) : List FnDef → List String
  | [] => []
  | definition :: definitions =>
      definition.literals nested ++ FnDef.literalsAll nested definitions

def FnDef.literals (nested : Bool) : FnDef → List String
  | ⟨_, _, _, .block body, _⟩ => body.literals nested
  | ⟨_, _, _, .native _, _⟩ => []

end

/-- The string literals of a function, without those of the functions nested in it. -/
def FnDef.ownLiterals (definition : FnDef) : List String :=
  definition.literals false

/-- The string literals of a program in the order in which they are compiled. -/
def Program.literals (program : Program) : List String :=
  program.top.literals true

/-- Put a string behind others, unless it is one of them. -/
def insertNew (texts : List String) (text : String) : List String :=
  if text ∈ texts then texts else texts ++ [text]

theorem foldl_insertNew (earlier texts : List String) :
    texts.foldl insertNew earlier.eraseDups = (earlier ++ texts).eraseDups := by
  induction texts generalizing earlier with
  | nil => rw [List.foldl_nil, List.append_nil]
  | cons text texts ih =>
      have step : insertNew earlier.eraseDups text = (earlier ++ [text]).eraseDups := by
        simp only [eraseDups_concat, insertNew, List.mem_eraseDups]
      rw [List.foldl_cons, step, ih, List.append_assoc, List.singleton_append]

namespace Emitter

variable {α β : Type}

/-- The action asks for the given strings as constants, one after the other, if it succeeds. -/
def Interns (texts : List String) (action : EmitM α) : Prop :=
  ∀ before result after, before.image.Consistent → action before = .ok result after →
    after.image.Consistent ∧
      after.image.constants.toList = texts.foldl insertNew before.image.constants.toList

namespace Interns

variable {texts more : List String}

theorem bind {action : EmitM α} {next : α → EmitM β} (first : Interns texts action)
    (rest : ∀ result, Interns more (next result)) : Interns (texts ++ more) (action >>= next) := by
  intro before result after consistent ran
  obtain ⟨value, middle, began, ended⟩ := exists_of_bind_eq_ok ran
  obtain ⟨middleConsistent, added⟩ := first before value middle consistent began
  obtain ⟨afterConsistent, addedRest⟩ := rest value middle result after middleConsistent ended
  exact ⟨afterConsistent, by rw [addedRest, added, List.foldl_append]⟩

/-- What comes first adds no constant. -/
theorem seq {action : EmitM α} {next : α → EmitM β} (first : Interns [] action)
    (rest : ∀ result, Interns texts (next result)) : Interns texts (action >>= next) :=
  first.bind rest

/-- What comes last adds no constant. -/
theorem andThen {action : EmitM α} {next : α → EmitM β} (first : Interns texts action)
    (rest : ∀ result, Interns [] (next result)) : Interns texts (action >>= next) := by
  have both := first.bind rest
  rwa [List.append_nil] at both

theorem of_same {action : EmitM α}
    (same : ∀ before result after, action before = .ok result after →
      after.image = before.image) : Interns [] action := by
  intro before result after consistent ran
  rw [same before result after ran]
  exact ⟨consistent, rfl⟩

theorem throw (error : CompileError) : Interns texts (throw error : EmitM α) := by
  rintro before result after - ⟨⟩

theorem get : Interns [] (get : EmitM Emitter) :=
  of_same fun _ _ _ ran => by cases ran; rfl

theorem ask (question : Emitter → Except CompileError α) : Interns [] (ask question) :=
  of_same fun _ _ _ ran => congrArg Emitter.image (eq_of_ask_eq_ok ran)

theorem onScopes (change : Scopes → Option (α × Scopes)) (error : CompileError) :
    Interns [] (onScopes change error) := by
  refine of_same fun before result after ran => ?_
  obtain ⟨scopes, -, rfl⟩ := exists_of_onScopes_eq_ok ran
  rfl

theorem modify {change : Emitter → Emitter}
    (same : ∀ emitter, (change emitter).image = emitter.image) :
    Interns [] (modify change : EmitM Unit) :=
  of_same fun before _ _ ran => by cases ran; exact same before

theorem of_coding {action : EmitM α} (coding : Coding action) : Interns [] action := by
  induction coding with
  | pure result => exact of_same fun _ _ _ ran => by cases ran; rfl
  | throw => exact throw _
  | bind _ _ ihFirst ihRest => exact ihFirst.bind ihRest
  | observe question => exact of_same fun _ _ _ ran => by cases ran; rfl
  | onBuffer action =>
      refine of_same fun before result after ran => ?_
      rw [onBuffer_apply] at ran
      split at ran
      · cases ran
        rfl
      · cases ran

theorem after_coding {action : EmitM α} {next : α → EmitM β} (coding : Coding action)
    (rest : ∀ result, Interns texts (next result)) : Interns texts (action >>= next) :=
  (of_coding coding).seq rest

theorem before_coding {action : EmitM α} {next : α → EmitM β} (first : Interns texts action)
    (coding : ∀ result, Coding (next result)) : Interns texts (action >>= next) :=
  first.andThen fun result => of_coding (coding result)

/-- A call that succeeds adds the string that it asks for, unless that is there already. -/
theorem addition (addition : Addition) :
    Interns (Event.add addition).constants (onImage addition.perform) := by
  intro before result after consistent ran
  obtain ⟨image, performed, rfl⟩ := exists_of_onImage_eq_ok ran
  have outcome : Addition.Outcome before.image addition (.ok result image) :=
    performed ▸ addition.outcome before.image
  refine ⟨outcome.consistent consistent, ?_⟩
  have absent_iff {value : String} :
      before.image.constantIds[value]? = none ↔ value ∉ before.image.constants.toList :=
    consistent.indexes_constants.getElem?_eq_none_iff
  cases outcome with
  | @oldConstant value _ known =>
      have listed : value ∈ before.image.constants.toList := by
        refine Decidable.byContradiction fun unlisted => ?_
        rw [absent_iff.mpr unlisted] at known
        cases known
      exact (if_pos listed).symm
  | newConstant absent room =>
      exact Image.toList_constants_pushConstant.trans (if_neg (absent_iff.mp absent)).symm
  | newRoutine | oldNative | newNative => rfl

theorem constant (value : String) : Interns [value] (onImage (Image.internConstant value)) :=
  addition (.constant value)

theorem routine (routine : Routine) : Interns [] (onImage (Image.addRoutine routine)) :=
  addition (.routine routine)

theorem native (native : Native) : Interns [] (onImage (Image.internNative native)) :=
  addition (.native native)

theorem storeRoutine (context : Context) : Interns [] (storeRoutine context) := by
  intro before result after consistent ran
  rw [eq_of_storeRoutine_eq_ok ran]
  exact ⟨consistent.modifyRoutine _ (fun _ => rfl) fun _ => rfl, rfl⟩

theorem closeFunction : Interns [] Strict.closeFunction :=
  (ask _).seq fun _ => (onScopes _ _).seq fun context => storeRoutine context

theorem function {body : EmitM Unit} (id : UInt16) (returnType : Ty) (one : Interns texts body) :
    Interns texts (Strict.function id returnType body) :=
  seq (modify fun _ => rfl) fun _ => one.andThen fun _ => closeFunction

theorem declareFunction (definition : FnDef) : Interns [] (declareFunction definition) :=
  (routine _).seq fun _ => (onScopes _ _).seq fun _ => of_coding (.pure _)

theorem declareBlock (vars : List VarDecl) (functions : List FnDef) :
    Interns [] (declareBlock vars functions) := by
  refine seq ?_ fun _ => ?_
  · induction vars with
    | nil => exact of_coding (.pure ())
    | cons var vars ih => exact ((onScopes _ _).seq fun _ => of_coding (.pure ())).seq fun _ => ih
  · induction functions with
    | nil => exact of_coding (.pure _)
    | cons definition definitions ih =>
        rw [List.mapM_cons]
        exact (declareFunction definition).seq fun id => ih.before_coding fun _ => .pure _

/-- Every function of a block that has been declared has got a number. -/
theorem declared {vars : List VarDecl} {functions : List FnDef} {next : List UInt16 → EmitM α}
    (rest : ∀ ids : List UInt16, ids.length = functions.length → Interns texts (next ids)) :
    Interns texts (Emitter.declareBlock vars functions >>= next) := by
  intro before result after consistent ran
  obtain ⟨ids, middle, declaring, ended⟩ := exists_of_bind_eq_ok ran
  have length : ids.length = functions.length := by
    rw [(declaresAll_of_declareBlock declaring).ids, FnDef.length_numbers]
  obtain ⟨middleConsistent, added⟩ := declareBlock vars functions _ _ _ consistent declaring
  obtain ⟨afterConsistent, addedRest⟩ := rest ids length _ _ _ middleConsistent ended
  exact ⟨afterConsistent, addedRest.trans (by rw [added, List.foldl_nil])⟩

theorem emitNativeCall (options : Options) (position : Position) (signature : Signature)
    (symbol : String) : Interns [] (emitNativeCall options position signature symbol) := by
  unfold Emitter.emitNativeCall
  cases options.address? symbol with
  | none => exact throw _
  | some address => exact (native _).before_coding fun _ => .emitWithWord _ _

theorem emitParams (position : Position) (params : List ParamDecl) :
    Interns [] (params.forM (emitParam position)) := by
  induction params with
  | nil => exact of_coding (.pure ())
  | cons param params ih =>
      exact ((onScopes _ _).before_coding fun slot => .emitStore slot).seq fun _ => ih

theorem emitOperands (op : BinOp) (position leftPosition rightPosition : Position) (predicted : Ty)
    {left right : EmitM Compiled} (one : Interns texts left) (two : Interns more right) :
    Interns (texts ++ more)
      (emitOperands op position predicted left leftPosition right rightPosition) :=
  one.bind fun _ => after_coding (.materializeValue _) fun _ =>
    after_coding (.reserveConversion _ _) fun _ => two.before_coding fun _ =>
      .convertOperands _ _ _ _ _ _ _

theorem emitLogical (op : Connective) {left right : EmitM PendingBranch} (one : Interns texts left)
    (two : Interns more right) : Interns (texts ++ more) (emitLogical op left right) := by
  cases op with
  | and | or =>
      exact one.bind fun _ => after_coding .offset fun _ => after_coding (.patch _ _) fun _ =>
        two.before_coding fun _ => .pure _

mutual

/-- Compiling an expression asks for its literals. -/
theorem emitExpr : (expr : Expr) → Interns expr.literals (emitExpr expr)
  | .int _ _ | .double _ _ => by
      rw [Emitter.emitExpr, Expr.literals]
      exact of_coding ((Coding.write _).bind fun _ => .pure _)
  | .string _ value => by
      rw [Emitter.emitExpr, Expr.literals]
      exact (constant value).before_coding fun _ => (Coding.emitWithWord _ _).bind fun _ => .pure _
  | .load _ _ => by
      rw [Emitter.emitExpr, Expr.literals]
      exact (ask _).before_coding fun _ => (Coding.emitLoad _).bind fun _ => .pure _
  | .binary _ (.logic connective) left right => by
      rw [Emitter.emitExpr, Expr.literals]
      exact emitLogical connective ((emitExpr left).before_coding fun _ => .branchOnValue _ _)
        ((emitExpr right).before_coding fun _ => .branchOnValue _ _)
  | .binary _ (.compare comparison) left right => by
      rw [Emitter.emitExpr, Expr.literals]
      exact (ask _).seq fun _ => (emitOperands _ _ _ _ _ (emitExpr left)
        (emitExpr right)).before_coding fun _ => .emitComparison comparison _
  | .binary _ (.arith arith) left right => by
      rw [Emitter.emitExpr, Expr.literals]
      exact (ask _).seq fun _ => (emitOperands _ _ _ _ _ (emitExpr left)
        (emitExpr right)).before_coding fun _ => .emitArithmetic arith _ _
  | .unary _ .not operand => by
      rw [Emitter.emitExpr, Expr.literals]
      exact (emitExpr operand).before_coding fun _ =>
        (Coding.branchOnValue _ _).bind fun _ => .pure _
  | .unary _ .neg operand => by
      rw [Emitter.emitExpr, Expr.literals]
      exact (emitExpr operand).before_coding fun _ => .emitNegation _ _
  | .call _ _ args => by
      rw [Emitter.emitExpr, Expr.literals]
      exact (ask _).seq fun _ => (emitArgs args _).before_coding fun _ =>
        (Coding.emitWithWord _ _).bind fun _ => .pure _

theorem emitArgs : (args : List Expr) → (types : List Ty) →
    Interns (Expr.literalsAll args) (emitArgs args types)
  | [], _ => by
      rw [Emitter.emitArgs, Expr.literalsAll]
      exact of_coding (.pure _)
  | arg :: args, types => by
      rw [Emitter.emitArgs, Expr.literalsAll]
      exact (emitArgs args types.tail).bind fun _ =>
        (emitExpr arg).before_coding fun _ => .coerce _ _ _

end

theorem emitCondition (expr : Expr) : Interns expr.literals (emitCondition expr) :=
  (emitExpr expr).before_coding fun _ => .branchOnValue _ _

theorem emitAs (expr : Expr) (ty : Ty) : Interns expr.literals (emitAs expr ty) :=
  (emitExpr expr).before_coding fun _ => .coerce _ _ _

theorem emitAssignment (position : Position) (name : String) (op : StoreOp) (value : Expr) :
    Interns value.literals (emitAssignment position name op value) := by
  refine seq (ask _) fun slot => ?_
  cases op.update? with
  | none => exact (emitAs value slot.ty).before_coding fun _ => .emitStore slot
  | some arith =>
      cases instrEq : arith.instr? slot.ty with
      | none => simpa only [instrEq] using throw _
      | some instr =>
          simpa only [instrEq] using after_coding (.emitLoad slot) fun _ =>
            (emitAs value slot.ty).before_coding fun _ =>
              (Coding.emit instr).bind fun _ => .emitStore slot

theorem emitPrint (arg : Expr) : Interns arg.literals (emitPrint arg) := by
  refine (emitExpr arg).andThen fun _ => after_coding (.materializeValue _) fun ty => ?_
  cases Op.print? ty with
  | none => exact throw _
  | some op => exact of_coding (.emit op)

theorem emitPrints (args : List Expr) :
    Interns (args.flatMap (·.literals)) (args.forM Emitter.emitPrint) := by
  induction args with
  | nil => exact of_coding (.pure ())
  | cons arg args ih =>
      rw [List.flatMap_cons]
      exact (emitPrint arg).bind fun _ => ih

theorem emitReturn (value : Option Expr) (position : Position) :
    Interns (value.elim [] (·.literals)) (emitReturn value position) := by
  refine seq get fun emitter => ?_
  cases value with
  | none =>
      dsimp only [Option.elim]
      split
      · exact of_coding (.emit _)
      · exact throw _
  | some value =>
      dsimp only [Option.elim]
      split
      · exact throw _
      · exact (emitAs value _).before_coding fun _ => .emit _

theorem emitDiscarded (value : Expr) : Interns value.literals (emitDiscarded value) := by
  refine (emitExpr value).before_coding fun compiled => ?_
  cases compiled with
  | branch pending => exact .resolve pending
  | value ty =>
      cases ty with
      | void => exact .pure _
      | logic | int | double | string | invalid => exact .emit _

/-- What is added are the strings that are asked for, in their order. -/
theorem graded :
    Graded (fun (_ _ : Unit) texts action => Interns texts action) [] (· ++ ·) Expr.literals where
  nothing_plus := List.nil_append
  plus_nothing := List.append_nil
  coding := of_coding
  ask := ask
  allocate _ error := onScopes _ error
  throw := throw
  condition := emitCondition
  valueAs := emitAs
  bind := bind

theorem emitIf {thenBlock elseBlock : EmitM Unit} (cond : Expr) (one : Interns texts thenBlock)
    (two : Interns more elseBlock) :
    Interns (texts ++ more ++ cond.literals) (emitIf cond thenBlock elseBlock) := by
  rw [List.append_assoc]
  exact graded.emitIf (i := ()) (j := ()) (k := ()) cond one two

theorem emitWhile {body : EmitM Unit} (cond : Expr) (one : Interns texts body) :
    Interns (cond.literals ++ texts) (emitWhile cond body) :=
  graded.emitWhile (i := ()) (j := ()) cond one

theorem emitFor {body : EmitM Unit} (position : Position) (name : String) (low high : Expr)
    (one : Interns texts body) :
    Interns (low.literals ++ high.literals ++ texts) (emitFor position name low high body) := by
  rw [List.append_assoc]
  exact graded.emitFor (i := ()) (j := ()) position name low high one

mutual

/-- Compiling a statement asks for its literals and those of the functions in it. -/
theorem stmt (options : Options) : (statement : Stmt) →
    Interns (statement.literals true) (Strict.stmt options statement)
  | .store _ _ _ _ => by
      rw [Strict.stmt, Stmt.literals]
      exact emitAssignment _ _ _ _
  | .ifElse cond thenBlock none => by
      rw [Strict.stmt, Stmt.literals]
      have both := emitIf cond (block options thenBlock) (of_coding (.pure ()))
      rwa [List.append_nil] at both
  | .ifElse cond thenBlock (some elseBlock) => by
      rw [Strict.stmt, Stmt.literals]
      exact emitIf cond (block options thenBlock) (block options elseBlock)
  | .whileDo cond body => by
      rw [Strict.stmt, Stmt.literals]
      exact emitWhile cond (block options body)
  | .forRange _ _ _ _ body => by
      rw [Strict.stmt, Stmt.literals]
      exact emitFor _ _ _ _ (block options body)
  | .print _ args => by
      rw [Strict.stmt, Stmt.literals]
      exact emitPrints args
  | .ret _ _ => by
      rw [Strict.stmt, Stmt.literals]
      exact emitReturn _ _
  | .expr value => by
      rw [Strict.stmt, Stmt.literals]
      exact emitDiscarded value
  | .block body => by
      rw [Strict.stmt, Stmt.literals]
      exact block options body

theorem stmts (options : Options) : (statements : List Stmt) →
    Interns (Stmt.literalsAll true statements) (Strict.stmts options statements)
  | [] => by
      rw [Strict.stmts, Stmt.literalsAll]
      exact of_coding (.pure ())
  | first :: rest => by
      rw [Strict.stmts, Stmt.literalsAll]
      exact (stmt options first).bind fun _ => stmts options rest

theorem block (options : Options) : (body : Block) →
    Interns (body.literals true) (Strict.block options body)
  | ⟨vars, definitions, statements⟩ => by
      rw [Strict.block, Block.literals, if_pos rfl]
      exact seq (modify fun _ => rfl) fun _ => declared fun ids length =>
        (functions options definitions ids length.symm).bind fun _ =>
          (stmts options statements).andThen fun _ => modify fun _ => rfl

theorem functions (options : Options) : (definitions : List FnDef) → (ids : List UInt16) →
    definitions.length = ids.length →
    Interns (FnDef.literalsAll true definitions) (Strict.functions options definitions ids)
  | [], _, _ => by
      rw [FnDef.literalsAll]
      exact of_coding (.pure ())
  | definition :: definitions, id :: ids, length => by
      rw [Strict.functions, FnDef.literalsAll]
      exact (function id definition.returnType (body options definition)).bind fun _ =>
        functions options definitions ids (Nat.succ.inj length)

theorem body (options : Options) : (definition : FnDef) →
    Interns (definition.literals true) (Strict.body options definition)
  | ⟨_, _, params, .block statements, position⟩ => by
      rw [Strict.body, FnDef.literals]
      exact (emitParams position params).seq fun _ =>
        (block options statements).before_coding fun _ => .emit .ret
  | ⟨_, _, _, .native _, _⟩ => by
      rw [Strict.body, FnDef.literals]
      exact (emitNativeCall _ _ _ _).before_coding fun _ => .emit .ret

end

end Interns

end Emitter

open Emitter in
/-- The string constants of a compiled program are the empty string and its other literals, each of
them once. -/
theorem Program.toList_constants {program : Program} {options : Options} {image : Image}
    (compiles : program.compile options = .ok image) :
    image.constants.toList = "" :: (program.literals.filter (· ≠ "")).eraseDups := by
  have interns : Interns program.literals (do Strict.body options program.top; Strict.finish) :=
    (Interns.body options program.top).andThen fun _ => Interns.get.seq fun _ => .storeRoutine _
  have started : (start program).image.Consistent :=
    Image.consistent_empty.pushRoutine (Nat.zero_le _)
  rw [program.compile_eq_emit, program.emit_eq_run] at compiles
  cases ran : Strict.run options program with
  | error error after =>
      rw [ran] at compiles
      cases compiles
  | ok result after =>
      rw [ran] at compiles
      cases compiles
      have added := (interns (start program) result after started ran).2
      have begun : (start program).image.constants.toList = [""].eraseDups := rfl
      rw [added, begun, foldl_insertNew, List.singleton_append, List.eraseDups_cons]
      simp only [ne_eq, decide_not]
      rfl

/-- The string that an instruction loads which names a constant. -/
def Instr.text? (image : Image) (instr : Instr) : Option String :=
  (instr.word? 0).bind image.constant?

/-- Between two offsets stand instructions among which there is one for each of the given strings,
in this order, that loads it, and no other that loads a string constant. -/
def Loads (image : Image) (code : List UInt8) (start stop : Nat) (texts : List String) : Prop :=
  ∃ instrs, Reads code start stop instrs ∧
    (instrs.filter (·.op = .sLoad)).map (·.text? image) = texts.map some

theorem Op.ne_sLoad_of_isFree {op : Op} (free : op.isFree = true) : op ≠ .sLoad := by
  rintro rfl
  cases free

theorem Op.ne_sLoad_of_isBranch {op : Op} (isBranch : op.isBranch = true) : op ≠ .sLoad := by
  rintro rfl
  cases isBranch

namespace Loads

variable {image : Image} {code : List UInt8} {start middle stop : Nat} {texts more : List String}
  {instr : Instr} {op : Op}

theorem nil : Loads image code start start [] :=
  ⟨[], .nil, rfl⟩

theorem append (first : Loads image code start middle texts)
    (second : Loads image code middle stop more) : Loads image code start stop (texts ++ more) := by
  obtain ⟨instrs, reads, loads⟩ := first
  obtain ⟨others, readsOthers, loadsOthers⟩ := second
  refine ⟨instrs ++ others, reads.append readsOthers, ?_⟩
  rw [List.filter_append, List.map_append, List.map_append, loads, loadsOthers]

/-- What stands last loads no string constant. -/
theorem andThen (first : Loads image code start middle texts)
    (second : Loads image code middle stop []) : Loads image code start stop texts := by
  have both := first.append second
  rwa [List.append_nil] at both

theorem literal {value : String} {id : UInt16} (constant : image.constant? id = some value)
    (instr : WordAt code start .sLoad id) : Loads image code start (start + 3) [value] := by
  have reads : Reads code start (start + 3) [⟨start, .sLoad, littleEndian 2 id.toNat⟩] :=
    .single instr
  exact ⟨_, reads, by simp [Instr.text?, constant]⟩

theorem other (fetched : fetch code start = some instr) (different : instr.op ≠ .sLoad) :
    Loads image code start (start + 1 + instr.operands.length) [] := by
  refine ⟨[instr], nextOffset_of_fetch fetched ▸ .single fetched, ?_⟩
  simp [different]

theorem plain (instr : PlainAt code start op) (free : op.isFree = true) :
    Loads image code start (start + 1) [] :=
  other instr (Op.ne_sLoad_of_isFree free)

theorem jump {target : Nat} (instr : JumpAt code start target) :
    Loads image code start (start + 3) [] :=
  other instr.2 (by rintro ⟨⟩)

theorem branch {onTrue onFalse : Nat} (instr : BranchAt code start op onTrue onFalse)
    (isBranch : op.isBranch = true) : Loads image code start (start + 5) [] :=
  other instr.2.2 (Op.ne_sLoad_of_isBranch isBranch)

theorem diamond {numeric : Numeric} (instrs : DiamondAt code start numeric) :
    Loads image code start (start + 5) [] :=
  ((plain instrs.one (by cases numeric <;> rfl)).andThen (jump instrs.join)).andThen
    (plain instrs.zero (by cases numeric <;> rfl))

theorem access {function : UInt16} {slot : Slot} {stores : Bool} {family : Ty → Bool → Option Op}
    (access : AccessAt image code function family slot start stop)
    (accesses : Accesses stores family) : Loads image code start stop [] := by
  obtain ⟨instr, fetched, rfl, member, -⟩ := access.exists_instr accesses
  obtain ⟨isVariable, -⟩ := accesses member
  rw [nextOffset_of_fetch fetched]
  refine other fetched fun isLoad => ?_
  rw [isLoad] at isVariable
  cases isVariable

theorem load {function : UInt16} {slot : Slot}
    (instr : AccessAt image code function Op.load? slot start stop) :
    Loads image code start stop [] :=
  access instr accesses_load?

theorem store {function : UInt16} {slot : Slot}
    (instr : AccessAt image code function Op.store? slot start stop) :
    Loads image code start stop [] :=
  access instr accesses_store?

end Loads

def ExprPart.literals : ExprPart → List String
  | .value expr _ | .branch expr _ _ | .operand expr _ | .condition expr _ _ | .converted expr _ =>
      expr.literals
  | .operands left right _ => left.literals ++ right.literals
  | .args exprs _ => Expr.literalsAll exprs

def StmtPart.literals : StmtPart → List String
  | .stmt statement => statement.literals false
  | .stmts statements => Stmt.literalsAll false statements
  | .block body => body.literals false
  | .otherwise body => body.elim [] (·.literals false)
  | .prints args => args.flatMap (·.literals)

section

variable {image : Image} {code : List UInt8} {start stop : Nat}

/-- The code of an expression loads its literals. -/
theorem ExprCode.loads {names : Names} {part : ExprPart}
    (exprCode : ExprCode image code names part start stop) :
    Loads image code start stop part.literals := by
  induction exprCode with
  | int instr | double instr =>
      rw [ExprPart.literals, Expr.literals]
      exact .other instr (by rintro ⟨⟩)
  | string constant instr =>
      rw [ExprPart.literals, Expr.literals]
      exact .literal constant instr
  | load _ instr =>
      rw [ExprPart.literals, Expr.literals]
      exact .load instr
  | arith _ member instr operands =>
      rw [ExprPart.literals, Expr.literals]
      exact operands.andThen (.plain instr (ArithOp.isFree_of_instr? member))
  | @compare _ op _ _ numeric _ _ _ _ _ compareAt zero branch operands =>
      rw [ExprPart.literals, Expr.literals]
      exact ((operands.andThen (.plain compareAt (by cases numeric <;> rfl))).andThen
        (.plain zero rfl)).andThen (.branch branch op.isBranch_branchOp)
  | and _ _ first second | or _ _ first second =>
      rw [ExprPart.literals, Expr.literals]
      exact first.append second
  | not _ inner =>
      rw [ExprPart.literals, Expr.literals]
      exact inner
  | @neg _ _ numeric _ _ _ minusOne multiply inner =>
      rw [ExprPart.literals, Expr.literals]
      exact (inner.andThen (.plain minusOne (by cases numeric <;> rfl))).andThen
        (.plain multiply (by cases numeric <;> rfl))
  | call _ _ _ _ _ instr pushed =>
      rw [ExprPart.literals, Expr.literals]
      exact pushed.andThen (.other instr (by rintro ⟨⟩))
  | operandValue _ value | same _ value | unwanted _ value | unwantedBranch _ value
  | conditionBranch _ value => exact value
  | operandBranch _ diamond branch | convertBranch _ diamond branch =>
      exact branch.andThen (.diamond diamond)
  | conditionInt _ zero branch value =>
      exact (value.andThen (.plain zero rfl)).andThen (.branch branch rfl)
  | conditionDouble _ zero compareAt intZero branch value =>
      exact (((value.andThen (.plain zero rfl)).andThen (.plain compareAt rfl)).andThen
        (.plain intZero rfl)).andThen (.branch branch rfl)
  | convert _ conversion instr value =>
      exact value.andThen (.plain instr (Op.isFree_of_convert? conversion))
  | alike _ _ first second => exact first.append second
  | widenLeft _ instr _ first second => exact (first.andThen (.plain instr rfl)).append second
  | widenRight _ _ instr first second => exact (first.append second).andThen (.plain instr rfl)
  | noArgs => exact .nil
  | arg _ _ later first =>
      rw [ExprPart.literals, Expr.literalsAll]
      exact later.append first

/-- The code of statements loads their literals, but not those of the functions in them. -/
theorem StmtCode.loads {env : Env} {part : StmtPart}
    (stmtCode : StmtCode image code env part start stop) :
    Loads image code start stop part.literals := by
  induction stmtCode with
  | assign _ valueCode store =>
      rw [StmtPart.literals, Stmt.literals]
      exact valueCode.loads.andThen (.store store)
  | update _ _ member load valueCode instr store =>
      rw [StmtPart.literals, Stmt.literals]
      exact (((Loads.load load).append valueCode.loads).andThen
        (.plain instr (ArithOp.isFree_of_instr? member))).andThen (.store store)
  | @ifElse _ _ thenBlock elseBlock _ _ _ _ toCond _ thenExit _ elseExit condCode thenLoads
      elseLoads =>
      have both := ((((Loads.jump toCond).append thenLoads).andThen (.jump thenExit)).append
        elseLoads).andThen (.jump elseExit)
      have all := both.append condCode.loads
      cases elseBlock with
      | none =>
          rw [StmtPart.literals, Stmt.literals]
          exact List.append_nil (thenBlock.literals false) ▸ all
      | some elseBlock =>
          rw [StmtPart.literals, Stmt.literals]
          exact all
  | whileDo condCode _ again body =>
      rw [StmtPart.literals, Stmt.literals]
      exact (condCode.loads.append body).andThen (.jump again)
  | @forRange _ _ _ _ _ _ _ numeric _ _ _ _ _ _ _ _ _ _ _ _ _ lowCode storeLow highCode storeBound
      loadSlot loadBound compareAt zero branch _ reload one add storeNext again body =>
      have bounds := ((lowCode.loads.andThen (.store storeLow)).append highCode.loads).andThen
        (.store storeBound)
      have test : Loads image code _ _ [] := (((Loads.load loadSlot).andThen
        (.load loadBound)).andThen (.plain compareAt (by cases numeric <;> rfl))).andThen
          ((Loads.plain zero rfl).andThen (.branch branch rfl))
      have step : Loads image code _ _ [] := ((((Loads.load reload).andThen
        (.plain one (by cases numeric <;> rfl))).andThen
          (.plain add (by cases numeric <;> rfl))).andThen (.store storeNext)).andThen (.jump again)
      rw [StmtPart.literals, Stmt.literals]
      exact ((bounds.andThen test).append body).andThen step
  | print _ prints | nested _ prints =>
      rw [StmtPart.literals, Stmt.literals]
      exact prints
  | returnVoid _ instr =>
      rw [StmtPart.literals, Stmt.literals]
      exact .plain instr rfl
  | returnValue _ valueCode instr | dropValue _ valueCode instr =>
      rw [StmtPart.literals, Stmt.literals]
      exact valueCode.loads.andThen (.plain instr rfl)
  | callVoid valueCode | dropBranch valueCode =>
      rw [StmtPart.literals, Stmt.literals]
      exact valueCode.loads
  | noStmts | noElse | noPrints => exact .nil
  | stmts _ _ first rest =>
      rw [StmtPart.literals, Stmt.literalsAll]
      exact first.append rest
  | block _ inner =>
      rw [StmtPart.literals, Block.literals]
      exact inner
  | someElse _ inner => exact inner
  | prints valueCode member instr _ rest =>
      rw [StmtPart.literals, List.flatMap_cons]
      exact (valueCode.loads.andThen (.plain instr (Op.isFree_of_print? member))).append rest

theorem ParamsCode.loads {env : Env} {params : List ParamDecl}
    (paramsCode : ParamsCode image code env params start stop) :
    Loads image code start stop [] := by
  induction paramsCode with
  | nil => exact .nil
  | cons store _ rest => exact (Loads.store store).andThen rest

theorem BodyCode.loads {env : Env} {definition : FnDef}
    (bodyCode : BodyCode image code env definition stop) :
    Loads image code 0 stop definition.ownLiterals := by
  cases bodyCode with
  | block paramsCode bodyCode instr =>
      rw [FnDef.ownLiterals, FnDef.literals]
      exact (paramsCode.loads.append bodyCode.loads).andThen (.plain instr rfl)
  | native _ call instr =>
      rw [FnDef.ownLiterals, FnDef.literals]
      exact (Loads.other call (by rintro ⟨⟩)).andThen (.plain instr rfl)

end

/-- The instructions of a compiled function load the literals that stand in it, one after the
other. -/
theorem Image.Realizes.loads {image : Image} {program : Program} (realizes : image.Realizes program)
    {index : Nat} {definition : Definition}
    (found : program.definitions[index]? = some definition) :
    ∃ routine instrs, image.routines[index]? = some routine ∧
      routine.name = definition.2.name ∧ routine.code.instructions = .ok instrs ∧
      (instrs.filter (·.op = .sLoad)).map (·.text? image) = definition.2.ownLiterals.map some := by
  obtain ⟨routine, lookup, routineCode⟩ := realizes.routine index _ found
  obtain ⟨instrs, reads, loads⟩ := routineCode.body.loads
  exact ⟨routine, instrs, lookup, routineCode.name, Buffer.instructions_of_reads reads, loads⟩

/-- The literals of functions, without those of the functions nested in them. -/
def Definition.literals (definitions : List Definition) : List String :=
  definitions.flatMap (·.2.ownLiterals)

theorem Definition.literals_append (definitions more : List Definition) :
    literals (definitions ++ more) = literals definitions ++ literals more :=
  List.flatMap_append

section

variable (text : String)

mutual

/-- A string is a literal of a statement as often as it is one outside of the functions in the
statement and in these. -/
theorem Stmt.count_literals (env : Env) : (stmt : Stmt) →
    (stmt.literals true).count text =
      (stmt.literals false).count text + (Definition.literals (stmt.definitions env)).count text
  | .store .. | .print .. | .ret .. | .expr .. => by
      simp only [Stmt.literals, Stmt.definitions]
      rfl
  | .ifElse cond thenBlock none => by
      have inThen := thenBlock.count_literals env
      simp only [Stmt.literals, Stmt.definitions, List.count_append]
      omega
  | .ifElse cond thenBlock (some elseBlock) => by
      have inThen := thenBlock.count_literals env
      have inElse := elseBlock.count_literals (thenBlock.pass env)
      simp only [Stmt.literals, Stmt.definitions, Definition.literals_append, List.count_append]
      omega
  | .whileDo cond body => by
      have inBody := body.count_literals env
      simp only [Stmt.literals, Stmt.definitions, List.count_append]
      omega
  | .forRange _ name low high body => by
      have inBody := body.count_literals (env.hide name)
      simp only [Stmt.literals, Stmt.definitions, List.count_append]
      omega
  | .block body => by
      rw [Stmt.literals, Stmt.literals, Stmt.definitions]
      exact body.count_literals env

theorem Stmt.count_literalsAll (env : Env) : (stmts : List Stmt) →
    (Stmt.literalsAll true stmts).count text =
      (Stmt.literalsAll false stmts).count text +
        (Definition.literals (Stmt.definitionsAll env stmts)).count text
  | [] => by
      simp only [Stmt.literalsAll, Stmt.definitionsAll]
      rfl
  | stmt :: stmts => by
      have inFirst := stmt.count_literals env
      have inRest := Stmt.count_literalsAll (stmt.pass env) stmts
      simp only [Stmt.literalsAll, Stmt.definitionsAll, Definition.literals_append,
        List.count_append]
      omega

theorem Block.count_literals (env : Env) : (block : Block) →
    (block.literals true).count text =
      (block.literals false).count text + (Definition.literals (block.definitions env)).count text
  | ⟨vars, functions, stmts⟩ => by
      have inFunctions := FnDef.count_literalsAll (env.declareBlock vars functions) env.defined
        functions
      have inStmts := Stmt.count_literalsAll (env.inside vars functions) stmts
      simp only [Block.literals, Block.definitions, Definition.literals_append, List.count_append,
        if_true, Bool.false_eq_true, if_false, List.count_nil]
      omega

theorem FnDef.count_literalsAll (env : Env) (id : Nat) : (definitions : List FnDef) →
    (FnDef.literalsAll true definitions).count text =
      (Definition.literals (FnDef.entries env id definitions)).count text +
        (Definition.literals (FnDef.definitionsAll env id definitions)).count text
  | [] => by
      simp only [FnDef.literalsAll, FnDef.entries, FnDef.definitionsAll]
      rfl
  | definition :: definitions => by
      have inFirst := definition.count_literals (env.enter id definition)
      have inRest := FnDef.count_literalsAll (env.past definition.count) (id + 1) definitions
      have own (entry : Definition) (entries : List Definition) :
          Definition.literals (entry :: entries) =
            entry.2.literals false ++ Definition.literals entries := List.flatMap_cons
      simp only [FnDef.literalsAll, FnDef.entries, FnDef.definitionsAll, own,
        Definition.literals_append, List.count_append]
      omega

theorem FnDef.count_literals (env : Env) : (definition : FnDef) →
    (definition.literals true).count text =
      (definition.literals false).count text +
        (Definition.literals (definition.definitions env)).count text
  | ⟨_, _, _, .block body, _⟩ => by
      rw [FnDef.literals, FnDef.literals, FnDef.definitions]
      exact body.count_literals env
  | ⟨_, _, _, .native _, _⟩ => by
      simp only [FnDef.literals, FnDef.definitions]
      rfl

end

end

/-- Every literal of a program stands in one of its functions. -/
theorem Program.literals_perm (program : Program) :
    (Definition.literals program.definitions).Perm program.literals := by
  refine List.perm_iff_count.mpr fun text => ?_
  rw [literals, FnDef.count_literals text (program.outside.enter 0 program.top),
    ← List.count_append]
  rfl

/-- The constant pool is what the literals of a program make it.  It begins with the empty string,
and then come the other literals, each of them once, in the order in which they are compiled first.
Every literal stands in one function, and the code of a function loads the literals that stand in
it: one instruction for each, in their order, whose operand names a constant that is the literal. -/
theorem Program.constants_of_compile {program : Program} {options : Options} {image : Image}
    (compiles : program.compile options = .ok image) :
    image.constants.toList = "" :: (program.literals.filter (· ≠ "")).eraseDups ∧
    (program.definitions.flatMap (·.2.ownLiterals)).Perm program.literals ∧
    ∀ (index : Nat) definition, program.definitions[index]? = some definition →
      ∃ routine instrs, image.routines[index]? = some routine ∧
        routine.name = definition.2.name ∧ routine.code.instructions = .ok instrs ∧
        (instrs.filter (·.op = .sLoad)).map (·.text? image) =
          definition.2.ownLiterals.map some := by
  have realizes := realizes_of_emit (program.compile_eq_emit options ▸ compiles)
  exact ⟨toList_constants compiles, program.literals_perm, fun _ _ found => realizes.loads found⟩

/-- Literals in a function, in both blocks and the condition of a conditional, and in arguments:

    void main() {
      int pick(string x, string y) { print("in"); return 1; }
      if (pick("left", "right")) print(""); else print("in", "else");
    }
-/
def Program.picking : Program where
  top :=
    { name := "main"
      returnType := .void
      params := []
      body := .block
        { vars := []
          functions :=
            [⟨"pick", .int, [⟨"x", .string⟩, ⟨"y", .string⟩], .block
              ⟨[], [], [.print 1 [.string 2 "in"], .ret 3 (some (.int 4 1))]⟩, 5⟩]
          stmts :=
            [.ifElse (.call 6 "pick" [.string 7 "left", .string 8 "right"])
              ⟨[], [], [.print 9 [.string 10 ""]]⟩
              (some ⟨[], [], [.print 11 [.string 12 "in", .string 13 "else"]]⟩)] }
      position := 0 }

theorem Program.constants_of_compile_picking :
    ∃ image, picking.compile .default = .ok image ∧
      image.constants.toList = ["", "in", "else", "right", "left"] ∧
      ∃ routine instrs, image.routines[0]? = some routine ∧ routine.code.instructions = .ok instrs ∧
        (instrs.filter (·.op = .sLoad)).map (·.text? image) =
          [some "", some "in", some "else", some "right", some "left"] := by
  obtain ⟨image, compiles⟩ : ∃ image, picking.compile .default = .ok image :=
    exists_of_isOk (by decide +kernel)
  obtain ⟨constants, -, each⟩ := constants_of_compile compiles
  obtain ⟨routine, instrs, lookup, -, reads, loads⟩ := each 0 _ rfl
  have listed : image.constants.toList = ["", "in", "else", "right", "left"] :=
    constants.trans (by decide +kernel)
  exact ⟨image, compiles, listed, routine, instrs, lookup, reads, loads⟩

end Backpatch
