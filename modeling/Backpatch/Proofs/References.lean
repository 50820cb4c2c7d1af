import Backpatch.Proofs.Checked
import Backpatch.Proofs.Places

/-!
# What code refers to

The variables that compiled code loads and stores, and the functions that it calls, in the order of
the instructions.  They can be read off the program: every reference to a name stands for the
declaration that is found by searching the layers around it, and beside these there are only the
stores of arguments and the accesses to the bounds of loops.
-/

namespace Backpatch

namespace Op

/-- The type and the index of the variable that an opcode names by itself. -/
def fixedVariable? : Op → Option (Ty × UInt16)
  | loadDVar0 | storeDVar0 => some (.double, 0)
  | loadDVar1 | storeDVar1 => some (.double, 1)
  | loadDVar2 | storeDVar2 => some (.double, 2)
  | loadDVar3 | storeDVar3 => some (.double, 3)
  | loadIVar0 | storeIVar0 => some (.int, 0)
  | loadIVar1 | storeIVar1 => some (.int, 1)
  | loadIVar2 | storeIVar2 => some (.int, 2)
  | loadIVar3 | storeIVar3 => some (.int, 3)
  | loadSVar0 | storeSVar0 => some (.string, 0)
  | loadSVar1 | storeSVar1 => some (.string, 1)
  | loadSVar2 | storeSVar2 => some (.string, 2)
  | loadSVar3 | storeSVar3 => some (.string, 3)
  | _ => none

/-- Instructions that pop into a variable. -/
def isStore : Op → Bool
  | storeDVar0 | storeDVar1 | storeDVar2 | storeDVar3 | storeDVar | storeCtxDVar
  | storeIVar0 | storeIVar1 | storeIVar2 | storeIVar3 | storeIVar | storeCtxIVar
  | storeSVar0 | storeSVar1 | storeSVar2 | storeSVar3 | storeSVar | storeCtxSVar => true
  | _ => false

/-- Instructions that name neither a variable nor a function. -/
def isQuiet (op : Op) : Bool :=
  op != call && op.fixedVariable?.isNone && op.variable?.isNone

end Op

/-- What an instruction refers to.  A variable may be named with the function to which it belongs,
or without. -/
inductive Reference
  | load (slot : Slot) (cross : Bool)
  | store (slot : Slot) (cross : Bool)
  | call (id : UInt16)
  deriving DecidableEq

namespace Instr

/-- The variable that an instruction of the given function names, and whether the function to which
it belongs is named, too. -/
def slot? (function : UInt16) (instr : Instr) : Option (Slot × Bool) :=
  match instr.op.fixedVariable?, instr.op.variable? with
  | some (ty, index), _ => some (⟨function, index, ty⟩, false)
  | none, some (ty, false) => (instr.word? 0).map fun index => (⟨function, index, ty⟩, false)
  | none, some (ty, true) => do return (⟨← instr.word? 0, ← instr.word? 1, ty⟩, true)
  | none, none => none

/-- What an instruction of the given function refers to. -/
def reference? (function : UInt16) (instr : Instr) : Option Reference :=
  if instr.op = .call then
    (instr.word? 0).map .call
  else
    (instr.slot? function).map fun (slot, cross) =>
      if instr.op.isStore then .store slot cross else .load slot cross

theorem reference?_of_isQuiet {function : UInt16} {instr : Instr}
    (quiet : instr.op.isQuiet = true) :
    instr.reference? function = none := by
  simp only [Op.isQuiet, Bool.and_eq_true, bne_iff_ne, Option.isNone_iff_eq_none] at quiet
  obtain ⟨⟨notCall, notFixed⟩, notVariable⟩ := quiet
  rw [reference?, if_neg notCall, slot?, notFixed, notVariable]
  rfl

end Instr

/-- The instructions of a family load or store variables that their operands name. -/
def Accesses (stores : Bool) (family : Ty → Bool → Option Op) : Prop :=
  ∀ {ty : Ty} {cross : Bool} {op : Op}, family ty cross = some op →
    op.variable? = some (ty, cross) ∧ op.fixedVariable? = none ∧ op ≠ .call ∧ op.isStore = stores

theorem accesses_load? : Accesses false Op.load? := by
  intro ty cross op member
  cases ty <;> cases cross <;> cases member <;> exact ⟨rfl, rfl, nofun, rfl⟩

theorem accesses_store? : Accesses true Op.store? := by
  intro ty cross op member
  cases ty <;> cases cross <;> cases member <;> exact ⟨rfl, rfl, nofun, rfl⟩

/-- An instruction of a family that loads or stores variables names its slot, with the function of
the slot just if that is another one. -/
theorem AccessAt.exists_instr {image : Image} {code : List UInt8} {function : UInt16} {slot : Slot}
    {start stop : Nat} {stores : Bool} {family : Ty → Bool → Option Op}
    (access : AccessAt image code function family slot start stop)
    (accesses : Accesses stores family) :
    ∃ instr, fetch code start = some instr ∧ instr.nextOffset = stop ∧
      family slot.ty (slot.context != function) = some instr.op ∧
      instr.slot? function = some (slot, slot.context != function) := by
  obtain ⟨context, index, ty⟩ := slot
  cases access with
  | own _ localSlot member instr =>
      obtain rfl : context = function := localSlot
      obtain ⟨isVariable, notFixed, -, -⟩ := accesses member
      refine ⟨_, instr, nextOffset_of_fetch instr, by simpa using member, ?_⟩
      simp [Instr.slot?, notFixed, isVariable]
  | foreign _ foreignSlot member instr =>
      have foreign : (context != function) = true := bne_iff_ne.mpr foreignSlot
      obtain ⟨isVariable, notFixed, -, -⟩ := accesses member
      refine ⟨_, instr, nextOffset_of_fetch instr, by rwa [foreign], ?_⟩
      simp [Instr.slot?, notFixed, isVariable, foreign]

/-- Between two offsets stand instructions of a function that refer to the given things, one after
the other.  A reference is optional because it may lack in a program. -/
def Refers (function : UInt16) (code : List UInt8) (start stop : Nat)
    (references : List (Option Reference)) : Prop :=
  ∃ instrs, Reads code start stop instrs ∧
    (instrs.filterMap (·.reference? function)).map some = references

namespace Refers

variable {image : Image} {function : UInt16} {code : List UInt8} {start middle stop : Nat}
  {references more : List (Option Reference)} {instr : Instr} {op : Op} {slot : Slot}

theorem nil : Refers function code start start [] :=
  ⟨[], .nil, rfl⟩

theorem append (first : Refers function code start middle references)
    (second : Refers function code middle stop more) :
    Refers function code start stop (references ++ more) := by
  obtain ⟨instrs, reads, rfl⟩ := first
  obtain ⟨others, readsOthers, rfl⟩ := second
  exact ⟨instrs ++ others, reads.append readsOthers, by rw [List.filterMap_append, List.map_append]⟩

theorem single (fetched : fetch code start = some instr) {reference : Reference}
    (refers : instr.reference? function = some reference) :
    Refers function code start (start + 1 + instr.operands.length) [some reference] := by
  refine ⟨[instr], nextOffset_of_fetch fetched ▸ .single fetched, ?_⟩
  rw [List.filterMap_cons, refers]
  rfl

theorem quiet (fetched : fetch code start = some instr) (isQuiet : instr.op.isQuiet = true) :
    Refers function code start (start + 1 + instr.operands.length) [] := by
  refine ⟨[instr], nextOffset_of_fetch fetched ▸ .single fetched, ?_⟩
  rw [List.filterMap_cons, Instr.reference?_of_isQuiet isQuiet]
  rfl

theorem plain (instr : PlainAt code start op) (isQuiet : op.isQuiet = true) :
    Refers function code start (start + 1) [] :=
  quiet instr isQuiet

theorem jump {target : Nat} (instr : JumpAt code start target) :
    Refers function code start (start + 3) [] :=
  quiet instr.2 rfl

theorem branch {onTrue onFalse : Nat} (instr : BranchAt code start op onTrue onFalse)
    (isQuiet : op.isQuiet = true) : Refers function code start (start + 5) [] :=
  quiet instr.2.2 isQuiet

theorem diamond {numeric : Numeric} (instrs : DiamondAt code start numeric) :
    Refers function code start (start + 5) [] := by
  have one : numeric.oneOp.isQuiet = true := by cases numeric <;> rfl
  have zero : numeric.zeroOp.isQuiet = true := by cases numeric <;> rfl
  exact ((plain instrs.one one).append (jump instrs.join)).append (plain instrs.zero zero)

theorem load (access : AccessAt image code function Op.load? slot start stop) :
    Refers function code start stop [some (.load slot (slot.context != function))] := by
  obtain ⟨instr, fetched, rfl, member, named⟩ := access.exists_instr accesses_load?
  obtain ⟨-, -, notCall, isStore⟩ := accesses_load? member
  refine ⟨[instr], .single fetched, ?_⟩
  simp [Instr.reference?, notCall, named, isStore]

theorem store (access : AccessAt image code function Op.store? slot start stop) :
    Refers function code start stop [some (.store slot (slot.context != function))] := by
  obtain ⟨instr, fetched, rfl, member, named⟩ := access.exists_instr accesses_store?
  obtain ⟨-, -, notCall, isStore⟩ := accesses_store? member
  refine ⟨[instr], .single fetched, ?_⟩
  simp [Instr.reference?, notCall, named, isStore]

theorem call {id : UInt16} (instr : WordAt code start .call id) :
    Refers function code start (start + 3) [some (.call id)] := by
  refine single instr ?_
  simp [Instr.reference?]

end Refers

namespace Place

/-- How a variable is loaded at a place. -/
def loadOf (place : Place) (slot : Slot) : Reference :=
  .load slot (slot.context != place.function)

/-- How a variable is stored at a place. -/
def storeOf (place : Place) (slot : Slot) : Reference :=
  .store slot (slot.context != place.function)

def load? (place : Place) (name : String) : Option Reference :=
  (place.var? name).map place.loadOf

def store? (place : Place) (name : String) : Option Reference :=
  (place.var? name).map place.storeOf

def call? (place : Place) (name : String) : Option Reference :=
  (place.callee? name).map fun callee => .call callee.1

/-- The slot for the bound of a loop over the variable of a name. -/
def bound? (place : Place) (name : String) : Option Slot :=
  (place.var? name).map fun slot => place.toEnv.next slot.ty

end Place

mutual

/-- What the code of an expression at a place refers to. -/
def Expr.references (place : Place) : Expr → List (Option Reference)
  | .int .. | .double .. | .string .. => []
  | .load _ name => [place.load? name]
  | .binary _ _ left right => left.references place ++ right.references place
  | .unary _ _ operand => operand.references place
  | .call _ name args => Expr.referencesAll place args ++ [place.call? name]

/-- What the code of arguments refers to; the last argument comes first. -/
def Expr.referencesAll (place : Place) : List Expr → List (Option Reference)
  | [] => []
  | arg :: args => Expr.referencesAll place args ++ arg.references place

end

mutual

/-- What the code of a statement at a place refers to. -/
def Stmt.references (place : Place) : Stmt → List (Option Reference)
  | .store _ name op value =>
      (if op.update?.isSome then [place.load? name] else []) ++ value.references place ++
        [place.store? name]
  | .ifElse cond thenBlock none => thenBlock.references place ++ cond.references place
  | .ifElse cond thenBlock (some elseBlock) =>
      thenBlock.references place ++
        elseBlock.references (place.behind (thenBlock.pass place.toEnv)) ++ cond.references place
  | .whileDo cond body => cond.references place ++ body.references place
  | .forRange _ name low high body =>
      low.references place ++ [place.store? name] ++ high.references place ++
        [(place.bound? name).map place.storeOf, place.load? name,
          (place.bound? name).map place.loadOf] ++
        body.references (place.behind (place.toEnv.hide name)) ++
        [place.load? name, place.store? name]
  | .print _ args => args.flatMap (·.references place)
  | .ret _ value => value.elim [] (·.references place)
  | .expr value => value.references place
  | .block body => body.references place

def Stmt.referencesAll (place : Place) : List Stmt → List (Option Reference)
  | [] => []
  | stmt :: stmts =>
      stmt.references place ++ Stmt.referencesAll (place.behind (stmt.pass place.toEnv)) stmts

/-- What the code of a block refers to; the functions in it have code of their own. -/
def Block.references (place : Place) : Block → List (Option Reference)
  | ⟨vars, functions, stmts⟩ => Stmt.referencesAll (place.inside vars functions) stmts

end

/-- What the code of a function refers to whose body begins at the given place: first the parameters
are stored, in their order. -/
def FnDef.references (place : Place) : FnDef → List (Option Reference)
  | ⟨_, _, params, .block body, _⟩ =>
      (Slot.numbered place.function [] (params.map (·.ty))).map
          (fun slot => some (place.storeOf slot)) ++
        body.references place
  | ⟨_, _, _, .native _, _⟩ => []

/-- What the code of a part of an expression refers to. -/
def ExprPart.references (place : Place) : ExprPart → List (Option Reference)
  | .value expr _ | .branch expr _ _ | .operand expr _ | .condition expr _ _ | .converted expr _ =>
      expr.references place
  | .operands left right _ => left.references place ++ right.references place
  | .args exprs _ => Expr.referencesAll place exprs

def StmtPart.references (place : Place) : StmtPart → List (Option Reference)
  | .stmt statement => statement.references place
  | .stmts statements => Stmt.referencesAll place statements
  | .block body => body.references place
  | .otherwise body => body.elim [] (·.references place)
  | .prints args => args.flatMap (·.references place)

section

variable {image : Image} {code : List UInt8} {place : Place} {start stop : Nat}

theorem Numeric.isQuiet (numeric : Numeric) :
    numeric.compareOp.isQuiet = true ∧ numeric.minusOneOp.isQuiet = true ∧
      numeric.mulOp.isQuiet = true ∧ numeric.oneOp.isQuiet = true ∧
      numeric.addOp.isQuiet = true := by
  cases numeric <;> exact ⟨rfl, rfl, rfl, rfl, rfl⟩

theorem ArithOp.isQuiet_of_instr? {arith : ArithOp} {ty : Ty} {op : Op}
    (member : arith.instr? ty = some op) : op.isQuiet = true := by
  cases arith <;> cases ty <;> cases member <;> rfl

theorem Op.isQuiet_of_print? {ty : Ty} {op : Op} (member : Op.print? ty = some op) :
    op.isQuiet = true := by
  cases ty <;> cases member <;> rfl

theorem Op.isQuiet_of_convert? {source target : Ty} {op : Op}
    (member : Op.convert? source target = some op) : op.isQuiet = true := by
  cases source <;> cases target <;> cases member <;> rfl

theorem Comparison.isQuiet_branchOp (comparison : Comparison) :
    comparison.branchOp.isQuiet = true := by
  cases comparison <;> rfl

/-- The code of an expression refers to what the names in it mean. -/
theorem ExprCode.refers {part : ExprPart}
    (exprCode : ExprCode image code place.toEnv.toNames part start stop) :
    Refers place.function code start stop (part.references place) := by
  induction exprCode with
  | int instr => exact .quiet instr rfl
  | double instr => exact .quiet instr rfl
  | string _ instr => exact .quiet instr rfl
  | @load _ name slot _ _ resolved instr =>
      have found : place.load? name = some (place.loadOf slot) := by
        rw [Place.load?, show place.var? name = some slot from resolved]
        rfl
      rw [ExprPart.references, Expr.references, found]
      exact .load instr
  | arith _ member instrAt ih =>
      have result := ih.append (.plain instrAt (ArithOp.isQuiet_of_instr? member))
      simpa [ExprPart.references, Expr.references] using result
  | @compare _ op _ _ numeric _ _ _ _ _ compareAt zero branch ih =>
      have result := ((ih.append (.plain compareAt numeric.isQuiet.1)).append
        (.plain zero rfl)).append (.branch branch op.isQuiet_branchOp)
      simpa [ExprPart.references, Expr.references] using result
  | and _ _ firstIh secondIh | or _ _ firstIh secondIh =>
      rw [ExprPart.references, Expr.references]
      exact firstIh.append secondIh
  | not _ ih =>
      rw [ExprPart.references, Expr.references]
      exact ih
  | @neg _ _ numeric _ _ _ minusOne multiply ih =>
      have result := (ih.append (.plain minusOne numeric.isQuiet.2.1)).append
        (.plain multiply numeric.isQuiet.2.2.1)
      simpa [ExprPart.references, Expr.references] using result
  | @call _ name _ id signature _ _ _ resolved _ _ _ _ instr ih =>
      have found : place.call? name = some (.call id) := by
        rw [Place.call?, show place.callee? name = some (id, signature) from resolved]
        rfl
      rw [ExprPart.references, Expr.references, found]
      exact ih.append (.call instr)
  | operandValue _ ih => exact ih
  | operandBranch _ diamond ih | convertBranch _ diamond ih =>
      have result := ih.append (.diamond diamond)
      rwa [List.append_nil] at result
  | conditionBranch _ ih => exact ih
  | conditionInt _ zero branch ih =>
      have result := (ih.append (.plain zero rfl)).append (.branch branch rfl)
      rwa [List.append_nil, List.append_nil] at result
  | conditionDouble _ zero compareAt intZero branch ih =>
      have result := (((ih.append (.plain zero rfl)).append (.plain compareAt rfl)).append
        (.plain intZero rfl)).append (.branch branch rfl)
      rwa [List.append_nil, List.append_nil, List.append_nil, List.append_nil] at result
  | same _ ih | unwanted _ ih | unwantedBranch _ ih => exact ih
  | convert _ conversion instr ih =>
      have result := ih.append (.plain instr (Op.isQuiet_of_convert? conversion))
      rwa [List.append_nil] at result
  | alike _ _ firstIh secondIh => exact firstIh.append secondIh
  | widenLeft _ instr _ firstIh secondIh =>
      have result := (firstIh.append (.plain instr rfl)).append secondIh
      rwa [List.append_nil] at result
  | widenRight _ _ instr firstIh secondIh =>
      have result := (firstIh.append secondIh).append (.plain instr rfl)
      rwa [List.append_nil] at result
  | noArgs => exact .nil
  | arg _ _ laterIh firstIh =>
      rw [ExprPart.references, Expr.referencesAll]
      exact laterIh.append firstIh

/-- The code of statements refers to what the names in them mean. -/
theorem StmtCode.refers {env : Env} {part : StmtPart}
    (stmtCode : StmtCode image code env part start stop) {place : Place}
    (same : place.toEnv = env) :
    Refers place.function code start stop (part.references place) := by
  induction stmtCode generalizing place with
  | @assign env _ name _ slot _ _ _ resolved valueCode store =>
      subst same
      have found : place.store? name = some (place.storeOf slot) := by
        rw [Place.store?, show place.var? name = some slot from resolved]
        rfl
      rw [StmtPart.references, Stmt.references, found]
      exact valueCode.refers.append (.store store)
  | @update env _ name op _ slot arith _ _ _ _ _ resolved updates member load valueCode instrAt
      store =>
      subst same
      have isVar : place.var? name = some slot := resolved
      have result := (((Refers.load load).append valueCode.refers).append
        (.plain instrAt (ArithOp.isQuiet_of_instr? member))).append (.store store)
      have isUpdate : op.update?.isSome = true := by rw [updates]; rfl
      rw [StmtPart.references, Stmt.references, if_pos isUpdate, Place.load?, Place.store?, isVar]
      simpa [ExprPart.references, Place.loadOf, Place.storeOf] using result
  | @ifElse env _ thenBlock elseBlock _ _ _ _ toCond _ thenExit _ elseExit condCode thenIh elseIh =>
      subst same
      have later := elseIh (place.toEnv_behind_block thenBlock)
      have result := (((((Refers.jump toCond).append (thenIh rfl)).append (.jump thenExit)).append
        later).append (.jump elseExit)).append condCode.refers
      cases elseBlock <;>
        simpa [StmtPart.references, Stmt.references, ExprPart.references] using result
  | whileDo condCode _ again bodyIh =>
      subst same
      have result := (condCode.refers.append (bodyIh rfl)).append (.jump again)
      simpa [StmtPart.references, Stmt.references, ExprPart.references] using result
  | @forRange env _ name _ _ body slot numeric _ _ _ _ _ _ _ _ _ _ resolved number _ lowCode
      storeLow
      highCode storeBound loadSlot loadBound compareAt zero branch _ reload one add storeNext again
      bodyIh =>
      subst same
      have isVar : place.var? name = some slot := resolved
      have init := ((lowCode.refers.append (.store storeLow)).append highCode.refers).append
        (.store storeBound)
      have test := (((Refers.load loadSlot).append (.load loadBound)).append
        (.plain compareAt numeric.isQuiet.1)).append
          ((Refers.plain zero rfl).append (.branch branch rfl))
      have advance := ((((Refers.load reload).append (.plain one numeric.isQuiet.2.2.2.1)).append
        (.plain add numeric.isQuiet.2.2.2.2)).append (.store storeNext)).append (.jump again)
      have round := bodyIh (place.toEnv_behind_hide name)
      have result := ((init.append test).append round).append advance
      rw [StmtPart.references, Stmt.references, Place.bound?, Place.load?, Place.store?, isVar]
      simpa [ExprPart.references, StmtPart.references, Place.loadOf, Place.storeOf] using result
  | print _ ih =>
      rw [StmtPart.references, Stmt.references]
      exact ih same
  | returnVoid _ instr =>
      rw [StmtPart.references, Stmt.references]
      exact .plain instr rfl
  | returnValue _ valueCode instr =>
      subst same
      have result := valueCode.refers.append (.plain instr rfl)
      simpa [StmtPart.references, Stmt.references, ExprPart.references] using result
  | callVoid valueCode =>
      subst same
      rw [StmtPart.references, Stmt.references]
      exact valueCode.refers
  | dropValue _ valueCode instr =>
      subst same
      have result := valueCode.refers.append (.plain instr rfl)
      simpa [StmtPart.references, Stmt.references, ExprPart.references] using result
  | dropBranch valueCode =>
      subst same
      rw [StmtPart.references, Stmt.references]
      exact valueCode.refers
  | nested _ ih =>
      rw [StmtPart.references, Stmt.references]
      exact ih same
  | noStmts => exact .nil
  | @stmts env first _ _ _ _ _ _ firstIh restIh =>
      subst same
      rw [StmtPart.references, Stmt.referencesAll]
      exact (firstIh rfl).append (restIh (place.toEnv_behind_stmt first))
  | @block env vars functions _ _ _ _ ih =>
      subst same
      rw [StmtPart.references, Block.references]
      exact ih (place.toEnv_inside vars functions)
  | noElse => exact .nil
  | someElse _ ih => exact ih same
  | noPrints => exact .nil
  | prints valueCode member instr _ ih =>
      subst same
      have result := (valueCode.refers.append (.plain instr (Op.isQuiet_of_print? member))).append
        (ih rfl)
      simpa [StmtPart.references, ExprPart.references] using result

theorem ParamsCode.refers {env : Env} {params : List ParamDecl}
    (paramsCode : ParamsCode image code env params start stop) :
    Refers env.function code start stop
      ((Slot.numbered env.function env.taken (params.map (·.ty))).map fun slot =>
        some (.store slot (slot.context != env.function))) := by
  induction paramsCode with
  | nil => exact .nil
  | cons store _ ih => exact (Refers.store store).append ih

end

theorem BodyCode.refers {image : Image} {code : List UInt8} {place : Place} {definition : FnDef}
    {stop : Nat} (bodyCode : BodyCode image code place.toEnv definition stop) :
    Refers place.function code 0 stop (definition.references place) := by
  cases bodyCode with
  | block paramsCode bodyCode instr =>
      have result := (paramsCode.refers.append (bodyCode.refers rfl)).append (.plain instr rfl)
      rwa [List.append_nil] at result
  | native _ call instr => exact (Refers.quiet call rfl).append (.plain instr rfl)

/-- The instructions of a compiled function, in their order, refer to what its parameters and the
names in it mean. -/
theorem Image.Realizes.references {image : Image} {program : Program}
    (realizes : image.Realizes program) {index : Nat} {place : Place} {definition : FnDef}
    (found : program.places[index]? = some (place, definition)) :
    place.function = UInt16.ofNat index ∧
    ∃ routine instrs, image.routines[index]? = some routine ∧ routine.name = definition.name ∧
      routine.code.instructions = .ok instrs ∧
      (instrs.filterMap (·.reference? place.function)).map some = definition.references place := by
  have listed := Program.getElem?_definitions found
  obtain ⟨routine, lookup, routineCode⟩ := realizes.routine index _ listed
  obtain ⟨instrs, reads, refers⟩ := routineCode.body.refers
  exact ⟨program.function_definition listed, routine, instrs, lookup, routineCode.name,
    Buffer.instructions_of_reads reads, refers⟩

end Backpatch
