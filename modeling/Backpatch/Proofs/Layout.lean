import Backpatch.Compile
import Backpatch.Proofs.Lexical

/-!
# What finished code looks like

The finished code of a program, described part by part: which instructions stand where for an
expression, a statement or a function, and where their jumps lead.  Nothing is said about how the
code comes about; every address is known, and no place is open.  A condition appears as code that
goes to one of two addresses, wherever these are.

What is true of compiled programs is proved from this description alone, by going through its rules.
-/

namespace Backpatch

/-- The instruction that begins at an offset. -/
def fetch (code : List UInt8) (offset : Nat) : Option Instr :=
  match code.drop offset with
  | [] => none
  | byte :: rest =>
      match Op.ofByte? byte with
      | none => none
      | some op =>
          if rest.length < op.width then none else some ⟨offset, op, rest.take op.width⟩

section Instructions

variable (code : List UInt8)

def PlainAt (offset : Nat) (op : Op) : Prop :=
  fetch code offset = some ⟨offset, op, []⟩

/-- An instruction with a number for its operand. -/
def WordAt (offset : Nat) (op : Op) (word : UInt16) : Prop :=
  fetch code offset = some ⟨offset, op, littleEndian 2 word.toNat⟩

def JumpAt (offset target : Nat) : Prop :=
  target ≤ Buffer.maxTarget ∧ fetch code offset = some ⟨offset, .jump, littleEndian 2 target⟩

def BranchAt (offset : Nat) (op : Op) (onTrue onFalse : Nat) : Prop :=
  onTrue ≤ Buffer.maxTarget ∧ onFalse ≤ Buffer.maxTarget ∧
    fetch code offset = some ⟨offset, op, littleEndian 2 onTrue ++ littleEndian 2 onFalse⟩

/-- Code that pushes one when it is entered at its start and zero when it is entered at the fifth
byte, and ends at the same place in both cases. -/
structure DiamondAt (offset : Nat) (numeric : Numeric) : Prop where
  one : PlainAt code offset numeric.oneOp
  join : JumpAt code (offset + 1) (offset + 5)
  zero : PlainAt code (offset + 4) numeric.zeroOp

end Instructions

theorem Numeric.ty_ne_void (numeric : Numeric) : numeric.ty ≠ .void := by
  cases numeric <;> decide

theorem Numeric.ty_of_ofTy? {numeric : Numeric} {ty : Ty}
    (number : Numeric.ofTy? ty = some numeric) : ty = numeric.ty := by
  cases ty <;> cases number <;> rfl

namespace Instr

theorem word?_of_operands {offset number : Nat} {op : Op} {rest : List UInt8} :
    (⟨offset, op, littleEndian 2 number ++ rest⟩ : Instr).word? 0 = some (UInt16.ofNat number) := by
  have spelled := ofLittleEndian_littleEndian 2 number
  change some (UInt16.ofNat (ofLittleEndian (littleEndian 2 number))) = _
  rw [spelled, show Nat.pow 256 2 = 65536 from rfl]
  congr 1
  apply UInt16.toNat.inj
  simp

@[simp]
theorem word?_zero_single {offset number : Nat} {op : Op} :
    (⟨offset, op, littleEndian 2 number⟩ : Instr).word? 0 = some (UInt16.ofNat number) := by
  have read : (⟨offset, op, littleEndian 2 number ++ []⟩ : Instr).word? 0 = _ := word?_of_operands
  rwa [List.append_nil] at read

@[simp]
theorem word?_zero_pair {offset first second : Nat} {op : Op} :
    (⟨offset, op, littleEndian 2 first ++ littleEndian 2 second⟩ : Instr).word? 0 =
      some (UInt16.ofNat first) :=
  word?_of_operands

@[simp]
theorem word?_one_pair {offset first second : Nat} {op : Op} :
    (⟨offset, op, littleEndian 2 first ++ littleEndian 2 second⟩ : Instr).word? 1 =
      some (UInt16.ofNat second) :=
  (word?_zero_single : (⟨offset, op, littleEndian 2 second⟩ : Instr).word? 0 = _)

theorem targets_jump {offset target : Nat} (near : target ≤ Buffer.maxTarget) :
    (⟨offset, .jump, littleEndian 2 target⟩ : Instr).targets = [target] := by
  have small : target < 65536 := Nat.lt_succ_of_le near
  simp [targets, Nat.mod_eq_of_lt small]

theorem targets_branch {offset onTrue onFalse : Nat} {op : Op} (isBranch : op.isBranch)
    (trueNear : onTrue ≤ Buffer.maxTarget) (falseNear : onFalse ≤ Buffer.maxTarget) :
    (⟨offset, op, littleEndian 2 onTrue ++ littleEndian 2 onFalse⟩ : Instr).targets =
      [onTrue, onFalse] := by
  have trueSmall : onTrue < 65536 := Nat.lt_succ_of_le trueNear
  have falseSmall : onFalse < 65536 := Nat.lt_succ_of_le falseNear
  have notJump : op ≠ .jump := by
    rintro rfl
    exact nomatch isBranch
  simp [targets, notJump, isBranch, Nat.mod_eq_of_lt trueSmall, Nat.mod_eq_of_lt falseSmall]

end Instr

/-- A slot belongs to a routine of the image that has that many slots. -/
def Image.HasSlot (image : Image) (slot : Slot) : Prop :=
  ∃ owner, image.routine? slot.context = some owner ∧ slot.index < owner.frame.count slot.ty

/-- An instruction of the given family that names a slot: by its index if it belongs to the running
function, else by its function and its index. -/
inductive AccessAt (image : Image) (code : List UInt8) (function : UInt16)
    (family : Ty → Bool → Option Op) (slot : Slot) : Nat → Nat → Prop
  | own {op : Op} {start : Nat} (existsSlot : image.HasSlot slot)
      (localSlot : slot.context = function) (member : family slot.ty false = some op)
      (instr : WordAt code start op slot.index) :
      AccessAt image code function family slot start (start + 3)
  | foreign {op : Op} {start : Nat} (existsSlot : image.HasSlot slot)
      (foreignSlot : slot.context ≠ function) (member : family slot.ty true = some op)
      (instr : fetch code start =
        some ⟨start, op,
          littleEndian 2 slot.context.toNat ++ littleEndian 2 slot.index.toNat⟩) :
      AccessAt image code function family slot start (start + 5)

section Accesses

variable {image : Image} {code : List UInt8} {function : UInt16} {slot : Slot} {start stop : Nat}

theorem AccessAt.ty_ne_void {family : Ty → Bool → Option Op}
    (instr : AccessAt image code function family slot start stop)
    (none : ∀ cross, family .void cross = none) : slot.ty ≠ .void := by
  intro isVoid
  cases instr with
  | own _ _ member _ | foreign _ _ member _ =>
      rw [isVoid, none] at member
      cases member

theorem AccessAt.load_ne_void (instr : AccessAt image code function Op.load? slot start stop) :
    slot.ty ≠ .void :=
  instr.ty_ne_void fun _ => rfl

theorem AccessAt.store_ne_void (instr : AccessAt image code function Op.store? slot start stop) :
    slot.ty ≠ .void :=
  instr.ty_ne_void fun _ => rfl

end Accesses

/-- What a stretch of code does for an expression. -/
inductive ExprPart
  /-- Leave its value, which has the given type. -/
  | value (expr : Expr) (ty : Ty)
  /-- Decide a condition, and go on at one of two addresses. -/
  | branch (expr : Expr) (onTrue onFalse : Nat)
  /-- Leave its value, a condition as an int. -/
  | operand (expr : Expr) (ty : Ty)
  /-- Decide whether it is true, and go on at one of two addresses. -/
  | condition (expr : Expr) (onTrue onFalse : Nat)
  /-- Leave its value, converted to the given type. -/
  | converted (expr : Expr) (ty : Ty)
  /-- Leave the values of two expressions as numbers of the given type. -/
  | operands (left right : Expr) (ty : Ty)
  /-- Leave the values of arguments, converted to the given types, the first one on top. -/
  | args (exprs : List Expr) (types : List Ty)

/-- The code of a part of an expression stands between two offsets. -/
inductive ExprCode (image : Image) (code : List UInt8) (names : Names) :
    ExprPart → Nat → Nat → Prop
  | int {position : Position} {value : Int64} {start : Nat}
      (instr : fetch code start = some ⟨start, .iLoad, littleEndian 8 value.toUInt64.toNat⟩) :
      ExprCode image code names (.value (.int position value) .int) start (start + 9)
  | double {position : Position} {value : Double} {start : Nat}
      (instr : fetch code start = some ⟨start, .dLoad, littleEndian 8 value.bits.toNat⟩) :
      ExprCode image code names (.value (.double position value) .double) start (start + 9)
  | string {position : Position} {value : String} {id : UInt16} {start : Nat}
      (constant : image.constant? id = some value) (instr : WordAt code start .sLoad id) :
      ExprCode image code names (.value (.string position value) .string) start (start + 3)
  | load {position : Position} {name : String} {slot : Slot} {start stop : Nat}
      (resolved : names.var name = some slot)
      (instr : AccessAt image code names.function Op.load? slot start stop) :
      ExprCode image code names (.value (.load position name) slot.ty) start stop
  | arith {position : Position} {op : ArithOp} {left right : Expr} {ty : Ty} {instr : Op}
      {start middle : Nat}
      (operands : ExprCode image code names (.operands left right ty) start middle)
      (member : op.instr? ty = some instr) (instrAt : PlainAt code middle instr) :
      ExprCode image code names (.value (.binary position (.arith op) left right) ty) start
        (middle + 1)
  | compare {position : Position} {op : Comparison} {left right : Expr} {numeric : Numeric}
      {onTrue onFalse start middle : Nat}
      (operands : ExprCode image code names (.operands left right numeric.ty) start middle)
      (compareAt : PlainAt code middle numeric.compareOp) (zero : PlainAt code (middle + 1) .iLoad0)
      (branch : BranchAt code (middle + 2) op.branchOp onTrue onFalse) :
      ExprCode image code names (.branch (.binary position (.compare op) left right) onTrue onFalse)
        start (middle + 7)
  | and {position : Position} {left right : Expr} {onTrue onFalse start middle stop : Nat}
      (first : ExprCode image code names (.condition left middle onFalse) start middle)
      (second : ExprCode image code names (.condition right onTrue onFalse) middle stop) :
      ExprCode image code names (.branch (.binary position (.logic .and) left right) onTrue onFalse)
        start stop
  | or {position : Position} {left right : Expr} {onTrue onFalse start middle stop : Nat}
      (first : ExprCode image code names (.condition left onTrue middle) start middle)
      (second : ExprCode image code names (.condition right onTrue onFalse) middle stop) :
      ExprCode image code names (.branch (.binary position (.logic .or) left right) onTrue onFalse)
        start stop
  | not {position : Position} {operand : Expr} {onTrue onFalse start stop : Nat}
      (inner : ExprCode image code names (.condition operand onFalse onTrue) start stop) :
      ExprCode image code names (.branch (.unary position .not operand) onTrue onFalse) start stop
  | neg {position : Position} {operand : Expr} {numeric : Numeric} {start middle : Nat}
      (inner : ExprCode image code names (.operand operand numeric.ty) start middle)
      (minusOne : PlainAt code middle numeric.minusOneOp)
      (multiply : PlainAt code (middle + 1) numeric.mulOp) :
      ExprCode image code names (.value (.unary position .neg operand) numeric.ty) start
        (middle + 2)
  | call {position : Position} {name : String} {args : List Expr} {id : UInt16}
      {signature : Signature} {routine : Routine} {start middle : Nat}
      (resolved : names.callee name = some (id, signature))
      (registered : image.routine? id = some routine) (declared : routine.signature = signature)
      (count : args.length = signature.params.length)
      (pushed : ExprCode image code names (.args args (signature.params.map (·.ty))) start middle)
      (instr : WordAt code middle .call id) :
      ExprCode image code names (.value (.call position name args) signature.returnType) start
        (middle + 3)
  | operandValue {expr : Expr} {ty : Ty} {start stop : Nat}
      (value : ExprCode image code names (.value expr ty) start stop) :
      ExprCode image code names (.operand expr ty) start stop
  | operandBranch {expr : Expr} {start middle : Nat}
      (branch : ExprCode image code names (.branch expr middle (middle + 4)) start middle)
      (diamond : DiamondAt code middle .int) :
      ExprCode image code names (.operand expr .int) start (middle + 5)
  | conditionBranch {expr : Expr} {onTrue onFalse start stop : Nat}
      (branch : ExprCode image code names (.branch expr onTrue onFalse) start stop) :
      ExprCode image code names (.condition expr onTrue onFalse) start stop
  | conditionInt {expr : Expr} {onTrue onFalse start middle : Nat}
      (value : ExprCode image code names (.value expr .int) start middle)
      (zero : PlainAt code middle .iLoad0)
      (branch : BranchAt code (middle + 1) .ifICmpNe onTrue onFalse) :
      ExprCode image code names (.condition expr onTrue onFalse) start (middle + 6)
  | conditionDouble {expr : Expr} {onTrue onFalse start middle : Nat}
      (value : ExprCode image code names (.value expr .double) start middle)
      (zero : PlainAt code middle .dLoad0) (compareAt : PlainAt code (middle + 1) .dCmp)
      (intZero : PlainAt code (middle + 2) .iLoad0)
      (branch : BranchAt code (middle + 3) .ifICmpNe onTrue onFalse) :
      ExprCode image code names (.condition expr onTrue onFalse) start (middle + 8)
  | same {expr : Expr} {ty : Ty} {start stop : Nat}
      (value : ExprCode image code names (.value expr ty) start stop) :
      ExprCode image code names (.converted expr ty) start stop
  | unwanted {expr : Expr} {ty : Ty} {start stop : Nat}
      (value : ExprCode image code names (.value expr ty) start stop) :
      ExprCode image code names (.converted expr .void) start stop
  | convert {expr : Expr} {source target : Ty} {op : Op} {start middle : Nat}
      (value : ExprCode image code names (.value expr source) start middle)
      (conversion : Op.convert? source target = some op) (instr : PlainAt code middle op) :
      ExprCode image code names (.converted expr target) start (middle + 1)
  | convertBranch {expr : Expr} {numeric : Numeric} {start middle : Nat}
      (branch : ExprCode image code names (.branch expr middle (middle + 4)) start middle)
      (diamond : DiamondAt code middle numeric) :
      ExprCode image code names (.converted expr numeric.ty) start (middle + 5)
  | unwantedBranch {expr : Expr} {start stop : Nat}
      (branch : ExprCode image code names (.branch expr stop stop) start stop) :
      ExprCode image code names (.converted expr .void) start stop
  | alike {left right : Expr} {numeric : Numeric} {start middle stop : Nat}
      (first : ExprCode image code names (.operand left numeric.ty) start middle)
      (second : ExprCode image code names (.operand right numeric.ty) middle stop) :
      ExprCode image code names (.operands left right numeric.ty) start stop
  | widenLeft {left right : Expr} {start middle stop : Nat}
      (first : ExprCode image code names (.operand left .int) start middle)
      (instr : PlainAt code middle .i2d)
      (second : ExprCode image code names (.operand right .double) (middle + 1) stop) :
      ExprCode image code names (.operands left right .double) start stop
  | widenRight {left right : Expr} {start middle stop : Nat}
      (first : ExprCode image code names (.operand left .double) start middle)
      (second : ExprCode image code names (.operand right .int) middle stop)
      (instr : PlainAt code stop .i2d) :
      ExprCode image code names (.operands left right .double) start (stop + 1)
  | noArgs {types : List Ty} {start : Nat} :
      ExprCode image code names (.args [] types) start start
  | arg {expr : Expr} {exprs : List Expr} {ty : Ty} {types : List Ty} {start middle stop : Nat}
      (later : ExprCode image code names (.args exprs types) start middle)
      (first : ExprCode image code names (.converted expr ty) middle stop) :
      ExprCode image code names (.args (expr :: exprs) (ty :: types)) start stop

/-- What a stretch of code does for statements. -/
inductive StmtPart
  | stmt (stmt : Stmt)
  | stmts (stmts : List Stmt)
  | block (block : Block)
  /-- The second block of a conditional, if there is one. -/
  | otherwise (block : Option Block)
  /-- Print values one after the other. -/
  | prints (args : List Expr)

/-- The code of statements stands between two offsets. -/
inductive StmtCode (image : Image) (code : List UInt8) : Env → StmtPart → Nat → Nat → Prop
  | assign {env : Env} {position : Position} {name : String} {value : Expr} {slot : Slot}
      {start middle stop : Nat}
      (resolved : env.var name = some slot)
      (valueCode : ExprCode image code env.toNames (.converted value slot.ty) start middle)
      (store : AccessAt image code env.function Op.store? slot middle stop) :
      StmtCode image code env (.stmt (.store position name .assign value)) start stop
  | update {env : Env} {position : Position} {name : String} {op : StoreOp} {value : Expr}
      {slot : Slot} {arith : ArithOp} {instr : Op} {start loaded middle stop : Nat}
      (resolved : env.var name = some slot) (updates : op.update? = some arith)
      (member : arith.instr? slot.ty = some instr)
      (load : AccessAt image code env.function Op.load? slot start loaded)
      (valueCode : ExprCode image code env.toNames (.converted value slot.ty) loaded middle)
      (instrAt : PlainAt code middle instr)
      (store : AccessAt image code env.function Op.store? slot (middle + 1) stop) :
      StmtCode image code env (.stmt (.store position name op value)) start stop
  | ifElse {env : Env} {cond : Expr} {thenBlock : Block} {elseBlock : Option Block}
      {start thenStop elseStop stop : Nat}
      (toCond : JumpAt code start (elseStop + 3))
      (thenCode : StmtCode image code env (.block thenBlock) (start + 3) thenStop)
      (thenExit : JumpAt code thenStop stop)
      (elseCode : StmtCode image code (thenBlock.pass env) (.otherwise elseBlock) (thenStop + 3)
        elseStop)
      (elseExit : JumpAt code elseStop stop)
      (condCode : ExprCode image code env.toNames (.condition cond (start + 3) (thenStop + 3))
        (elseStop + 3) stop) :
      StmtCode image code env (.stmt (.ifElse cond thenBlock elseBlock)) start stop
  | whileDo {env : Env} {cond : Expr} {body : Block} {start entry bodyStop : Nat}
      (condCode : ExprCode image code env.toNames (.condition cond entry (bodyStop + 3)) start
        entry)
      (bodyCode : StmtCode image code env (.block body) entry bodyStop)
      (again : JumpAt code bodyStop start) :
      StmtCode image code env (.stmt (.whileDo cond body)) start (bodyStop + 3)
  | forRange {env : Env} {position : Position} {name : String} {low high : Expr} {body : Block}
      {slot : Slot} {numeric : Numeric}
      {start lowStop lowStored highStop head slotLoaded boundLoaded bodyStop reloaded back : Nat}
      (resolved : env.var name = some slot) (number : Numeric.ofTy? slot.ty = some numeric)
      (available : env.taken.count slot.ty < 65535)
      (lowCode : ExprCode image code env.toNames (.converted low slot.ty) start lowStop)
      (storeLow : AccessAt image code env.function Op.store? slot lowStop lowStored)
      (highCode : ExprCode image code env.toNames (.converted high slot.ty) lowStored highStop)
      (storeBound : AccessAt image code env.function Op.store? (env.next slot.ty) highStop head)
      (loadSlot : AccessAt image code env.function Op.load? slot head slotLoaded)
      (loadBound : AccessAt image code env.function Op.load? (env.next slot.ty) slotLoaded
        boundLoaded)
      (compareAt : PlainAt code boundLoaded numeric.compareOp)
      (zero : PlainAt code (boundLoaded + 1) .iLoad0)
      (branch : BranchAt code (boundLoaded + 2) .ifICmpLe (boundLoaded + 7) (back + 3))
      (bodyCode : StmtCode image code (env.hide name) (.block body) (boundLoaded + 7) bodyStop)
      (reload : AccessAt image code env.function Op.load? slot bodyStop reloaded)
      (one : PlainAt code reloaded numeric.oneOp) (add : PlainAt code (reloaded + 1) numeric.addOp)
      (storeNext : AccessAt image code env.function Op.store? slot (reloaded + 2) back)
      (again : JumpAt code back head) :
      StmtCode image code env (.stmt (.forRange position name low high body)) start (back + 3)
  | print {env : Env} {position : Position} {args : List Expr} {start stop : Nat}
      (prints : StmtCode image code env (.prints args) start stop) :
      StmtCode image code env (.stmt (.print position args)) start stop
  | returnVoid {env : Env} {position : Position} {start : Nat} (void : env.returnType = .void)
      (instr : PlainAt code start .ret) :
      StmtCode image code env (.stmt (.ret position none)) start (start + 1)
  | returnValue {env : Env} {position : Position} {value : Expr} {start middle : Nat}
      (notVoid : env.returnType ≠ .void)
      (valueCode : ExprCode image code env.toNames (.converted value env.returnType) start middle)
      (instr : PlainAt code middle .ret) :
      StmtCode image code env (.stmt (.ret position (some value))) start (middle + 1)
  | callVoid {env : Env} {value : Expr} {start stop : Nat}
      (valueCode : ExprCode image code env.toNames (.value value .void) start stop) :
      StmtCode image code env (.stmt (.expr value)) start stop
  | dropValue {env : Env} {value : Expr} {ty : Ty} {start middle : Nat} (notVoid : ty ≠ .void)
      (valueCode : ExprCode image code env.toNames (.value value ty) start middle)
      (instr : PlainAt code middle .pop) :
      StmtCode image code env (.stmt (.expr value)) start (middle + 1)
  | dropBranch {env : Env} {value : Expr} {start stop : Nat}
      (valueCode : ExprCode image code env.toNames (.branch value stop stop) start stop) :
      StmtCode image code env (.stmt (.expr value)) start stop
  | nested {env : Env} {body : Block} {start stop : Nat}
      (bodyCode : StmtCode image code env (.block body) start stop) :
      StmtCode image code env (.stmt (.block body)) start stop
  | noStmts {env : Env} {start : Nat} : StmtCode image code env (.stmts []) start start
  | stmts {env : Env} {first : Stmt} {rest : List Stmt} {start middle stop : Nat}
      (firstCode : StmtCode image code env (.stmt first) start middle)
      (restCode : StmtCode image code (first.pass env) (.stmts rest) middle stop) :
      StmtCode image code env (.stmts (first :: rest)) start stop
  | block {env : Env} {vars : List VarDecl} {functions : List FnDef} {stmts : List Stmt}
      {start stop : Nat}
      (inner : StmtCode image code (env.inside vars functions) (.stmts stmts) start stop) :
      StmtCode image code env (.block ⟨vars, functions, stmts⟩) start stop
  | noElse {env : Env} {start : Nat} : StmtCode image code env (.otherwise none) start start
  | someElse {env : Env} {body : Block} {start stop : Nat}
      (inner : StmtCode image code env (.block body) start stop) :
      StmtCode image code env (.otherwise (some body)) start stop
  | noPrints {env : Env} {start : Nat} : StmtCode image code env (.prints []) start start
  | prints {env : Env} {arg : Expr} {args : List Expr} {ty : Ty} {op : Op}
      {start middle stop : Nat}
      (valueCode : ExprCode image code env.toNames (.operand arg ty) start middle)
      (member : Op.print? ty = some op) (instr : PlainAt code middle op)
      (rest : StmtCode image code env (.prints args) (middle + 1) stop) :
      StmtCode image code env (.prints (arg :: args)) start stop

/-- Code that stores arguments into the slots of parameters, the first argument first. -/
inductive ParamsCode (image : Image) (code : List UInt8) : Env → List ParamDecl → Nat → Nat → Prop
  | nil {env : Env} {start : Nat} : ParamsCode image code env [] start start
  | cons {env : Env} {param : ParamDecl} {params : List ParamDecl} {start middle stop : Nat}
      (store : AccessAt image code env.function Op.store? (env.next param.ty) start middle)
      (rest : ParamsCode image code (env.declare param.name param.ty) params middle stop) :
      ParamsCode image code env (param :: params) start stop

theorem ParamsCode.congr {image : Image} {code : List UInt8} {env other : Env}
    {params : List ParamDecl} {start stop : Nat}
    (paramsCode : ParamsCode image code env params start stop)
    (sameFunction : other.function = env.function) (sameTaken : other.taken = env.taken) :
    ParamsCode image code other params start stop := by
  induction paramsCode generalizing other with
  | nil => exact .nil
  | @cons env param params start middle stop store rest ih =>
      have sameNext : other.next param.ty = env.next param.ty := by
        rw [Env.next, Env.next, sameFunction, sameTaken]
      refine .cons (by rw [sameFunction, sameNext]; exact store) (ih sameFunction ?_)
      rw [Env.declare, Env.declare, sameTaken]

/-- The code of a function whose body begins at the given place, with its length. -/
inductive BodyCode (image : Image) (code : List UInt8) (env : Env) : FnDef → Nat → Prop
  | block {name : String} {returnType : Ty} {params : List ParamDecl} {body : Block}
      {position : Position} {entry stop : Nat}
      (paramsCode : ParamsCode image code { env with taken := [] } params 0 entry)
      (bodyCode : StmtCode image code env (.block body) entry stop)
      (instr : PlainAt code stop .ret) :
      BodyCode image code env ⟨name, returnType, params, .block body, position⟩ (stop + 1)
  | native {name : String} {returnType : Ty} {params : List ParamDecl} {symbol : String}
      {position : Position} {id : UInt16}
      (registered : (image.native? id).isSome) (call : WordAt code 0 .callNative id)
      (instr : PlainAt code 3 .ret) :
      BodyCode image code env ⟨name, returnType, params, .native symbol, position⟩ 4

/-- A routine of an image is the finished code of a definition. -/
structure RoutineCode (image : Image) (definition : Definition) (routine : Routine) : Prop where
  name : routine.name = definition.2.name
  signature : routine.signature = definition.2.signature
  patched : routine.code.openSites = ∅
  frame : ∀ ty, ty.isStorable →
    (routine.frame.count ty).toNat = (definition.2.slots definition.1).count ty
  body : BodyCode image routine.code.bytes.toList definition.1 definition.2 routine.code.size

theorem RoutineCode.paramTypes {image : Image} {definition : Definition} {routine : Routine}
    (routineCode : RoutineCode image definition routine) :
    routine.signature.params.map (·.ty) = definition.2.params.map (·.ty) := by
  rw [routineCode.signature]
  simp [FnDef.signature, Signature.ofDecls, Signature.of]

theorem RoutineCode.count_le {image : Image} {env : Env} {name : String} {returnType : Ty}
    {params : List ParamDecl} {body : Block} {position : Position} {routine : Routine}
    (routineCode :
      RoutineCode image (env, ⟨name, returnType, params, .block body, position⟩) routine)
    (ty : Ty) (storable : ty.isStorable = true) : (body.pass env).taken.count ty ≤ 65536 := by
  have frame := routineCode.frame ty storable
  rw [FnDef.slots] at frame
  rw [← frame]
  exact Nat.le_of_lt (routine.frame.count ty).toNat_lt

end Backpatch
