import Backpatch.Proofs.CompiledProgram
import Backpatch.Proofs.Stretch

/-!
# Types on the operand stack

Whenever control arrives at an instruction of a compiled function, the operand stack of the function
holds values of the same types.  These types can be written beside the instructions: a function
starts with its arguments on the stack, every instruction takes what it needs from the top and
leaves its result, and both ends of every jump agree.  Between two statements the stack is empty.

A native function may declare a parameter without a value, and a call of it then leaves its argument
behind; programs with such functions have to be left out.
-/

namespace Backpatch

/-- The types on the stack of a result of the given type. -/
def Ty.pushed : Ty → List Ty
  | void => []
  | ty => [ty]

/-- The types that an instruction takes from the top of the stack and the types that it leaves
there, the topmost one first, if they depend on the opcode only. -/
def Op.effect? : Op → Option (List Ty × List Ty)
  | dLoad | dLoad0 | dLoad1 | dLoadM1 => some ([], [.double])
  | iLoad | iLoad0 | iLoad1 | iLoadM1 => some ([], [.int])
  | sLoad | sLoad0 => some ([], [.string])
  | dAdd | dSub | dMul | dDiv => some ([.double, .double], [.double])
  | iAdd | iSub | iMul | iDiv | iMod | iAOr | iAAnd | iAXor => some ([.int, .int], [.int])
  | dNeg => some ([.double], [.double])
  | iNeg => some ([.int], [.int])
  | iPrint => some ([.int], [])
  | dPrint => some ([.double], [])
  | sPrint => some ([.string], [])
  | i2d => some ([.int], [.double])
  | d2i => some ([.double], [.int])
  | s2i => some ([.string], [.int])
  | iSwap => some ([.int, .int], [.int, .int])
  | dSwap => some ([.double, .double], [.double, .double])
  | sSwap => some ([.string, .string], [.string, .string])
  | loadDVar0 | loadDVar1 | loadDVar2 | loadDVar3 | loadDVar | loadCtxDVar => some ([], [.double])
  | loadIVar0 | loadIVar1 | loadIVar2 | loadIVar3 | loadIVar | loadCtxIVar => some ([], [.int])
  | loadSVar0 | loadSVar1 | loadSVar2 | loadSVar3 | loadSVar | loadCtxSVar => some ([], [.string])
  | storeDVar0 | storeDVar1 | storeDVar2 | storeDVar3 | storeDVar | storeCtxDVar =>
      some ([.double], [])
  | storeIVar0 | storeIVar1 | storeIVar2 | storeIVar3 | storeIVar | storeCtxIVar =>
      some ([.int], [])
  | storeSVar0 | storeSVar1 | storeSVar2 | storeSVar3 | storeSVar | storeCtxSVar =>
      some ([.string], [])
  | dCmp => some ([.double, .double], [.int])
  | iCmp => some ([.int, .int], [.int])
  | ifICmpNe | ifICmpE | ifICmpG | ifICmpGe | ifICmpL | ifICmpLe => some ([.int, .int], [])
  | jump | breakpoint => some ([], [])
  | invalid | pop | dump | stop | call | callNative | ret => none

/-- The types that an instruction takes and leaves. -/
inductive Image.Effect (image : Image) (instr : Instr) : List Ty → List Ty → Prop
  | fixed {taken left : List Ty} (known : instr.op.effect? = some (taken, left)) :
      Effect image instr taken left
  | pop {ty : Ty} (isPop : instr.op = .pop) : Effect image instr [ty] []
  | dump {ty : Ty} (isDump : instr.op = .dump) : Effect image instr [ty] [ty]
  | call {id : UInt16} {callee : Routine} (isCall : instr.op = .call)
      (operand : instr.word? 0 = some id) (registered : image.routine? id = some callee) :
      Effect image instr (callee.signature.params.map (·.ty)) callee.signature.returnType.pushed
  | callNative {id : UInt16} {callee : Native} (isCall : instr.op = .callNative)
      (operand : instr.word? 0 = some id) (registered : image.native? id = some callee) :
      Effect image instr (callee.signature.params.map (·.ty)) callee.signature.returnType.pushed

/-- The offsets at which control can go on after an instruction. -/
def Instr.successors (instr : Instr) : List Nat :=
  if instr.op = .ret ∨ instr.op = .stop then []
  else if instr.op.isJump then instr.targets
  else [instr.nextOffset]

theorem Ty.pushed_eq {ty : Ty} (valued : ty ≠ .void) : ty.pushed = [ty] := by
  cases ty <;> first | rfl | exact absurd rfl valued

mutual

def Stmt.returns : Stmt → List (Option Expr)
  | .ret _ value => [value]
  | .ifElse _ thenBlock none => thenBlock.returns
  | .ifElse _ thenBlock (some elseBlock) => thenBlock.returns ++ elseBlock.returns
  | .whileDo _ body | .forRange _ _ _ _ body | .block body => body.returns
  | .store .. | .print .. | .expr .. => []

def Stmt.returnsAll : List Stmt → List (Option Expr)
  | [] => []
  | stmt :: stmts => stmt.returns ++ Stmt.returnsAll stmts

/-- The values of the return statements in a block, without those of the functions in it. -/
def Block.returns : Block → List (Option Expr)
  | ⟨_, _, stmts⟩ => Stmt.returnsAll stmts

end

/-- The types on the stack when a return statement is carried out. -/
def Ty.returned (returnType : Ty) (value : Option Expr) : List Ty :=
  if value.isSome then [returnType] else []

/-- An assignment of stacks to the instructions of a function, each with its topmost type first. -/
structure StackTyping (image : Image) (signature : Signature) (returns : List (Option Expr))
    (instrs : List Instr) (stackAt : Nat → Option (List Ty)) : Prop where
  assigned : ∀ offset, (stackAt offset).isSome ↔ ∃ instr ∈ instrs, instr.offset = offset
  valued : ∀ offset stack, stackAt offset = some stack → Ty.void ∉ stack
  entry : stackAt 0 = some (signature.params.map (·.ty))
  /-- An instruction finds what it takes, and what it leaves is found wherever control goes on. -/
  flow : ∀ instr ∈ instrs, instr.op ≠ .ret → ∃ taken left rest,
    image.Effect instr taken left ∧ stackAt instr.offset = some (taken ++ rest) ∧
      ∀ next ∈ instr.successors, stackAt next = some (left ++ rest)
  ends : ∃ final, instrs.getLast? = some final ∧ final.op = .ret
  /-- The returns are those of the return statements, in their order, and the one at the end. -/
  exits : (instrs.filter (·.op = .ret)).map (fun instr => stackAt instr.offset) =
    returns.map (fun value => some (signature.returnType.returned value)) ++ [some []]

namespace Image

/-- An instruction is typed by the stacks at its offset and at those where control goes on. -/
structure Typed (image : Image) (stackAt : Nat → Option (List Ty)) (instr : Instr) : Prop where
  valued : ∀ stack, stackAt instr.offset = some stack → Ty.void ∉ stack
  flow : instr.op ≠ .ret → ∃ taken left rest,
    image.Effect instr taken left ∧ stackAt instr.offset = some (taken ++ rest) ∧
      ∀ next ∈ instr.successors, stackAt next = some (left ++ rest)

/-- Between two offsets stands code that is typed with the given stacks at its ends. -/
abbrev Types (image : Image) (code : List UInt8) (source target : Mark (List Ty))
    (points exits : List (Mark (List Ty))) (seen : List (List Ty)) : Prop :=
  Stretch image.Typed (·.op = .ret) code source target points exits seen

end Image

/-- An instruction with this opcode has the given effect, and control goes on behind it. -/
def Op.Straight (op : Op) (taken left : List Ty) : Prop :=
  op.effect? = some (taken, left) ∧ op.isJump = false

theorem Op.straight_of_load? {ty : Ty} {cross : Bool} {op : Op}
    (member : Op.load? ty cross = some op) : op.Straight [] [ty] := by
  cases ty <;> cases cross <;> cases member <;> exact ⟨rfl, rfl⟩

theorem Op.straight_of_store? {ty : Ty} {cross : Bool} {op : Op}
    (member : Op.store? ty cross = some op) : op.Straight [ty] [] := by
  cases ty <;> cases cross <;> cases member <;> exact ⟨rfl, rfl⟩

theorem Op.straight_of_print? {ty : Ty} {op : Op} (member : Op.print? ty = some op) :
    op.Straight [ty] [] := by
  cases ty <;> cases member <;> exact ⟨rfl, rfl⟩

theorem Op.straight_of_convert? {source target : Ty} {op : Op}
    (member : Op.convert? source target = some op) : op.Straight [source] [target] := by
  cases source <;> cases target <;> cases member <;> exact ⟨rfl, rfl⟩

theorem ArithOp.straight_of_instr? {arith : ArithOp} {ty : Ty} {op : Op}
    (member : arith.instr? ty = some op) : op.Straight [ty, ty] [ty] := by
  cases arith <;> cases ty <;> cases member <;> exact ⟨rfl, rfl⟩

namespace Numeric

variable (numeric : Numeric)

@[simp]
theorem void_ne_ty : Ty.void ≠ numeric.ty :=
  numeric.ty_ne_void.symm

@[simp]
theorem pushed_ty : numeric.ty.pushed = [numeric.ty] := by
  cases numeric <;> rfl

theorem straight_zeroOp : numeric.zeroOp.Straight [] [numeric.ty] := by
  cases numeric <;> exact ⟨rfl, rfl⟩

theorem straight_oneOp : numeric.oneOp.Straight [] [numeric.ty] := by
  cases numeric <;> exact ⟨rfl, rfl⟩

theorem straight_minusOneOp : numeric.minusOneOp.Straight [] [numeric.ty] := by
  cases numeric <;> exact ⟨rfl, rfl⟩

theorem straight_addOp : numeric.addOp.Straight [numeric.ty, numeric.ty] [numeric.ty] := by
  cases numeric <;> exact ⟨rfl, rfl⟩

theorem straight_mulOp : numeric.mulOp.Straight [numeric.ty, numeric.ty] [numeric.ty] := by
  cases numeric <;> exact ⟨rfl, rfl⟩

theorem straight_compareOp : numeric.compareOp.Straight [numeric.ty, numeric.ty] [.int] := by
  cases numeric <;> exact ⟨rfl, rfl⟩

end Numeric

theorem Op.void_not_mem_of_effect? {op : Op} {taken left : List Ty}
    (known : op.effect? = some (taken, left)) : Ty.void ∉ taken ∧ Ty.void ∉ left := by
  cases op <;> cases known <;> decide

theorem Instr.successors_of_straight {instr : Instr} {taken left : List Ty}
    (straight : instr.op.Straight taken left) : instr.successors = [instr.nextOffset] := by
  obtain ⟨offset, op, operands⟩ := instr
  obtain ⟨known, noJump⟩ := straight
  cases op <;> first | rfl | (cases known; done) | cases noJump

theorem Instr.successors_of_isJump {instr : Instr} (isJump : instr.op.isJump = true) :
    instr.successors = instr.targets := by
  obtain ⟨offset, op, operands⟩ := instr
  cases op <;> first | rfl | cases isJump

theorem Op.effect?_of_isBranch {op : Op} (isBranch : op.isBranch = true) :
    op.effect? = some ([.int, .int], []) := by
  cases op <;> first | rfl | cases isBranch

namespace Image.Types

variable {image : Image} {code : List UInt8} {start stop : Nat} {op : Op} {base : List Ty}

theorem flow {instr : Instr} {taken left after : List Ty} {exits : List (Mark (List Ty))}
    (fetched : fetch code start = some instr) (effect : image.Effect instr taken left)
    (noReturn : instr.op ≠ .ret) (next : stop = start + 1 + instr.operands.length)
    (valued : Ty.void ∉ taken ++ base)
    (agree : ∀ successor ∈ instr.successors, (successor, left ++ base) ∈ (stop, after) :: exits) :
    image.Types code (start, taken ++ base) (stop, after) [] exits [] := by
  refine .single fetched next (if_neg (by simpa using noReturn)) ?_
  intro stackAt atStart atEnd atExits
  rw [← offset_of_fetch fetched] at atStart
  refine ⟨fun stack found => ?_, fun _ => ⟨taken, left, base, effect, atStart, ?_⟩⟩
  · rw [atStart] at found
    exact Option.some.inj found ▸ valued
  · intro successor member
    rcases List.mem_cons.1 (agree successor member) with same | member
    · cases same
      exact atEnd
    · exact atExits _ member

theorem straight {instr : Instr} {taken left : List Ty} (fetched : fetch code start = some instr)
    (straight : instr.op.Straight taken left) (next : stop = start + 1 + instr.operands.length)
    (valued : Ty.void ∉ base) :
    image.Types code (start, taken ++ base) (stop, left ++ base) [] [] [] := by
  have noReturn : instr.op ≠ .ret := by
    intro isReturn
    rw [isReturn] at straight
    cases straight.1
  have noVoid := (Op.void_not_mem_of_effect? straight.1).1
  refine flow fetched (.fixed straight.1) noReturn next (by simp [noVoid, valued]) ?_
  intro successor member
  rw [Instr.successors_of_straight straight, List.mem_singleton, nextOffset_of_fetch fetched]
    at member
  rw [member, next]
  exact List.mem_cons_self

theorem push {ty : Ty} (instr : PlainAt code start op) (pushes : op.Straight [] [ty])
    (valued : Ty.void ∉ base) :
    image.Types code (start, base) (start + 1, ty :: base) [] [] [] :=
  straight instr pushes rfl valued

theorem unary {operand result : Ty} (instr : PlainAt code start op)
    (replaces : op.Straight [operand] [result]) (valued : Ty.void ∉ base) :
    image.Types code (start, operand :: base) (start + 1, result :: base) [] [] [] :=
  straight instr replaces rfl valued

theorem binary {first second result : Ty} (instr : PlainAt code start op)
    (combines : op.Straight [second, first] [result]) (valued : Ty.void ∉ base) :
    image.Types code (start, second :: first :: base) (start + 1, result :: base) [] [] [] :=
  straight instr combines rfl valued

theorem consume {ty : Ty} (instr : PlainAt code start op) (consumes : op.Straight [ty] [])
    (valued : Ty.void ∉ base) :
    image.Types code (start, ty :: base) (start + 1, base) [] [] [] :=
  straight instr consumes rfl valued

theorem jump {target : Nat} {after : List Ty} (instr : JumpAt code start target)
    (valued : Ty.void ∉ base) :
    image.Types code (start, base) (start + 3, after) [] [(target, base)] [] := by
  refine flow instr.2 (.fixed rfl) nofun rfl valued ?_
  rw [Instr.successors_of_isJump rfl, Instr.targets_jump instr.1]
  simp

theorem branch {onTrue onFalse : Nat} {after : List Ty}
    (instr : BranchAt code start op onTrue onFalse) (isBranch : op.isBranch = true)
    (valued : Ty.void ∉ base) :
    image.Types code (start, .int :: .int :: base) (start + 5, after) []
      [(onTrue, base), (onFalse, base)] [] := by
  obtain ⟨trueNear, falseNear, fetched⟩ := instr
  have noReturn : op ≠ .ret := by
    rintro rfl
    cases isBranch
  refine flow fetched (.fixed (Op.effect?_of_isBranch isBranch)) noReturn rfl
    (by simpa using valued) ?_
  rw [Instr.successors_of_isJump (by simp [Op.isJump, isBranch]),
    Instr.targets_branch isBranch trueNear falseNear]
  simp

theorem load {function : UInt16} {slot : Slot}
    (instr : AccessAt image code function Op.load? slot start stop) (valued : Ty.void ∉ base) :
    image.Types code (start, base) (stop, slot.ty :: base) [] [] [] := by
  cases instr with
  | own _ _ member instr | foreign _ _ member instr =>
      exact straight instr (Op.straight_of_load? member) rfl valued

theorem store {function : UInt16} {slot : Slot}
    (instr : AccessAt image code function Op.store? slot start stop) (valued : Ty.void ∉ base) :
    image.Types code (start, slot.ty :: base) (stop, base) [] [] [] := by
  cases instr with
  | own _ _ member instr | foreign _ _ member instr =>
      exact straight instr (Op.straight_of_store? member) rfl valued

theorem call {id : UInt16} {callee : Routine} (registered : image.routine? id = some callee)
    (instr : WordAt code start .call id)
    (valued : Ty.void ∉ callee.signature.params.map (·.ty) ++ base) :
    image.Types code (start, callee.signature.params.map (·.ty) ++ base)
      (start + 3, callee.signature.returnType.pushed ++ base) [] [] [] := by
  refine flow instr (.call rfl (by simp) registered) nofun rfl valued ?_
  intro successor member
  exact List.mem_cons.2 (.inl (by rw [List.mem_singleton.1 member]; rfl))

theorem pop {ty : Ty} (instr : PlainAt code start .pop) (valued : Ty.void ∉ ty :: base) :
    image.Types code (start, ty :: base) (start + 1, base) [] [] [] := by
  have effect : image.Effect ⟨start, .pop, []⟩ [ty] [] := .pop rfl
  exact flow instr effect nofun rfl valued fun successor member =>
    List.mem_cons.2 (.inl (by rw [List.mem_singleton.1 member]; rfl))

theorem ret {after : List Ty} (instr : PlainAt code start .ret) (valued : Ty.void ∉ base) :
    image.Types code (start, base) (start + 1, after) [] [] [base] := by
  refine .single instr rfl rfl fun stackAt atStart _ _ => ⟨fun stack found => ?_, nofun⟩
  rw [show stackAt start = _ from found] at atStart
  exact Option.some.inj atStart ▸ valued

/-- Both entries of code that makes a condition a number find the same stack. -/
theorem diamond {numeric : Numeric} (diamond : DiamondAt code start numeric)
    (valued : Ty.void ∉ base) :
    image.Types code (start, base) (start + 5, numeric.ty :: base)
      [(start + 1, numeric.ty :: base), (start + 4, base)] [(start + 5, numeric.ty :: base)] [] :=
  ((push diamond.one numeric.straight_oneOp valued).trans
    (jump diamond.join (by simpa using valued))).trans
    (push diamond.zero numeric.straight_zeroOp valued)

end Image.Types

theorem Op.Straight.ne_void {op : Op} {ty : Ty} {taken : List Ty}
    (straight : op.Straight taken [ty]) :
    ty ≠ .void := by
  have noVoid := (Op.void_not_mem_of_effect? straight.1).2
  rintro rfl
  exact noVoid List.mem_cons_self

theorem Op.Straight.operand_ne_void {op : Op} {ty : Ty} {left : List Ty}
    (straight : op.Straight [ty] left) : ty ≠ .void := by
  have noVoid := (Op.void_not_mem_of_effect? straight.1).1
  rintro rfl
  exact noVoid List.mem_cons_self

namespace ExprPart

/-- The stack behind the code of a part of an expression. -/
def leaves (base : List Ty) : ExprPart → List Ty
  | .value _ ty | .operand _ ty | .converted _ ty => ty.pushed ++ base
  | .branch .. | .condition .. => base
  | .operands _ _ ty => ty :: ty :: base
  | .args exprs types => types.take exprs.length ++ base

/-- No value is wanted as nothing. -/
def Valued : ExprPart → Prop
  | .converted _ ty => ty ≠ .void
  | .args _ types => Ty.void ∉ types
  | _ => True

end ExprPart

section Parts

open Image (Types)

variable {image : Image} {code : List UInt8} {start stop : Nat}

/-- The code of an expression leaves its value and nothing else. -/
theorem ExprCode.types {names : Names} {part : ExprPart}
    (exprCode : ExprCode image code names part start stop)
    (callees : ∀ id callee, image.routine? id = some callee →
      Ty.void ∉ callee.signature.params.map (·.ty)) :
    ∀ {base : List Ty}, Ty.void ∉ base → part.Valued →
      image.Types code (start, base) (stop, part.leaves base) [] (part.exits base) [] := by
  induction exprCode with
  | int instr | double instr | string _ instr =>
      intro base valued _
      exact Types.straight instr ⟨rfl, rfl⟩ rfl valued
  | load resolved instr =>
      intro base valued _
      rw [ExprPart.leaves, Ty.pushed_eq instr.load_ne_void]
      exact Types.load instr valued
  | arith operands member instr operandsTypes =>
      intro base valued _
      have straight := ArithOp.straight_of_instr? member
      rw [ExprPart.leaves, Ty.pushed_eq straight.ne_void]
      exact ((operandsTypes valued trivial).trans (Types.binary instr straight valued)).close
        (by simp [ExprPart.exits])
  | @compare _ op _ _ numeric _ _ _ _ operands compareAt zero branch operandsTypes =>
      intro base valued _
      exact ((((operandsTypes valued trivial).trans
        (Types.binary compareAt numeric.straight_compareOp valued)).trans
        (Types.push zero ⟨rfl, rfl⟩ (by simpa using valued))).trans
        (Types.branch branch (by cases op <;> rfl) valued)).close (by simp [ExprPart.exits])
  | and first second firstTypes secondTypes | or first second firstTypes secondTypes =>
      intro base valued _
      exact ((firstTypes valued trivial).trans (secondTypes valued trivial)).close
        (by simp [ExprPart.exits, ExprPart.leaves])
  | not inner innerTypes =>
      intro base valued _
      exact (innerTypes valued trivial).close (by simp [ExprPart.exits])
  | @neg _ _ numeric _ _ inner minusOne multiply innerTypes =>
      intro base valued _
      have operand := innerTypes valued trivial
      simp only [ExprPart.leaves, numeric.pushed_ty] at operand ⊢
      exact ((operand.trans (Types.push minusOne numeric.straight_minusOneOp
        (by simpa using valued))).trans
        (Types.binary multiply numeric.straight_mulOp valued)).close (by simp [ExprPart.exits])
  | call resolved registered declared count pushed instr pushedTypes =>
      intro base valued _
      subst declared
      have noVoid := callees _ _ registered
      have arguments := pushedTypes valued noVoid
      rw [ExprPart.leaves, List.take_of_length_le (by simp [count])] at arguments
      refine (arguments.trans (Types.call registered instr ?_)).close (by simp [ExprPart.exits])
      rw [List.mem_append]
      exact fun member => member.elim noVoid valued
  | operandValue value valueTypes | same value valueTypes | conditionBranch value valueTypes =>
      intro base valued _
      exact valueTypes valued trivial
  | operandBranch branch diamond branchTypes =>
      intro base valued _
      exact ((branchTypes valued trivial).trans (Types.diamond diamond valued)).close
        (by simp [ExprPart.exits, ExprPart.leaves, Numeric.ty])
  | conditionInt value zero branch valueTypes =>
      intro base valued _
      exact (((valueTypes valued trivial).trans
        (Types.push zero ⟨rfl, rfl⟩ (by simpa [ExprPart.leaves, Ty.pushed] using valued))).trans
        (Types.branch branch rfl valued)).close (by simp [ExprPart.exits])
  | conditionDouble value zero compareAt intZero branch valueTypes =>
      intro base valued _
      exact (((((valueTypes valued trivial).trans
        (Types.push zero ⟨rfl, rfl⟩ (by simpa [ExprPart.leaves, Ty.pushed] using valued))).trans
        (Types.binary compareAt ⟨rfl, rfl⟩ valued)).trans
        (Types.push intZero ⟨rfl, rfl⟩ (by simpa using valued))).trans
        (Types.branch branch rfl valued)).close (by simp [ExprPart.exits])
  | unwanted value valueTypes =>
      intro base _ isValued
      exact absurd rfl isValued
  | unwantedBranch branch branchTypes =>
      intro base _ isValued
      exact absurd rfl isValued
  | convert value conversion instr valueTypes =>
      intro base valued isValued
      have straight := Op.straight_of_convert? conversion
      have source := valueTypes valued trivial
      rw [ExprPart.leaves, Ty.pushed_eq (by rintro rfl; cases conversion)] at source
      rw [ExprPart.leaves, Ty.pushed_eq isValued]
      exact (source.trans (Types.unary instr straight valued)).close (by simp [ExprPart.exits])
  | @convertBranch _ numeric _ _ branch diamond branchTypes =>
      intro base valued _
      rw [ExprPart.leaves, numeric.pushed_ty]
      exact ((branchTypes valued trivial).trans (Types.diamond diamond valued)).close
        (by simp [ExprPart.exits, ExprPart.leaves])
  | @alike _ _ numeric _ _ _ first second firstTypes secondTypes =>
      intro base valued _
      have left := firstTypes valued trivial
      rw [ExprPart.leaves, numeric.pushed_ty] at left
      have right := secondTypes (show Ty.void ∉ numeric.ty :: base by simpa using valued) trivial
      rw [ExprPart.leaves, numeric.pushed_ty] at right
      exact (left.trans right).close (by simp [ExprPart.exits])
  | widenLeft first instr second firstTypes secondTypes =>
      intro base valued _
      exact (((firstTypes valued trivial).trans (Types.unary instr ⟨rfl, rfl⟩ valued)).trans
        (secondTypes (by simpa using valued) trivial)).close (by simp [ExprPart.exits])
  | widenRight first second instr firstTypes secondTypes =>
      intro base valued _
      have left := firstTypes valued trivial
      have right := secondTypes (show Ty.void ∉ .double :: base by simpa using valued) trivial
      exact ((left.trans right).trans
        (Types.unary instr ⟨rfl, rfl⟩ (by simpa using valued))).close (by simp [ExprPart.exits])
  | noArgs =>
      intro base _ _
      exact .nil
  | @arg _ exprs ty types _ _ _ later first laterTypes firstTypes =>
      intro base valued isValued
      have notVoid : ty ≠ .void := fun isVoid => isValued (isVoid ▸ List.mem_cons_self)
      have noVoid : Ty.void ∉ types := fun member => isValued (List.mem_cons_of_mem _ member)
      have laterValued : Ty.void ∉ types.take exprs.length ++ base := by
        rw [List.mem_append]
        exact fun member => member.elim (fun member => noVoid (List.mem_of_mem_take member)) valued
      have argument := firstTypes laterValued notVoid
      rw [ExprPart.leaves, Ty.pushed_eq notVoid] at argument
      exact ((laterTypes valued noVoid).trans argument).close (by simp [ExprPart.exits])

def StmtPart.returns : StmtPart → List (Option Expr)
  | .stmt statement => statement.returns
  | .stmts statements => Stmt.returnsAll statements
  | .block body | .otherwise (some body) => body.returns
  | .otherwise none | .prints _ => []

/-- The code of statements starts and ends with an empty stack. -/
theorem StmtCode.types {env : Env} {part : StmtPart}
    (stmtCode : StmtCode image code env part start stop)
    (callees : ∀ id callee, image.routine? id = some callee →
      Ty.void ∉ callee.signature.params.map (·.ty)) :
    image.Types code (start, []) (stop, []) [] []
      (part.returns.map env.returnType.returned) := by
  have empty : Ty.void ∉ ([] : List Ty) := List.not_mem_nil
  induction stmtCode with
  | assign resolved valueCode store =>
      have value := valueCode.types callees empty store.store_ne_void
      rw [ExprPart.leaves, Ty.pushed_eq store.store_ne_void] at value
      exact (value.trans (Types.store store empty)).close (by simp [ExprPart.exits])
  | @update _ _ _ _ _ slot _ _ _ _ _ _ resolved updates member load valueCode instr store =>
      have notVoid : slot.ty ≠ .void := store.store_ne_void
      have valued : Ty.void ∉ [slot.ty] := by simpa using notVoid.symm
      have value := valueCode.types callees valued notVoid
      rw [ExprPart.leaves, Ty.pushed_eq notVoid] at value
      exact ((((Types.load load empty).trans value).trans
        (Types.binary instr (ArithOp.straight_of_instr? member) empty)).trans
        (Types.store store empty)).close (by simp [ExprPart.exits])
  | @ifElse env _ thenBlock elseBlock _ _ _ _ toCond thenCode thenExit elseCode elseExit condCode
      thenTypes elseTypes =>
      have cond := condCode.types callees empty trivial
      have whole := ((((((Types.jump toCond empty).trans thenTypes).trans
        (Types.jump thenExit empty)).trans elseTypes).trans (Types.jump elseExit empty)).trans cond)
      refine (whole.close (by simp [ExprPart.exits, ExprPart.leaves])).sees ?_
      cases elseBlock <;> simp [StmtPart.returns, Stmt.returns]
  | whileDo condCode bodyCode again bodyTypes =>
      have cond := condCode.types callees empty trivial
      refine (((cond.trans bodyTypes).trans (Types.jump again empty)).close
        (by simp [ExprPart.exits, ExprPart.leaves])).sees ?_
      simp [StmtPart.returns, Stmt.returns]
  | @forRange _ _ _ _ _ _ slot numeric _ _ _ _ _ _ _ _ _ _ resolved number available lowCode
      storeLow highCode storeBound loadSlot loadBound compareAt zero branch bodyCode reload one add
      storeNext again bodyTypes =>
      obtain ⟨context, index, ty⟩ := slot
      obtain rfl := Numeric.ty_of_ofTy? number
      have notVoid : numeric.ty ≠ .void := numeric.ty_ne_void
      have valued : Ty.void ∉ [numeric.ty] := by simp
      have low := lowCode.types callees empty notVoid
      have high := highCode.types callees empty notVoid
      rw [ExprPart.leaves, numeric.pushed_ty] at low high
      have init := ((low.trans (Types.store storeLow empty)).trans high).trans
        (Types.store storeBound empty)
      have test : image.Types code _ (_, []) _ _ _ :=
        ((((Types.load loadSlot empty).trans (Types.load loadBound valued)).trans
          (Types.binary compareAt numeric.straight_compareOp empty)).trans
          (Types.push zero ⟨rfl, rfl⟩ (by simp))).trans (Types.branch branch rfl empty)
      have step := (((Types.load reload empty).trans
        (Types.push one numeric.straight_oneOp valued)).trans
        (Types.binary add numeric.straight_addOp empty)).trans (Types.store storeNext empty)
      refine (((((init.trans test).trans bodyTypes).trans step).trans
        (Types.jump again empty)).close (by simp [ExprPart.exits])).sees ?_
      simp [StmtPart.returns, Stmt.returns]
  | print prints printsTypes => exact printsTypes
  | returnVoid void instr => exact Types.ret instr empty
  | @returnValue env _ _ _ _ notVoid valueCode instr =>
      have value := valueCode.types callees empty notVoid
      rw [ExprPart.leaves, Ty.pushed_eq notVoid] at value
      exact (value.trans (Types.ret instr (by simpa using notVoid.symm))).close
        (by simp [ExprPart.exits])
  | callVoid valueCode => exact valueCode.types callees empty trivial
  | @dropValue _ _ ty _ _ notVoid valueCode instr =>
      have value := valueCode.types callees empty trivial
      rw [ExprPart.leaves, Ty.pushed_eq notVoid] at value
      exact (value.trans (Types.pop instr (by simpa using notVoid.symm))).close
        (by simp [ExprPart.exits])
  | dropBranch valueCode =>
      exact (valueCode.types callees empty trivial).close
        (by simp [ExprPart.exits, ExprPart.leaves])
  | nested bodyCode bodyTypes => exact bodyTypes
  | noStmts | noElse | noPrints => exact .nil
  | stmts firstCode restCode firstTypes restTypes =>
      refine ((firstTypes.trans restTypes).close (by simp)).sees ?_
      simp [StmtPart.returns, Stmt.returnsAll]
  | block inner innerTypes =>
      refine innerTypes.sees ?_
      simp [StmtPart.returns, Block.returns]
  | someElse inner innerTypes => exact innerTypes
  | prints valueCode member instr rest restTypes =>
      have straight := Op.straight_of_print? member
      have value := valueCode.types callees empty trivial
      rw [ExprPart.leaves, Ty.pushed_eq straight.operand_ne_void] at value
      exact ((value.trans (Types.consume instr straight empty)).trans restTypes).close
        (by simp [ExprPart.exits])

theorem ParamsCode.void_not_mem {env : Env} {params : List ParamDecl}
    (paramsCode : ParamsCode image code env params start stop) :
    Ty.void ∉ params.map (·.ty) := by
  induction paramsCode with
  | nil => exact List.not_mem_nil
  | cons store rest ih =>
      rw [List.map_cons, List.mem_cons]
      exact fun member => member.elim store.store_ne_void.symm ih

theorem ParamsCode.types {env : Env} {params : List ParamDecl}
    (paramsCode : ParamsCode image code env params start stop) :
    image.Types code (start, params.map (·.ty)) (stop, []) [] [] [] := by
  induction paramsCode with
  | nil => exact .nil
  | cons store rest restTypes =>
      exact ((Types.store store rest.void_not_mem).trans restTypes).close (by simp)

end Parts

/-- No function that has code takes a parameter without a value. -/
theorem Image.Realizes.callees {image : Image} {program : Program}
    (realizes : image.Realizes program)
    (noVoidParams : ∀ definition ∈ program.definitions, ∀ symbol,
      definition.2.body = .native symbol → ∀ param ∈ definition.2.params, param.ty ≠ .void)
    (id : UInt16) (callee : Routine) (registered : image.routine? id = some callee) :
    Ty.void ∉ callee.signature.params.map (·.ty) := by
  obtain ⟨definition, found, routineCode⟩ := realizes.definition registered
  have member := List.mem_of_getElem? found
  rw [routineCode.paramTypes]
  have body := routineCode.body
  generalize callee.code.size = length at body
  obtain ⟨env, definition⟩ := definition
  cases body with
  | block paramsCode _ _ => exact paramsCode.void_not_mem
  | native _ _ _ =>
      intro isVoid
      obtain ⟨param, isParam, ty⟩ := List.mem_map.1 isVoid
      exact noVoidParams _ member _ rfl param isParam ty

/-- The code of a function with a block has a typing of its operand stack. -/
theorem RoutineCode.stackTyping {image : Image} {env : Env} {name : String} {returnType : Ty}
    {params : List ParamDecl} {body : Block} {position : Position} {routine : Routine}
    (routineCode :
      RoutineCode image (env, ⟨name, returnType, params, .block body, position⟩) routine)
    (returns : env.returnType = returnType)
    (callees : ∀ id callee, image.routine? id = some callee →
      Ty.void ∉ callee.signature.params.map (·.ty)) :
    ∃ instrs stackAt, routine.code.instructions = .ok instrs ∧
      StackTyping image routine.signature body.returns instrs stackAt := by
  have bodyCode := routineCode.body
  generalize length : routine.code.size = size at bodyCode
  obtain @⟨_, _, _, _, _, entry, stop, paramsCode, blockCode, ret⟩ := bodyCode
  have types : image.Types routine.code.bytes.toList (0, params.map (·.ty)) (stop, []) [] []
      (body.returns.map returnType.returned) := by
    subst returns
    exact (paramsCode.types.trans (blockCode.types callees)).close (by simp)
  obtain ⟨instrs, stackAt, reads, assigned, atStart, atEnd, seen, typed⟩ := types.settle ret
  let final : Instr := ⟨stop, .ret, []⟩
  have signature : routine.signature = .ofDecls returnType params := routineCode.signature
  refine ⟨instrs ++ [final], stackAt, Buffer.instructions_of_reads (length ▸ reads), ?_⟩
  rw [signature]
  refine
    { assigned := assigned
      valued := fun offset stack found => ?_
      entry := ?_
      flow := fun instr member noReturn => ?_
      ends := ⟨final, List.getLast?_concat, rfl⟩
      exits := ?_ }
  -- Only instructions have a stack, and that of the return at the end is empty.
  · obtain ⟨instr, member, rfl⟩ := (assigned offset).1 (by rw [found]; rfl)
    rcases List.mem_append.1 member with member | member
    · exact (typed instr member).valued stack found
    · rw [List.mem_singleton.1 member, show stackAt stop = _ from atEnd] at found
      cases found
      exact List.not_mem_nil
  · rw [atStart]
    simp [Signature.ofDecls, Signature.of]
  · rcases List.mem_append.1 member with member | member
    · exact (typed instr member).flow noReturn
    · exact absurd (by rw [List.mem_singleton.1 member]) noReturn
  · rw [List.filter_append, List.map_append, seen, List.map_map]
    exact congrArg _ (congrArg (· :: []) atEnd)

/-- The operand stack of every function with a block can be typed, if no native function takes a
parameter without a value. -/
theorem Program.stackTyping_of_emit {program : Program} {options : Options} {image : Image}
    (emitted : program.emit options = .ok image)
    (noVoidParams : ∀ definition ∈ program.definitions, ∀ symbol,
      definition.2.body = .native symbol → ∀ param ∈ definition.2.params, param.ty ≠ .void) :
    image.routines.size = program.definitions.length ∧
      ∀ (index : Nat) env name returnType params body position,
        program.definitions[index]? =
          some (env, ⟨name, returnType, params, .block body, position⟩) →
        ∃ routine instrs stackAt, image.routines[index]? = some routine ∧ routine.name = name ∧
          routine.signature = .ofDecls returnType params ∧
          routine.code.instructions = .ok instrs ∧
          StackTyping image routine.signature body.returns instrs stackAt := by
  have realizes := realizes_of_emit emitted
  refine ⟨realizes.size, fun index env name returnType params body position found => ?_⟩
  obtain ⟨routine, lookup, routineCode⟩ := realizes.routine index _ found
  have returns : env.returnType = returnType := by
    obtain ⟨outer, entered, -⟩ := program.enter_definition found
    rw [show env = _ from entered, Env.returnType_enter]
  obtain ⟨instrs, stackAt, instructions, typing⟩ :=
    routineCode.stackTyping returns (realizes.callees noVoidParams)
  exact ⟨routine, instrs, stackAt, lookup, routineCode.name, routineCode.signature, instructions,
    typing⟩

/-- The inner function of the example returns one double, and its code ends with an empty stack. -/
theorem Program.stackTyping_of_emit_halving :
    ∃ image routine instrs stackAt, halving.emit .default = .ok image ∧
      image.routines[1]? = some routine ∧ routine.name = "half" ∧
      routine.code.instructions = .ok instrs ∧
      StackTyping image routine.signature [some (.load 8 "total")] instrs stackAt := by
  obtain ⟨image, emitted⟩ := halving_emits
  obtain ⟨-, typings⟩ := stackTyping_of_emit emitted fun _ member symbol native =>
    absurd native (halving_natives member symbol)
  obtain ⟨routine, instrs, stackAt, lookup, name, -, instructions, typing⟩ :=
    typings 1 _ _ _ _ _ _ rfl
  exact ⟨image, routine, instrs, stackAt, emitted, lookup, name, instructions, typing⟩

end Backpatch
