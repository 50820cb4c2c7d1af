import Backpatch.Proofs.CompiledProgram
import Backpatch.Proofs.Stretch

/-!
# Compiled images pass the check

Every instruction of the layout names things that exist, and every jump in it leads to an
instruction: to the start or to the end of a stretch, and behind every stretch of a function stands
at least the return with which the function ends.  So the check of an image never finds anything in
compiled code, and it makes no difference whether it is asked for.
-/

namespace Backpatch

/-- An instruction with this opcode names nothing that could be missing. -/
def Op.isFree : Op → Bool
  | invalid | call | callNative | sLoad => false
  | op => ! op.isJump && op.variable?.isNone

theorem Op.isFree_of_print? {ty : Ty} {op : Op} (member : Op.print? ty = some op) :
    op.isFree = true := by
  cases ty <;> cases member <;> rfl

theorem Op.isFree_of_convert? {source target : Ty} {op : Op}
    (member : Op.convert? source target = some op) : op.isFree = true := by
  cases source <;> cases target <;> cases member <;> rfl

theorem ArithOp.isFree_of_instr? {arith : ArithOp} {ty : Ty} {op : Op}
    (member : arith.instr? ty = some op) : op.isFree = true := by
  cases arith <;> cases ty <;> cases member <;> rfl

theorem Op.variable?_of_load? {ty : Ty} {cross : Bool} {op : Op}
    (member : Op.load? ty cross = some op) : op.variable? = some (ty, cross) := by
  cases ty <;> cases cross <;> cases member <;> rfl

theorem Op.variable?_of_store? {ty : Ty} {cross : Bool} {op : Op}
    (member : Op.store? ty cross = some op) : op.variable? = some (ty, cross) := by
  cases ty <;> cases cross <;> cases member <;> rfl

theorem Comparison.isBranch_branchOp (comparison : Comparison) :
    comparison.branchOp.isBranch = true := by
  cases comparison <;> rfl

namespace Image

/-- An instruction passes the check if every marked offset is the start of an instruction. -/
def Passes (image : Image) (routine : Routine) (marks : Nat → Option Unit) (instr : Instr) : Prop :=
  ∀ boundaries : Std.ExtTreeSet Nat, (∀ offset, (marks offset).isSome → offset ∈ boundaries) →
    image.checkInstr routine boundaries instr = .ok ()

/-- Between two offsets stands code that passes the check, if there are instructions at its end and
at its exits. -/
abbrev Checks (image : Image) (routine : Routine) (code : List UInt8) (start stop : Nat)
    (points exits : List (Mark Unit)) : Prop :=
  Stretch (image.Passes routine) (fun _ => false) code (start, ()) (stop, ()) points exits []

variable {image : Image} {routine : Routine} {boundaries : Std.ExtTreeSet Nat} {instr : Instr}

theorem checkInstr_of_isFree (free : instr.op.isFree = true) :
    image.checkInstr routine boundaries instr = .ok () := by
  obtain ⟨offset, op, operands⟩ := instr
  cases op <;> first | rfl | cases free

theorem checkInstr_eq_of_isJump (isJump : instr.op.isJump = true) :
    image.checkInstr routine boundaries instr =
      match instr.targets.find? (! boundaries.contains ·) with
      | some target => .error (.strayTarget target)
      | none => .ok () := by
  obtain ⟨offset, op, operands⟩ := instr
  cases op <;> first | rfl | cases isJump

theorem checkInstr_of_isJump (isJump : instr.op.isJump = true)
    (inside : ∀ target ∈ instr.targets, target ∈ boundaries) :
    image.checkInstr routine boundaries instr = .ok () := by
  have noStray : instr.targets.find? (! boundaries.contains ·) = none := by
    simpa [List.find?_eq_none] using inside
  rw [checkInstr_eq_of_isJump isJump, noStray]

theorem checkInstr_of_own {ty : Ty} (named : instr.op.variable? = some (ty, false)) :
    image.checkInstr routine boundaries instr = checkSlot routine ty (operand instr 0) := by
  obtain ⟨offset, op, operands⟩ := instr
  cases op <;> cases named <;> rfl

theorem checkInstr_of_cross {ty : Ty} {owner : Routine}
    (named : instr.op.variable? = some (ty, true))
    (registered : image.routine? (operand instr 0) = some owner) :
    image.checkInstr routine boundaries instr = checkSlot owner ty (operand instr 1) := by
  obtain ⟨offset, op, operands⟩ := instr
  cases op <;> cases named <;> simp [checkInstr, Op.isJump, Op.isBranch, Op.variable?, registered]

end Image

namespace Image.Checks

variable {image : Image} {routine : Routine} {code : List UInt8} {start stop : Nat} {op : Op}

theorem plain (instr : PlainAt code start op) (free : op.isFree = true) :
    image.Checks routine code start (start + 1) [] [] :=
  .single instr rfl rfl fun _ _ _ _ _ _ => checkInstr_of_isFree free

theorem jump {target : Nat} (instr : JumpAt code start target) :
    image.Checks routine code start (start + 3) [] [(target, ())] := by
  refine .single instr.2 rfl rfl fun marks _ _ atExits boundaries known =>
    checkInstr_of_isJump rfl ?_
  rw [Instr.targets_jump instr.1]
  intro other member
  obtain rfl := List.mem_singleton.1 member
  exact known other (by rw [atExits _ (List.mem_singleton.2 rfl)]; rfl)

theorem branch {onTrue onFalse : Nat} (instr : BranchAt code start op onTrue onFalse)
    (isBranch : op.isBranch = true) :
    image.Checks routine code start (start + 5) [] [(onTrue, ()), (onFalse, ())] := by
  obtain ⟨trueNear, falseNear, fetched⟩ := instr
  refine .single fetched rfl rfl fun marks _ _ atExits boundaries known =>
    checkInstr_of_isJump ?_ ?_
  · rw [Op.isJump, isBranch, Bool.or_true]
  · rw [Instr.targets_branch isBranch trueNear falseNear]
    intro other member
    exact known other (by rw [atExits (other, ()) (by simpa using member)]; rfl)

theorem call {id : UInt16} {callee : Routine} (registered : image.routine? id = some callee)
    (instr : WordAt code start .call id) : image.Checks routine code start (start + 3) [] [] :=
  .single instr rfl rfl fun _ _ _ _ _ _ => by simp [checkInstr, operand, registered]

theorem callNative {id : UInt16} (registered : (image.native? id).isSome)
    (instr : WordAt code start .callNative id) :
    image.Checks routine code start (start + 3) [] [] :=
  .single instr rfl rfl fun _ _ _ _ _ _ => by simp [checkInstr, operand, registered]

theorem string {id : UInt16} {value : String} (constant : image.constant? id = some value)
    (instr : WordAt code start .sLoad id) : image.Checks routine code start (start + 3) [] [] :=
  .single instr rfl rfl fun _ _ _ _ _ _ => by simp [checkInstr, operand, constant]

theorem access {function : UInt16} {family : Ty → Bool → Option Op} {slot : Slot}
    (instr : AccessAt image code function family slot start stop)
    (named : ∀ {ty cross op}, family ty cross = some op → op.variable? = some (ty, cross))
    (registered : image.routine? function = some routine) :
    image.Checks routine code start stop [] [] := by
  cases instr with
  | own existsSlot localSlot member instr =>
      obtain ⟨owner, found, inside⟩ := existsSlot
      obtain rfl : owner = routine := by
        rw [localSlot, registered] at found
        exact (Option.some.inj found).symm
      refine .single instr rfl rfl fun _ _ _ _ _ _ => ?_
      rw [checkInstr_of_own (named member)]
      simp [checkSlot, operand, inside]
  | foreign existsSlot foreignSlot member instr =>
      obtain ⟨owner, found, inside⟩ := existsSlot
      refine .single instr rfl rfl fun _ _ _ _ _ _ => ?_
      rw [checkInstr_of_cross (named member) (by simpa [operand] using found)]
      simp [checkSlot, operand, inside]

theorem load {function : UInt16} {slot : Slot}
    (instr : AccessAt image code function Op.load? slot start stop)
    (registered : image.routine? function = some routine) :
    image.Checks routine code start stop [] [] :=
  access instr Op.variable?_of_load? registered

theorem store {function : UInt16} {slot : Slot}
    (instr : AccessAt image code function Op.store? slot start stop)
    (registered : image.routine? function = some routine) :
    image.Checks routine code start stop [] [] :=
  access instr Op.variable?_of_store? registered

/-- The two entries of code that makes a condition a number are instructions. -/
theorem diamond {numeric : Numeric} (diamond : DiamondAt code start numeric) :
    image.Checks routine code start (start + 5) [(start + 1, ()), (start + 4, ())]
      [(start + 5, ())] :=
  ((plain diamond.one (by cases numeric <;> rfl)).trans (jump diamond.join)).trans
    (plain diamond.zero (by cases numeric <;> rfl))

end Image.Checks

section Parts

open Image (Checks)

variable {image : Image} {routine : Routine} {code : List UInt8} {start stop : Nat}

theorem ExprCode.checks {names : Names} {part : ExprPart}
    (exprCode : ExprCode image code names part start stop)
    (registered : image.routine? names.function = some routine) :
    image.Checks routine code start stop [] (part.exits ()) := by
  induction exprCode with
  | int instr | double instr =>
      exact .single instr rfl rfl fun _ _ _ _ _ _ => Image.checkInstr_of_isFree rfl
  | string constant instr => exact .string constant instr
  | load resolved instr => exact .load instr registered
  | arith operands member instr operandsChecks =>
      exact (operandsChecks.trans (Checks.plain instr (ArithOp.isFree_of_instr? member))).close
        (by simp [ExprPart.exits])
  | @compare _ op _ _ numeric _ _ _ _ operands compareAt zero branch operandsChecks =>
      exact (((operandsChecks.trans (Checks.plain compareAt (by cases numeric <;> rfl))).trans
        (Checks.plain zero rfl)).trans (Checks.branch branch op.isBranch_branchOp)).close
        (by simp [ExprPart.exits])
  | and first second firstChecks secondChecks | or first second firstChecks secondChecks =>
      exact (firstChecks.trans secondChecks).close (by simp [ExprPart.exits])
  | not inner innerChecks => exact innerChecks.close (by simp [ExprPart.exits])
  | @neg _ _ numeric _ _ inner minusOne multiply innerChecks =>
      exact ((innerChecks.trans (Checks.plain minusOne (by cases numeric <;> rfl))).trans
        (Checks.plain multiply (by cases numeric <;> rfl))).close (by simp [ExprPart.exits])
  | call resolved callee declared count pushed instr pushedChecks =>
      exact (pushedChecks.trans (Checks.call callee instr)).close (by simp [ExprPart.exits])
  | operandValue value valueChecks | same value valueChecks | unwanted value valueChecks
  | conditionBranch value valueChecks => exact valueChecks
  | operandBranch branch diamond branchChecks | convertBranch branch diamond branchChecks =>
      exact (branchChecks.trans (Checks.diamond diamond)).close (by simp [ExprPart.exits])
  | conditionInt value zero branch valueChecks =>
      exact ((valueChecks.trans (Checks.plain zero rfl)).trans (Checks.branch branch rfl)).close
        (by simp [ExprPart.exits])
  | conditionDouble value zero compareAt intZero branch valueChecks =>
      exact ((((valueChecks.trans (Checks.plain zero rfl)).trans (Checks.plain compareAt rfl)).trans
        (Checks.plain intZero rfl)).trans (Checks.branch branch rfl)).close
        (by simp [ExprPart.exits])
  | convert value conversion instr valueChecks =>
      exact (valueChecks.trans (Checks.plain instr (Op.isFree_of_convert? conversion))).close
        (by simp [ExprPart.exits])
  | unwantedBranch branch branchChecks => exact branchChecks.close (by simp [ExprPart.exits])
  | alike first second firstChecks secondChecks =>
      exact (firstChecks.trans secondChecks).close (by simp [ExprPart.exits])
  | widenLeft first instr second firstChecks secondChecks =>
      exact ((firstChecks.trans (Checks.plain instr rfl)).trans secondChecks).close
        (by simp [ExprPart.exits])
  | widenRight first second instr firstChecks secondChecks =>
      exact ((firstChecks.trans secondChecks).trans (Checks.plain instr rfl)).close
        (by simp [ExprPart.exits])
  | noArgs => exact .nil
  | arg later first laterChecks firstChecks =>
      exact (laterChecks.trans firstChecks).close (by simp [ExprPart.exits])

theorem StmtCode.checks {env : Env} {part : StmtPart}
    (stmtCode : StmtCode image code env part start stop)
    (registered : image.routine? env.function = some routine) :
    image.Checks routine code start stop [] [] := by
  induction stmtCode with
  | assign resolved valueCode store =>
      exact ((valueCode.checks registered).trans (Checks.store store registered)).close
        (by simp [ExprPart.exits])
  | update resolved updates member load valueCode instr store =>
      exact ((((Checks.load load registered).trans (valueCode.checks registered)).trans
        (Checks.plain instr (ArithOp.isFree_of_instr? member))).trans
        (Checks.store store registered)).close (by simp [ExprPart.exits])
  | ifElse toCond thenCode thenExit elseCode elseExit condCode thenChecks elseChecks =>
      exact ((((((Checks.jump toCond).trans (thenChecks registered)).trans
        (Checks.jump thenExit)).trans
        (elseChecks (by simpa using registered))).trans (Checks.jump elseExit)).trans
        (condCode.checks registered)).close (by simp [ExprPart.exits])
  | whileDo condCode bodyCode again bodyChecks =>
      exact (((condCode.checks registered).trans (bodyChecks registered)).trans
        (Checks.jump again)).close (by simp [ExprPart.exits])
  | @forRange _ _ _ _ _ _ _ numeric _ _ _ _ _ _ _ _ _ _ resolved number available lowCode storeLow
      highCode storeBound loadSlot loadBound compareAt zero branch bodyCode reload one add storeNext
      again bodyChecks =>
      have init := (((lowCode.checks registered).trans (Checks.store storeLow registered)).trans
        (highCode.checks registered)).trans (Checks.store storeBound registered)
      have test := (((Checks.load loadSlot registered).trans
        (Checks.load loadBound registered)).trans
        (Checks.plain compareAt (by cases numeric <;> rfl))).trans (Checks.plain zero rfl)
      have step := (((Checks.load reload registered).trans
        (Checks.plain one (by cases numeric <;> rfl))).trans
        (Checks.plain add (by cases numeric <;> rfl))).trans (Checks.store storeNext registered)
      exact (((((init.trans test).trans (Checks.branch branch rfl)).trans
        (bodyChecks (by simpa using registered))).trans step).trans (Checks.jump again)).close
        (by simp [ExprPart.exits])
  | print prints printsChecks => exact printsChecks registered
  | returnVoid void instr => exact .plain instr rfl
  | returnValue notVoid valueCode instr | dropValue notVoid valueCode instr =>
      exact ((valueCode.checks registered).trans (Checks.plain instr rfl)).close
        (by simp [ExprPart.exits])
  | callVoid valueCode => exact valueCode.checks registered
  | dropBranch valueCode =>
      exact (valueCode.checks registered).close (by simp [ExprPart.exits])
  | nested bodyCode bodyChecks => exact bodyChecks registered
  | noStmts | noElse | noPrints => exact .nil
  | stmts firstCode restCode firstChecks restChecks =>
      exact ((firstChecks registered).trans (restChecks (by simpa using registered))).close
        (by simp)
  | block inner innerChecks => exact innerChecks (by simpa using registered)
  | someElse inner innerChecks => exact innerChecks registered
  | prints valueCode member instr rest restChecks =>
      exact (((valueCode.checks registered).trans
        (Checks.plain instr (Op.isFree_of_print? member))).trans (restChecks registered)).close
        (by simp [ExprPart.exits])

theorem ParamsCode.checks {env : Env} {params : List ParamDecl}
    (paramsCode : ParamsCode image code env params start stop)
    (registered : image.routine? env.function = some routine) :
    image.Checks routine code start stop [] [] := by
  induction paramsCode with
  | nil => exact .nil
  | cons store rest restChecks =>
      exact ((Checks.store store registered).trans (restChecks registered)).close (by simp)

/-- The code of a function is a stretch that passes the check and a return. -/
theorem BodyCode.checks {env : Env} {definition : FnDef} {length : Nat}
    (bodyCode : BodyCode image code env definition length)
    (registered : image.routine? env.function = some routine) :
    ∃ stop, length = stop + 1 ∧ image.Checks routine code 0 stop [] [] ∧
      PlainAt code stop .ret := by
  cases bodyCode with
  | block paramsCode bodyCode instr =>
      exact ⟨_, rfl, ((paramsCode.checks registered).trans (bodyCode.checks registered)).close
        (by simp), instr⟩
  | native registeredNative call instr => exact ⟨3, rfl, .callNative registeredNative call, instr⟩

end Parts

theorem forM_eq_ok {α ε : Type} {items : List α} {action : α → Except ε Unit}
    (each : ∀ item ∈ items, action item = .ok ()) : items.forM action = .ok () := by
  induction items with
  | nil => rfl
  | cons item items ih =>
      change (action item >>= fun _ => items.forM action) = _
      rw [each item List.mem_cons_self]
      exact ih fun other member => each other (List.mem_cons_of_mem _ member)

theorem RoutineCode.checkRoutine {image : Image} {definition : Definition} {routine : Routine}
    (routineCode : RoutineCode image definition routine)
    (registered : image.routine? definition.1.function = some routine) :
    image.checkRoutine routine = .ok () := by
  obtain ⟨stop, length, checks, ret⟩ := routineCode.body.checks registered
  obtain ⟨instrs, marks, reads, marked, -, -, -, passes⟩ := checks.settle ret
  let final : Instr := ⟨stop, .ret, []⟩
  have instructions : routine.code.instructions = .ok (instrs ++ [final]) :=
    Buffer.instructions_of_reads (length ▸ reads)
  have known : ∀ offset, (marks offset).isSome →
      offset ∈ Std.ExtTreeSet.ofList ((instrs ++ [final]).map Instr.offset) := by
    intro offset isMarked
    obtain ⟨other, member, rfl⟩ := (marked offset).1 isMarked
    rw [Std.ExtTreeSet.mem_ofList, List.contains_iff_mem]
    exact List.mem_map_of_mem member
  rw [Image.checkRoutine, Buffer.ensurePatched_of_openSites routineCode.patched, instructions]
  refine forM_eq_ok fun instr member => ?_
  have passed : image.checkInstr routine
      (Std.ExtTreeSet.ofList ((instrs ++ [final]).map Instr.offset)) instr = .ok () := by
    rcases List.mem_append.1 member with member | member
    · exact passes instr member _ known
    · rw [List.mem_singleton.1 member]
      exact Image.checkInstr_of_isFree rfl
  rw [passed]
  rfl

theorem Image.Realizes.check {image : Image} {program : Program}
    (realizes : image.Realizes program) : image.check = .ok () := by
  refine forM_eq_ok fun routine member => ?_
  obtain ⟨index, lookup⟩ := List.getElem?_of_mem member
  rw [Array.getElem?_toList] at lookup
  obtain ⟨definition, found, routineCode⟩ := realizes.definition lookup
  exact routineCode.checkRoutine (realizes.routine?_function found ▸ lookup)

/-- A check that is asked for changes nothing. -/
theorem Program.compile_eq_emit (program : Program) (options : Options) :
    program.compile options = program.emit options := by
  rw [compile]
  cases emitted : program.emit options with
  | error error => rfl
  | ok image =>
      have checked : image.check = .ok () := (realizes_of_emit emitted).check
      change (if options.validate then _ else _) = _
      simp only [checked]
      split <;> rfl

namespace Emitter

variable {options other : Options}

mutual

/-- Of the options, only the natives matter for the code of a statement. -/
theorem emitStmt_congr (sameNatives : options.natives = other.natives) :
    (stmt : Stmt) → emitStmt options stmt = emitStmt other stmt
  | .store .. | .print .. | .ret .. | .expr .. => rfl
  | .ifElse cond thenBlock none => by
      rw [emitStmt, emitStmt, emitBlock_congr sameNatives thenBlock]
  | .ifElse cond thenBlock (some elseBlock) => by
      rw [emitStmt, emitStmt, emitBlock_congr sameNatives thenBlock,
        emitBlock_congr sameNatives elseBlock]
  | .whileDo cond body | .forRange _ _ _ _ body | .block body => by
      rw [emitStmt, emitStmt, emitBlock_congr sameNatives body]

theorem emitStmts_congr (sameNatives : options.natives = other.natives) :
    (stmts : List Stmt) → emitStmts options stmts = emitStmts other stmts
  | [] => rfl
  | stmt :: stmts => by
      rw [emitStmts, emitStmts, emitStmt_congr sameNatives stmt, emitStmts_congr sameNatives stmts]

theorem emitBlock_congr (sameNatives : options.natives = other.natives) :
    (block : Block) → emitBlock options block = emitBlock other block
  | ⟨vars, functions, stmts⟩ => by
      rw [emitBlock, emitBlock, emitStmts_congr sameNatives stmts]
      simp only [emitFunctions_congr sameNatives functions]

theorem emitFunctions_congr (sameNatives : options.natives = other.natives) :
    (definitions : List FnDef) → (ids : List UInt16) →
      emitFunctions options definitions ids = emitFunctions other definitions ids
  | [], _ => by rw [emitFunctions, emitFunctions] <;> exact nofun
  | _ :: _, [] => by rw [emitFunctions, emitFunctions] <;> exact nofun
  | definition :: definitions, id :: ids => by
      rw [emitFunctions, emitFunctions, emitBody_congr sameNatives definition,
        emitFunctions_congr sameNatives definitions ids]

theorem emitBody_congr (sameNatives : options.natives = other.natives) :
    (definition : FnDef) → emitBody options definition = emitBody other definition
  | ⟨_, _, _, .block block, _⟩ => by
      rw [emitBody, emitBody, emitBlock_congr sameNatives block]
  | ⟨_, _, _, .native symbol, _⟩ => by
      rw [emitBody, emitBody, emitNativeCall, emitNativeCall, Options.address?, Options.address?,
        sameNatives]

end

end Emitter

theorem Program.emit_congr {options other : Options} (program : Program)
    (sameNatives : options.natives = other.natives) :
    program.emit options = program.emit other := by
  rw [emit, emit, Emitter.emitBody_congr sameNatives]

/-- Every image that is compiled passes the check, so that it makes no difference for the result, an
image or an error, whether the check is asked for. -/
theorem Program.check_of_emit (program : Program) (options : Options) :
    (∀ image, program.emit options = .ok image → image.check = .ok ()) ∧
      program.compile { options with validate := true } =
        program.compile { options with validate := false } := by
  refine ⟨fun image emitted => (realizes_of_emit emitted).check, ?_⟩
  rw [compile_eq_emit, compile_eq_emit]
  exact program.emit_congr rfl

theorem Program.check_of_emit_halving :
    ∃ image, halving.emit .default = .ok image ∧ image.check = .ok () ∧
      halving.compile { Options.default with validate := true } =
        halving.compile { Options.default with validate := false } := by
  obtain ⟨image, emitted⟩ := halving_emits
  obtain ⟨checks, same⟩ := check_of_emit halving .default
  exact ⟨image, emitted, checks image emitted, same⟩

end Backpatch
