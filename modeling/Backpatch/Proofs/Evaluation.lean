import Backpatch.Proofs.Interpretation

/-!
# Evaluation of programs

What a function body does, read off its syntax alone.  Operands are evaluated from left to right and
arguments from right to left; `&&` and `||` skip their right operand when the left one decides.  A
comparison, a connective or `!` gives a truth, which becomes one or zero where a number is wanted; a
number that is wanted as a truth is compared with zero.  A negative is a product with minus one.  An
assignment that updates its variable reads the variable first.  The upper bound of a range is
evaluated once, after the variable of the loop has got its first value.

An expression is evaluated or fails.  Statements may also go on forever, so the number of rounds of
every loop is limited by fuel; what has been finished within some fuel is the meaning of a body.
-/

namespace Backpatch

/-- Evaluation that may fail. -/
abbrev Eval := StateT World Option

/-- What an expression gives: a truth, or a value, unless it is a call without one. -/
inductive Result
  | value (result : Option Value)
  | condition (truth : Bool)

namespace Result

/-- The value, which is an int for a condition. -/
def operand : Result → Option Value
  | value result => result
  | condition truth => some (Numeric.int.ofBool truth)

/-- Whether the result counts as true. -/
def truth (interp : Interp) : Result → Option Bool
  | value (some (.int number)) => some (number ≠ 0)
  | value (some (.double number)) => (interp.doubleCompare number ⟨0⟩).map (· ≠ .eq)
  | value _ => none
  | condition truth => some truth

/-- The value as one of the given type. -/
def as (interp : Interp) (ty : Ty) : Result → Option Value
  | value result => result.bind (interp.convert ty)
  | condition truth => (Numeric.ofTy? ty).map fun numeric => numeric.ofBool truth

end Result

/-- How the comparison of two values has to come out. -/
def Comparison.holds : Comparison → Ordering → Bool
  | eq, ordering => ordering = .eq
  | neq, ordering => ordering ≠ .eq
  | lt, ordering => ordering = .lt
  | lte, ordering => ordering ≠ .gt
  | gt, ordering => ordering = .gt
  | gte, ordering => ordering ≠ .lt

namespace Eval

/-- Something that depends on no variable. -/
def ofOption {α : Type} (result : Option α) : Eval α :=
  fun world => result.map fun value => (value, world)

def load (slot : Slot) : Eval Value :=
  fun world => (world.load slot).map fun value => (value, world)

def set (slot : Slot) (value : Value) : Eval Unit :=
  fun world => (world.set slot value).map fun world => ((), world)

def print (value : Value) : Eval Unit :=
  fun world => some ((), world.print value)

def call (interp : Interp) (id : UInt16) (args : List Value) : Eval (Option Value) :=
  interp.call id args

def operand (value : Eval Result) : Eval Value := do
  ofOption (← value).operand

/-- The values of two operands as numbers of one type. -/
def operands (interp : Interp) (left right : Eval Result) : Eval (Value × Value) := do
  let first ← operand left
  let second ← operand right
  ofOption (interp.promote first second)

def truth (interp : Interp) (condition : Eval Result) : Eval Bool := do
  ofOption ((← condition).truth interp)

def as (interp : Interp) (ty : Ty) (value : Eval Result) : Eval Value := do
  ofOption ((← value).as interp ty)

end Eval

mutual

def Expr.eval (interp : Interp) (names : Names) : Expr → Eval Result
  | .int _ value => return .value (some (.int value))
  | .double _ value => return .value (some (.double value))
  | .string _ value => return .value (some (.string value))
  | .load _ name => do
      let slot ← Eval.ofOption (names.var name)
      return .value (some (← Eval.load slot))
  | .binary _ (.arith op) left right => do
      let (first, second) ← Eval.operands interp (left.eval interp names) (right.eval interp names)
      return .value (some (← Eval.ofOption (interp.arith op first second)))
  | .binary _ (.compare op) left right => do
      let (first, second) ← Eval.operands interp (left.eval interp names) (right.eval interp names)
      return .condition (op.holds (← Eval.ofOption (interp.compare first second)))
  | .binary _ (.logic .and) left right => do
      if ← Eval.truth interp (left.eval interp names) then
        return .condition (← Eval.truth interp (right.eval interp names))
      else
        return .condition false
  | .binary _ (.logic .or) left right => do
      if ← Eval.truth interp (left.eval interp names) then
        return .condition true
      else
        return .condition (← Eval.truth interp (right.eval interp names))
  | .unary _ .not operand => do
      return .condition (!(← Eval.truth interp (operand.eval interp names)))
  | .unary _ .neg operand => do
      let value ← Eval.operand (operand.eval interp names)
      let numeric ← Eval.ofOption (Numeric.ofTy? value.ty)
      return .value (some (← Eval.ofOption (interp.arith .mul value numeric.minusOne)))
  | .call _ name args => do
      let (id, signature) ← Eval.ofOption (names.callee name)
      let values ← Expr.evalArgs interp names (signature.params.map (·.ty)) args
      return .value (← Eval.call interp id values)

/-- The values of arguments as values of the given types. -/
def Expr.evalArgs (interp : Interp) (names : Names) : List Ty → List Expr → Eval (List Value)
  | [], [] => return []
  | ty :: types, arg :: args => do
      let later ← Expr.evalArgs interp names types args
      let first ← Eval.as interp ty (arg.eval interp names)
      return first :: later
  | _, _ => failure

end

/-- What has happened within a limited time. -/
inductive Run (α : Type)
  | done (result : α)
  /-- An operation has failed. -/
  | stuck
  /-- The time is up. -/
  | running

instance : Monad Run where
  pure := .done
  bind run next :=
    match run with
    | .done result => next result
    | .stuck => .stuck
    | .running => .running

def Run.result? {α : Type} : Run α → Option α
  | .done result => some result
  | .stuck | .running => none

def Run.ofOption {α : Type} : Option α → Run α
  | some result => .done result
  | none => .stuck

/-- Execution that may fail or run out of time. -/
abbrev Exec := StateT World Run

/-- An evaluation takes no time. -/
def Eval.exec {α : Type} (eval : Eval α) : Exec α :=
  fun world => .ofOption (eval world)

theorem Eval.ofOption_map {α β : Type} (option : Option α) (change : α → β) :
    ofOption (option.map change) = ofOption option >>= fun value => pure (change value) := by
  funext world
  cases option <;> rfl

theorem Eval.exec_bind {α β : Type} (eval : Eval α) (rest : α → Eval β) :
    (eval >>= rest).exec = eval.exec >>= fun result => (rest result).exec := by
  funext world
  change Run.ofOption ((eval world).bind fun result => rest result.1 result.2) =
    Run.ofOption (eval world) >>= fun result => Run.ofOption (rest result.1 result.2)
  cases eval world <;> rfl

/-- How a statement ends. -/
inductive Outcome
  | normal
  | returned (value : Option Value)

namespace Exec

/-- Go on with something else, unless a return statement has been carried out. -/
def andThen (first second : Exec Outcome) : Exec Outcome := do
  match ← first with
  | .normal => second
  | .returned value => return .returned value

/-- A statement that always ends behind itself. -/
def ofEval (eval : Eval Unit) : Exec Outcome := do
  eval.exec
  return .normal

theorem ofEval_bind {α : Type} (eval : Eval α) (rest : α → Eval Unit) :
    ofEval (eval >>= rest) = eval.exec >>= fun result => ofEval (rest result) := by
  rw [ofEval, Eval.exec_bind]
  funext world
  change ((Run.ofOption (eval world)) >>= fun result => _) >>= _ =
    Run.ofOption (eval world) >>= fun result => _
  cases eval world <;> rfl

/-- Repeat something while a condition is true. -/
def repeatWhile (condition : Eval Bool) (body : Exec Outcome) : Nat → Exec Outcome
  | 0 => fun _ => .running
  | fuel + 1 => do
      if ← condition.exec then
        body.andThen (repeatWhile condition body fuel)
      else
        return .normal

end Exec

section Statements

variable (interp : Interp) (env : Env)

def Stmt.evalStore (name : String) (op : StoreOp) (value : Expr) : Eval Unit := do
  let slot ← Eval.ofOption (env.var name)
  match op.update? with
  | none => Eval.set slot (← Eval.as interp slot.ty (value.eval interp env.toNames))
  | some arith =>
      let old ← Eval.load slot
      let operand ← Eval.as interp slot.ty (value.eval interp env.toNames)
      Eval.set slot (← Eval.ofOption (interp.arith arith old operand))

def Stmt.evalPrint : List Expr → Eval Unit
  | [] => return ()
  | arg :: args => do
      Eval.print (← Eval.operand (arg.eval interp env.toNames))
      Stmt.evalPrint args

/-- The variable of a loop has not passed a bound. -/
def Stmt.evalWithin (slot : Slot) (bound : Value) : Eval Bool := do
  let current ← Eval.load slot
  return Comparison.lte.holds (← Eval.ofOption (interp.compare current bound))

/-- Add one to the variable of a loop. -/
def Stmt.evalAdvance (slot : Slot) (one : Value) : Eval Unit := do
  let current ← Eval.load slot
  Eval.set slot (← Eval.ofOption (interp.arith .add current one))

/-- Assign the first value to the variable of a loop; the result is the upper bound. -/
def Stmt.evalRange (slot : Slot) (low high : Expr) : Eval Value := do
  Eval.set slot (← Eval.as interp slot.ty (low.eval interp env.toNames))
  Eval.as interp slot.ty (high.eval interp env.toNames)

end Statements

mutual

/-- Carry out a statement, with the given limit for the number of rounds of each loop. -/
def Stmt.exec (interp : Interp) (fuel : Nat) (env : Env) : Stmt → Exec Outcome
  | .store _ name op value => .ofEval (Stmt.evalStore interp env name op value)
  | .ifElse cond thenBlock none => do
      if ← (Eval.truth interp (cond.eval interp env.toNames)).exec then
        thenBlock.exec interp fuel env
      else
        return .normal
  | .ifElse cond thenBlock (some elseBlock) => do
      if ← (Eval.truth interp (cond.eval interp env.toNames)).exec then
        thenBlock.exec interp fuel env
      else
        elseBlock.exec interp fuel (thenBlock.pass env)
  | .whileDo cond body =>
      .repeatWhile (Eval.truth interp (cond.eval interp env.toNames)) (body.exec interp fuel env)
        fuel
  | .forRange _ name low high body => do
      let slot ← (Eval.ofOption (env.var name)).exec
      let numeric ← (Eval.ofOption (Numeric.ofTy? slot.ty)).exec
      let bound ← (Stmt.evalRange interp env slot low high).exec
      .repeatWhile (Stmt.evalWithin interp slot bound)
        ((body.exec interp fuel (env.hide name)).andThen
          (.ofEval (Stmt.evalAdvance interp slot numeric.one))) fuel
  | .print _ args => .ofEval (Stmt.evalPrint interp env args)
  | .ret _ none => return .returned none
  | .ret _ (some value) => do
      return .returned
        (some (← (Eval.as interp env.returnType (value.eval interp env.toNames)).exec))
  | .expr value => .ofEval do
      let _ ← value.eval interp env.toNames
      return ()
  | .block body => body.exec interp fuel env

def Stmt.execAll (interp : Interp) (fuel : Nat) (env : Env) : List Stmt → Exec Outcome
  | [] => return .normal
  | stmt :: stmts =>
      (stmt.exec interp fuel env).andThen (Stmt.execAll interp fuel (stmt.pass env) stmts)

def Block.exec (interp : Interp) (fuel : Nat) (env : Env) : Block → Exec Outcome
  | ⟨vars, functions, stmts⟩ => Stmt.execAll interp fuel (env.inside vars functions) stmts

end

/-- Assign arguments to the slots of parameters. -/
def Env.bind (env : Env) : List ParamDecl → List Value → Eval Unit
  | [], [] => return ()
  | param :: params, value :: values => do
      Eval.set (env.next param.ty) value
      (env.declare param.name param.ty).bind params values
  | _, _ => failure

/-- Carry out a function with the given arguments, whose body begins at the given place.  Nothing is
returned when the end of the body is reached. -/
def Block.apply (interp : Interp) (fuel : Nat) (env : Env) (params : List ParamDecl) (body : Block)
    (args : List Value) : Exec (Option Value) := do
  (Env.bind { env with taken := [] } params args).exec
  match ← body.exec interp fuel env with
  | .normal => return none
  | .returned value => return value

end Backpatch
