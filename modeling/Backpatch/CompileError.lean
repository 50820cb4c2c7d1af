import Backpatch.CodeError
import Backpatch.Program

/-!
# Errors of programs

Why a program cannot be compiled.  Most errors are about the program and have a position in it.  The
others are about the compiler: a limit of the image is exceeded, or a state has been reached that
should not exist.
-/

namespace Backpatch

/-- An operation that is not defined where it is used. -/
inductive Misuse
  | tooManyVariables (ty : Ty) (name : String)
  | undeclarable (name : String) (ty : Ty)
  | unprintable (ty : Ty)
  | noUpdate (op : ArithOp) (ty : Ty)
  | missingResult (ty : Ty)
  | unexpectedResult
  | badLoopVariable (name : String) (ty : Ty)
  | noNegation (ty : Ty)
  | badOperands (op : BinOp) (left right : Ty)
  | noOperator (op : BinOp) (ty : Ty)
  deriving DecidableEq, Repr

/-- A state of the compiler that should not exist.  Two further ones have no constructor, since the
types rule them out: a condition is made into a value of a `Numeric` type only, and a branch is
looked up for a `Comparison` only, so neither meets a type that is no number or an operator that
compares nothing. -/
inductive Defect
  | noLoad (ty : Ty)
  | noStore (ty : Ty)
  | noConversionSite (op : BinOp)
  | unregisteredFunction (id : UInt16)
  | contextUnderflow
  deriving DecidableEq, Repr

/-- Errors of compilation. -/
inductive CompileError
  | undefinedFunction (name : String) (position : Position)
  | parameterCountMismatch (name : String) (expected got : Nat) (position : Position)
  | undefinedVariable (name : String) (position : Position)
  | invalidConversion (source target : Ty) (position : Position)
  | invalidOperation (misuse : Misuse) (position : Position)
  | duplicateFunction (name : String) (position : Position)
  | unresolvedNative (symbol : String) (position : Position)
  | internal (cause : CodeError)
  | invariant (defect : Defect)
  deriving DecidableEq, Repr

def Misuse.message : Misuse → String
  | tooManyVariables ty name =>
      "too many " ++ ty.name ++ " variables, cannot declare `" ++ name ++ "`"
  | undeclarable name ty => "`" ++ name ++ "` cannot be declared as " ++ ty.name
  | unprintable ty => "cannot print a " ++ ty.name ++ " value"
  | noUpdate op ty => "operator `" ++ op.symbol ++ "=` is not defined for " ++ ty.name
  | missingResult ty => "missing return value in function returning " ++ ty.name
  | unexpectedResult => "cannot return a value from a void function"
  | badLoopVariable name ty =>
      "loop variable `" ++ name ++ "` must be int or double, not " ++ ty.name
  | noNegation ty => "unary `-` is not defined for " ++ ty.name
  | badOperands op left right =>
      "operator `" ++ op.symbol ++ "` cannot be applied to " ++ left.name ++ " and " ++ right.name
  | noOperator op ty => "operator `" ++ op.symbol ++ "` is not defined for " ++ ty.name

def Defect.message : Defect → String
  | noLoad ty => "no load instruction for " ++ ty.name
  | noStore ty => "no store instruction for " ++ ty.name
  | noConversionSite op => "no conversion site for the left operand of `" ++ op.symbol ++ "`"
  | unregisteredFunction id => "function id " ++ toString id ++ " is not registered"
  | contextUnderflow => "function context stack underflow"

namespace CompileError

def message : CompileError → String
  | undefinedFunction name _ => "undefined function `" ++ name ++ "`"
  | parameterCountMismatch name expected got _ =>
      "function `" ++ name ++ "` expects " ++ toString expected ++ " arguments, got " ++
        toString got
  | undefinedVariable name _ => "undefined variable `" ++ name ++ "`"
  | invalidConversion source target _ => "cannot convert " ++ source.name ++ " to " ++ target.name
  | invalidOperation misuse _ => misuse.message
  | duplicateFunction name _ => "function `" ++ name ++ "` is already declared in this block"
  | unresolvedNative symbol _ => "native symbol `" ++ symbol ++ "` is not bound"
  | internal cause => "internal error: " ++ cause.message
  | invariant defect => "internal error: " ++ defect.message

/-- The position of the error in the program, if it has one. -/
def position? : CompileError → Option Position
  | undefinedFunction _ position | parameterCountMismatch _ _ _ position
  | undefinedVariable _ position | invalidConversion _ _ position | invalidOperation _ position
  | duplicateFunction _ position | unresolvedNative _ position => some position
  | internal _ | invariant _ => none

/-- The error is about the compiler and not about the program. -/
def isInternal : CompileError → Bool
  | internal _ | invariant _ => true
  | _ => false

end CompileError

end Backpatch
