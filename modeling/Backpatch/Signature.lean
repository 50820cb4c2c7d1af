import Backpatch.Ty

/-!
# Function signatures

A signature lists typed names: what the function returns, then its parameters in the order of
their declaration.  The entry for the returned value is always present and has a name like the
others, which is `return` unless the signature was read from a document that says otherwise.
-/

namespace Backpatch

/-- A name with its type. -/
structure Parameter where
  ty : Ty
  name : String
  deriving DecidableEq, Repr, Inhabited

/-- The typed interface of a function. -/
structure Signature where
  /-- What the function returns. -/
  result : Parameter
  /-- The parameters in declaration order. -/
  params : List Parameter
  deriving DecidableEq, Repr, Inhabited

namespace Signature

/-- The name of the returned value. -/
def resultName : String := "return"

/-- The signature of a function with the given return type and parameters. -/
def of (returnType : Ty) (params : List Parameter) : Signature where
  result := ⟨returnType, resultName⟩
  params := params

def returnType (signature : Signature) : Ty :=
  signature.result.ty

/-- The type of the parameter at a position counted from zero. -/
def paramType? (signature : Signature) (index : Nat) : Option Ty :=
  signature.params[index]?.map (·.ty)

/-- The returned value followed by the parameters. -/
def elements (signature : Signature) : List Parameter :=
  signature.result :: signature.params

/-- A signature has at least the entry of its returned value. -/
def ofElements? : List Parameter → Option Signature
  | [] => none
  | result :: params => some ⟨result, params⟩

/-- Written form, such as `(int a, string b) -> double`. -/
def render (signature : Signature) : String :=
  let params := signature.params.map fun param => param.ty.name ++ " " ++ param.name
  "(" ++ ", ".intercalate params ++ ") -> " ++ signature.returnType.name

theorem ofElements?_elements (signature : Signature) :
    ofElements? signature.elements = some signature :=
  rfl

end Signature

end Backpatch
