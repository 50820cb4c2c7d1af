import Backpatch.Image

/-!
# Scopes

Which variable or function a name means.  Every function that is being compiled has a context: the
slots it has used, its parameters, and its open blocks, innermost first.  A function inside another
is compiled while the other is open, so contexts are stacked, and a name that the current function
does not declare is looked for in the enclosing ones.

Slots are never given back.  Leaving a block only forgets its names, so all variables of a function
have slots of their own.
-/

namespace Backpatch

/-- Where a variable is kept: the function that owns it, its type, and its index among the variables
of that type. -/
structure Slot where
  context : UInt16
  index : UInt16
  ty : Ty
  deriving DecidableEq, Repr, Inhabited

/-- The names that a block declares. -/
structure BlockScope where
  vars : NameMap Slot
  functions : NameMap UInt16
  deriving DecidableEq

def BlockScope.empty : BlockScope :=
  ⟨∅, ∅⟩

/-- The state of a function that is being compiled. -/
structure Context where
  id : UInt16
  returnType : Ty
  buffer : Buffer
  /-- The scope of the function's body, once it has been entered. -/
  bodyScope : Option UInt16
  frame : Frame
  params : NameMap Slot
  /-- The open blocks, innermost first. -/
  blocks : List BlockScope
  deriving DecidableEq

namespace Context

/-- The state in which the compilation of a function begins. -/
def start (id : UInt16) (returnType : Ty) : Context where
  id := id
  returnType := returnType
  buffer := .empty
  bodyScope := none
  frame := .empty
  params := ∅
  blocks := []

/-- Take the next slot of a type. -/
def allocate? (context : Context) (ty : Ty) : Option (Slot × Context) := do
  let (index, frame) ← context.frame.allocate? ty
  return (⟨context.id, index, ty⟩, { context with frame := frame })

/-- The variable of a name: that of the innermost block that declares it, else a parameter. -/
def var? (context : Context) (name : String) : Option Slot :=
  (context.blocks.findSome? (·.vars[name]?)).or context.params[name]?

/-- The function of a name, in the innermost block that declares it. -/
def function? (context : Context) (name : String) : Option UInt16 :=
  context.blocks.findSome? (·.functions[name]?)

end Context

/-- How far a name is looked for. -/
inductive Lookup
  /-- In the current function only. -/
  | here
  /-- In the current function, then in the enclosing ones, innermost first. -/
  | outward
  deriving DecidableEq, Repr, Inhabited

/-- The functions that are being compiled. -/
structure Scopes where
  current : Context
  /-- The functions around the current one, innermost first. -/
  enclosing : List Context
  /-- The number of the next block to be entered, counted modulo 2 ^ 16. -/
  nextScope : UInt16
  deriving DecidableEq

namespace Scopes

/-- Only the top-level function is open. -/
def start (top : Context) : Scopes where
  current := top
  enclosing := []
  nextScope := 0

/-- The number of open functions. -/
def depth (scopes : Scopes) : Nat :=
  scopes.enclosing.length + 1

/-- Begin a function inside the current one. -/
def push (scopes : Scopes) (context : Context) : Scopes :=
  { scopes with current := context, enclosing := scopes.current :: scopes.enclosing }

/-- End the current function, unless it is the top-level one. -/
def pop? (scopes : Scopes) : Option (Context × Scopes) :=
  match scopes.enclosing with
  | [] => none
  | outer :: enclosing =>
      some (scopes.current, { scopes with current := outer, enclosing := enclosing })

/-- The top-level function. -/
def top (scopes : Scopes) : Context :=
  scopes.enclosing.getLastD scopes.current

/-- Enter a block of the current function; the first one is its body. -/
def enterBlock (scopes : Scopes) : UInt16 × Scopes :=
  let id := scopes.nextScope
  let current := scopes.current
  (id,
    { scopes with
      nextScope := id + 1
      current :=
        { current with
          bodyScope := current.bodyScope.or (some id)
          blocks := .empty :: current.blocks } })

/-- Leave the innermost block of the current function. -/
def exitBlock (scopes : Scopes) : Scopes :=
  { scopes with current := { scopes.current with blocks := scopes.current.blocks.tail } }

/-- Give a parameter of the current function the next slot of its type. -/
def declareParam? (scopes : Scopes) (name : String) (ty : Ty) : Option (Slot × Scopes) := do
  let (slot, current) ← scopes.current.allocate? ty
  return (slot,
    { scopes with current := { current with params := current.params.insert name slot } })

/-- Give a variable of the innermost block the next slot of its type.  For the rest of the block the
name means this variable. -/
def declare? (scopes : Scopes) (name : String) (ty : Ty) : Option (Slot × Scopes) :=
  match scopes.current.blocks with
  | [] => none
  | block :: blocks => do
      let (slot, current) ← scopes.current.allocate? ty
      let block := { block with vars := block.vars.insert name slot }
      return (slot, { scopes with current := { current with blocks := block :: blocks } })

/-- Take a slot that no name means. -/
def allocateHidden? (scopes : Scopes) (ty : Ty) : Option (Slot × Scopes) := do
  let (slot, current) ← scopes.current.allocate? ty
  return (slot, { scopes with current := current })

/-- Name a function in the innermost block, unless the block has one of that name. -/
def declareFunction? (scopes : Scopes) (name : String) (id : UInt16) : Option Scopes :=
  match scopes.current.blocks with
  | [] => none
  | block :: blocks =>
      if block.functions.contains name then
        none
      else
        let block := { block with functions := block.functions.insert name id }
        some { scopes with current := { scopes.current with blocks := block :: blocks } }

/-- The variable that a name means. -/
def resolve? (scopes : Scopes) (name : String) : Lookup → Option Slot
  | .here => scopes.current.var? name
  | .outward => (scopes.current.var? name).or (scopes.enclosing.findSome? (·.var? name))

/-- The function that a name means, if a block declares it. -/
def function? (scopes : Scopes) (name : String) : Option UInt16 :=
  (scopes.current.function? name).or (scopes.enclosing.findSome? (·.function? name))

end Scopes

end Backpatch
