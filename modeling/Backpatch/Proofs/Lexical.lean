import Backpatch.Emit.Stmt

/-!
# What names mean, read off the program

A program fixes what every name in it means, without any state of a compilation: a variable is the
one declared last in the innermost block around the use, else a parameter, else what the name means
around the function; and every variable has the next slot of its type in its function.  Functions
are numbered in the order in which blocks declare them, all functions of a block before those inside
them, and these before the ones in its statements.

An environment says what names mean at some place and how far the numbering has got there.  Walking
past a statement changes only the numbering.
-/

namespace Backpatch

/-- What names mean at some place of a function. -/
structure Names where
  /-- The number of the function. -/
  function : UInt16
  returnType : Ty
  var : String → Option Slot
  callee : String → Option (UInt16 × Signature)

/-- What names mean, and what has been numbered before. -/
structure Env extends Names where
  /-- The types of the slots that the function has used so far. -/
  taken : List Ty
  /-- The number of functions defined so far in the whole program. -/
  defined : Nat

namespace Env

def next (env : Env) (ty : Ty) : Slot :=
  ⟨env.function, UInt16.ofNat (env.taken.count ty), ty⟩

/-- Let a name mean a new variable. -/
def declare (env : Env) (name : String) (ty : Ty) : Env :=
  { env with
    var := fun other => if other = name then some (env.next ty) else env.var other
    taken := env.taken ++ [ty] }

/-- Let the name of a function mean the next function. -/
def define (env : Env) (definition : FnDef) : Env :=
  { env with
    callee := fun other =>
      if other = definition.name then some (UInt16.ofNat env.defined, definition.signature)
      else env.callee other
    defined := env.defined + 1 }

/-- Use a slot of the type of a variable for something that has no name. -/
def hide (env : Env) (name : String) : Env :=
  match env.var name with
  | some slot => { env with taken := env.taken ++ [slot.ty] }
  | none => env

/-- The names that a block declares, before anything inside its functions is numbered. -/
def declareBlock (env : Env) (vars : List VarDecl) (functions : List FnDef) : Env :=
  functions.foldl define (vars.foldl (fun env var => env.declare var.name var.ty) env)

/-- The place at which the body of a function begins. -/
def enter (env : Env) (id : Nat) (definition : FnDef) : Env :=
  definition.params.foldl (fun env param => env.declare param.name param.ty)
    { env with
      function := UInt16.ofNat id
      returnType := definition.returnType
      taken := [] }

/-- What no declaration changes is the same behind a list of declarations. -/
theorem foldl_declare_keeps {α β : Type} (part : Env → β)
    (keeps : ∀ env name ty, part (declare env name ty) = part env) (env : Env) (name : α → String)
    (ty : α → Ty) (declarations : List α) :
    part (declarations.foldl
      (fun env declaration => env.declare (name declaration) (ty declaration)) env) = part env := by
  induction declarations generalizing env with
  | nil => rfl
  | cons declaration declarations ih => exact (ih _).trans (keeps env _ _)

theorem defined_foldl_declare {α : Type} (env : Env) (name : α → String) (ty : α → Ty)
    (declarations : List α) :
    (declarations.foldl (fun env declaration => env.declare (name declaration) (ty declaration))
      env).defined = env.defined :=
  foldl_declare_keeps (·.defined) (fun _ _ _ => rfl) env name ty declarations

theorem function_foldl_declare {α : Type} (env : Env) (name : α → String) (ty : α → Ty)
    (declarations : List α) :
    (declarations.foldl (fun env declaration => env.declare (name declaration) (ty declaration))
      env).function = env.function :=
  foldl_declare_keeps (·.function) (fun _ _ _ => rfl) env name ty declarations

@[simp]
theorem function_enter (env : Env) (id : Nat) (definition : FnDef) :
    (env.enter id definition).function = UInt16.ofNat id :=
  function_foldl_declare _ ParamDecl.name ParamDecl.ty definition.params

@[simp]
theorem returnType_enter (env : Env) (id : Nat) (definition : FnDef) :
    (env.enter id definition).returnType = definition.returnType :=
  foldl_declare_keeps (·.returnType) (fun _ _ _ => rfl) _ ParamDecl.name ParamDecl.ty
    definition.params

@[simp]
theorem defined_enter (env : Env) (id : Nat) (definition : FnDef) :
    (env.enter id definition).defined = env.defined :=
  defined_foldl_declare _ ParamDecl.name ParamDecl.ty definition.params

theorem defined_foldl_define (definitions : List FnDef) (env : Env) :
    (definitions.foldl define env).defined = env.defined + definitions.length := by
  induction definitions generalizing env with
  | nil => rfl
  | cons definition definitions ih =>
      rw [List.foldl_cons, ih, List.length_cons]
      exact Nat.add_right_comm _ _ _

theorem defined_declareBlock (env : Env) (vars : List VarDecl) (functions : List FnDef) :
    (env.declareBlock vars functions).defined = env.defined + functions.length := by
  rw [declareBlock, defined_foldl_define, defined_foldl_declare]

/-- What no definition changes is the same behind a list of definitions. -/
theorem foldl_define_keeps {β : Type} (part : Env → β)
    (keeps : ∀ env definition, part (define env definition) = part env) (env : Env)
    (definitions : List FnDef) : part (definitions.foldl define env) = part env := by
  induction definitions generalizing env with
  | nil => rfl
  | cons definition definitions ih => exact (ih _).trans (keeps env definition)

/-- What no declaration and no definition changes is the same behind those of a block. -/
theorem declareBlock_keeps {β : Type} (part : Env → β)
    (declares : ∀ env name ty, part (declare env name ty) = part env)
    (defines : ∀ env definition, part (define env definition) = part env)
    (env : Env) (vars : List VarDecl) (functions : List FnDef) :
    part (env.declareBlock vars functions) = part env := by
  rw [declareBlock, foldl_define_keeps part defines]
  exact foldl_declare_keeps part declares env VarDecl.name VarDecl.ty vars

end Env

mutual

def Stmt.count : Stmt → Nat
  | .ifElse _ thenBlock none => thenBlock.count
  | .ifElse _ thenBlock (some elseBlock) => thenBlock.count + elseBlock.count
  | .whileDo _ body => body.count
  | .forRange _ _ _ _ body => body.count
  | .block body => body.count
  | .store .. | .print .. | .ret .. | .expr .. => 0

def Stmt.countAll : List Stmt → Nat
  | [] => 0
  | stmt :: stmts => stmt.count + Stmt.countAll stmts

def Block.count : Block → Nat
  | ⟨_, functions, stmts⟩ => functions.length + FnDef.countAll functions + Stmt.countAll stmts

/-- The number of functions defined inside functions, these themselves not counted. -/
def FnDef.countAll : List FnDef → Nat
  | [] => 0
  | definition :: definitions => definition.count + FnDef.countAll definitions

def FnDef.count : FnDef → Nat
  | ⟨_, _, _, .block body, _⟩ => body.count
  | ⟨_, _, _, .native _, _⟩ => 0

end

namespace Env

/-- The place behind functions that are defined inside other functions. -/
def past (env : Env) (count : Nat) : Env :=
  { env with defined := env.defined + count }

theorem past_past (env : Env) (first second : Nat) :
    (env.past first).past second = env.past (first + second) := by
  rw [past, past, past, Nat.add_assoc]

/-- The place at which the statements of a block begin. -/
def inside (env : Env) (vars : List VarDecl) (functions : List FnDef) : Env :=
  (env.declareBlock vars functions).past (FnDef.countAll functions)

theorem defined_inside (env : Env) (vars : List VarDecl) (functions : List FnDef) :
    (env.inside vars functions).defined =
      env.defined + functions.length + FnDef.countAll functions :=
  congrArg (· + FnDef.countAll functions) (env.defined_declareBlock vars functions)

@[simp]
theorem function_inside (env : Env) (vars : List VarDecl) (functions : List FnDef) :
    (env.inside vars functions).function = env.function :=
  declareBlock_keeps (·.function) (fun _ _ _ => rfl) (fun _ _ => rfl) env vars functions

@[simp]
theorem returnType_inside (env : Env) (vars : List VarDecl) (functions : List FnDef) :
    (env.inside vars functions).returnType = env.returnType :=
  declareBlock_keeps (·.returnType) (fun _ _ _ => rfl) (fun _ _ => rfl) env vars functions

/-- The place behind a block, which is left at a given place in it. -/
def leave (env inner : Env) : Env :=
  { env with taken := inner.taken, defined := inner.defined }

end Env

mutual

/-- The place behind a statement. -/
def Stmt.pass (env : Env) : Stmt → Env
  | .ifElse _ thenBlock none => thenBlock.pass env
  | .ifElse _ thenBlock (some elseBlock) => elseBlock.pass (thenBlock.pass env)
  | .whileDo _ body => body.pass env
  | .forRange _ name _ _ body => body.pass (env.hide name)
  | .block body => body.pass env
  | .store .. | .print .. | .ret .. | .expr .. => env

def Stmt.passAll (env : Env) : List Stmt → Env
  | [] => env
  | stmt :: stmts => Stmt.passAll (stmt.pass env) stmts

def Block.pass (env : Env) : Block → Env
  | ⟨vars, functions, stmts⟩ => env.leave (Stmt.passAll (env.inside vars functions) stmts)

end

@[simp]
theorem Env.toNames_hide (env : Env) (name : String) : (env.hide name).toNames = env.toNames := by
  unfold hide
  cases env.var name <;> rfl

@[simp]
theorem Env.defined_hide (env : Env) (name : String) : (env.hide name).defined = env.defined := by
  unfold hide
  cases env.var name <;> rfl

@[simp]
theorem Block.toNames_pass (env : Env) (block : Block) :
    (block.pass env).toNames = env.toNames := by
  cases block
  rw [pass]
  rfl

/-- Walking past a statement changes only the numbering. -/
@[simp]
theorem Stmt.toNames_pass (env : Env) (stmt : Stmt) : (stmt.pass env).toNames = env.toNames := by
  cases stmt with
  | ifElse cond thenBlock elseBlock => cases elseBlock <;> simp [pass]
  | forRange position name low high body => simp [pass]
  | whileDo | block => simp [pass]
  | store | print | ret | expr => rw [pass]

mutual

/-- The functions in a statement are numbered on the way past it. -/
theorem Stmt.defined_pass (env : Env) :
    (stmt : Stmt) → (stmt.pass env).defined = env.defined + stmt.count
  | .ifElse _ thenBlock none => by
      rw [Stmt.pass, Stmt.count, thenBlock.defined_pass]
  | .ifElse _ thenBlock (some elseBlock) => by
      rw [Stmt.pass, Stmt.count, elseBlock.defined_pass, thenBlock.defined_pass, Nat.add_assoc]
  | .whileDo _ body => by rw [Stmt.pass, Stmt.count, body.defined_pass]
  | .forRange _ name _ _ body => by
      rw [Stmt.pass, Stmt.count, body.defined_pass, Env.defined_hide]
  | .block body => by rw [Stmt.pass, Stmt.count, body.defined_pass]
  | .store .. | .print .. | .ret .. | .expr .. => by rw [Stmt.pass, Stmt.count, Nat.add_zero]

theorem Stmt.defined_passAll (env : Env) :
    (stmts : List Stmt) → (Stmt.passAll env stmts).defined = env.defined + Stmt.countAll stmts
  | [] => rfl
  | stmt :: stmts => by
      rw [Stmt.passAll, Stmt.countAll, Stmt.defined_passAll, stmt.defined_pass, Nat.add_assoc]

theorem Block.defined_pass (env : Env) :
    (block : Block) → (block.pass env).defined = env.defined + block.count
  | ⟨vars, functions, stmts⟩ => by
      rw [Block.pass, Block.count]
      change (Stmt.passAll (env.inside vars functions) stmts).defined = _
      rw [Stmt.defined_passAll, Env.defined_inside]
      omega

end

/-- The types of the slots that a function uses whose body begins at the given place. -/
def FnDef.slots (env : Env) : FnDef → List Ty
  | ⟨_, _, _, .block body, _⟩ => (body.pass env).taken
  | ⟨_, _, _, .native _, _⟩ => []

/-- A function definition with the place at which its body begins. -/
abbrev Definition := Env × FnDef

/-- The functions that a block itself defines, numbered from a given number on. -/
def FnDef.entries (env : Env) (id : Nat) : List FnDef → List Definition
  | [] => []
  | definition :: definitions =>
      (env.enter id definition, definition) ::
        FnDef.entries (env.past definition.count) (id + 1) definitions

mutual

/-- The functions defined inside a statement, in the order of their numbers. -/
def Stmt.definitions (env : Env) : Stmt → List Definition
  | .ifElse _ thenBlock none => thenBlock.definitions env
  | .ifElse _ thenBlock (some elseBlock) =>
      thenBlock.definitions env ++ elseBlock.definitions (thenBlock.pass env)
  | .whileDo _ body => body.definitions env
  | .forRange _ name _ _ body => body.definitions (env.hide name)
  | .block body => body.definitions env
  | .store .. | .print .. | .ret .. | .expr .. => []

def Stmt.definitionsAll (env : Env) : List Stmt → List Definition
  | [] => []
  | stmt :: stmts => stmt.definitions env ++ Stmt.definitionsAll (stmt.pass env) stmts

def Block.definitions (env : Env) : Block → List Definition
  | ⟨vars, functions, stmts⟩ =>
      FnDef.entries (env.declareBlock vars functions) env.defined functions ++
        FnDef.definitionsAll (env.declareBlock vars functions) env.defined functions ++
        Stmt.definitionsAll (env.inside vars functions) stmts

/-- The functions defined inside functions that are numbered from a given number on. -/
def FnDef.definitionsAll (env : Env) (id : Nat) : List FnDef → List Definition
  | [] => []
  | definition :: definitions =>
      definition.definitions (env.enter id definition) ++
        FnDef.definitionsAll (env.past definition.count) (id + 1) definitions

def FnDef.definitions (env : Env) : FnDef → List Definition
  | ⟨_, _, _, .block body, _⟩ => body.definitions env
  | ⟨_, _, _, .native _, _⟩ => []

end

/-- The variables that can be named are those of functions with numbers below the given one. -/
def Env.Owned (env : Env) (bound : Nat) : Prop :=
  ∀ name slot, env.var name = some slot → ∃ number < bound, slot.context = UInt16.ofNat number

/-- The place is in a function, and its variables and those around it are of functions that are
numbered already. -/
structure Env.Placed (env : Env) (bound : Nat) : Prop where
  function : ∃ number < bound, env.function = UInt16.ofNat number
  owned : env.Owned bound

namespace Env

theorem Owned.mono {env : Env} {bound later : Nat} (owned : env.Owned bound) (le : bound ≤ later) :
    env.Owned later := by
  intro name slot found
  obtain ⟨number, below, context⟩ := owned name slot found
  exact ⟨number, Nat.lt_of_lt_of_le below le, context⟩

theorem Placed.mono {env : Env} {bound later : Nat} (placed : env.Placed bound)
    (le : bound ≤ later) : env.Placed later := by
  obtain ⟨⟨number, below, function⟩, owned⟩ := placed
  exact ⟨⟨number, Nat.lt_of_lt_of_le below le, function⟩, owned.mono le⟩

theorem Placed.congr {env other : Env} {bound : Nat} (placed : env.Placed bound)
    (same : other.toNames = env.toNames) : other.Placed bound := by
  obtain ⟨function, owned⟩ := placed
  refine ⟨by rw [same]; exact function, fun name slot found => owned name slot ?_⟩
  rw [← same]
  exact found

theorem Placed.foldl_declare {α : Type} {env : Env} {bound : Nat} (placed : env.Placed bound)
    (name : α → String) (ty : α → Ty) (declarations : List α) :
    (declarations.foldl (fun env declaration => env.declare (name declaration) (ty declaration))
      env).Placed bound := by
  induction declarations generalizing env with
  | nil => exact placed
  | cons declaration declarations ih =>
      refine ih ⟨placed.function, fun other slot found => ?_⟩
      simp only [declare] at found
      split at found
      · cases found
        exact placed.function
      · exact placed.owned other slot found

theorem Placed.declareBlock {env : Env} {bound : Nat} (placed : env.Placed bound)
    (vars : List VarDecl) (functions : List FnDef) :
    (env.declareBlock vars functions).Placed bound := by
  obtain ⟨function, owned⟩ := placed.foldl_declare VarDecl.name VarDecl.ty vars
  refine ⟨?_, fun name slot found => owned name slot ?_⟩
  · rw [Env.declareBlock, foldl_define_keeps (·.function) fun _ _ => rfl]
    exact function
  · rwa [Env.declareBlock, foldl_define_keeps (·.var) fun _ _ => rfl] at found

theorem Placed.inside {env : Env} {bound : Nat} (placed : env.Placed bound)
    (vars : List VarDecl) (functions : List FnDef) : (env.inside vars functions).Placed bound :=
  (placed.declareBlock vars functions).congr rfl

theorem Owned.enter {env : Env} {id bound : Nat} (owned : env.Owned id) (below : id < bound)
    (definition : FnDef) : (env.enter id definition).Placed bound := by
  have outer : Placed { env with
      function := UInt16.ofNat id
      returnType := definition.returnType
      taken := [] } bound :=
    ⟨⟨id, below, rfl⟩, owned.mono (Nat.le_of_lt below)⟩
  exact outer.foldl_declare ParamDecl.name ParamDecl.ty definition.params

end Env

/-- The definitions have consecutive numbers from the given one on, and are listed with the place at
which their bodies are entered. -/
def NumberedFrom (first : Nat) (definitions : List Definition) : Prop :=
  ∀ index (definition : Definition), definitions[index]? = some definition →
    ∃ outer : Env, definition.1 = outer.enter (first + index) definition.2 ∧
      outer.Owned (first + index)

theorem NumberedFrom.nil {first : Nat} : NumberedFrom first [] :=
  fun _ _ found => nomatch found

theorem NumberedFrom.append {first second : Nat} {definitions more : List Definition}
    (numbered : NumberedFrom first definitions) (follows : second = first + definitions.length)
    (later : NumberedFrom second more) : NumberedFrom first (definitions ++ more) := by
  intro index definition found
  by_cases inFirst : index < definitions.length
  · rw [List.getElem?_append_left inFirst] at found
    exact numbered index definition found
  · rw [List.getElem?_append_right (by omega)] at found
    have number : first + index = second + (index - definitions.length) := by omega
    rw [number]
    exact later _ definition found

theorem NumberedFrom.cons {first : Nat} {outer : Env} {definition : FnDef}
    {definitions : List Definition} (owned : outer.Owned first)
    (later : NumberedFrom (first + 1) definitions) :
    NumberedFrom first ((outer.enter first definition, definition) :: definitions) := by
  intro index found lookup
  cases index with
  | zero =>
      cases lookup
      exact ⟨outer, rfl, owned⟩
  | succ index =>
      rw [show first + (index + 1) = first + 1 + index by omega]
      exact later index found lookup

theorem FnDef.length_entries (env : Env) (id : Nat) (definitions : List FnDef) :
    (FnDef.entries env id definitions).length = definitions.length := by
  induction definitions generalizing env id with
  | nil => rfl
  | cons definition definitions ih => exact congrArg (· + 1) (ih _ _)

theorem FnDef.numbered_entries {env : Env} {id : Nat} (owned : env.Owned id)
    (definitions : List FnDef) : NumberedFrom id (FnDef.entries env id definitions) := by
  induction definitions generalizing env id with
  | nil => exact .nil
  | cons definition definitions ih => exact .cons owned (ih (owned.mono (Nat.le_succ id)))

mutual

theorem Stmt.numbered_definitions {env : Env} (placed : env.Placed env.defined) : (stmt : Stmt) →
    (stmt.definitions env).length = stmt.count ∧ NumberedFrom env.defined (stmt.definitions env)
  | .ifElse _ thenBlock none => by
      rw [Stmt.definitions, Stmt.count]
      exact thenBlock.numbered_definitions placed
  | .ifElse _ thenBlock (some elseBlock) => by
      obtain ⟨thenLength, thenNumbered⟩ := thenBlock.numbered_definitions placed
      have passed : (thenBlock.pass env).Placed (thenBlock.pass env).defined :=
        (placed.mono (by rw [thenBlock.defined_pass]; omega)).congr (thenBlock.toNames_pass env)
      obtain ⟨elseLength, elseNumbered⟩ := elseBlock.numbered_definitions passed
      rw [Stmt.definitions, Stmt.count, List.length_append, thenLength, elseLength]
      exact ⟨rfl, thenNumbered.append (by rw [thenBlock.defined_pass, thenLength]) elseNumbered⟩
  | .whileDo _ body | .block body => by
      rw [Stmt.definitions, Stmt.count]
      exact body.numbered_definitions placed
  | .forRange _ name _ _ body => by
      have hidden : (env.hide name).Placed (env.hide name).defined := by
        rw [env.defined_hide]
        exact placed.congr (env.toNames_hide name)
      rw [Stmt.definitions, Stmt.count, ← env.defined_hide name]
      exact body.numbered_definitions hidden
  | .store .. | .print .. | .ret .. | .expr .. => by
      rw [Stmt.definitions, Stmt.count]
      exact ⟨rfl, .nil⟩

theorem Stmt.numbered_definitionsAll {env : Env} (placed : env.Placed env.defined) :
    (stmts : List Stmt) → (Stmt.definitionsAll env stmts).length = Stmt.countAll stmts ∧
      NumberedFrom env.defined (Stmt.definitionsAll env stmts)
  | [] => by
      rw [Stmt.definitionsAll, Stmt.countAll]
      exact ⟨rfl, .nil⟩
  | stmt :: stmts => by
      obtain ⟨firstLength, firstNumbered⟩ := stmt.numbered_definitions placed
      have passed : (stmt.pass env).Placed (stmt.pass env).defined :=
        (placed.mono (by rw [stmt.defined_pass]; omega)).congr (stmt.toNames_pass env)
      obtain ⟨restLength, restNumbered⟩ := Stmt.numbered_definitionsAll passed stmts
      rw [Stmt.definitionsAll, Stmt.countAll, List.length_append, firstLength, restLength]
      exact ⟨rfl, firstNumbered.append (by rw [stmt.defined_pass, firstLength]) restNumbered⟩

theorem Block.numbered_definitions {env : Env} (placed : env.Placed env.defined) :
    (block : Block) → (block.definitions env).length = block.count ∧
      NumberedFrom env.defined (block.definitions env)
  | ⟨vars, functions, stmts⟩ => by
      have declared := placed.declareBlock vars functions
      have entriesLength :=
        FnDef.length_entries (env.declareBlock vars functions) env.defined functions
      obtain ⟨nestedLength, nestedNumbered⟩ :=
        FnDef.numbered_definitionsAll declared.owned functions
          (Nat.le_of_eq (env.defined_declareBlock vars functions).symm)
      obtain ⟨stmtsLength, stmtsNumbered⟩ := Stmt.numbered_definitionsAll
        ((placed.inside vars functions).mono (by rw [env.defined_inside]; omega)) stmts
      rw [Block.definitions, Block.count, List.length_append, List.length_append, entriesLength,
        nestedLength, stmtsLength]
      refine ⟨rfl, ((FnDef.numbered_entries declared.owned _).append ?_ nestedNumbered).append ?_
        stmtsNumbered⟩
      · rw [env.defined_declareBlock, entriesLength]
      · rw [env.defined_inside, List.length_append, entriesLength, nestedLength, Nat.add_assoc]

theorem FnDef.numbered_definitionsAll {env : Env} {id : Nat} (owned : env.Owned id) :
    (definitions : List FnDef) → id + definitions.length ≤ env.defined →
      (FnDef.definitionsAll env id definitions).length = FnDef.countAll definitions ∧
        NumberedFrom env.defined (FnDef.definitionsAll env id definitions)
  | [], _ => by
      rw [FnDef.definitionsAll, FnDef.countAll]
      exact ⟨rfl, .nil⟩
  | definition :: definitions, inside => by
      rw [List.length_cons] at inside
      have entered : (env.enter id definition).Placed (env.enter id definition).defined := by
        rw [Env.defined_enter]
        exact owned.enter (by omega) definition
      obtain ⟨firstLength, firstNumbered⟩ := definition.numbered_definitions entered
      have later : (env.past definition.count).Owned (id + 1) := owned.mono (Nat.le_succ id)
      have room : id + 1 + definitions.length ≤ (env.past definition.count).defined := by
        change _ ≤ env.defined + definition.count
        omega
      obtain ⟨restLength, restNumbered⟩ := FnDef.numbered_definitionsAll later definitions room
      rw [Env.defined_enter] at firstNumbered
      rw [FnDef.definitionsAll, FnDef.countAll, List.length_append, firstLength, restLength]
      exact ⟨rfl, firstNumbered.append (by rw [firstLength]; rfl) restNumbered⟩

theorem FnDef.numbered_definitions {env : Env} (placed : env.Placed env.defined) :
    (definition : FnDef) → (definition.definitions env).length = definition.count ∧
      NumberedFrom env.defined (definition.definitions env)
  | ⟨_, _, _, .block body, _⟩ => by
      rw [FnDef.definitions, FnDef.count]
      exact body.numbered_definitions placed
  | ⟨_, _, _, .native _, _⟩ => by
      rw [FnDef.definitions, FnDef.count]
      exact ⟨rfl, .nil⟩

end

/-- The place outside of all functions, where only the top-level function has a name. -/
def Program.outside (program : Program) : Env where
  function := 0
  returnType := .void
  var := fun _ => none
  callee := fun name => if name = program.top.name then some (0, program.top.signature) else none
  taken := []
  defined := 1

/-- Every function of a program, at the index that is its number. -/
def Program.definitions (program : Program) : List Definition :=
  let env := program.outside.enter 0 program.top
  (env, program.top) :: program.top.definitions env

theorem Program.owned_outside (program : Program) : program.outside.Owned 0 :=
  fun _ _ found => nomatch found

theorem Program.placed_enter (program : Program) :
    (program.outside.enter 0 program.top).Placed
      (program.outside.enter 0 program.top).defined := by
  rw [Env.defined_enter]
  exact program.owned_outside.enter Nat.zero_lt_one program.top

theorem Program.length_definitions (program : Program) :
    program.definitions.length = 1 + program.top.count := by
  rw [definitions, List.length_cons, (FnDef.numbered_definitions program.placed_enter _).1,
    Nat.add_comm]

/-- The index of a function is its number. -/
theorem Program.numbered_definitions (program : Program) : NumberedFrom 0 program.definitions := by
  have numbered := (program.top.numbered_definitions program.placed_enter).2
  rw [Env.defined_enter] at numbered
  exact .cons program.owned_outside numbered

/-- The place at which a function is entered, seen from where it is defined. -/
theorem Program.enter_definition {program : Program} {index : Nat} {definition : Definition}
    (found : program.definitions[index]? = some definition) :
    ∃ outer : Env, definition.1 = outer.enter index definition.2 ∧ outer.Owned index := by
  have entered := program.numbered_definitions index definition found
  rwa [Nat.zero_add] at entered

theorem Program.function_definition {program : Program} {index : Nat} {definition : Definition}
    (found : program.definitions[index]? = some definition) :
    definition.1.function = UInt16.ofNat index := by
  obtain ⟨outer, entered, -⟩ := program.enter_definition found
  rw [entered, Env.function_enter]

end Backpatch
