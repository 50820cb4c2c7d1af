import Backpatch.Proofs.HiddenSlots

/-!
# Places in a program

Around every place of a program stand layers of declarations, innermost first: the open blocks of a
function, then its parameters, then the blocks that are open where the function is defined, and so
on outward.  A name means the last declaration of it in the innermost layer that declares it.  This
file lists the layers around every function of a program, and proves that searching them gives what
the environments of the program say.
-/

namespace Backpatch

/-- Declarations that stand together: those of a block, or the parameters of a function. -/
structure Layer where
  /-- The number of the function to which they belong. -/
  function : UInt16
  /-- The types of the slots that the function has used before. -/
  taken : List Ty
  /-- The variables or parameters, in the order of their declaration. -/
  vars : List (String × Ty)
  /-- The number of functions defined before in the whole program. -/
  defined : Nat
  /-- The functions of the block, which are numbered one after the other. -/
  functions : List FnDef

namespace Layer

/-- The declared names with their slots. -/
def slots (layer : Layer) : List (String × Slot) :=
  (layer.vars.map (·.1)).zip (Slot.numbered layer.function layer.taken (layer.vars.map (·.2)))

/-- The names of the functions with their numbers and signatures. -/
def callees (layer : Layer) : List (String × UInt16 × Signature) :=
  (layer.functions.zipIdx layer.defined).map fun (definition, number) =>
    (definition.name, UInt16.ofNat number, definition.signature)

/-- The slot of the last declaration of a name. -/
def var? (layer : Layer) (name : String) : Option Slot :=
  layer.slots.reverse.lookup name

/-- The last function of a name. -/
def callee? (layer : Layer) (name : String) : Option (UInt16 × Signature) :=
  layer.callees.reverse.lookup name

theorem mem_numbered_of_var? (layer : Layer) {name : String} {slot : Slot}
    (found : layer.var? name = some slot) :
    slot ∈ Slot.numbered layer.function layer.taken (layer.vars.map (·.2)) := by
  obtain ⟨_, _, split, -⟩ := List.lookup_eq_some_iff.mp found
  have declared : (name, slot) ∈ layer.slots := by
    rw [← List.mem_reverse, split]
    exact List.mem_append_right _ List.mem_cons_self
  exact (List.of_mem_zip declared).2

end Layer

/-- A place in a function, with what is declared around it and what is numbered before it. -/
structure Place where
  /-- The top-level function of the program. -/
  entry : FnDef
  /-- The declarations around the place, innermost first. -/
  layers : List Layer
  /-- The number of the function. -/
  function : UInt16
  returnType : Ty
  /-- The types of the slots that the function has used so far. -/
  taken : List Ty
  /-- The number of functions defined so far in the whole program. -/
  defined : Nat

namespace Place

/-- The variable that a name means. -/
def var? (place : Place) (name : String) : Option Slot :=
  place.layers.findSome? (·.var? name)

/-- The function that a name means: that of the innermost block which defines one of the name, else
the top-level function. -/
def callee? (place : Place) (name : String) : Option (UInt16 × Signature) :=
  (place.layers.findSome? (·.callee? name)).or
    (if name = place.entry.name then some (0, place.entry.signature) else none)

/-- The functions around the function of the place. -/
def ancestors (place : Place) : List UInt16 :=
  (place.layers.map (·.function)).filter (· != place.function)

/-- What names mean at a place. -/
def toEnv (place : Place) : Env where
  function := place.function
  returnType := place.returnType
  var := place.var?
  callee := place.callee?
  taken := place.taken
  defined := place.defined

@[simp]
theorem function_toEnv (place : Place) : place.toEnv.function = place.function :=
  rfl

/-- The declarations of a block that is entered at a place. -/
def layer (place : Place) (vars : List VarDecl) (functions : List FnDef) : Layer where
  function := place.function
  taken := place.taken
  vars := vars.map fun var => (var.name, var.ty)
  defined := place.defined
  functions := functions

/-- The place behind the declarations of a block, before anything inside its functions is
numbered. -/
def declareBlock (place : Place) (vars : List VarDecl) (functions : List FnDef) : Place :=
  { place with
    layers := place.layer vars functions :: place.layers
    taken := place.taken ++ vars.map (·.ty)
    defined := place.defined + functions.length }

/-- The place at which the body of a function begins. -/
def enter (place : Place) (id : Nat) (definition : FnDef) : Place :=
  { place with
    layers :=
      { function := UInt16.ofNat id
        taken := []
        vars := definition.params.map fun param => (param.name, param.ty)
        defined := place.defined
        functions := [] } :: place.layers
    function := UInt16.ofNat id
    returnType := definition.returnType
    taken := definition.params.map (·.ty) }

/-- The place behind functions that are defined inside other functions. -/
def past (place : Place) (count : Nat) : Place :=
  { place with defined := place.defined + count }

/-- The place at which the statements of a block begin. -/
def inside (place : Place) (vars : List VarDecl) (functions : List FnDef) : Place :=
  (place.declareBlock vars functions).past (FnDef.countAll functions)

/-- A later place among the same declarations, at which the numbering has got as far as in the given
environment. -/
def behind (place : Place) (env : Env) : Place :=
  { place with
    taken := env.taken
    defined := env.defined }

theorem lookup_singleton {α : Type} (name other : String) (value : α) :
    [(other, value)].lookup name = if name = other then some value else none := by
  by_cases same : name = other
  · rw [same, List.lookup_cons_self, if_pos rfl]
  · rw [List.lookup_cons, beq_false_of_ne same, if_neg same, List.lookup_nil]

/-- Behind declarations a name means the last of them, or what it meant before. -/
theorem foldl_declare_eq {α : Type} (env : Env) (name : α → String) (ty : α → Ty)
    (declarations : List α) (defined : Nat) (functions : List FnDef) :
    declarations.foldl
        (fun env declaration => env.declare (name declaration) (ty declaration)) env =
      { env with
        var := fun read =>
          (Layer.var? ⟨env.function, env.taken,
            declarations.map fun declaration => (name declaration, ty declaration), defined,
            functions⟩ read).or (env.var read)
        taken := env.taken ++ declarations.map ty } := by
  induction declarations generalizing env with
  | nil => simp [Layer.var?, Layer.slots]
  | cons declaration declarations ih =>
      rw [List.foldl_cons, ih]
      simp only [Env.declare, List.map_cons, List.append_assoc, List.singleton_append]
      congr 2
      funext read
      simp only [Layer.var?, Layer.slots, List.map_cons, Slot.numbered, List.zip_cons_cons,
        List.reverse_cons, List.lookup_append, lookup_singleton, Option.or_assoc]
      congr 1
      split <;> simp [Env.next]

theorem foldl_define_eq (env : Env) (definitions : List FnDef) (function : UInt16)
    (taken : List Ty) (vars : List (String × Ty)) :
    definitions.foldl Env.define env =
      { env with
        callee := fun read =>
          (Layer.callee? ⟨function, taken, vars, env.defined, definitions⟩ read).or
            (env.callee read)
        defined := env.defined + definitions.length } := by
  induction definitions generalizing env with
  | nil => simp [Layer.callee?, Layer.callees]
  | cons definition definitions ih =>
      rw [List.foldl_cons, ih]
      have count :
          env.defined + 1 + definitions.length = env.defined + (definitions.length + 1) := by
        omega
      simp only [Env.define, List.length_cons, count]
      congr 2
      funext read
      simp only [Layer.callee?, Layer.callees, List.zipIdx_cons, List.map_cons, List.reverse_cons,
        List.lookup_append, lookup_singleton, Option.or_assoc]
      congr 1
      split <;> simp

theorem var?_of_layers {place : Place} {layer : Layer} {layers : List Layer}
    (split : place.layers = layer :: layers) (name : String) :
    place.var? name = (layer.var? name).or (layers.findSome? (·.var? name)) := by
  rw [var?, split, List.findSome?_cons]
  cases layer.var? name <;> rfl

theorem callee?_of_layers {place : Place} {layer : Layer} {layers : List Layer}
    (split : place.layers = layer :: layers) (name : String) :
    place.callee? name =
      (layer.callee? name).or ((layers.findSome? (·.callee? name)).or
        (if name = place.entry.name then some (0, place.entry.signature) else none)) := by
  rw [callee?, split, List.findSome?_cons]
  cases layer.callee? name <;> rfl

@[simp]
theorem toEnv_declareBlock (place : Place) (vars : List VarDecl) (functions : List FnDef) :
    (place.declareBlock vars functions).toEnv = place.toEnv.declareBlock vars functions := by
  have var := funext (@var?_of_layers (place.declareBlock vars functions) _ _ rfl)
  have callee := funext (@callee?_of_layers (place.declareBlock vars functions) _ _ rfl)
  rw [Env.declareBlock, foldl_declare_eq _ VarDecl.name VarDecl.ty vars place.defined functions,
    foldl_define_eq _ functions place.function place.taken
      (vars.map fun var => (var.name, var.ty)), toEnv, var, callee]
  rfl

@[simp]
theorem toEnv_enter (place : Place) (id : Nat) (definition : FnDef) :
    (place.enter id definition).toEnv = place.toEnv.enter id definition := by
  have var := funext (@var?_of_layers (place.enter id definition) _ _ rfl)
  have callee : (place.enter id definition).callee? = place.callee? :=
    funext (@callee?_of_layers (place.enter id definition) _ _ rfl)
  rw [Env.enter, foldl_declare_eq _ ParamDecl.name ParamDecl.ty definition.params place.defined [],
    toEnv, var, callee]
  rfl

@[simp]
theorem toEnv_past (place : Place) (count : Nat) :
    (place.past count).toEnv = place.toEnv.past count :=
  rfl

@[simp]
theorem toEnv_inside (place : Place) (vars : List VarDecl) (functions : List FnDef) :
    (place.inside vars functions).toEnv = place.toEnv.inside vars functions := by
  rw [inside, toEnv_past, toEnv_declareBlock, Env.inside]

theorem toEnv_behind {place : Place} {env : Env} (same : env.toNames = place.toEnv.toNames) :
    (place.behind env).toEnv = env := by
  obtain ⟨names, taken, defined⟩ := env
  cases same
  rfl

@[simp]
theorem toEnv_behind_hide (place : Place) (name : String) :
    (place.behind (place.toEnv.hide name)).toEnv = place.toEnv.hide name :=
  toEnv_behind (Env.toNames_hide _ name)

@[simp]
theorem toEnv_behind_stmt (place : Place) (stmt : Stmt) :
    (place.behind (stmt.pass place.toEnv)).toEnv = stmt.pass place.toEnv :=
  toEnv_behind (stmt.toNames_pass _)

@[simp]
theorem toEnv_behind_block (place : Place) (block : Block) :
    (place.behind (block.pass place.toEnv)).toEnv = block.pass place.toEnv :=
  toEnv_behind (block.toNames_pass _)

/-- A variable that can be named belongs to the function of the place, or to one around it. -/
theorem context_of_var? {place : Place} {name : String} {slot : Slot}
    (found : place.var? name = some slot) :
    slot.context = place.function ∨ slot.context ∈ place.ancestors := by
  obtain ⟨layer, member, found⟩ := List.exists_of_findSome?_eq_some found
  have context : slot.context = layer.function :=
    (Slot.between_numbered (layer.mem_numbered_of_var? found)).1
  rw [ancestors, List.mem_filter, context]
  by_cases own : layer.function = place.function
  · exact .inl own
  · exact .inr ⟨List.mem_map_of_mem member, by simpa using own⟩

end Place

/-- A function definition with the place at which its body begins. -/
abbrev PlacedDef := Place × FnDef

/-- The functions that a block itself defines, numbered from a given number on. -/
def FnDef.placedEntries (place : Place) (id : Nat) : List FnDef → List PlacedDef
  | [] => []
  | definition :: definitions =>
      (place.enter id definition, definition) ::
        FnDef.placedEntries (place.past definition.count) (id + 1) definitions

mutual

/-- The functions defined inside a statement, in the order of their numbers. -/
def Stmt.places (place : Place) : Stmt → List PlacedDef
  | .ifElse _ thenBlock none => thenBlock.places place
  | .ifElse _ thenBlock (some elseBlock) =>
      thenBlock.places place ++ elseBlock.places (place.behind (thenBlock.pass place.toEnv))
  | .whileDo _ body => body.places place
  | .forRange _ name _ _ body => body.places (place.behind (place.toEnv.hide name))
  | .block body => body.places place
  | .store .. | .print .. | .ret .. | .expr .. => []

def Stmt.placesAll (place : Place) : List Stmt → List PlacedDef
  | [] => []
  | stmt :: stmts =>
      stmt.places place ++ Stmt.placesAll (place.behind (stmt.pass place.toEnv)) stmts

def Block.places (place : Place) : Block → List PlacedDef
  | ⟨vars, functions, stmts⟩ =>
      FnDef.placedEntries (place.declareBlock vars functions) place.defined functions ++
        FnDef.placesAll (place.declareBlock vars functions) place.defined functions ++
        Stmt.placesAll (place.inside vars functions) stmts

/-- The functions defined inside functions that are numbered from a given number on. -/
def FnDef.placesAll (place : Place) (id : Nat) : List FnDef → List PlacedDef
  | [] => []
  | definition :: definitions =>
      definition.places (place.enter id definition) ++
        FnDef.placesAll (place.past definition.count) (id + 1) definitions

def FnDef.places (place : Place) : FnDef → List PlacedDef
  | ⟨_, _, _, .block body, _⟩ => body.places place
  | ⟨_, _, _, .native _, _⟩ => []

end

/-- Forget the layers, but not what names mean. -/
def PlacedDef.toDefinition (placed : PlacedDef) : Definition :=
  (placed.1.toEnv, placed.2)

theorem FnDef.map_placedEntries (place : Place) (id : Nat) (definitions : List FnDef) :
    (FnDef.placedEntries place id definitions).map PlacedDef.toDefinition =
      FnDef.entries place.toEnv id definitions := by
  induction definitions generalizing place id with
  | nil => rfl
  | cons definition definitions ih =>
      rw [placedEntries, entries, List.map_cons, ih, PlacedDef.toDefinition, Place.toEnv_enter,
        Place.toEnv_past]

mutual

theorem Stmt.map_places (place : Place) : (stmt : Stmt) →
    (stmt.places place).map PlacedDef.toDefinition = stmt.definitions place.toEnv
  | .ifElse _ thenBlock none => by
      rw [Stmt.places, Stmt.definitions, thenBlock.map_places]
  | .ifElse _ thenBlock (some elseBlock) => by
      rw [Stmt.places, Stmt.definitions, List.map_append, thenBlock.map_places,
        elseBlock.map_places, Place.toEnv_behind_block]
  | .whileDo _ body | .block body => by
      rw [Stmt.places, Stmt.definitions, body.map_places]
  | .forRange _ name _ _ body => by
      rw [Stmt.places, Stmt.definitions, body.map_places, Place.toEnv_behind_hide]
  | .store .. | .print .. | .ret .. | .expr .. => by
      rw [Stmt.places, Stmt.definitions, List.map_nil]

theorem Stmt.map_placesAll (place : Place) : (stmts : List Stmt) →
    (Stmt.placesAll place stmts).map PlacedDef.toDefinition =
      Stmt.definitionsAll place.toEnv stmts
  | [] => by rw [Stmt.placesAll, Stmt.definitionsAll, List.map_nil]
  | stmt :: stmts => by
      rw [Stmt.placesAll, Stmt.definitionsAll, List.map_append, stmt.map_places,
        Stmt.map_placesAll, Place.toEnv_behind_stmt]

theorem Block.map_places (place : Place) : (block : Block) →
    (block.places place).map PlacedDef.toDefinition = block.definitions place.toEnv
  | ⟨vars, functions, stmts⟩ => by
      rw [Block.places, Block.definitions, List.map_append, List.map_append,
        FnDef.map_placedEntries, FnDef.map_placesAll, Stmt.map_placesAll,
        Place.toEnv_declareBlock, Place.toEnv_inside]
      rfl

theorem FnDef.map_placesAll (place : Place) (id : Nat) : (definitions : List FnDef) →
    (FnDef.placesAll place id definitions).map PlacedDef.toDefinition =
      FnDef.definitionsAll place.toEnv id definitions
  | [] => by rw [FnDef.placesAll, FnDef.definitionsAll, List.map_nil]
  | definition :: definitions => by
      rw [FnDef.placesAll, FnDef.definitionsAll, List.map_append, definition.map_places,
        FnDef.map_placesAll, Place.toEnv_enter, Place.toEnv_past]

theorem FnDef.map_places (place : Place) : (definition : FnDef) →
    (definition.places place).map PlacedDef.toDefinition = definition.definitions place.toEnv
  | ⟨_, _, _, .block body, _⟩ => by
      rw [FnDef.places, FnDef.definitions, body.map_places]
  | ⟨_, _, _, .native _, _⟩ => by
      rw [FnDef.places, FnDef.definitions, List.map_nil]

end

/-- The place outside of all functions. -/
def Program.outsidePlace (program : Program) : Place where
  entry := program.top
  layers := []
  function := 0
  returnType := .void
  taken := []
  defined := 1

/-- Every function of a program with its place, at the index that is its number. -/
def Program.places (program : Program) : List PlacedDef :=
  let place := program.outsidePlace.enter 0 program.top
  (place, program.top) :: program.top.places place

/-- The places of functions say what the environments of the functions say. -/
theorem Program.map_places (program : Program) :
    program.places.map PlacedDef.toDefinition = program.definitions := by
  have outside : program.outsidePlace.toEnv = program.outside := rfl
  rw [places, definitions, List.map_cons, FnDef.map_places, PlacedDef.toDefinition,
    Place.toEnv_enter, outside]

theorem Program.getElem?_definitions {program : Program} {index : Nat} {place : Place}
    {definition : FnDef} (found : program.places[index]? = some (place, definition)) :
    program.definitions[index]? = some (place.toEnv, definition) := by
  rw [← program.map_places, List.getElem?_map, found]
  rfl

end Backpatch
