import Backpatch.Program

/-!
# Where functions are defined in a program

A function definition occurs in a program at the end of a path, which leads from the body of the
top-level function through functions of blocks and through blocks of statements.  The occurrences
are listed here in two orders: in one a block first has its own functions, then what is inside them
and then what is in its statements; in the other every function stands directly before what is
inside it.  A compilation numbers functions in the first order and compiles them in the second.

Each list has every occurrence once.  With an occurrence stands the number of blocks that are
entered before its body, when blocks are entered in the second order; no two bodies have the same.
-/

namespace Backpatch

/-- A way from a block into a part of it. -/
inductive Step
  /-- Into the body of a function that the block defines. -/
  | function (index : Nat)
  /-- Into one of the blocks of a statement, of which a conditional may have two. -/
  | stmt (index way : Nat)
  deriving DecidableEq

/-- The steps from the body of the top-level function, the last one first. -/
abbrev Path := List Step

/-- The block that a function has for its body, unless it stands for a native one. -/
def FnDef.block? : FnDef → Option Block
  | ⟨_, _, _, .block body, _⟩ => some body
  | ⟨_, _, _, .native _, _⟩ => none

/-- The blocks directly in a statement. -/
def Stmt.blocks : Stmt → List Block
  | .ifElse _ thenBlock none => [thenBlock]
  | .ifElse _ thenBlock (some elseBlock) => [thenBlock, elseBlock]
  | .whileDo _ body | .forRange _ _ _ _ body | .block body => [body]
  | .store .. | .print .. | .ret .. | .expr .. => []

namespace Program

/-- The block to which a path leads. -/
def blockAt? (program : Program) : Path → Option Block
  | [] => program.top.block?
  | .function index :: path =>
      (program.blockAt? path).bind fun block => block.functions[index]?.bind FnDef.block?
  | .stmt index way :: path =>
      (program.blockAt? path).bind fun block => block.stmts[index]?.bind fun stmt =>
        stmt.blocks[way]?

/-- The function definition to whose body a path leads. -/
def functionAt? (program : Program) : Path → Option FnDef
  | [] => some program.top
  | .function index :: path => (program.blockAt? path).bind fun block => block.functions[index]?
  | .stmt .. :: _ => none

end Program

mutual

def Stmt.blockCount : Stmt → Nat
  | .ifElse _ thenBlock none => thenBlock.blockCount
  | .ifElse _ thenBlock (some elseBlock) => thenBlock.blockCount + elseBlock.blockCount
  | .whileDo _ body | .forRange _ _ _ _ body | .block body => body.blockCount
  | .store .. | .print .. | .ret .. | .expr .. => 0

def Stmt.blockCountAll : List Stmt → Nat
  | [] => 0
  | stmt :: stmts => stmt.blockCount + Stmt.blockCountAll stmts

/-- The number of blocks in a block, itself and those of functions counted. -/
def Block.blockCount : Block → Nat
  | ⟨_, functions, stmts⟩ => 1 + FnDef.blockCountAll functions + Stmt.blockCountAll stmts

def FnDef.blockCountAll : List FnDef → Nat
  | [] => 0
  | definition :: definitions => definition.blockCount + FnDef.blockCountAll definitions

def FnDef.blockCount : FnDef → Nat
  | ⟨_, _, _, .block body, _⟩ => body.blockCount
  | ⟨_, _, _, .native _, _⟩ => 0

end

/-- The number of blocks in a program. -/
def Program.blockCount (program : Program) : Nat :=
  program.top.blockCount

/-- A function definition where it occurs in a program. -/
structure Occurrence where
  path : Path
  /-- The number of blocks that are entered before the body of the function. -/
  entered : Nat
  definition : FnDef

/-- The functions that a block itself defines, from an index on. -/
def FnDef.occurrences (path : Path) (index entered : Nat) : List FnDef → List Occurrence
  | [] => []
  | definition :: definitions =>
      ⟨.function index :: path, entered, definition⟩ ::
        FnDef.occurrences path (index + 1) (entered + definition.blockCount) definitions

mutual

/-- The functions in the statement of an index, in the order in which they are numbered. -/
def Stmt.registered (path : Path) (index entered : Nat) : Stmt → List Occurrence
  | .ifElse _ thenBlock none => thenBlock.registered (.stmt index 0 :: path) entered
  | .ifElse _ thenBlock (some elseBlock) =>
      thenBlock.registered (.stmt index 0 :: path) entered ++
        elseBlock.registered (.stmt index 1 :: path) (entered + thenBlock.blockCount)
  | .whileDo _ body | .forRange _ _ _ _ body | .block body =>
      body.registered (.stmt index 0 :: path) entered
  | .store .. | .print .. | .ret .. | .expr .. => []

def Stmt.registeredAll (path : Path) (index entered : Nat) : List Stmt → List Occurrence
  | [] => []
  | stmt :: stmts =>
      stmt.registered path index entered ++
        Stmt.registeredAll path (index + 1) (entered + stmt.blockCount) stmts

def Block.registered (path : Path) (entered : Nat) : Block → List Occurrence
  | ⟨_, functions, stmts⟩ =>
      FnDef.occurrences path 0 (entered + 1) functions ++
        FnDef.registeredAll path 0 (entered + 1) functions ++
        Stmt.registeredAll path 0 (entered + 1 + FnDef.blockCountAll functions) stmts

/-- The functions inside those that a block defines from an index on. -/
def FnDef.registeredAll (path : Path) (index entered : Nat) : List FnDef → List Occurrence
  | [] => []
  | definition :: definitions =>
      definition.registered (.function index :: path) entered ++
        FnDef.registeredAll path (index + 1) (entered + definition.blockCount) definitions

def FnDef.registered (path : Path) (entered : Nat) : FnDef → List Occurrence
  | ⟨_, _, _, .block body, _⟩ => body.registered path entered
  | ⟨_, _, _, .native _, _⟩ => []

end

mutual

/-- The functions in the statement of an index, in the order in which they are compiled. -/
def Stmt.compiled (path : Path) (index entered : Nat) : Stmt → List Occurrence
  | .ifElse _ thenBlock none => thenBlock.compiled (.stmt index 0 :: path) entered
  | .ifElse _ thenBlock (some elseBlock) =>
      thenBlock.compiled (.stmt index 0 :: path) entered ++
        elseBlock.compiled (.stmt index 1 :: path) (entered + thenBlock.blockCount)
  | .whileDo _ body | .forRange _ _ _ _ body | .block body =>
      body.compiled (.stmt index 0 :: path) entered
  | .store .. | .print .. | .ret .. | .expr .. => []

def Stmt.compiledAll (path : Path) (index entered : Nat) : List Stmt → List Occurrence
  | [] => []
  | stmt :: stmts =>
      stmt.compiled path index entered ++
        Stmt.compiledAll path (index + 1) (entered + stmt.blockCount) stmts

def Block.compiled (path : Path) (entered : Nat) : Block → List Occurrence
  | ⟨_, functions, stmts⟩ =>
      FnDef.compiledAll path 0 (entered + 1) functions ++
        Stmt.compiledAll path 0 (entered + 1 + FnDef.blockCountAll functions) stmts

/-- The functions that a block defines from an index on, with those inside them. -/
def FnDef.compiledAll (path : Path) (index entered : Nat) : List FnDef → List Occurrence
  | [] => []
  | definition :: definitions =>
      ⟨.function index :: path, entered, definition⟩ ::
        (definition.compiled (.function index :: path) entered ++
          FnDef.compiledAll path (index + 1) (entered + definition.blockCount) definitions)

def FnDef.compiled (path : Path) (entered : Nat) : FnDef → List Occurrence
  | ⟨_, _, _, .block body, _⟩ => body.compiled path entered
  | ⟨_, _, _, .native _, _⟩ => []

end

namespace Program

/-- The functions of a program in the order in which they are numbered. -/
def registered (program : Program) : List Occurrence :=
  ⟨[], 0, program.top⟩ :: program.top.registered [] 0

/-- The functions of a program in the order in which they are compiled. -/
def compiled (program : Program) : List Occurrence :=
  ⟨[], 0, program.top⟩ :: program.top.compiled [] 0

end Program

mutual

theorem Stmt.registered_perm (path : Path) (index entered : Nat) :
    (stmt : Stmt) → (stmt.registered path index entered).Perm (stmt.compiled path index entered)
  | .ifElse _ thenBlock none => by
      rw [Stmt.registered, Stmt.compiled]
      exact thenBlock.registered_perm _ _
  | .ifElse _ thenBlock (some elseBlock) => by
      rw [Stmt.registered, Stmt.compiled]
      exact (thenBlock.registered_perm _ _).append (elseBlock.registered_perm _ _)
  | .whileDo _ body | .forRange _ _ _ _ body | .block body => by
      rw [Stmt.registered, Stmt.compiled]
      exact body.registered_perm _ _
  | .store .. | .print .. | .ret .. | .expr .. => by
      rw [Stmt.registered, Stmt.compiled]

theorem Stmt.registeredAll_perm (path : Path) (index entered : Nat) : (stmts : List Stmt) →
    (Stmt.registeredAll path index entered stmts).Perm (Stmt.compiledAll path index entered stmts)
  | [] => by rw [Stmt.registeredAll, Stmt.compiledAll]
  | stmt :: stmts => by
      rw [Stmt.registeredAll, Stmt.compiledAll]
      exact (stmt.registered_perm _ _ _).append (Stmt.registeredAll_perm _ _ _ stmts)

theorem Block.registered_perm (path : Path) (entered : Nat) :
    (block : Block) → (block.registered path entered).Perm (block.compiled path entered)
  | ⟨_, functions, stmts⟩ => by
      rw [Block.registered, Block.compiled]
      exact (FnDef.registeredAll_perm _ _ _ functions).append (Stmt.registeredAll_perm _ _ _ stmts)

theorem FnDef.registeredAll_perm (path : Path) (index entered : Nat) :
    (definitions : List FnDef) →
      (FnDef.occurrences path index entered definitions ++
        FnDef.registeredAll path index entered definitions).Perm
          (FnDef.compiledAll path index entered definitions)
  | [] => by
      rw [FnDef.occurrences, FnDef.registeredAll, FnDef.compiledAll]
      exact .nil
  | definition :: definitions => by
      rw [FnDef.occurrences, FnDef.registeredAll, FnDef.compiledAll, List.cons_append]
      -- What is inside the first function comes before the other functions of the block.
      refine .cons _ (List.perm_append_comm_assoc _ _ _ |>.trans ?_)
      exact (definition.registered_perm _ _).append (FnDef.registeredAll_perm _ _ _ definitions)

theorem FnDef.registered_perm (path : Path) (entered : Nat) :
    (definition : FnDef) →
      (definition.registered path entered).Perm (definition.compiled path entered)
  | ⟨_, _, _, .block body, _⟩ => by
      rw [FnDef.registered, FnDef.compiled]
      exact body.registered_perm _ _
  | ⟨_, _, _, .native _, _⟩ => by rw [FnDef.registered, FnDef.compiled]

end

theorem Program.registered_perm (program : Program) :
    program.registered.Perm program.compiled :=
  .cons _ (program.top.registered_perm [] 0)

/-- The occurrences are in different places, each behind one of the given steps from a path. -/
structure Separate (steps : Step → Prop) (path : Path) (occurrences : List Occurrence) : Prop where
  behind : ∀ occurrence ∈ occurrences, ∃ step, steps step ∧ step :: path <:+ occurrence.path
  distinct : (occurrences.map (·.path)).Nodup

namespace Separate

variable {steps others : Step → Prop} {path : Path} {step : Step}
  {occurrences more : List Occurrence}

theorem step_unique {other : Step} {longer : Path} (first : step :: path <:+ longer)
    (second : other :: path <:+ longer) : step = other := by
  obtain ⟨inner, rfl⟩ := first
  obtain ⟨otherInner, same⟩ := second
  exact ((List.cons.injEq ..).mp (List.append_inj_right' same rfl)).1.symm

theorem nil : Separate steps path [] :=
  ⟨fun _ member => (List.not_mem_nil member).elim, .nil⟩

theorem mono (separate : Separate steps path occurrences)
    (wider : ∀ step, steps step → others step) : Separate others path occurrences := by
  refine ⟨fun occurrence member => ?_, separate.distinct⟩
  obtain ⟨step, taken, suffix⟩ := separate.behind occurrence member
  exact ⟨step, wider step taken, suffix⟩

theorem append (first : Separate steps path occurrences) (second : Separate others path more)
    (disjoint : ∀ step, steps step → ¬ others step) :
    Separate (fun step => steps step ∨ others step) path (occurrences ++ more) := by
  refine ⟨fun occurrence member => ?_, ?_⟩
  · rcases List.mem_append.mp member with inFirst | inSecond
    · exact (first.mono fun _ => .inl).behind occurrence inFirst
    · exact (second.mono fun _ => .inr).behind occurrence inSecond
  · rw [List.map_append, List.nodup_append]
    refine ⟨first.distinct, second.distinct, fun place inFirst other inSecond same => ?_⟩
    obtain ⟨occurrence, member, rfl⟩ := List.mem_map.mp inFirst
    obtain ⟨later, laterMember, rfl⟩ := List.mem_map.mp inSecond
    obtain ⟨step, taken, suffix⟩ := first.behind occurrence member
    obtain ⟨laterStep, laterTaken, laterSuffix⟩ := second.behind later laterMember
    rw [same] at suffix
    exact disjoint step taken (step_unique suffix laterSuffix ▸ laterTaken)

/-- What is behind a longer path is behind its last step. -/
theorem inside (separate : Separate steps (step :: path) occurrences) :
    Separate (· = step) path occurrences := by
  refine ⟨fun occurrence member => ⟨step, rfl, ?_⟩, separate.distinct⟩
  obtain ⟨inner, -, suffix⟩ := separate.behind occurrence member
  exact (List.suffix_cons inner _).trans suffix

/-- A function and what is inside it. -/
theorem cons {entered : Nat} {definition : FnDef}
    (separate : Separate steps (step :: path) occurrences) :
    Separate (· = step) path (⟨step :: path, entered, definition⟩ :: occurrences) := by
  refine ⟨fun occurrence member => ⟨step, rfl, ?_⟩, ?_⟩
  · rcases List.mem_cons.mp member with rfl | nested
    · exact List.suffix_rfl
    · obtain ⟨_, rfl, suffix⟩ := separate.inside.behind occurrence nested
      exact suffix
  · rw [List.map_cons, List.nodup_cons]
    refine ⟨fun member => ?_, separate.distinct⟩
    obtain ⟨occurrence, nested, same⟩ := List.mem_map.mp member
    obtain ⟨inner, -, suffix⟩ := separate.behind occurrence nested
    rw [same] at suffix
    exact Nat.not_succ_le_self _ suffix.length_le

end Separate

/-- A step to a function of the given index or a later one. -/
def Step.IsFunctionFrom (index : Nat) (step : Step) : Prop :=
  ∃ later, index ≤ later ∧ step = .function later

/-- A step to a statement of the given index or a later one. -/
def Step.IsStmtFrom (index : Nat) (step : Step) : Prop :=
  ∃ later way, index ≤ later ∧ step = .stmt later way

mutual

theorem Stmt.separate_compiled (path : Path) (index entered : Nat) :
    (stmt : Stmt) → Separate (fun step => ∃ way, step = .stmt index way) path
      (stmt.compiled path index entered)
  | .ifElse _ thenBlock none => by
      rw [Stmt.compiled]
      exact (thenBlock.separate_compiled _ _).inside.mono fun _ same => ⟨0, same⟩
  | .ifElse _ thenBlock (some elseBlock) => by
      rw [Stmt.compiled]
      refine ((thenBlock.separate_compiled _ _).inside.append
        (elseBlock.separate_compiled _ _).inside ?_).mono ?_
      · rintro _ rfl same
        cases same
      · rintro _ (rfl | rfl)
        · exact ⟨0, rfl⟩
        · exact ⟨1, rfl⟩
  | .whileDo _ body | .forRange _ _ _ _ body | .block body => by
      rw [Stmt.compiled]
      exact (body.separate_compiled _ _).inside.mono fun _ same => ⟨0, same⟩
  | .store .. | .print .. | .ret .. | .expr .. => by
      rw [Stmt.compiled]
      exact .nil

theorem Stmt.separate_compiledAll (path : Path) (index entered : Nat) : (stmts : List Stmt) →
    Separate (Step.IsStmtFrom index) path (Stmt.compiledAll path index entered stmts)
  | [] => by
      rw [Stmt.compiledAll]
      exact .nil
  | stmt :: stmts => by
      rw [Stmt.compiledAll]
      refine ((stmt.separate_compiled path index entered).append
        (Stmt.separate_compiledAll path (index + 1) _ stmts) ?_).mono ?_
      · rintro _ ⟨way, rfl⟩ ⟨later, laterWay, after, same⟩
        cases same
        omega
      · rintro _ (⟨way, rfl⟩ | ⟨later, way, after, rfl⟩)
        · exact ⟨index, way, Nat.le_refl _, rfl⟩
        · exact ⟨later, way, by omega, rfl⟩

theorem Block.separate_compiled (path : Path) (entered : Nat) :
    (block : Block) → Separate (fun _ => True) path (block.compiled path entered)
  | ⟨_, functions, stmts⟩ => by
      rw [Block.compiled]
      refine ((FnDef.separate_compiledAll path 0 _ functions).append
        (Stmt.separate_compiledAll path 0 _ stmts) ?_).mono fun _ _ => trivial
      rintro _ ⟨index, -, rfl⟩ ⟨later, way, -, same⟩
      cases same

theorem FnDef.separate_compiledAll (path : Path) (index entered : Nat) :
    (definitions : List FnDef) → Separate (Step.IsFunctionFrom index) path
      (FnDef.compiledAll path index entered definitions)
  | [] => by
      rw [FnDef.compiledAll]
      exact .nil
  | definition :: definitions => by
      rw [FnDef.compiledAll, ← List.cons_append]
      refine ((definition.separate_compiled _ _).cons.append
        (FnDef.separate_compiledAll path (index + 1) _ definitions) ?_).mono ?_
      · rintro _ rfl ⟨later, after, same⟩
        cases same
        omega
      · rintro _ (rfl | ⟨later, after, rfl⟩)
        · exact ⟨index, Nat.le_refl _, rfl⟩
        · exact ⟨later, by omega, rfl⟩

theorem FnDef.separate_compiled (path : Path) (entered : Nat) :
    (definition : FnDef) → Separate (fun _ => True) path (definition.compiled path entered)
  | ⟨_, _, _, .block body, _⟩ => by
      rw [FnDef.compiled]
      exact body.separate_compiled _ _
  | ⟨_, _, _, .native _, _⟩ => by
      rw [FnDef.compiled]
      exact .nil

end

/-- No two functions are numbered that occur at the same place. -/
theorem Program.nodup_registered (program : Program) :
    (program.registered.map (·.path)).Nodup := by
  rw [(program.registered_perm.map _).nodup_iff, compiled, List.map_cons, List.nodup_cons]
  have separate := program.top.separate_compiled [] 0
  refine ⟨fun member => ?_, separate.distinct⟩
  obtain ⟨occurrence, nested, same⟩ := List.mem_map.mp member
  obtain ⟨step, -, suffix⟩ := separate.behind occurrence nested
  rw [same, List.suffix_nil] at suffix
  cases suffix

section

variable {program : Program}

/-- The occurrences are where the program has them. -/
def Program.Has (program : Program) (occurrences : List Occurrence) : Prop :=
  ∀ occurrence ∈ occurrences, program.functionAt? occurrence.path = some occurrence.definition

theorem Program.Has.nil : program.Has [] :=
  fun _ member => (List.not_mem_nil member).elim

theorem Program.Has.append {occurrences more : List Occurrence} (first : program.Has occurrences)
    (second : program.Has more) : program.Has (occurrences ++ more) :=
  List.forall_mem_append.mpr ⟨first, second⟩

mutual

theorem Stmt.has_compiled {path : Path} {block : Block} {index : Nat} (entered : Nat)
    (found : program.blockAt? path = some block) :
    (stmt : Stmt) → block.stmts[index]? = some stmt →
      program.Has (stmt.compiled path index entered)
  | .ifElse _ thenBlock none, here => by
      rw [Stmt.compiled]
      refine thenBlock.has_compiled _ ?_
      simp [Program.blockAt?, found, here, Stmt.blocks]
  | .ifElse _ thenBlock (some elseBlock), here => by
      rw [Stmt.compiled]
      refine (thenBlock.has_compiled _ ?_).append (elseBlock.has_compiled _ ?_)
      · simp [Program.blockAt?, found, here, Stmt.blocks]
      · simp [Program.blockAt?, found, here, Stmt.blocks]
  | .whileDo _ body, here | .forRange _ _ _ _ body, here | .block body, here => by
      rw [Stmt.compiled]
      refine body.has_compiled _ ?_
      simp [Program.blockAt?, found, here, Stmt.blocks]
  | .store .., _ | .print .., _ | .ret .., _ | .expr .., _ => by
      rw [Stmt.compiled]
      exact .nil

theorem Stmt.has_compiledAll {path : Path} {block : Block} {index : Nat} (entered : Nat)
    (found : program.blockAt? path = some block) :
    (stmts : List Stmt) → block.stmts.drop index = stmts →
      program.Has (Stmt.compiledAll path index entered stmts)
  | [], _ => by
      rw [Stmt.compiledAll]
      exact .nil
  | stmt :: stmts, rest => by
      rw [Stmt.compiledAll]
      refine (stmt.has_compiled _ found ?_).append (Stmt.has_compiledAll _ found stmts ?_)
      · rw [← List.head?_drop, rest, List.head?_cons]
      · rw [← List.tail_drop, rest, List.tail_cons]

theorem Block.has_compiled {path : Path} (entered : Nat) :
    (block : Block) → program.blockAt? path = some block →
      program.Has (block.compiled path entered)
  | ⟨_, functions, stmts⟩, found => by
      rw [Block.compiled]
      exact (FnDef.has_compiledAll _ found functions rfl).append
        (Stmt.has_compiledAll _ found stmts rfl)

theorem FnDef.has_compiledAll {path : Path} {block : Block} {index : Nat} (entered : Nat)
    (found : program.blockAt? path = some block) :
    (definitions : List FnDef) → block.functions.drop index = definitions →
      program.Has (FnDef.compiledAll path index entered definitions)
  | [], _ => by
      rw [FnDef.compiledAll]
      exact .nil
  | definition :: definitions, rest => by
      have here : block.functions[index]? = some definition := by
        rw [← List.head?_drop, rest, List.head?_cons]
      rw [FnDef.compiledAll]
      refine List.forall_mem_cons.mpr ⟨?_, Program.Has.append (definition.has_compiled _ ?_)
        (FnDef.has_compiledAll _ found definitions ?_)⟩
      · simp [Program.functionAt?, found, here]
      · simp [Program.blockAt?, found, here]
      · rw [← List.tail_drop, rest, List.tail_cons]

theorem FnDef.has_compiled {path : Path} (entered : Nat) :
    (definition : FnDef) → program.blockAt? path = definition.block? →
      program.Has (definition.compiled path entered)
  | ⟨_, _, _, .block body, _⟩, found => by
      rw [FnDef.compiled]
      exact body.has_compiled _ found
  | ⟨_, _, _, .native _, _⟩, _ => by
      rw [FnDef.compiled]
      exact .nil

end

theorem Program.has_registered (program : Program) : program.Has program.registered := by
  have has : program.Has program.compiled :=
    List.forall_mem_cons.mpr ⟨rfl, program.top.has_compiled 0 rfl⟩
  exact fun occurrence member => has occurrence (program.registered_perm.mem_iff.mp member)

end

theorem FnDef.getElem?_occurrences {definitions : List FnDef} {definition : FnDef} {index : Nat}
    (found : definitions[index]? = some definition) (path : Path) (first entered : Nat) :
    ∃ inner, (FnDef.occurrences path first entered definitions)[index]? =
      some ⟨.function (first + index) :: path, inner, definition⟩ := by
  induction definitions generalizing index first entered with
  | nil => cases found
  | cons head definitions ih =>
      cases index with
      | zero =>
          cases found
          exact ⟨entered, rfl⟩
      | succ index =>
          obtain ⟨inner, here⟩ := ih found (first + 1) (entered + head.blockCount)
          rw [Nat.add_right_comm] at here
          exact ⟨inner, here⟩

/-- If the functions in the items of a list are listed item by item, those of one item stand in a
row.  Items are counted from a first index on, and each is listed with the number of blocks before
it. -/
theorem exists_isInfix_of_getElem? {α : Type} (one : α → Nat → Nat → List Occurrence)
    (all : Nat → Nat → List α → List Occurrence) (blocks : α → Nat)
    (all_cons : ∀ first entered item items, all first entered (item :: items) =
      one item first entered ++ all (first + 1) (entered + blocks item) items)
    {items : List α} {item : α} {index : Nat} (found : items[index]? = some item)
    (first entered : Nat) :
    ∃ inner, one item (first + index) inner <:+: all first entered items := by
  induction items generalizing index first entered with
  | nil => cases found
  | cons head items ih =>
      rw [all_cons]
      cases index with
      | zero =>
          cases found
          exact ⟨entered, (List.prefix_append _ _).isInfix⟩
      | succ index =>
          obtain ⟨inner, inside⟩ := ih found (first + 1) (entered + blocks head)
          rw [Nat.add_right_comm] at inside
          exact ⟨inner, inside.trans (List.suffix_append _ _).isInfix⟩

theorem FnDef.isInfix_registeredAll {definitions : List FnDef} {definition : FnDef} {index : Nat}
    (found : definitions[index]? = some definition) (path : Path) (first entered : Nat) :
    ∃ inner, definition.registered (.function (first + index) :: path) inner <:+:
      FnDef.registeredAll path first entered definitions :=
  exists_isInfix_of_getElem?
    (fun definition number inner => definition.registered (.function number :: path) inner)
    (FnDef.registeredAll path) FnDef.blockCount (fun _ _ _ _ => by rw [FnDef.registeredAll]) found
    first entered

theorem Stmt.isInfix_registeredAll {stmts : List Stmt} {stmt : Stmt} {index : Nat}
    (found : stmts[index]? = some stmt) (path : Path) (first entered : Nat) :
    ∃ inner, stmt.registered path (first + index) inner <:+:
      Stmt.registeredAll path first entered stmts :=
  exists_isInfix_of_getElem? (fun stmt number inner => stmt.registered path number inner)
    (Stmt.registeredAll path) Stmt.blockCount (fun _ _ _ _ => by rw [Stmt.registeredAll]) found
    first entered

theorem Stmt.isInfix_registered {stmt : Stmt} {block : Block} {way : Nat}
    (found : stmt.blocks[way]? = some block) (path : Path) (index entered : Nat) :
    ∃ inner, block.registered (.stmt index way :: path) inner <:+:
      stmt.registered path index entered := by
  cases stmt with
  | ifElse cond thenBlock elseBlock =>
      cases elseBlock with
      | none =>
          obtain ⟨rfl, rfl⟩ : way = 0 ∧ thenBlock = block := by
            simpa [Stmt.blocks, List.getElem?_singleton] using found
          rw [Stmt.registered]
          exact ⟨entered, List.infix_rfl⟩
      | some elseBlock =>
          rw [Stmt.registered]
          cases way with
          | zero =>
              cases found
              exact ⟨entered, (List.prefix_append _ _).isInfix⟩
          | succ way =>
              obtain ⟨rfl, rfl⟩ : way = 0 ∧ elseBlock = block := by
                simpa [Stmt.blocks, List.getElem?_singleton] using found
              exact ⟨entered + thenBlock.blockCount, (List.suffix_append _ _).isInfix⟩
  | whileDo _ body | forRange _ _ _ _ body | block body =>
      obtain ⟨rfl, rfl⟩ : way = 0 ∧ body = block := by
        simpa [Stmt.blocks, List.getElem?_singleton] using found
      rw [Stmt.registered]
      exact ⟨entered, List.infix_rfl⟩
  | store | print | ret | expr => cases found

theorem FnDef.registered_of_block? {definition : FnDef} {block : Block}
    (isBlock : definition.block? = some block) (path : Path) (entered : Nat) :
    definition.registered path entered = block.registered path entered := by
  obtain ⟨name, returnType, params, body, position⟩ := definition
  cases body with
  | block body =>
      cases isBlock
      rw [FnDef.registered]
  | native symbol => cases isBlock

/-- What is inside a function of a block is listed for the block. -/
theorem Block.isInfix_function {block : Block} {definition : FnDef} {index : Nat}
    (found : block.functions[index]? = some definition) (path : Path) (entered : Nat) :
    ∃ inner, definition.registered (.function index :: path) inner <:+:
      block.registered path entered := by
  obtain ⟨vars, functions, stmts⟩ := block
  obtain ⟨inner, inside⟩ := FnDef.isInfix_registeredAll found path 0 (entered + 1)
  rw [Nat.zero_add] at inside
  rw [Block.registered]
  exact ⟨inner, inside.trans (List.infix_append _ _ _)⟩

/-- What is in a block of a statement is listed for the block around it. -/
theorem Block.isInfix_stmt {block sub : Block} {stmt : Stmt} {index way : Nat}
    (found : block.stmts[index]? = some stmt) (here : stmt.blocks[way]? = some sub) (path : Path)
    (entered : Nat) :
    ∃ inner, sub.registered (.stmt index way :: path) inner <:+: block.registered path entered := by
  obtain ⟨vars, functions, stmts⟩ := block
  obtain ⟨middle, outside⟩ := Stmt.isInfix_registeredAll found path 0
    (entered + 1 + FnDef.blockCountAll functions)
  obtain ⟨inner, inside⟩ := Stmt.isInfix_registered here path index middle
  rw [Nat.zero_add] at outside
  rw [Block.registered]
  exact ⟨inner, (inside.trans outside).trans (List.suffix_append _ _).isInfix⟩

namespace Program

variable {program : Program} {path : Path}

/-- What is in a block of the program is listed in one piece. -/
theorem isInfix_of_blockAt? {block : Block} (found : program.blockAt? path = some block) :
    ∃ entered, block.registered path entered <:+: program.registered := by
  induction path generalizing block with
  | nil =>
      refine ⟨0, ?_⟩
      rw [registered, FnDef.registered_of_block? found]
      exact (List.suffix_cons _ _).isInfix
  | cons step path ih =>
      cases step with
      | function index =>
          obtain ⟨outer, outerFound, inOuter⟩ := Option.bind_eq_some_iff.mp found
          obtain ⟨definition, here, isBlock⟩ := Option.bind_eq_some_iff.mp inOuter
          obtain ⟨entered, outerListed⟩ := ih outerFound
          obtain ⟨inner, listed⟩ := Block.isInfix_function here path entered
          rw [FnDef.registered_of_block? isBlock] at listed
          exact ⟨inner, listed.trans outerListed⟩
      | stmt index way =>
          obtain ⟨outer, outerFound, inOuter⟩ := Option.bind_eq_some_iff.mp found
          obtain ⟨stmt, there, here⟩ := Option.bind_eq_some_iff.mp inOuter
          obtain ⟨entered, outerListed⟩ := ih outerFound
          obtain ⟨inner, listed⟩ := Block.isInfix_stmt there here path entered
          exact ⟨inner, listed.trans outerListed⟩

/-- The functions that a block itself defines are listed one after the other. -/
theorem consecutive_of_blockAt? {block : Block} (found : program.blockAt? path = some block) :
    ∃ first, ∀ (index : Nat) definition, block.functions[index]? = some definition →
      ∃ entered, program.registered[first + index]? =
        some ⟨.function index :: path, entered, definition⟩ := by
  obtain ⟨entered, earlier, later, listed⟩ := isInfix_of_blockAt? found
  refine ⟨earlier.length, fun index definition here => ?_⟩
  obtain ⟨vars, functions, stmts⟩ := block
  obtain ⟨inner, place⟩ := FnDef.getElem?_occurrences here path 0 (entered + 1)
  obtain ⟨inside, -⟩ := List.getElem?_eq_some_iff.mp place
  rw [Nat.zero_add] at place
  refine ⟨inner, ?_⟩
  rw [← listed, Block.registered, List.append_assoc, List.append_assoc, List.append_assoc,
    List.getElem?_append_right (Nat.le_add_right _ _), Nat.add_sub_cancel_left,
    List.getElem?_append_left inside, place]

/-- Every function definition that occurs in the program is listed. -/
theorem exists_of_functionAt? {definition : FnDef}
    (found : program.functionAt? path = some definition) :
    ∃ (index : Nat) (entered : Nat),
      program.registered[index]? = some ⟨path, entered, definition⟩ := by
  cases path with
  | nil =>
      cases found
      exact ⟨0, 0, rfl⟩
  | cons step path =>
      cases step with
      | stmt index way => cases found
      | function index =>
          obtain ⟨block, blockFound, here⟩ := Option.bind_eq_some_iff.mp found
          obtain ⟨first, consecutive⟩ := consecutive_of_blockAt? blockFound
          obtain ⟨entered, listed⟩ := consecutive index definition here
          exact ⟨first + index, entered, listed⟩

end Program

/-- The bodies of the functions are entered one after the other, when at least `low` and less than
`high` blocks have been entered. -/
structure Ascends (low high : Nat) (occurrences : List Occurrence) : Prop where
  low_le : low ≤ high
  bounds : ∀ occurrence ∈ occurrences, occurrence.definition.block?.isSome →
    low ≤ occurrence.entered ∧ occurrence.entered < high
  ascending : occurrences.Pairwise fun occurrence later =>
    occurrence.definition.block?.isSome → later.definition.block?.isSome →
      occurrence.entered < later.entered

namespace Ascends

variable {low middle high : Nat} {occurrences more : List Occurrence}

theorem nil (low_le : low ≤ high) : Ascends low high [] :=
  ⟨low_le, fun _ member => (List.not_mem_nil member).elim, .nil⟩

theorem of_le (ascends : Ascends middle high occurrences) (le : low ≤ middle) :
    Ascends low high occurrences := by
  refine ⟨Nat.le_trans le ascends.low_le, fun occurrence member isBlock => ?_, ascends.ascending⟩
  obtain ⟨above, below⟩ := ascends.bounds occurrence member isBlock
  exact ⟨Nat.le_trans le above, below⟩

theorem append (first : Ascends low middle occurrences) (second : Ascends middle high more) :
    Ascends low high (occurrences ++ more) := by
  refine ⟨Nat.le_trans first.low_le second.low_le, List.forall_mem_append.mpr ⟨?_, ?_⟩, ?_⟩
  · intro occurrence member isBlock
    obtain ⟨above, below⟩ := first.bounds occurrence member isBlock
    exact ⟨above, Nat.lt_of_lt_of_le below second.low_le⟩
  · intro occurrence member isBlock
    obtain ⟨above, below⟩ := second.bounds occurrence member isBlock
    exact ⟨Nat.le_trans first.low_le above, below⟩
  · rw [List.pairwise_append]
    refine ⟨first.ascending, second.ascending, ?_⟩
    intro occurrence member later laterMember isBlock laterIsBlock
    exact Nat.lt_of_lt_of_le (first.bounds occurrence member isBlock).2
      (second.bounds later laterMember laterIsBlock).1

/-- A function whose body is a block is entered before what is inside it. -/
theorem cons {path : Path} {definition : FnDef} (inner : Ascends (low + 1) high occurrences) :
    Ascends low high (⟨path, low, definition⟩ :: occurrences) := by
  have le := inner.low_le
  refine ⟨by omega, List.forall_mem_cons.mpr ⟨fun _ => ⟨Nat.le_refl _, le⟩, ?_⟩,
    List.pairwise_cons.mpr ⟨?_, inner.ascending⟩⟩
  · exact (inner.of_le (Nat.le_succ low)).bounds
  · intro occurrence member _ isBlock
    exact (inner.bounds occurrence member isBlock).1

/-- A function that stands for a native one enters no block. -/
theorem cons_native {path : Path} {definition : FnDef} (isNative : definition.block? = none)
    (rest : Ascends low high occurrences) :
    Ascends low high (⟨path, low, definition⟩ :: occurrences) := by
  refine ⟨rest.low_le, List.forall_mem_cons.mpr ⟨fun isBlock => ?_, rest.bounds⟩,
    List.pairwise_cons.mpr ⟨fun _ _ isBlock => ?_, rest.ascending⟩⟩
  · simp [isNative] at isBlock
  · simp [isNative] at isBlock

end Ascends

mutual

theorem Stmt.ascends_compiled (path : Path) (index entered : Nat) : (stmt : Stmt) →
    Ascends entered (entered + stmt.blockCount) (stmt.compiled path index entered)
  | .ifElse _ thenBlock none => by
      rw [Stmt.compiled, Stmt.blockCount]
      exact (thenBlock.ascends_compiled _ _).of_le (Nat.le_succ _)
  | .ifElse _ thenBlock (some elseBlock) => by
      rw [Stmt.compiled, Stmt.blockCount, ← Nat.add_assoc]
      exact ((thenBlock.ascends_compiled _ _).of_le (Nat.le_succ _)).append
        ((elseBlock.ascends_compiled _ _).of_le (Nat.le_succ _))
  | .whileDo _ body | .forRange _ _ _ _ body | .block body => by
      rw [Stmt.compiled, Stmt.blockCount]
      exact (body.ascends_compiled _ _).of_le (Nat.le_succ _)
  | .store .. | .print .. | .ret .. | .expr .. => by
      rw [Stmt.compiled, Stmt.blockCount]
      exact .nil (Nat.le_refl _)

theorem Stmt.ascends_compiledAll (path : Path) (index entered : Nat) : (stmts : List Stmt) →
    Ascends entered (entered + Stmt.blockCountAll stmts)
      (Stmt.compiledAll path index entered stmts)
  | [] => by
      rw [Stmt.compiledAll, Stmt.blockCountAll]
      exact .nil (Nat.le_refl _)
  | stmt :: stmts => by
      rw [Stmt.compiledAll, Stmt.blockCountAll, ← Nat.add_assoc]
      exact (stmt.ascends_compiled _ _ _).append (Stmt.ascends_compiledAll _ _ _ stmts)

theorem Block.ascends_compiled (path : Path) (entered : Nat) : (block : Block) →
    Ascends (entered + 1) (entered + block.blockCount) (block.compiled path entered)
  | ⟨_, functions, stmts⟩ => by
      rw [Block.compiled, Block.blockCount, ← Nat.add_assoc, ← Nat.add_assoc]
      exact (FnDef.ascends_compiledAll _ _ _ functions).append
        (Stmt.ascends_compiledAll _ _ _ stmts)

theorem FnDef.ascends_compiledAll (path : Path) (index entered : Nat) :
    (definitions : List FnDef) → Ascends entered (entered + FnDef.blockCountAll definitions)
      (FnDef.compiledAll path index entered definitions)
  | [] => by
      rw [FnDef.compiledAll, FnDef.blockCountAll]
      exact .nil (Nat.le_refl _)
  | definition :: definitions => by
      rw [FnDef.compiledAll, FnDef.blockCountAll, ← List.cons_append, ← Nat.add_assoc]
      exact (definition.ascends_compiled _ _).append (FnDef.ascends_compiledAll _ _ _ definitions)

theorem FnDef.ascends_compiled (path : Path) (entered : Nat) : (definition : FnDef) →
    Ascends entered (entered + definition.blockCount)
      (⟨path, entered, definition⟩ :: definition.compiled path entered)
  | ⟨_, _, _, .block body, _⟩ => by
      rw [FnDef.compiled, FnDef.blockCount]
      exact (body.ascends_compiled _ _).cons
  | ⟨_, _, _, .native _, _⟩ => by
      rw [FnDef.compiled, FnDef.blockCount]
      exact .cons_native rfl (.nil (Nat.le_refl _))

end

theorem Program.ascends_compiled (program : Program) :
    Ascends 0 program.blockCount program.compiled := by
  have ascends := program.top.ascends_compiled [] 0
  rwa [Nat.zero_add] at ascends

/-- The bodies of two functions are entered after different numbers of blocks. -/
theorem Program.entered_ne {program : Program} {index other : Nat} {occurrence later : Occurrence}
    (found : program.registered[index]? = some occurrence)
    (otherFound : program.registered[other]? = some later) (distinct : index ≠ other)
    (isBlock : occurrence.definition.block?.isSome)
    (laterIsBlock : later.definition.block?.isSome) :
    occurrence.entered ≠ later.entered := by
  have differ : program.registered.Pairwise fun occurrence later =>
      occurrence.definition.block?.isSome → later.definition.block?.isSome →
        occurrence.entered ≠ later.entered := by
    rw [program.registered_perm.pairwise_iff fun ne isBlock laterIsBlock same =>
      ne laterIsBlock isBlock same.symm]
    exact program.ascends_compiled.ascending.imp fun less isBlock laterIsBlock =>
      Nat.ne_of_lt (less isBlock laterIsBlock)
  rw [List.pairwise_iff_getElem] at differ
  obtain ⟨inside, rfl⟩ := List.getElem?_eq_some_iff.mp found
  obtain ⟨otherInside, rfl⟩ := List.getElem?_eq_some_iff.mp otherFound
  rcases Nat.lt_or_gt_of_ne distinct with less | greater
  · exact differ index other inside otherInside less isBlock laterIsBlock
  · exact (differ other index otherInside inside greater laterIsBlock isBlock).symm

theorem Program.entered_lt {program : Program} {occurrence : Occurrence}
    (member : occurrence ∈ program.registered) (isBlock : occurrence.definition.block?.isSome) :
    occurrence.entered < program.blockCount :=
  (program.ascends_compiled.bounds occurrence (program.registered_perm.mem_iff.mp member)
    isBlock).2

end Backpatch
