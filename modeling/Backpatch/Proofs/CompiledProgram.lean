import Backpatch.Proofs.EmissionFunction

/-!
# Compiled programs

What is known about a compilation as a whole.  If it succeeds, every function of the program has
become the routine of its number, with code of the form that the layout asks for, and there are no
other routines.  If it fails for a reason that is not in the program, a capacity is used up in the
state in which it stops.
-/

namespace Backpatch

/-- The image consists of the finished code of the functions of a program, in the order of their
numbers. -/
structure Image.Realizes (image : Image) (program : Program) : Prop where
  version : image.version = Image.currentVersion
  size : image.routines.size = program.definitions.length
  size_le : image.routines.size ≤ 65536
  routine : ∀ (index : Nat) definition, program.definitions[index]? = some definition →
    ∃ routine, image.routines[index]? = some routine ∧ RoutineCode image definition routine

namespace Image.Realizes

variable {image : Image} {program : Program} {index : Nat}

theorem definition (realizes : image.Realizes program) {routine : Routine}
    (lookup : image.routines[index]? = some routine) :
    ∃ definition, program.definitions[index]? = some definition ∧
      RoutineCode image definition routine := by
  obtain ⟨inside, -⟩ := Array.getElem?_eq_some_iff.1 lookup
  have found := List.getElem?_eq_getElem (realizes.size ▸ inside)
  obtain ⟨same, samePlace, routineCode⟩ := realizes.routine index _ found
  rw [lookup] at samePlace
  exact ⟨_, found, Option.some.inj samePlace ▸ routineCode⟩

theorem routine?_function (realizes : image.Realizes program) {definition : Definition}
    (found : program.definitions[index]? = some definition) :
    image.routine? definition.1.function = image.routines[index]? := by
  obtain ⟨inside, -⟩ := List.getElem?_eq_some_iff.1 found
  have small : index < 65536 := Nat.lt_of_lt_of_le (realizes.size ▸ inside) realizes.size_le
  rw [program.function_definition found, Image.routine?, UInt16.toNat_ofNat',
    Nat.mod_eq_of_lt small]

end Image.Realizes

/-- The place at which the compilation of a program begins. -/
def Program.outermost (program : Program) : Env :=
  { program.outside with returnType := program.top.returnType }

namespace Emitter

theorem ready_start (program : Program) : Ready program.outermost (start program) := by
  have resolved : ∀ name, resolveFunction? (start program).scopes (start program).image name =
      if program.top.name = name then some 0 else none := by
    intro name
    change (if program.top.name == name then
      some { Routine.declare program.top.name program.top.signature with id := some 0 }
      else none).bind Routine.id = _
    by_cases same : program.top.name = name <;> simp [same]
  refine
    { image := ?_
      var := fun name => ?_
      callee := fun name => ?_
      registered := fun name id found => ?_
      storable := fun name slot found => nomatch found
      function := rfl
      returnType := rfl
      contexts := fun context member => ?_
      frame := fun ty isStorable => ?_
      defined := rfl
      inside := fun offset member => absurd member Std.ExtTreeSet.not_mem_empty }
  · refine
      { routines_le := show 1 ≤ 65536 by decide
        constants_le := show 1 ≤ 65536 by decide
        natives_le := Nat.zero_le _
        constantIds := fun value id found => ?_
        nativeIds := fun name id found => ?_
        entry := ⟨_, rfl, rfl⟩ }
    · rw [show (start program).image.constantIds = (∅ : NameMap UInt16).insert "" 0 from rfl,
        NameMap.getElem?_insert] at found
      split at found
      case isTrue same =>
          cases found
          rw [← same]
          rfl
      case isFalse => simp at found
    · simp [start, Image.empty] at found
  · simp [start, Scopes.start, Scopes.resolve?, Context.start, Context.var?, Program.outermost,
      Program.outside]
  · rw [callee?, resolved]
    by_cases same : program.top.name = name
    · simp only [if_pos same, Program.outermost, Program.outside, if_pos same.symm]
      rfl
    · simp only [if_neg same, Program.outermost, Program.outside, if_neg (Ne.symm same)]
      rfl
  · rw [resolved] at found
    split at found
    · cases found
      rfl
    · cases found
  · cases List.mem_singleton.mp member
    rfl
  · cases ty <;> rfl

/-- Compiling a program up to the first error gives an image that realizes it, or an error that is
excused. -/
theorem achieves_run (options : Options) (program : Program) :
    Achieves (do Strict.body options program.top; Strict.finish) (start program) fun _ after =>
      after.image.Realizes program := by
  refine (achieves_body options program.top (ready_start program) rfl rfl ⟨rfl, rfl⟩
    Nat.zero_lt_one).bind fun _ done emits => ?_
  obtain ⟨inner, ready, counted, -⟩ := emits.ready
  refine (achieves_finish ready emits.extension.enclosing (emits.patched rfl)).imp ?_
  rintro _ _ rfl
  have size : (done.closed done.scopes.current []).image.routines.size =
      program.definitions.length := by
    refine Array.size_modify.trans ?_
    rw [ready.defined, counted, program.length_definitions,
      Env.defined_foldl_declare _ ParamDecl.name ParamDecl.ty]
    rfl
  have sound : (done.closed done.scopes.current []).image.Sound :=
    ready.image.modifyRoutine _ _ fun _ => rfl
  have size_le := sound.routines_le
  have settled : Settled (done.closed done.scopes.current []).image (fun _ => True)
      (done.closed done.scopes.current []) := by
    refine .self fun context member => ?_
    obtain rfl := List.mem_singleton.mp member
    obtain ⟨routine, found⟩ := Option.isSome_iff_exists.mp (ready.contexts _ List.mem_cons_self)
    have stored := routine?_closed done done.scopes.current [] done.scopes.current.id
    rw [if_pos rfl, found] at stored
    exact ⟨_, stored, fun ty => UInt16.le_refl _⟩
  have compiles := emits.compiles rfl (Env.function_enter program.outside 0 program.top) rfl rfl rfl
    settled trivial (fun _ _ => trivial) fun context member => by
      rw [emits.extension.enclosing] at member
      cases member
  refine ⟨emits.extension.version, size, size_le, fun index definition found => ?_⟩
  obtain ⟨routine, lookup, code⟩ := compiles definition (List.mem_of_getElem? found)
  obtain ⟨inside, -⟩ := List.getElem?_eq_some_iff.mp found
  rw [program.function_definition found, Image.routine?, UInt16.toNat_ofNat',
    Nat.mod_eq_of_lt (by omega)] at lookup
  exact ⟨routine, lookup, code⟩

end Emitter

theorem Program.realizes_of_emit {program : Program} {options : Options} {image : Image}
    (emitted : program.emit options = .ok image) : image.Realizes program := by
  have achieved := Emitter.achieves_run options program
  rw [Program.emit_eq_run] at emitted
  unfold Emitter.Achieves at achieved
  cases run : Emitter.Strict.run options program with
  | ok result emitter =>
      rw [run] at emitted
      rw [Emitter.Strict.run] at run
      rw [run] at achieved
      cases emitted
      exact achieved
  | error error emitter =>
      rw [run] at emitted
      cases emitted

/-- A compilation that fails for a reason that is not in the program has used up a capacity. -/
theorem Program.exhausted_of_run {program : Program} {options : Options} {error : CompileError}
    {emitter : Emitter} (failed : Emitter.Strict.run options program = .error error emitter)
    (isInternal : error.isInternal = true) : emitter.Exhausted error := by
  have achieved := Emitter.achieves_run options program
  unfold Emitter.Achieves at achieved
  rw [Emitter.Strict.run] at failed
  rw [failed] at achieved
  exact achieved isInternal

def Block.halving : Block where
  vars := [⟨"i", .int, 1⟩, ⟨"total", .double, 2⟩]
  functions :=
    [⟨"half", .double, [⟨"x", .double⟩], .block
      ⟨[], [], [
        .store 3 "total" .increase (.binary 4 (.arith .div) (.load 5 "x") (.int 6 2)),
        .ret 7 (some (.load 8 "total"))]⟩, 9⟩]
  stmts :=
    [.forRange 10 "i" (.int 11 1) (.int 12 10)
      ⟨[], [], [.ifElse
        (.binary 13 (.logic .and) (.binary 14 (.compare .lt) (.load 15 "i") (.int 16 5))
          (.binary 17 (.compare .gt) (.call 18 "half" [.load 19 "i"]) (.int 20 1)))
        ⟨[], [], [.print 21 [.string 22 "at ", .load 23 "i"]]⟩
        (some ⟨[], [], [.expr (.call 24 "half"
          [.binary 25 (.arith .add) (.load 26 "i") (.int 27 1)])]⟩)]⟩]

/-- A program with a loop, a condition, and a function that adds to a variable of the function
around it:

    void main() {
      int i; double total;
      double half(double x) { total += x / 2; return total; }
      for (i in 1..10) if (i < 5 && half(i) > 1) print("at ", i); else half(i + 1);
    }
-/
def Program.halving : Program where
  top := ⟨"main", .void, [], .block .halving, 0⟩

theorem exists_of_isOk {ε α : Type} {result : Except ε α} (succeeds : result.isOk = true) :
    ∃ value, result = .ok value := by
  cases result with
  | ok value => exact ⟨value, rfl⟩
  | error error => cases succeeds

theorem Program.halving_emits : ∃ image, halving.emit .default = .ok image :=
  exists_of_isOk (by decide +kernel)

theorem Program.halving_natives {definition : Definition}
    (member : definition ∈ halving.definitions) (symbol : String) :
    definition.2.body ≠ .native symbol := by
  intro native
  rcases List.mem_cons.1 member with rfl | member
  · cases native
  rcases List.mem_cons.1 member with rfl | member
  · cases native
  · cases member

end Backpatch
