import Backpatch.Proofs.Checked

/-!
# Errors that are not in the program

Apart from what is wrong with the program itself, a compilation fails only when a capacity is used
up: addresses reach no further than 65535, and there are 65536 numbers for functions and as many for
constants.  The states that should not exist do not, and no check of the finished image fails.
-/

namespace Backpatch

/-- An error that is not about the program is met in a state in which the code of the open function,
the list of functions or the list of constants is as long as it can be. -/
theorem Program.capacity_of_isInternal {program : Program} {options : Options}
    {error : CompileError} (failed : program.compile options = .error error)
    (isInternal : error.isInternal = true) :
    ∃ emitter, Emitter.Strict.run options program = .error error emitter ∧
      ((∃ size, error = .internal (.codeTooLarge size) ∧ 65535 < size ∧
          size ≤ emitter.buffer.size) ∨
        (error = .internal .tooManyFunctions ∧ emitter.image.routines.size = 65536) ∨
        (error = .internal .tooManyConstants ∧ emitter.image.constants.size = 65536)) := by
  rw [compile_eq_emit, emit_eq_run] at failed
  cases run : Emitter.Strict.run options program with
  | ok result emitter =>
      rw [run] at failed
      cases failed
  | error met emitter =>
      rw [run] at failed
      cases failed
      refine ⟨emitter, rfl, ?_⟩
      cases exhausted_of_run run isInternal with
      | code far written => exact .inl ⟨_, rfl, far, written⟩
      | functions full => exact .inr (.inl ⟨rfl, full⟩)
      | constants full => exact .inr (.inr ⟨rfl, full⟩)

/-- A program that evaluates a constant again and again. -/
def Program.repeating (count : Nat) : Program where
  top := ⟨"main", .void, [], .block ⟨[], [], List.replicate count (.expr (.int 0 0))⟩, 0⟩

namespace Buffer

/-- The code that pushes zero and drops it, again and again. -/
def repeating (buffer : Buffer) : Nat → Buffer
  | 0 => buffer
  | count + 1 => (((buffer.emit .iLoad).emitInt 0).emit .pop).repeating count

theorem size_repeating (buffer : Buffer) (count : Nat) :
    (buffer.repeating count).size = buffer.size + 10 * count := by
  induction count generalizing buffer with
  | zero => rfl
  | succ count ih =>
      rw [repeating, ih, size_emit, emitInt, size_append, size_emit, length_littleEndian]
      omega

theorem openSites_repeating (buffer : Buffer) (count : Nat) :
    (buffer.repeating count).openSites = buffer.openSites := by
  induction count generalizing buffer with
  | zero => rfl
  | succ count ih => exact ih _

end Buffer

namespace Emitter

theorem stmts_repeating (options : Options) (emitter : Emitter) (count : Nat) :
    Strict.stmts options (List.replicate count (.expr (.int 0 0))) emitter =
      .ok () (emitter.withBuffer (emitter.buffer.repeating count)) := by
  induction count generalizing emitter with
  | zero => rfl
  | succ count ih =>
      rw [List.replicate_succ, Strict.stmts, bind_apply]
      exact ih (emitter.withBuffer (((emitter.buffer.emit .iLoad).emitInt 0).emit .pop))

def repeated (emitter : Emitter) (count : Nat) : Emitter :=
  { emitter with scopes := emitter.scopes.enterBlock.2.exitBlock }.withBuffer
    (emitter.buffer.repeating count)

theorem block_repeating (options : Options) (emitter : Emitter) (count : Nat) :
    Strict.block options ⟨[], [], List.replicate count (.expr (.int 0 0))⟩ emitter =
      .ok () (emitter.repeated count) := by
  let entered : Emitter := { emitter with scopes := emitter.scopes.enterBlock.2 }
  have entering : (modify fun emitter : Emitter =>
      { emitter with scopes := emitter.scopes.enterBlock.2 } : EmitM Unit) emitter =
        .ok () entered := rfl
  have declares : declareBlock [] [] entered = .ok [] entered := rfl
  have functions : Strict.functions options [] [] entered = .ok () entered := by
    rw [Strict.functions] <;> first | rfl | exact nofun
  rw [Strict.block]
  simp only [bind_apply, entering, declares, functions, stmts_repeating]
  rfl

end Emitter

/-- Each repetition takes ten bytes of code, and the function ends with a return. -/
theorem Program.compile_repeating (options : Options) {count : Nat} (many : 6553 < count) :
    (repeating count).compile options = .error (.internal (.codeTooLarge (10 * count + 1))) := by
  let code : Buffer := (Buffer.empty.repeating count).emit .ret
  let done : Emitter := ((Emitter.start (repeating count)).repeated count).withBuffer code
  have size : code.size = 10 * count + 1 := by
    rw [Buffer.size_emit, Buffer.size_repeating]
    exact congrArg (· + 1) (Nat.zero_add _)
  have patched : code.ensurePatched = .ok () :=
    Buffer.ensurePatched_of_openSites (Buffer.openSites_repeating _ _)
  have long : code.size > Buffer.maxTarget := by
    rw [size, Buffer.maxTarget]
    omega
  have body : Emitter.Strict.body options (repeating count).top (Emitter.start (repeating count)) =
      .ok () done := by
    have params : (([] : List ParamDecl).forM (Emitter.emitParam 0))
        (Emitter.start (repeating count)) = .ok () (Emitter.start (repeating count)) := rfl
    change Emitter.Strict.body options ⟨"main", .void, [], .block ⟨[], [], _⟩, 0⟩ _ = _
    rw [Emitter.Strict.body]
    simp only [Emitter.bind_apply, params, Emitter.block_repeating]
    rfl
  have finish : Emitter.Strict.finish done =
      .error (.internal (.codeTooLarge (10 * count + 1))) done := by
    have fault : Emitter.storeFault? done.scopes.top done.image =
        some (.internal (.codeTooLarge (10 * count + 1))) := by
      simp only [Emitter.storeFault?, show done.scopes.top.buffer = code from rfl, patched, size]
      rw [size] at long
      rw [if_pos long]
    change Emitter.storeRoutine done.scopes.top done = _
    rw [Emitter.storeRoutine, Emitter.bind_apply, Emitter.ask, fault]
  rw [compile_eq_emit, emit_eq_run, Emitter.Strict.run, Emitter.bind_apply, body]
  simp only [finish]

/-- With 6554 repetitions the code is six bytes too long. -/
theorem Program.capacity_of_isInternal_repeating :
    (repeating 6554).compile .default = .error (.internal (.codeTooLarge 65541)) ∧
      ∃ emitter, Emitter.Strict.run .default (repeating 6554) =
        .error (.internal (.codeTooLarge 65541)) emitter ∧ 65541 ≤ emitter.buffer.size := by
  have failed := compile_repeating .default (show 6553 < 6554 by decide)
  refine ⟨failed, ?_⟩
  obtain ⟨emitter, run, ⟨size, same, -, written⟩ | ⟨other, -⟩ | ⟨other, -⟩⟩ :=
    capacity_of_isInternal failed rfl
  · cases same
    exact ⟨emitter, run, written⟩
  · cases other
  · cases other

end Backpatch
