import Backpatch.Emit.Stmt
import Backpatch.Image.Check

/-!
# Compiling programs

A program is compiled into an image, or the first error in it is reported.
-/

namespace Backpatch

/-- Put the code of the top-level function into the image, or report the error that was kept. -/
def Emitter.finish : EmitM Unit := do
  match (← get).fault with
  | some error => throw error
  | none => storeRoutine (← get).scopes.top

/-- The image of a program, not checked. -/
def Program.emit (program : Program) (options : Options) : Except CompileError Image :=
  let top := program.top
  match Image.addRoutine (.declare top.name top.signature) .empty with
  | .error error _ => .error (.internal error)
  | .ok id image =>
      let start : Emitter :=
        { image := { image with entry := id }
          scopes := .start (.start id top.returnType)
          fault := none }
      match (do Emitter.emitBody options top; Emitter.finish : EmitM Unit) start with
      | .ok _ emitter => .ok emitter.image
      | .error error _ => .error error

/-- The image of a program. -/
def Program.compile (program : Program) (options : Options) : Except CompileError Image := do
  let image ← program.emit options
  if options.validate then
    match image.check with
    | .error error => .error (.internal error)
    | .ok () => .ok image
  else
    .ok image

end Backpatch
