import Backpatch.Document.Image
import Backpatch.Options

/-!
# Options as documents

Whatever the document of some options does not say is as in the default options.
-/

namespace Backpatch

open Json (Reader Record)

def Options.toJson (options : Options) : Json :=
  .object
    [("natives", .ofMap (fun (address : UInt64) => .ofNat address.toNat) options.natives),
      ("validate", .bool options.validate)]

def Options.read : Reader Options
  | 0, _ => none
  | depth + 1, json => do
      let record ← Record.ofJson? ["natives", "validate"] json
      let natives ← record.withDefault "natives" Options.default.natives
        (Json.readMap Json.readUInt64 depth)
      let validate ← record.withDefault "validate" Options.default.validate
        (Json.readBool depth)
      return ⟨natives, validate⟩

/-- Read the document of some options. -/
def Options.parse? (bytes : List UInt8) : Option Options :=
  Json.readDocument Options.read bytes

end Backpatch
