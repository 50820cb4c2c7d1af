import Backpatch.Image
import Backpatch.Json.Reader
import Backpatch.Json.Writer

/-!
# Images as documents

The document of an image lists all that the image holds.  The sites that are open in the code of a
routine are not part of it: they are lost when an image is written and read again.
-/

namespace Backpatch

open Json (Reader Record)

def Ty.toJson (ty : Ty) : Json :=
  .string ty.name

def Ty.read : Reader Ty :=
  Json.readTag Ty.ofName?

def Op.toJson (op : Op) : Json :=
  .string op.tag

def Op.read : Reader Op :=
  Json.readTag Op.ofTag?

def Parameter.toJson (param : Parameter) : Json :=
  .object [("ty", param.ty.toJson), ("name", .string param.name)]

def Parameter.read : Reader Parameter
  | 0, _ => none
  | depth + 1, json => do
      let record ← Record.ofJson? ["ty", "name"] json
      let ty ← record.required "ty" (Ty.read depth)
      let name ← record.required "name" (Json.readString depth)
      return ⟨ty, name⟩

def Signature.toJson (signature : Signature) : Json :=
  .ofList Parameter.toJson signature.elements

def Signature.read : Reader Signature := fun depth json => do
  Signature.ofElements? (← Json.readList Parameter.read depth json)

def Buffer.toJson (buffer : Buffer) : Json :=
  .object [("bytes", .ofList (fun (byte : UInt8) => .ofNat byte.toNat) buffer.bytes.toList)]

def Buffer.read : Reader Buffer
  | 0, _ => none
  | depth + 1, json => do
      let record ← Record.ofJson? ["bytes"] json
      let bytes ← record.required "bytes" (Json.readList Json.readUInt8 depth)
      return .ofBytes bytes.toArray

def Frame.toJson (frame : Frame) : Json :=
  .object
    [("ints", .ofNat frame.ints.toNat), ("doubles", .ofNat frame.doubles.toNat),
      ("strings", .ofNat frame.strings.toNat)]

def Frame.read : Reader Frame
  | 0, _ => none
  | depth + 1, json => do
      let record ← Record.ofJson? ["ints", "doubles", "strings"] json
      let ints ← record.required "ints" (Json.readUInt16 depth)
      let doubles ← record.required "doubles" (Json.readUInt16 depth)
      let strings ← record.required "strings" (Json.readUInt16 depth)
      return ⟨ints, doubles, strings⟩

def Routine.toJson (routine : Routine) : Json :=
  .object
    [("id", .ofOption Json.ofUInt16 routine.id), ("name", .string routine.name),
      ("signature", routine.signature.toJson), ("scope_id", .ofUInt16 routine.scopeId),
      ("slots", routine.frame.toJson), ("bytecode", routine.code.toJson)]

def Routine.read : Reader Routine
  | 0, _ => none
  | depth + 1, json => do
      let record ← Record.ofJson?
        ["id", "name", "signature", "scope_id", "slots", "bytecode"] json
      let id ← record.optional "id" (Json.readOption Json.readUInt16 depth)
      let name ← record.required "name" (Json.readString depth)
      let signature ← record.required "signature" (Signature.read depth)
      let scopeId ← record.required "scope_id" (Json.readUInt16 depth)
      let frame ← record.required "slots" (Frame.read depth)
      let code ← record.required "bytecode" (Buffer.read depth)
      return ⟨id, name, signature, scopeId, frame, code⟩

def Native.toJson (native : Native) : Json :=
  .object
    [("name", .string native.name), ("signature", native.signature.toJson),
      ("address", .ofNat native.address.toNat)]

def Native.read : Reader Native
  | 0, _ => none
  | depth + 1, json => do
      let record ← Record.ofJson? ["name", "signature", "address"] json
      let name ← record.required "name" (Json.readString depth)
      let signature ← record.required "signature" (Signature.read depth)
      let address ← record.required "address" (Json.readUInt64 depth)
      return ⟨name, signature, address⟩

def Image.toJson (image : Image) : Json :=
  .object
    [("version", .ofUInt16 image.version), ("entry", .ofUInt16 image.entry),
      ("functions", .ofList Routine.toJson image.routines.toList),
      ("function_ids", .ofMap Json.ofUInt16 image.routineIds),
      ("constants", .ofList Json.string image.constants.toList),
      ("constant_ids", .ofMap Json.ofUInt16 image.constantIds),
      ("natives", .ofList Native.toJson image.natives.toList),
      ("native_ids", .ofMap Json.ofUInt16 image.nativeIds)]

def Image.read : Reader Image
  | 0, _ => none
  | depth + 1, json => do
      let record ← Record.ofJson?
        ["version", "entry", "functions", "function_ids", "constants", "constant_ids", "natives",
          "native_ids"] json
      let version ← record.required "version" (Json.readUInt16 depth)
      let entry ← record.required "entry" (Json.readUInt16 depth)
      let routines ← record.required "functions" (Json.readList Routine.read depth)
      let routineIds ← record.required "function_ids" (Json.readMap Json.readUInt16 depth)
      let constants ← record.required "constants" (Json.readList Json.readString depth)
      let constantIds ← record.required "constant_ids" (Json.readMap Json.readUInt16 depth)
      let natives ← record.required "natives" (Json.readList Native.read depth)
      let nativeIds ← record.required "native_ids" (Json.readMap Json.readUInt16 depth)
      return ⟨version, entry, routines.toArray, routineIds, constants.toArray, constantIds,
        natives.toArray, nativeIds⟩

/-- The document of an image as a text. -/
def Image.render (image : Image) : String :=
  image.toJson.render .pretty

/-- Read the document of an image. -/
def Image.parse (bytes : List UInt8) : Except CodeError Image :=
  match Json.readDocument Image.read bytes with
  | some image => .ok image
  | none => .error .serialization

end Backpatch
