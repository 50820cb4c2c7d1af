import Backpatch.Buffer
import Backpatch.Frame
import Backpatch.NameMap
import Backpatch.Signature

/-!
# Program images

A compiled program is an image: its routines, its string constants and the native functions that it
calls, each numbered from zero in the order in which they were added, with an index by name beside
each list.  Constant zero is the empty string.

Adding to an image is an action that may fail because the sixteen-bit numbers are used up; it then
leaves the image as it was.
-/

namespace Backpatch

/-- A compiled function. -/
structure Routine where
  /-- The number of the routine in its image, once it has been added. -/
  id : Option UInt16
  name : String
  signature : Signature
  /-- The scope of the routine's body. -/
  scopeId : UInt16
  /-- The slots that a call of the routine needs. -/
  frame : Frame
  code : Buffer
  deriving DecidableEq

namespace Routine

/-- A routine that is not compiled yet. -/
def declare (name : String) (signature : Signature) : Routine where
  id := none
  name := name
  signature := signature
  scopeId := 0
  frame := .empty
  code := .empty

instance : Inhabited Routine :=
  ⟨declare "" default⟩

/-- Number a routine, which can be done only once. -/
def assignId (routine : Routine) (id : UInt16) : Except CodeError Routine :=
  match routine.id with
  | some existing => .error (.idReassigned routine.name existing id)
  | none => .ok { routine with id := some id }

end Routine

/-- A function of the environment, known by its address. -/
structure Native where
  name : String
  signature : Signature
  address : UInt64
  deriving DecidableEq, Repr, Inhabited

/-- A compiled program. -/
structure Image where
  version : UInt16
  /-- The number of the routine with which the program starts. -/
  entry : UInt16
  routines : Array Routine
  /-- The first routine of each name. -/
  routineIds : NameMap UInt16
  constants : Array String
  constantIds : NameMap UInt16
  natives : Array Native
  nativeIds : NameMap UInt16
  deriving DecidableEq

/-- Actions on an image that may fail. -/
abbrev ImageM := EStateM CodeError Image

namespace Image

/-- The version of the images that are made here. -/
def currentVersion : UInt16 := 1

/-- The greatest number that an entry of an image can have. -/
def maxId : Nat := 65535

/-- The image without routines. -/
def empty : Image where
  version := currentVersion
  entry := 0
  routines := #[]
  routineIds := ∅
  constants := #[""]
  constantIds := (∅ : NameMap UInt16).insert "" 0
  natives := #[]
  nativeIds := ∅

instance : Inhabited Image :=
  ⟨empty⟩

def routine? (image : Image) (id : UInt16) : Option Routine :=
  image.routines[id.toNat]?

def routineNamed? (image : Image) (name : String) : Option Routine :=
  image.routineIds[name]?.bind image.routine?

/-- The routine with which the program starts. -/
def entryRoutine? (image : Image) : Option Routine :=
  image.routine? image.entry

def constant? (image : Image) (id : UInt16) : Option String :=
  image.constants[id.toNat]?

def native? (image : Image) (id : UInt16) : Option Native :=
  image.natives[id.toNat]?

/-- Change the routine of a number. -/
def modifyRoutine (image : Image) (id : UInt16) (change : Routine → Routine) : Image :=
  { image with routines := image.routines.modify id.toNat change }

/-- Add a routine under the next number.  The index keeps the first routine of a name. -/
def addRoutine (routine : Routine) : ImageM UInt16 := fun image =>
  if image.routines.size > maxId then
    .error .tooManyFunctions image
  else
    let id := UInt16.ofNat image.routines.size
    match routine.assignId id with
    | .error error => .error error image
    | .ok routine =>
        .ok id
          { image with
            routineIds := image.routineIds.insertIfNew routine.name id
            routines := image.routines.push routine }

/-- The number of a string constant, which is added unless it is indexed already. -/
def internConstant (value : String) : ImageM UInt16 := fun image =>
  match image.constantIds[value]? with
  | some id => .ok id image
  | none =>
      if image.constants.size > maxId then
        .error .tooManyConstants image
      else
        let id := UInt16.ofNat image.constants.size
        .ok id
          { image with
            constants := image.constants.push value
            constantIds := image.constantIds.insert value id }

/-- The number of a native function, which is added unless its name is indexed already. -/
def internNative (native : Native) : ImageM UInt16 := fun image =>
  match image.nativeIds[native.name]? with
  | some id => .ok id image
  | none =>
      if image.natives.size > maxId then
        .error .tooManyNatives image
      else
        let id := UInt16.ofNat image.natives.size
        .ok id
          { image with
            natives := image.natives.push native
            nativeIds := image.nativeIds.insert native.name id }

end Image

end Backpatch
