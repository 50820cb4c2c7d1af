import Backpatch.Proofs.Checked
import Backpatch.Proofs.Documents

/-!
# Stored images are restored

An image without open sites is given back by both of its written forms.  Each reader undoes its
writer, at every depth that the document needs; the text of the document is read as the document
itself, whatever names and constants are in it; and the header tells where the document ends, so
that bytes behind it do no harm and a form that was cut off is noticed.
-/

namespace Backpatch

open Json (Record)

theorem Ty.read_toJson (depth : Nat) (ty : Ty) : Ty.read depth ty.toJson = some ty :=
  ofName?_name ty

theorem Parameter.read_toJson (depth : Nat) (param : Parameter) :
    Parameter.read (depth + 1) param.toJson = some param := by
  rw [Parameter.read, Parameter.toJson, Record.ofJson?_object]
  · simp [Record.required, List.lookup_cons, Ty.read_toJson, Json.readString]
  · rfl
  · decide

theorem Signature.read_toJson (depth : Nat) (signature : Signature) :
    Signature.read (depth + 2) signature.toJson = some signature := by
  rw [Signature.read, Signature.toJson,
    Json.readList_ofList fun param _ => Parameter.read_toJson depth param]
  exact ofElements?_elements signature

theorem Buffer.read_toJson (depth : Nat) {buffer : Buffer} (patched : buffer.openSites = ∅) :
    Buffer.read (depth + 2) buffer.toJson = some buffer := by
  rw [Buffer.read, Buffer.toJson, Record.ofJson?_object]
  · have same : Buffer.ofBytes buffer.bytes = buffer := by rw [Buffer.ofBytes, ← patched]
    simp [Record.required, same,
      Json.readList_ofList fun byte _ => Json.readUInt8_ofNat depth byte]
  · rfl
  · decide

theorem Frame.read_toJson (depth : Nat) (frame : Frame) :
    Frame.read (depth + 1) frame.toJson = some frame := by
  rw [Frame.read, Frame.toJson, Record.ofJson?_object]
  · have word := Json.readUInt16_ofUInt16 depth
    simp only [Json.ofUInt16] at word
    simp [Record.required, List.lookup_cons, word]
  · rfl
  · decide

theorem Routine.read_toJson (depth : Nat) {routine : Routine}
    (patched : routine.code.openSites = ∅) :
    Routine.read (depth + 3) routine.toJson = some routine := by
  rw [Routine.read, Routine.toJson, Record.ofJson?_object]
  · have id := Json.readOption_ofOption (Json.readUInt16_ofUInt16 (depth + 2))
      (fun _ => nofun) routine.id
    simp [Record.required, Record.optional, List.lookup_cons, id, Json.readString,
      Signature.read_toJson, Json.readUInt16_ofUInt16, Frame.read_toJson, Buffer.read_toJson,
      patched]
  · rfl
  · decide

theorem Native.read_toJson (depth : Nat) (native : Native) :
    Native.read (depth + 3) native.toJson = some native := by
  rw [Native.read, Native.toJson, Record.ofJson?_object]
  · simp [Record.required, List.lookup_cons, Json.readString, Signature.read_toJson,
      Json.readUInt64_ofNat]
  · rfl
  · decide

namespace Image

/-- No routine has an open site in its code. -/
def Patched (image : Image) : Prop :=
  ∀ routine ∈ image.routines, routine.code.openSites = ∅

theorem read_toJson (depth : Nat) {image : Image} (patched : image.Patched) :
    Image.read (depth + 5) image.toJson = some image := by
  rw [Image.read, Image.toJson, Record.ofJson?_object]
  · have routines := @Json.readList_ofList _ Routine.read Routine.toJson (depth + 3)
      image.routines.toList fun routine member =>
        Routine.read_toJson depth (patched routine (Array.mem_toList_iff.mp member))
    have constants := @Json.readList_ofList _ Json.readString Json.string (depth + 3)
      image.constants.toList fun constant _ => rfl
    have natives := @Json.readList_ofList _ Native.read Native.toJson (depth + 3)
      image.natives.toList fun native _ => Native.read_toJson depth native
    have ids := Json.readMap_ofMap (Json.readUInt16_ofUInt16 (depth + 3))
    simp [Record.required, List.lookup_cons, Json.readUInt16_ofUInt16, routines, constants,
      natives, ids]
  · rfl
  · decide

/-- The document of an image, in either layout, is read as the image. -/
theorem parse_render {image : Image} (patched : image.Patched) (layout : Json.Layout) :
    Image.parse (utf8 (image.toJson.render layout)) = .ok image := by
  have read : Json.readDocument Image.read (utf8 (image.toJson.render layout)) = some image := by
    have depth : Json.maxDepth = 122 + 5 := rfl
    rw [Json.readDocument, Json.parse?_render, Option.bind_eq_bind, Option.bind_some, depth,
      read_toJson 122 patched]
  rw [Image.parse, read]

/-- The bytes in front of a document of some length. -/
def header (length : Nat) : List UInt8 :=
  magic ++ littleEndian 2 currentVersion.toNat ++ littleEndian 4 length

theorem length_header (length : Nat) : (header length).length = headerLength := rfl

/-- Behind a header there must be as many bytes as it announces, and only these are looked at. -/
theorem load_header {length : Nat} (small : length < UInt32.size) (payload : List UInt8) :
    Image.load (header length ++ payload) =
      if payload.length < length then .error (.malformed .truncatedPayload)
      else Image.parse (payload.take length) := by
  have fourBytes : (header length ++ payload).drop 6 = littleEndian 4 length ++ payload := rfl
  have announced : ofLittleEndian (((header length ++ payload).drop 6).take 4) = length := by
    rw [fourBytes, List.take_left' (length_littleEndian 4 length), ofLittleEndian_littleEndian]
    exact Nat.mod_eq_of_lt small
  have behind : (header length ++ payload).drop headerLength = payload := rfl
  have isLong : ¬ (header length ++ payload).length < headerLength := by
    rw [List.length_append, length_header]
    omega
  have cut :
      (header length ++ payload).length < headerLength + length ↔ payload.length < length := by
    rw [List.length_append, length_header]
    omega
  have isMagic : (header length ++ payload).take 4 = magic := rfl
  have version : UInt16.ofNat (ofLittleEndian (((header length ++ payload).drop 4).take 2)) =
      currentVersion := rfl
  unfold Image.load
  simp only [if_neg isLong, isMagic, version, announced, cut, behind, ne_eq, not_true_eq_false,
    if_false]

theorem load_of_length_lt {bytes : List UInt8} (short : bytes.length < headerLength) :
    Image.load bytes = .error (.malformed .tooShort) := by
  rw [Image.load, if_pos short]

theorem store_eq_ok {image : Image} {bytes : List UInt8} (version : image.version = currentVersion)
    (stored : image.store = .ok bytes) :
    (utf8 (image.toJson.render .compact)).length < UInt32.size ∧
      bytes = header (utf8 (image.toJson.render .compact)).length ++
        utf8 (image.toJson.render .compact) := by
  unfold Image.store at stored
  dsimp only at stored
  split at stored
  case isTrue small =>
      cases stored
      rw [version]
      exact ⟨small, rfl⟩
  case isFalse => cases stored

/-- A stored form gives back the image, whatever follows it. -/
theorem load_store_append {image : Image} {bytes : List UInt8}
    (version : image.version = currentVersion) (patched : image.Patched)
    (stored : image.store = .ok bytes) (rest : List UInt8) :
    Image.load (bytes ++ rest) = .ok image := by
  obtain ⟨small, rfl⟩ := store_eq_ok version stored
  have whole : ¬ (utf8 (image.toJson.render .compact) ++ rest).length <
      (utf8 (image.toJson.render .compact)).length := by
    rw [List.length_append]
    omega
  rw [List.append_assoc, load_header small, if_neg whole, List.take_left,
    parse_render patched]

/-- A stored form that was cut off is too short for its header, or for the document that its header
announces. -/
theorem load_take_store {image : Image} {bytes : List UInt8}
    (version : image.version = currentVersion) (stored : image.store = .ok bytes) {length : Nat}
    (short : length < bytes.length) :
    Image.load (bytes.take length) =
      .error (.malformed (if length < headerLength then .tooShort else .truncatedPayload)) := by
  obtain ⟨small, rfl⟩ := store_eq_ok version stored
  rw [List.length_append, length_header] at short
  by_cases inHeader : length < headerLength
  · rw [if_pos inHeader]
    apply load_of_length_lt
    rw [List.length_take]
    omega
  · have isShort : ((utf8 (image.toJson.render .compact)).take (length - headerLength)).length <
        (utf8 (image.toJson.render .compact)).length := by
      rw [List.length_take]
      omega
    rw [if_neg inHeader, List.take_append, length_header,
      List.take_of_length_le (Nat.le_of_not_lt inHeader), load_header small, if_pos isShort]

end Image

theorem Image.Realizes.patched {image : Image} {program : Program}
    (realizes : image.Realizes program) : image.Patched := by
  intro routine member
  obtain ⟨index, inside, found⟩ := Array.mem_iff_getElem.mp member
  obtain ⟨_, -, code⟩ := realizes.definition (Array.getElem?_eq_some_iff.mpr ⟨inside, found⟩)
  exact code.patched

/-- An image of the current version without open sites is given back by its document and by its
stored form, whatever follows that; a stored form that was cut off is refused as malformed.  Every
compiled image is of this kind. -/
theorem Image.parse_render_and_load_store :
    (∀ image : Image, image.version = currentVersion → image.Patched →
      Image.parse (utf8 image.render) = .ok image ∧
        ∀ bytes, image.store = .ok bytes →
          (∀ rest, Image.load (bytes ++ rest) = .ok image) ∧
            ∀ short, short <+: bytes → short ≠ bytes →
              ∃ cause, Image.load short = .error (.malformed cause)) ∧
      ∀ (program : Program) (options : Options) (image : Image),
        program.compile options = .ok image →
          image.version = currentVersion ∧ image.Patched := by
  constructor
  · intro image version patched
    refine ⟨parse_render patched .pretty, fun bytes stored => ⟨?_, ?_⟩⟩
    · exact load_store_append version patched stored
    · intro short isPrefix strict
      have isShort : short.length < bytes.length :=
        Nat.lt_of_le_of_ne isPrefix.length_le fun same => strict (isPrefix.eq_of_length same)
      rw [List.prefix_iff_eq_take.mp isPrefix]
      exact ⟨_, load_take_store version stored isShort⟩
  · intro program options image compiled
    rw [program.compile_eq_emit] at compiled
    have realizes := Program.realizes_of_emit compiled
    exact ⟨realizes.version, realizes.patched⟩

/-- An image with names that have to be escaped. -/
def Image.quoted : Image :=
  { empty with
    routines := #[⟨some 0, "\"é\\\n", .of .void [⟨.int, ""⟩], 0, ⟨1, 0, 0⟩, .ofBytes #[0x50]⟩]
    routineIds := (∅ : NameMap UInt16).insert "\"é\\\n" 0 }

theorem Image.parse_render_and_load_store_quoted :
    Image.parse (utf8 quoted.render) = .ok quoted ∧
      (∃ bytes, quoted.store = .ok bytes ∧ Image.load (bytes ++ [0]) = .ok quoted ∧
        ∃ cause, Image.load (bytes.take 10) = .error (.malformed cause)) ∧
      ∃ image, Program.halving.compile .default = .ok image ∧ image.Patched := by
  obtain ⟨restores, patches⟩ := parse_render_and_load_store
  have isPatched : quoted.Patched := by
    intro routine member
    rw [Array.mem_singleton.mp member]
    rfl
  obtain ⟨parsed, loads⟩ := restores quoted rfl isPatched
  obtain ⟨image, emitted⟩ := Program.halving_emits
  have compiled : Program.halving.compile .default = .ok image := by
    rw [Program.compile_eq_emit, emitted]
  have isLong : 10 < quoted.store.toOption.elim 0 List.length := by decide +kernel
  refine ⟨parsed, ?_, image, compiled, (patches _ _ image compiled).2⟩
  cases stored : quoted.store with
  | error error =>
      rw [stored] at isLong
      exact absurd isLong (Nat.not_lt_zero 10)
  | ok bytes =>
      rw [stored] at isLong
      change 10 < bytes.length at isLong
      obtain ⟨loaded, refused⟩ := loads bytes stored
      refine ⟨bytes, rfl, loaded [0], refused _ (List.take_prefix 10 bytes) ?_⟩
      intro same
      have short := List.length_take_le 10 bytes
      rw [same] at short
      omega

end Backpatch
