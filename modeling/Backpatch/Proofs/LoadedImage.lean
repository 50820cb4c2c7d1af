import Backpatch.Proofs.StoredImage

/-!
# Images that were loaded

An image that comes out of a stored form need not be one that was ever compiled: its document may be
spelled in many ways and hold any tables.  But no document tells of open sites, so whatever is read
can be written and is then read as the same image.  What the stored form has twice is the version:
the header is looked at when an image is loaded, and the document may give another one.  Storing
puts the version of the image into the header, so that an image is loaded again exactly if it is of
the version that the header of its first stored form had to give.
-/

namespace Backpatch

open Json (Record)

theorem Json.exists_of_mem_mapM {α β : Type} {read : α → Option β} {items : List α}
    {results : List β} (all : items.mapM read = some results) {result : β}
    (member : result ∈ results) : ∃ item ∈ items, read item = some result := by
  induction items generalizing results with
  | nil =>
      cases all
      cases member
  | cons item items ih =>
      simp only [List.mapM_cons, Option.bind_eq_bind, Option.bind_eq_some_iff] at all
      obtain ⟨first, here, rest, later, same⟩ := all
      cases same
      rcases List.mem_cons.mp member with rfl | member
      · exact ⟨item, List.mem_cons_self, here⟩
      · obtain ⟨other, inside, found⟩ := ih later member
        exact ⟨other, List.mem_cons_of_mem _ inside, found⟩

theorem Json.exists_of_mem_readList {α : Type} {read : Reader α} {depth : Nat} {json : Json}
    {results : List α} (list : readList read depth json = some results) {result : α}
    (member : result ∈ results) : ∃ inner item, read inner item = some result := by
  unfold readList at list
  split at list
  · obtain ⟨item, -, found⟩ := exists_of_mem_mapM list member
    exact ⟨_, item, found⟩
  · cases list

theorem Json.Record.exists_of_required {α : Type} {record : Record} {name : String}
    {read : Json → Option α} {result : α} (found : record.required name read = some result) :
    ∃ json, read json = some result := by
  obtain ⟨json, -, read⟩ := Option.bind_eq_some_iff.mp found
  exact ⟨json, read⟩

theorem Buffer.openSites_of_read {depth : Nat} {json : Json} {buffer : Buffer}
    (read : Buffer.read depth json = some buffer) : buffer.openSites = ∅ := by
  cases depth with
  | zero => cases read
  | succ depth =>
      simp only [Buffer.read, Option.bind_eq_bind, Option.bind_eq_some_iff] at read
      obtain ⟨_, -, bytes, -, same⟩ := read
      cases same
      rfl

theorem Routine.patched_of_read {depth : Nat} {json : Json} {routine : Routine}
    (read : Routine.read depth json = some routine) : routine.code.openSites = ∅ := by
  cases depth with
  | zero => cases read
  | succ depth =>
      simp only [Routine.read, Option.bind_eq_bind, Option.bind_eq_some_iff] at read
      obtain ⟨_, -, _, -, _, -, _, -, _, -, _, -, code, given, same⟩ := read
      cases same
      obtain ⟨document, read⟩ := Record.exists_of_required given
      exact Buffer.openSites_of_read read

namespace Image

theorem patched_of_read {depth : Nat} {json : Json} {image : Image}
    (read : Image.read depth json = some image) : image.Patched := by
  cases depth with
  | zero => cases read
  | succ depth =>
      simp only [Image.read, Option.bind_eq_bind, Option.bind_eq_some_iff] at read
      obtain ⟨_, -, _, -, _, -, routines, given, _, -, _, -, _, -, _, -, _, -, same⟩ := read
      cases same
      obtain ⟨document, list⟩ := Record.exists_of_required given
      intro routine member
      obtain ⟨inner, item, found⟩ := Json.exists_of_mem_readList list (List.mem_toArray.mp member)
      exact Routine.patched_of_read found

theorem patched_of_parse {bytes : List UInt8} {image : Image}
    (parsed : Image.parse bytes = .ok image) : image.Patched := by
  unfold Image.parse Json.readDocument at parsed
  split at parsed
  case h_1 other read =>
      cases parsed
      obtain ⟨document, -, found⟩ := Option.bind_eq_some_iff.mp read
      exact patched_of_read found
  case h_2 => cases parsed

/-- No image that was loaded has an open site. -/
theorem patched_of_load {bytes : List UInt8} {image : Image}
    (loaded : Image.load bytes = .ok image) : image.Patched := by
  unfold Image.load at loaded
  dsimp only at loaded
  split at loaded
  · cases loaded
  split at loaded
  · cases loaded
  split at loaded
  · cases loaded
  split at loaded
  · cases loaded
  · exact patched_of_parse loaded

/-- Behind the first four bytes the version is looked at, before anything else. -/
theorem load_of_version_ne {version : UInt16} (other : version ≠ currentVersion)
    {rest : List UInt8} (isLong : 4 ≤ rest.length) :
    Image.load (magic ++ littleEndian 2 version.toNat ++ rest) =
      .error (.unsupportedVersion version) := by
  have whole : ¬ (magic ++ littleEndian 2 version.toNat ++ rest).length < headerLength := by
    rw [List.length_append, List.length_append, length_littleEndian]
    change ¬ 4 + 2 + rest.length < 10
    omega
  have isMagic : (magic ++ littleEndian 2 version.toNat ++ rest).take 4 = magic := rfl
  have twoBytes : ((magic ++ littleEndian 2 version.toNat ++ rest).drop 4).take 2 =
      littleEndian 2 version.toNat := rfl
  have announced : UInt16.ofNat (ofLittleEndian (littleEndian 2 version.toNat)) = version := by
    rw [ofLittleEndian_littleEndian, show Nat.pow 256 2 = UInt16.size from rfl,
      Nat.mod_eq_of_lt version.toNat_lt, UInt16.ofNat_toNat]
  unfold Image.load
  simp only [if_neg whole, isMagic, twoBytes, announced, ne_eq, not_true_eq_false, if_false,
    if_pos other]

theorem load_store_of_version_ne {image : Image} {bytes : List UInt8}
    (other : image.version ≠ currentVersion) (stored : image.store = .ok bytes) :
    Image.load bytes = .error (.unsupportedVersion image.version) := by
  unfold Image.store at stored
  dsimp only at stored
  split at stored
  · cases stored
    rw [List.append_assoc]
    refine load_of_version_ne other ?_
    rw [List.length_append, length_littleEndian]
    exact Nat.le_add_right 4 _
  · cases stored

/-- An image that was loaded and is stored is loaded again as the same image exactly if it is of the
current version, and is refused for its version otherwise. -/
theorem load_store_iff_version_of_load (bytes : List UInt8) (image : Image)
    (loaded : Image.load bytes = .ok image) (stored : List UInt8)
    (written : image.store = .ok stored) :
    (Image.load stored = .ok image ↔ image.version = currentVersion) ∧
      (image.version ≠ currentVersion →
        Image.load stored = .error (.unsupportedVersion image.version)) := by
  have refused := fun other => load_store_of_version_ne other written
  refine ⟨⟨fun restored => ?_, fun version => ?_⟩, refused⟩
  · refine Decidable.byContradiction fun other => ?_
    rw [refused other] at restored
    cases restored
  · have restored := load_store_append version (patched_of_load loaded) written []
    rwa [List.append_nil] at restored

/-- The stored form of a document that is given as a text. -/
def envelope (document : String) : List UInt8 :=
  header (utf8 document).length ++ utf8 document

/-- An image with nothing in its tables, not even the empty string. -/
def bare (version : UInt16) : Image :=
  { empty with version := version, constants := #[], constantIds := ∅ }

/-- The document may give the parts of an image in their order, without their names. -/
theorem load_store_iff_version_of_load_bare :
    Image.load (envelope "[1, 0, [], \x7b\x7d, [], \x7b\x7d, [], \x7b\x7d]") = .ok (bare 1) ∧
      ∃ stored, (bare 1).store = .ok stored ∧ Image.load stored = .ok (bare 1) := by
  have loaded : Image.load (envelope "[1, 0, [], \x7b\x7d, [], \x7b\x7d, [], \x7b\x7d]") =
      .ok (bare 1) := rfl
  obtain ⟨stored, written⟩ := exists_of_isOk (show (bare 1).store.isOk by decide +kernel)
  exact ⟨loaded, stored, written,
    (load_store_iff_version_of_load _ _ loaded stored written).1.mpr rfl⟩

/-- The header announces the current version, but the document gives the next one: the image is
loaded, and what it is stored as is refused. -/
theorem loaded_image_refused_when_stored :
    Image.load (envelope "[2, 0, [], \x7b\x7d, [], \x7b\x7d, [], \x7b\x7d]") = .ok (bare 2) ∧
      ∃ stored, (bare 2).store = .ok stored ∧
        Image.load stored = .error (.unsupportedVersion 2) := by
  obtain ⟨stored, written⟩ := exists_of_isOk (show (bare 2).store.isOk by decide +kernel)
  exact ⟨rfl, stored, written, load_store_of_version_ne (by decide) written⟩

end Image

end Backpatch
