import Backpatch.Proofs.Scanning

/-!
# Reading what has been written

A document is read as it was written: the scan of its text gives its tokens, and the tokens are put
together to the same tree, whatever is open around it.  Readers of numbers, lists, maps and records
then take the values out that were put in.
-/

namespace Backpatch.Json

mutual

/-- The tokens of a document. -/
def tokens : Json → List Token
  | null => [.null]
  | bool value => [.bool value]
  | number literal => [.number literal]
  | string content => [.string (some content)]
  | array [] => [.openArray, .closeArray]
  | array (item :: items) => .openArray :: (item.tokens ++ laterItems items ++ [.closeArray])
  | object [] => [.openObject, .closeObject]
  | object ((key, value) :: fields) =>
      .openObject :: .string (some key) :: .colon ::
        (value.tokens ++ laterFields fields ++ [.closeObject])
  | unreadable => [.string none]

/-- The tokens of the items that follow the first one of an array. -/
def laterItems : List Json → List Token
  | [] => []
  | item :: items => .comma :: (item.tokens ++ laterItems items)

/-- The tokens of the fields that follow the first one of an object. -/
def laterFields : List (String × Json) → List Token
  | [] => []
  | (key, value) :: fields =>
      .comma :: .string (some key) :: .colon :: (value.tokens ++ laterFields fields)

end

/-- Induction over documents, with what is shown of all items of an array and of the values of all
fields of an object. -/
theorem induction {motive : Json → Prop} (null : motive .null)
    (bool : ∀ value, motive (.bool value))
    (number : ∀ literal, motive (.number literal)) (string : ∀ content, motive (.string content))
    (array : ∀ items, (∀ item ∈ items, motive item) → motive (.array items))
    (object : ∀ fields, (∀ field ∈ fields, motive field.2) → motive (.object fields))
    (unreadable : motive .unreadable) (document : Json) : motive document :=
  @rec motive (fun items => ∀ item ∈ items, motive item)
    (fun fields => ∀ field ∈ fields, motive field.2) (fun field => motive field.2)
    null bool number string array object unreadable
    (fun _ member => by cases member)
    (fun _ _ first rest => List.forall_mem_cons.mpr ⟨first, rest⟩)
    (fun _ member => by cases member)
    (fun _ _ first rest => List.forall_mem_cons.mpr ⟨first, rest⟩)
    (fun _ _ value => value) document

/-- Whatever complete text a document is written behind, its tokens are found after those of the
text. -/
def Scanned (layout : Layout) (document : Json) : Prop :=
  ∀ {text : String} {tokens : List Token} (level : Nat), Completes text tokens →
    Spells (document.write layout level text) (document.tokens.reverse ++ tokens)

section Write

variable {layout : Layout} {text : String} {found : List Token}

theorem spells_writeItems {items : List Json} (scanned : ∀ item ∈ items, Scanned layout item)
    (level : Nat) (spells : Spells text found) :
    Spells (writeItems layout level text items) ((laterItems items).reverse ++ found) := by
  induction items generalizing text found with
  | nil => exact spells
  | cons item items ih =>
      rw [List.forall_mem_cons] at scanned
      have first := scanned.1 level ((spells.mark mark_comma).lineBreak layout level)
      simpa [writeItems, laterItems] using ih scanned.2 first

theorem spells_writeFields {fields : List (String × Json)}
    (scanned : ∀ field ∈ fields, Scanned layout field.2) (level : Nat)
    (spells : Spells text found) :
    Spells (writeFields layout level text fields) ((laterFields fields).reverse ++ found) := by
  induction fields generalizing text found with
  | nil => exact spells
  | cons field fields ih =>
      obtain ⟨key, value⟩ := field
      rw [List.forall_mem_cons] at scanned
      have named := (((spells.mark mark_comma).lineBreak layout level).quote key).colon layout
      simpa [writeFields, laterFields] using ih scanned.2 (scanned.1 level named)

/-- What is written for a document is scanned as its tokens. -/
theorem scanned (layout : Layout) (document : Json) : Scanned layout document := by
  induction document using Json.induction with
  | null =>
      intro text found level completes
      exact completes.null
  | bool value =>
      intro text found level completes
      cases value with
      | false => exact completes.bool false
      | true => exact completes.bool true
  | number literal =>
      intro text found level completes
      exact completes.number literal
  | string content =>
      intro text found level completes
      exact (completes.quote content).spells
  | unreadable =>
      intro text found level completes
      exact completes.loneSurrogate.spells
  | array items ih =>
      intro text found level completes
      cases items with
      | nil =>
          have closed : Completes (text ++ "[]") (.closeArray :: .openArray :: found) :=
            run?_utf8_append completes rfl
          exact closed.spells
      | cons item items =>
          rw [List.forall_mem_cons] at ih
          have opened := (completes.spells.mark mark_openArray).lineBreak layout (level + 1)
          have items := spells_writeItems ih.2 (level + 1) (ih.1 (level + 1) opened)
          have closed := ((items.lineBreak layout level).mark mark_closeArray).spells
          simpa [write, tokens] using closed
  | object fields ih =>
      intro text found level completes
      cases fields with
      | nil =>
          have closed : Completes (text ++ "\x7b\x7d") (.closeObject :: .openObject :: found) :=
            run?_utf8_append completes rfl
          exact closed.spells
      | cons field fields =>
          obtain ⟨key, value⟩ := field
          rw [List.forall_mem_cons] at ih
          have opened := (completes.spells.mark mark_openObject).lineBreak layout (level + 1)
          have first := ih.1 (level + 1) ((opened.quote key).colon layout)
          have fields := spells_writeFields ih.2 (level + 1) first
          have closed := ((fields.lineBreak layout level).mark mark_closeObject).spells
          simpa [write, tokens] using closed

/-- What is written for a document is cut into its tokens. -/
theorem scan?_render (document : Json) (layout : Layout) :
    Token.scan? (utf8 (document.render layout)) = some document.tokens := by
  have empty : Completes "" [] := rfl
  obtain ⟨scan, run, isFound⟩ := document.scanned layout 0 empty
  have finished := isFound.finish?
  rw [List.append_nil, List.reverse_reverse] at finished
  rw [Scan.run?] at run
  simp [Token.scan?, render, run, finished]

end Write

open Expect in
/-- Wherever a value is expected, the tokens of a document are taken for it. -/
def Built (document : Json) : Prop :=
  ∀ frames, document.tokens.foldlM step? (.value frames) = afterValue document frames

namespace Expect

theorem foldlM_firstItem (document : Json) (frames : List Frame) (rest : List Token) :
    (document.tokens ++ rest).foldlM step? (.firstItem (.array [] :: frames)) =
      (document.tokens ++ rest).foldlM step? (.value (.array [] :: frames)) := by
  cases document with
  | array items => cases items <;> simp [tokens, step?, close?, value?]
  | object fields => cases fields <;> simp [tokens, step?, close?, value?]
  | _ => simp [tokens, step?, close?, value?]

theorem foldlM_laterItems {items : List Json} (built : ∀ item ∈ items, Built item)
    (done : List Json) (frames : List Frame) :
    (laterItems items).foldlM step? (.separator (.array done :: frames)) =
      some (.separator (.array (items.reverse ++ done) :: frames)) := by
  induction items generalizing done with
  | nil => rfl
  | cons item items ih =>
      rw [List.forall_mem_cons] at built
      have comma : step? (.separator (.array done :: frames)) .comma =
          some (.value (.array done :: frames)) := rfl
      have ended : afterValue item (.array done :: frames) =
          some (.separator (.array (item :: done) :: frames)) := rfl
      simp [laterItems, comma, built.1 (.array done :: frames), ended, ih built.2]

theorem foldlM_laterFields {fields : List (String × Json)}
    (built : ∀ field ∈ fields, Built field.2) (done : List (String × Json))
    (frames : List Frame) :
    (laterFields fields).foldlM step? (.separator (.object (some done) :: frames)) =
      some (.separator (.object (some (fields.reverse ++ done)) :: frames)) := by
  induction fields generalizing done with
  | nil => rfl
  | cons field fields ih =>
      obtain ⟨key, value⟩ := field
      rw [List.forall_mem_cons] at built
      have named : [.comma, .string (some key), .colon].foldlM step?
          (.separator (.object (some done) :: frames)) =
            some (.value (.field (some done) (some key) :: frames)) := rfl
      have ended : afterValue value (.field (some done) (some key) :: frames) =
          some (.separator (.object (some ((key, value) :: done)) :: frames)) := rfl
      have split : laterFields ((key, value) :: fields) =
          [.comma, .string (some key), .colon] ++ (value.tokens ++ laterFields fields) := by
        simp [laterFields]
      rw [split, List.foldlM_append, named]
      simp [built.1 (.field (some done) (some key) :: frames), ended, ih built.2]

end Expect

/-- The tokens of a document are put together to the same document. -/
theorem built (document : Json) : Built document := by
  induction document using Json.induction with
  | array items ih =>
      intro frames
      cases items with
      | nil => simp [tokens, Expect.step?, Expect.value?, Expect.close?]
      | cons item items =>
          rw [List.forall_mem_cons] at ih
          have opened : Expect.step? (.value frames) .openArray =
              some (.firstItem (.array [] :: frames)) := rfl
          have ended : Expect.afterValue item (.array [] :: frames) =
              some (.separator (.array [item] :: frames)) := rfl
          have closed : Expect.step? (.separator (.array (items.reverse ++ [item]) :: frames))
              .closeArray =
                Expect.afterValue (.array (items.reverse ++ [item]).reverse) frames := rfl
          rw [tokens, List.foldlM_cons, opened, Option.bind_eq_bind, Option.bind_some,
            List.append_assoc, Expect.foldlM_firstItem, List.foldlM_append, ih.1, ended,
            Option.bind_eq_bind, Option.bind_some, List.foldlM_append,
            Expect.foldlM_laterItems ih.2]
          simp [closed]
  | object fields ih =>
      intro frames
      cases fields with
      | nil => simp [tokens, Expect.step?, Expect.value?, Expect.close?, Expect.key?]
      | cons field fields =>
          obtain ⟨key, value⟩ := field
          rw [List.forall_mem_cons] at ih
          have opened : [.openObject, .string (some key), .colon].foldlM Expect.step?
              (.value frames) = some (.value (.field (some []) (some key) :: frames)) := rfl
          have ended : Expect.afterValue value (.field (some []) (some key) :: frames) =
              some (.separator (.object (some [(key, value)]) :: frames)) := rfl
          have closed : Expect.step?
              (.separator (.object (some (fields.reverse ++ [(key, value)])) :: frames))
              .closeObject =
                Expect.afterValue (.object (fields.reverse ++ [(key, value)]).reverse) frames := rfl
          have split : tokens (.object ((key, value) :: fields)) =
              [.openObject, .string (some key), .colon] ++
                (value.tokens ++ (laterFields fields ++ [.closeObject])) := by
            simp [tokens]
          rw [split, List.foldlM_append, opened, Option.bind_eq_bind, Option.bind_some,
            List.foldlM_append, ih.1, ended, Option.bind_eq_bind, Option.bind_some,
            List.foldlM_append, Expect.foldlM_laterFields ih.2]
          simp [closed]
  | null | bool | number | string | unreadable =>
      intro frames
      simp [tokens, Expect.step?, Expect.value?]

/-- What is written for a document, in either layout, is read as the same document. -/
theorem parse?_render (document : Json) (layout : Layout) :
    parse? (utf8 (document.render layout)) = some document := by
  rw [parse?, document.scan?_render layout]
  simp [ofTokens?, document.built [], Expect.afterValue]

variable {α : Type}

theorem readNat_ofNat {bound value : Nat} (small : value < bound) (depth : Nat) :
    readNat bound depth (.ofNat value) = some value := by
  have inside : (0 : Int) ≤ value ∧ (value : Int) ≤ (bound : Int) - 1 := by omega
  have read : readInt 0 (bound - 1) depth (.ofNat value) = some (value : Int) := if_pos inside
  rw [readNat, read]
  rfl

theorem readUInt8_ofNat (depth : Nat) (byte : UInt8) :
    readUInt8 depth (.ofNat byte.toNat) = some byte := by
  simp [readUInt8, readNat_ofNat byte.toNat_lt]

theorem readUInt16_ofUInt16 (depth : Nat) (value : UInt16) :
    readUInt16 depth (.ofUInt16 value) = some value := by
  simp [readUInt16, ofUInt16, readNat_ofNat value.toNat_lt]

theorem readUInt64_ofNat (depth : Nat) (value : UInt64) :
    readUInt64 depth (.ofNat value.toNat) = some value := by
  simp [readUInt64, readNat_ofNat value.toNat_lt]

section

variable {read : Reader α} {toJson : α → Json} {depth : Nat}

theorem readOption_ofOption (reads : ∀ value, read depth (toJson value) = some value)
    (notNull : ∀ value, toJson value ≠ .null) (value : Option α) :
    readOption read depth (ofOption toJson value) = some value := by
  cases value with
  | none => rfl
  | some value =>
      rw [ofOption, readOption.eq_2 _ _ _ (notNull value), reads]
      rfl

theorem readList_ofList {items : List α}
    (reads : ∀ item ∈ items, read depth (toJson item) = some item) :
    readList read (depth + 1) (ofList toJson items) = some items := by
  rw [ofList, readList]
  induction items with
  | nil => rfl
  | cons item items ih =>
      rw [List.forall_mem_cons] at reads
      simp [reads.1, ih reads.2]

/-- The entries of a map make up the map. -/
theorem insertMany_toList (map : NameMap α) : (∅ : NameMap α).insertMany map.toList = map := by
  apply Std.ExtTreeMap.ext_getElem?
  intro key
  by_cases member : key ∈ map
  · obtain ⟨value, entry⟩ := Option.isSome_iff_exists.mp
      (Std.ExtTreeMap.mem_iff_isSome_getElem?.mp member)
    rw [entry]
    exact Std.ExtTreeMap.getElem?_insertMany_list_of_mem Std.ReflCmp.compare_self
      Std.ExtTreeMap.distinct_keys_toList (Std.ExtTreeMap.mem_toList_iff_getElem?_eq_some.mpr entry)
  · have absent : (map.toList.map Prod.fst).contains key = false := by
      rw [Std.ExtTreeMap.map_fst_toList_eq_keys]
      simpa [Std.ExtTreeMap.mem_keys] using member
    rw [Std.ExtTreeMap.getElem?_insertMany_list_of_contains_eq_false absent,
      Std.ExtTreeMap.getElem?_eq_none member, Std.ExtTreeMap.getElem?_empty]

theorem readMap_ofMap (reads : ∀ value, read depth (toJson value) = some value)
    (map : NameMap α) : readMap read (depth + 1) (ofMap toJson map) = some map := by
  have inserts : ∀ (entries : List (String × α)) (map : NameMap α),
      (entries.map fun entry => (entry.1, toJson entry.2)).foldlM
          (fun map entry => do return map.insert entry.1 (← read depth entry.2)) map =
        some (map.insertMany entries) := by
    intro entries
    induction entries with
    | nil => exact fun _ => rfl
    | cons entry entries ih =>
        intro map
        rw [List.map_cons, List.foldlM_cons, Std.ExtTreeMap.insertMany_cons, ← ih]
        simp only [reads]
        rfl
  exact (inserts map.toList ∅).trans (congrArg some (insertMany_toList map))

end

/-- An object with just the fields of a record, each once. -/
theorem Record.ofJson?_object {names : List String} {fields : List (String × Json)}
    (keys : fields.map (·.1) = names) (nodup : names.Nodup) :
    Record.ofJson? names (.object fields) = some ⟨fields, false⟩ := by
  have all : fields.filter (fun field => names.contains field.1) = fields := by
    rw [List.filter_eq_self]
    intro field member
    rw [List.contains_iff_mem, ← keys]
    exact List.mem_map_of_mem member
  rw [Record.ofJson?]
  simp only [all, keys, nodup, if_true]

end Backpatch.Json
