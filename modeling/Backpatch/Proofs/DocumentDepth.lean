import Backpatch.Proofs.Documents

/-!
# The depth of documents

How many arrays and objects are open at once in a document can be seen from its tokens, and it is
the depth of the tree.  A reader that opens just the arrays and objects that the writer has put
there takes the value out if it may open as many as the document is deep, and refuses otherwise.
-/

namespace Backpatch

namespace Json

mutual

/-- The number of arrays and objects that are open at once in a document. -/
def depth : Json → Nat
  | array items => itemsDepth items + 1
  | object fields => fieldsDepth fields + 1
  | _ => 0

/-- The greatest depth of an item. -/
def itemsDepth : List Json → Nat
  | [] => 0
  | item :: items => max item.depth (itemsDepth items)

/-- The greatest depth of a value of a field. -/
def fieldsDepth : List (String × Json) → Nat
  | [] => 0
  | (_, value) :: fields => max value.depth (fieldsDepth fields)

end

/-- By how many arrays and objects more are open after a token than before it. -/
def Token.opening : Token → Int
  | openArray | openObject => 1
  | closeArray | closeObject => -1
  | _ => 0

/-- The number of arrays and objects that are open after some tokens. -/
def opened (tokens : List Token) : Int :=
  (tokens.map Token.opening).sum

/-- At no point in some tokens are more than so many arrays and objects open. -/
def OpensWithin (limit : Int) (tokens : List Token) : Prop :=
  ∀ first, first <+: tokens → opened first ≤ limit

theorem OpensWithin.nonneg {limit : Int} {tokens : List Token} (within : OpensWithin limit tokens) :
    0 ≤ limit :=
  within [] List.nil_prefix

theorem opensWithin_cons {limit : Int} {token : Token} {tokens : List Token} :
    OpensWithin limit (token :: tokens) ↔
      0 ≤ limit ∧ OpensWithin (limit - token.opening) tokens := by
  have opened_cons (first : List Token) : opened (token :: first) = token.opening + opened first :=
    List.sum_cons
  constructor
  · intro within
    refine ⟨within.nonneg, fun first isPrefix => ?_⟩
    have bound := within (token :: first) (List.cons_prefix_cons.mpr ⟨rfl, isPrefix⟩)
    rw [opened_cons] at bound
    omega
  · rintro ⟨positive, within⟩ first isPrefix
    cases first with
    | nil => exact positive
    | cons head rest =>
        obtain ⟨same, isPrefix⟩ := List.cons_prefix_cons.mp isPrefix
        have bound := within rest isPrefix
        rw [same, opened_cons]
        omega

theorem opensWithin_flat {limit : Int} {token : Token} {tokens : List Token}
    (flat : token.opening = 0) :
    OpensWithin limit (token :: tokens) ↔ OpensWithin limit tokens := by
  rw [opensWithin_cons, flat, Int.sub_zero]
  exact and_iff_right_of_imp OpensWithin.nonneg

/-- Whatever follows the tokens of a document, they stay within a limit that is at least the depth
of the document. -/
def Nests (document : Json) : Prop :=
  ∀ limit rest, OpensWithin limit (document.tokens ++ rest) ↔
    (document.depth : Int) ≤ limit ∧ OpensWithin limit rest

theorem opensWithin_laterItems {items : List Json} (nests : ∀ item ∈ items, Nests item)
    (limit : Int) (rest : List Token) :
    OpensWithin limit (laterItems items ++ rest) ↔
      (itemsDepth items : Int) ≤ limit ∧ OpensWithin limit rest := by
  induction items with
  | nil => exact (and_iff_right_of_imp OpensWithin.nonneg).symm
  | cons item items ih =>
      rw [List.forall_mem_cons] at nests
      rw [laterItems, List.cons_append, opensWithin_flat rfl, List.append_assoc, nests.1,
        ih nests.2, itemsDepth, ← and_assoc]
      exact and_congr_left fun _ => by omega

theorem opensWithin_laterFields {fields : List (String × Json)}
    (nests : ∀ field ∈ fields, Nests field.2) (limit : Int) (rest : List Token) :
    OpensWithin limit (laterFields fields ++ rest) ↔
      (fieldsDepth fields : Int) ≤ limit ∧ OpensWithin limit rest := by
  induction fields with
  | nil => exact (and_iff_right_of_imp OpensWithin.nonneg).symm
  | cons field fields ih =>
      obtain ⟨key, value⟩ := field
      rw [List.forall_mem_cons] at nests
      rw [laterFields, List.cons_append, opensWithin_flat rfl, List.cons_append,
        opensWithin_flat rfl, List.cons_append, opensWithin_flat rfl, List.append_assoc, nests.1,
        ih nests.2, fieldsDepth, ← and_assoc]
      exact and_congr_left fun _ => by dsimp only; omega

theorem opensWithin_bracket {opens closes : Token} (isOpen : opens.opening = 1)
    (isClose : closes.opening = -1) {inside : List Token} {depth : Nat}
    (nests : ∀ limit rest, OpensWithin limit (inside ++ rest) ↔
      (depth : Int) ≤ limit ∧ OpensWithin limit rest) (limit : Int) (rest : List Token) :
    OpensWithin limit (opens :: (inside ++ [closes]) ++ rest) ↔
      ((depth + 1 : Nat) : Int) ≤ limit ∧ OpensWithin limit rest := by
  rw [List.cons_append, List.append_assoc, List.singleton_append, opensWithin_cons, isOpen, nests,
    opensWithin_cons, isClose, Int.sub_neg, Int.sub_add_cancel]
  constructor
  · rintro ⟨-, bound, -, within⟩
    exact ⟨by omega, within⟩
  · rintro ⟨bound, within⟩
    exact ⟨by omega, by omega, by omega, within⟩

theorem nests (document : Json) : Nests document := by
  have scalar (token : Token) (flat : token.opening = 0) (limit : Int) (rest : List Token) :
      OpensWithin limit ([token] ++ rest) ↔ ((0 : Nat) : Int) ≤ limit ∧ OpensWithin limit rest := by
    rw [List.singleton_append, opensWithin_flat flat]
    exact (and_iff_right_of_imp OpensWithin.nonneg).symm
  have nothing (limit : Int) (rest : List Token) :
      OpensWithin limit ([] ++ rest) ↔ ((0 : Nat) : Int) ≤ limit ∧ OpensWithin limit rest :=
    (and_iff_right_of_imp OpensWithin.nonneg).symm
  induction document using Json.induction with
  | null => exact scalar _ rfl
  | bool value => exact scalar _ rfl
  | number literal => exact scalar _ rfl
  | string content => exact scalar _ rfl
  | unreadable => exact scalar _ rfl
  | array items ih =>
      cases items with
      | nil => exact opensWithin_bracket rfl rfl nothing
      | cons item items =>
          rw [List.forall_mem_cons] at ih
          refine opensWithin_bracket rfl rfl fun limit rest => ?_
          rw [List.append_assoc, ih.1, opensWithin_laterItems ih.2, itemsDepth, ← and_assoc]
          exact and_congr_left fun _ => by omega
  | object fields ih =>
      cases fields with
      | nil => exact opensWithin_bracket rfl rfl nothing
      | cons field fields =>
          obtain ⟨key, value⟩ := field
          rw [List.forall_mem_cons] at ih
          -- The key and the colon belong to the contents of the object.
          have inside : tokens (.object ((key, value) :: fields)) =
              .openObject :: ((.string (some key) :: .colon ::
                (value.tokens ++ laterFields fields)) ++ [.closeObject]) := by
            simp [tokens]
          unfold Nests
          rw [inside]
          refine opensWithin_bracket rfl rfl fun limit rest => ?_
          rw [List.cons_append, opensWithin_flat rfl, List.cons_append, opensWithin_flat rfl,
            List.append_assoc, ih.1, opensWithin_laterFields ih.2, fieldsDepth, ← and_assoc]
          exact and_congr_left fun _ => by dsimp only; omega

/-- The depth of a document is the number of arrays and objects that are open at once in it. -/
theorem depth_le_iff (document : Json) (limit : Nat) :
    document.depth ≤ limit ↔ OpensWithin limit document.tokens := by
  have empty : OpensWithin limit [] := by
    intro first isPrefix
    rw [List.prefix_nil.mp isPrefix]
    exact Int.natCast_nonneg limit
  have all := document.nests limit []
  rw [List.append_nil, and_iff_left empty] at all
  rw [all, Int.ofNat_le]

variable {α : Type}

/-- A reader takes a value out of a document if it may open enough arrays and objects, and refuses
otherwise. -/
def Restores (read : Reader α) (document : Json) (value : α) : Prop :=
  ∀ depth, read depth document = if document.depth ≤ depth then some value else none

theorem bind_ite_some {β : Type} (condition : Prop) [Decidable condition] (value : α)
    (next : α → Option β) :
    (if condition then some value else none).bind next =
      if condition then next value else none := by
  split <;> rfl

theorem ite_ite_none (first second : Prop) [Decidable first] [Decidable second] (value : Option α) :
    (if first then if second then value else none else none) =
      if first ∧ second then value else none := by
  by_cases isFirst : first <;> simp [isFirst]

theorem mapM_read {read : Reader α} {toJson : α → Json} {items : List α}
    (restores : ∀ item ∈ items, Restores read (toJson item) item) (depth : Nat) :
    (items.map toJson).mapM (read depth) =
      if itemsDepth (items.map toJson) ≤ depth then some items else none := by
  induction items with
  | nil => simp [itemsDepth]
  | cons item items ih =>
      rw [List.forall_mem_cons] at restores
      rw [List.map_cons, List.mapM_cons, restores.1, ih restores.2]
      simp only [Option.bind_eq_bind, bind_ite_some, Option.pure_def, ite_ite_none, itemsDepth,
        Nat.max_le]

section Restores

variable {β : Type} {read : Reader α} {inner : Reader β} {document : Json} {value : α}

theorem restores_flat (flat : document.depth = 0)
    (reads : ∀ depth, read depth document = some value) : Restores read document value := by
  intro depth
  rw [flat, if_pos (Nat.zero_le depth), reads]

theorem restores_array {items : List Json} (zero : read 0 (.array items) = none)
    (succ : ∀ depth, read (depth + 1) (.array items) =
      if itemsDepth items ≤ depth then some value else none) :
    Restores read (.array items) value := by
  intro depth
  cases depth with
  | zero => exact zero
  | succ depth =>
      rw [succ]
      simp only [Json.depth, Nat.add_le_add_iff_right]

theorem restores_object {fields : List (String × Json)} (zero : read 0 (.object fields) = none)
    (succ : ∀ depth, read (depth + 1) (.object fields) =
      if fieldsDepth fields ≤ depth then some value else none) :
    Restores read (.object fields) value := by
  intro depth
  cases depth with
  | zero => exact zero
  | succ depth =>
      rw [succ]
      simp only [Json.depth, Nat.add_le_add_iff_right]

/-- A choice is read by reading its contents. -/
theorem restores_choice (tag : String) {contents : Json} {content : Reader α}
    (restores : Restores content contents value) (zero : read 0 (.choice tag contents) = none)
    (succ : ∀ depth, read (depth + 1) (.choice tag contents) = content depth contents) :
    Restores read (.choice tag contents) value := by
  refine restores_object zero fun depth => ?_
  refine (succ depth).trans ?_
  rw [restores depth, fieldsDepth, fieldsDepth, Nat.max_zero]

theorem Restores.make {content : β} (restores : Restores inner document content) (make : β → α) :
    Restores (fun depth document => do return make (← inner depth document)) document
      (make content) := by
  intro depth
  dsimp only
  rw [restores depth]
  split <;> rfl

theorem restores_list {toJson : α → Json} {items : List α}
    (restores : ∀ item ∈ items, Restores read (toJson item) item) :
    Restores (readList read) (ofList toJson items) items :=
  restores_array rfl fun depth => mapM_read restores depth

/-- A list is read back also if its documents are collected from the last one on. -/
theorem restores_collected {toJson : α → Json} {collect : List α → List Json → List Json}
    {readAll : Reader (List α)} (nil : ∀ done, collect [] done = done.reverse)
    (cons : ∀ item items done, collect (item :: items) done = collect items (toJson item :: done))
    (reads : ∀ depth document, readAll depth document = readList read depth document)
    {items : List α} (restores : ∀ item ∈ items, Restores read (toJson item) item) :
    Restores readAll (.array (collect items [])) items := by
  have collected : ∀ items done, collect items done = done.reverse ++ items.map toJson := by
    intro items
    induction items with
    | nil => exact fun done => by rw [nil, List.map_nil, List.append_nil]
    | cons item items ih => exact fun done => by simp [cons, ih]
  intro depth
  rw [reads, collected, List.reverse_nil, List.nil_append]
  exact restores_list restores depth

theorem restores_option {toJson : α → Json} {value : Option α}
    (restores : ∀ content ∈ value, Restores read (toJson content) content)
    (notNull : ∀ content, toJson content ≠ .null) :
    Restores (readOption read) (ofOption toJson value) value := by
  cases value with
  | none => exact restores_flat rfl fun _ => rfl
  | some content =>
      intro depth
      rw [ofOption, readOption.eq_2 _ _ _ (notNull content), restores content rfl]
      split <;> rfl

end Restores

theorem restores_string (text : String) : Restores readString (.string text) text :=
  restores_flat rfl fun _ => rfl

theorem restores_tag {ofTag? : String → Option α} {tag : String} {value : α}
    (names : ofTag? tag = some value) : Restores (readTag ofTag?) (.string tag) value :=
  restores_flat rfl fun _ => names

theorem toInt?_ofInt (value : Int) : (Number.ofInt value).toInt? = some value := by
  have signed : ¬((Number.ofInt value).negative = true ∧ (Number.ofInt value).digits = 0) := by
    simp only [Number.ofInt, decide_eq_true_eq]
    omega
  have whole : (if (Number.ofInt value).negative = true then -((Number.ofInt value).digits : Int)
      else (Number.ofInt value).digits) = value := by
    simp only [Number.ofInt, decide_eq_true_eq]
    split <;> omega
  rw [Number.toInt?, if_pos ⟨rfl, rfl, signed⟩, whole]

theorem restores_int64 (value : Int64) :
    Restores readInt64 (.number (.ofInt value.toInt)) value := by
  refine restores_flat rfl fun depth => ?_
  have read : readInt Int64.minValue.toInt Int64.maxValue.toInt depth
      (.number (.ofInt value.toInt)) = some value.toInt := by
    rw [readInt, toInt?_ofInt]
    exact if_pos ⟨value.le_toInt, Int.le_of_lt_add_one value.toInt_lt⟩
  rw [readInt64, read]
  exact congrArg some value.ofInt_toInt

end Json

end Backpatch
