import Backpatch.Envelope
import Mathlib.Data.List.TakeDrop
import Mathlib.Data.List.TakeWhile
import Mathlib.Tactic.IntervalCases

/-!
# Scanning what has been written

A document that has been written is cut into its tokens again, in either layout.  Brackets, commas
and quotes end what comes before them, so the text of a document is scanned part by part: after each
part the scan has found the tokens of the parts so far, where the last one may be a word or a number
that could still go on.
-/

namespace Backpatch

theorem utf8_append (first second : String) :
    utf8 (first ++ second) = utf8 first ++ utf8 second := by
  rw [utf8, String.toByteArray_append]
  simp [utf8]

theorem utf8_ofList (chars : List Char) :
    utf8 (String.ofList chars) = chars.flatMap String.utf8EncodeChar := by
  rw [utf8, String.toByteArray_ofList, List.utf8Encode]
  simp

theorem fromUTF8?_utf8 (text : String) : String.fromUTF8? ⟨(utf8 text).toArray⟩ = some text := by
  have bytes : (⟨(utf8 text).toArray⟩ : ByteArray) = text.toByteArray := by simp [utf8]
  rw [bytes, String.fromUTF8?, dif_pos text.isValidUTF8]
  rfl

theorem utf8EncodeChar_of_lt {char : Char} (ascii : char.toNat < 0x80) :
    String.utf8EncodeChar char = [UInt8.ofNat char.toNat] := by
  rw [String.utf8EncodeChar]
  exact if_pos (Nat.le_of_lt_succ ascii)

namespace Json

theorem toNat_ofUInt8 (byte : UInt8) : (Char.ofUInt8 byte).toNat = byte.toNat :=
  UInt8.toNat_toUInt32 byte

theorem ofUInt8_ofNat {char : Char} (ascii : char.toNat < 0x80) :
    Char.ofUInt8 (UInt8.ofNat char.toNat) = char := by
  apply Char.toNat_inj.mp
  rw [toNat_ofUInt8, UInt8.toNat_ofNat']
  omega

namespace Scan

/-- Look at bytes one after the other. -/
def run? (scan : Scan) (bytes : List UInt8) : Option Scan :=
  bytes.foldlM step? scan

theorem run?_append (scan : Scan) (first second : List UInt8) :
    scan.run? (first ++ second) = (scan.run? first).bind (·.run? second) := by
  simp [run?]

theorem run?_cons (scan : Scan) (byte : UInt8) (bytes : List UInt8) :
    scan.run? (byte :: bytes) = (scan.step? byte).bind (·.run? bytes) := by
  simp [run?]

end Scan

/-- A byte that stands for itself in a string. -/
def PlainByte (byte : UInt8) : Prop :=
  0x20 ≤ byte.toNat ∧ byte.toNat ≠ 0x22 ∧ byte.toNat ≠ 0x5C

theorem plainByte_of_mem {char : Char} (printable : 0x20 ≤ char.toNat) (notQuote : char ≠ '"')
    (notBackslash : char ≠ '\\') {byte : UInt8} (member : byte ∈ String.utf8EncodeChar char) :
    PlainByte byte := by
  have quote : char.toNat ≠ 0x22 := fun same => notQuote (Char.toNat_inj.mp same)
  have backslash : char.toNat ≠ 0x5C := fun same => notBackslash (Char.toNat_inj.mp same)
  have bound : char.val.toNat < 1114112 := by
    have := char.valid
    unfold UInt32.isValidChar Nat.isValidChar at this
    omega
  rw [String.utf8EncodeChar] at member
  rw [Char.toNat] at printable quote backslash
  generalize char.val.toNat = number at *
  unfold PlainByte
  -- Only an ASCII character has a byte below 0x80, and this byte is its number.
  split at member
  · rw [List.mem_singleton.mp member, UInt8.toNat_ofNat']
    omega
  · repeat' split at member
    all_goals
      simp only [List.mem_cons, List.not_mem_nil, or_false] at member
      rcases member with rfl | rfl | rfl | rfl <;> rw [UInt8.toNat_ofNat'] <;> omega

namespace Scan

variable {tokens : List Token} {pieces : List Piece}

theorem step?_plain {byte : UInt8} (plain : PlainByte byte) :
    step? ⟨tokens, .string pieces⟩ byte = some ⟨tokens, .string (.byte byte :: pieces)⟩ := by
  obtain ⟨printable, notQuote, notBackslash⟩ := plain
  rw [← toNat_ofUInt8] at notQuote notBackslash
  have quote : ¬ Char.ofUInt8 byte = '"' := fun same => notQuote (congrArg Char.toNat same)
  have backslash : ¬ Char.ofUInt8 byte = '\\' := fun same => notBackslash (congrArg Char.toNat same)
  have notControl : ¬ byte < 0x20 := UInt8.not_lt.mpr printable
  simp only [step?, if_neg quote, if_neg backslash, if_neg notControl]

theorem run?_plain {bytes : List UInt8} (plain : ∀ byte ∈ bytes, PlainByte byte) :
    run? ⟨tokens, .string pieces⟩ bytes =
      some ⟨tokens, .string ((bytes.map Piece.byte).reverse ++ pieces)⟩ := by
  induction bytes generalizing pieces with
  | nil => rfl
  | cons byte bytes ih =>
      rw [List.forall_mem_cons] at plain
      rw [run?_cons, step?_plain plain.1, Option.bind_some, ih plain.2]
      simp

theorem run?_escape {char : Char} (special : char.toNat < 0x20 ∨ char = '"' ∨ char = '\\') :
    run? ⟨tokens, .string pieces⟩ ((escapeChar char).flatMap String.utf8EncodeChar) =
      some ⟨tokens, .string (.unit char.toNat :: pieces)⟩ := by
  rcases special with control | rfl | rfl
  · rw [← Char.ofNat_toNat char]
    generalize char.toNat = number at control
    interval_cases number <;> rfl
  · rfl
  · rfl

theorem start?_of_digit {char : Char} (starts : (char.isDigit || char == '-') = true)
    (tokens : List Token) : start? tokens char = some ⟨tokens, .number [char]⟩ := by
  have notLower : char.isLower = false := by
    rw [Bool.or_eq_true, beq_iff_eq] at starts
    rcases starts with isDigit | rfl
    · simp only [Char.isDigit, Bool.and_eq_true, decide_eq_true_eq] at isDigit
      have bound : char.val.toNat ≤ 57 := isDigit.2
      have low : ¬ 'a'.val ≤ char.val := fun least => by
        have : 97 ≤ char.val.toNat := least
        omega
      change (decide ('a'.val ≤ char.val) && _) = false
      rw [decide_eq_false low, Bool.false_and]
    · rfl
  unfold start?
  split
  case h_12 => rw [notLower, starts]; rfl
  all_goals exact absurd starts (by decide)

end Scan

theorem Piece.bytes?_unit {char : Char} (ascii : char.toNat < 0x80) (rest : List Piece) :
    bytes? (.unit char.toNat :: rest) = (bytes? rest).map (String.utf8EncodeChar char ++ ·) := by
  have leading : isLeading char.toNat = false := by
    simp [isLeading]
    omega
  have trailing : isTrailing char.toNat = false := by
    simp [isTrailing]
    omega
  rw [bytes?.eq_def]
  simp only [leading, trailing, Char.ofNat_toNat]
  cases bytes? rest <;> rfl

theorem Piece.bytes?_plain (bytes : List UInt8) (rest : List Piece) :
    bytes? (bytes.map .byte ++ rest) = (bytes? rest).map (bytes ++ ·) := by
  induction bytes with
  | nil => simp
  | cons byte bytes ih =>
      rw [List.map_cons, List.cons_append, bytes?, ih]
      cases bytes? rest <;> rfl

theorem escapeChar_plain {char : Char} (printable : ¬ char.toNat < 0x20) (notQuote : char ≠ '"')
    (notBackslash : char ≠ '\\') : escapeChar char = [char] := by
  unfold escapeChar
  split
  case h_8 => exact if_neg printable
  all_goals first
    | exact absurd rfl notQuote
    | exact absurd rfl notBackslash
    | exact absurd (by decide) printable

/-- A character of a string is scanned as pieces that stand for its bytes. -/
theorem run?_escapeChar (char : Char) : ∃ spelled : List Piece,
    (∀ tokens pieces, Scan.run? ⟨tokens, .string pieces⟩
        ((escapeChar char).flatMap String.utf8EncodeChar) =
      some ⟨tokens, .string (spelled.reverse ++ pieces)⟩) ∧
    ∀ rest, Piece.bytes? (spelled ++ rest) =
      (Piece.bytes? rest).map (String.utf8EncodeChar char ++ ·) := by
  by_cases special : char.toNat < 0x20 ∨ char = '"' ∨ char = '\\'
  · refine ⟨[.unit char.toNat], fun _ _ => Scan.run?_escape special, Piece.bytes?_unit ?_⟩
    rcases special with control | rfl | rfl
    · omega
    · decide
    · decide
  · rw [not_or, not_or] at special
    obtain ⟨printable, notQuote, notBackslash⟩ := special
    refine ⟨(String.utf8EncodeChar char).map .byte, fun _ _ => ?_, Piece.bytes?_plain _⟩
    rw [escapeChar_plain printable notQuote notBackslash, List.flatMap_singleton]
    exact Scan.run?_plain fun _ member =>
      plainByte_of_mem (Nat.le_of_not_lt printable) notQuote notBackslash member

theorem run?_escapeChars (chars : List Char) : ∃ spelled : List Piece,
    (∀ tokens pieces, Scan.run? ⟨tokens, .string pieces⟩
        ((chars.flatMap escapeChar).flatMap String.utf8EncodeChar) =
      some ⟨tokens, .string (spelled.reverse ++ pieces)⟩) ∧
    Piece.bytes? spelled = some (chars.flatMap String.utf8EncodeChar) := by
  induction chars with
  | nil => exact ⟨[], fun _ _ => rfl, rfl⟩
  | cons char chars ih =>
      obtain ⟨first, firstRun, firstBytes⟩ := run?_escapeChar char
      obtain ⟨rest, restRun, restBytes⟩ := ih
      refine ⟨first ++ rest, fun tokens pieces => ?_, ?_⟩
      · rw [List.flatMap_cons, List.flatMap_append, Scan.run?_append, firstRun, Option.bind_some,
          restRun, List.reverse_append, List.append_assoc]
      · rw [firstBytes, restBytes]
        rfl

/-- A quoted text is scanned as a string with that text. -/
theorem run?_quote (tokens : List Token) (text : String) :
    Scan.run? ⟨tokens, .between⟩ (utf8 (quote text)) =
      some ⟨.string (some text) :: tokens, .between⟩ := by
  obtain ⟨spelled, run, bytes⟩ := run?_escapeChars text.toList
  have spells : Piece.text? spelled = some text := by
    rw [Piece.text?, bytes, ← utf8_ofList, String.ofList_toList]
    exact fromUTF8?_utf8 text
  have opening : Scan.step? ⟨tokens, .between⟩ 0x22 = some ⟨tokens, .string []⟩ := rfl
  have closing : Scan.run? ⟨tokens, .string spelled.reverse⟩ [0x22] =
      some ⟨.string (Piece.text? spelled.reverse.reverse) :: tokens, .between⟩ := rfl
  rw [quote, utf8_ofList, List.flatMap_append]
  change Scan.run? _
    (0x22 :: (text.toList.flatMap escapeChar).flatMap String.utf8EncodeChar ++ [0x22]) = _
  rw [List.cons_append, Scan.run?_cons, opening, Option.bind_some, Scan.run?_append, run,
    Option.bind_some, List.append_nil, closing, List.reverse_reverse, spells]

namespace Number

theorem isNumeric_of_isDigit {char : Char} (isDigit : char.isDigit = true) :
    Scan.isNumeric char = true := by
  simp [Scan.isNumeric, isDigit]

theorem toNat_lt_of_isNumeric {char : Char} (numeric : Scan.isNumeric char = true) :
    char.toNat < 0x80 := by
  simp only [Scan.isNumeric, Bool.or_eq_true, beq_iff_eq, Char.isDigit, Bool.and_eq_true,
    decide_eq_true_eq] at numeric
  rcases numeric with ((((isDigit | rfl) | rfl) | rfl) | rfl) | rfl
  · have bound : char.val.toNat ≤ 57 := isDigit.2
    exact Nat.lt_of_le_of_lt bound (by decide)
  all_goals decide

theorem isDigit_of_mem_toDigits {number : Nat} {char : Char}
    (member : char ∈ Nat.toDigits 10 number) : char.isDigit = true :=
  Nat.isDigit_of_mem_toDigits (by decide) (by decide) member

theorem isNumeric_of_mem_toDigits {number : Nat} {char : Char}
    (member : char ∈ Nat.toDigits 10 number) : Scan.isNumeric char = true :=
  isNumeric_of_isDigit (isDigit_of_mem_toDigits member)

theorem isNumeric_of_mem_mantissa {number : Number} {char : Char}
    (member : char ∈ number.mantissa) :
    Scan.isNumeric char = true := by
  unfold mantissa at member
  split at member
  · exact isNumeric_of_mem_toDigits member
  · rcases List.mem_append.mp member with whole | fraction
    · exact isNumeric_of_mem_toDigits whole
    rcases List.mem_cons.mp fraction with rfl | digits
    · rfl
    rcases List.mem_append.mp digits with zeros | digits
    · rw [List.eq_of_mem_replicate zeros]
      rfl
    · exact isNumeric_of_mem_toDigits digits

theorem isNumeric_of_mem_exponentText {exponent : Option Int} {char : Char}
    (member : char ∈ exponentText exponent) : Scan.isNumeric char = true := by
  cases exponent with
  | none => cases member
  | some exponent =>
      rcases List.mem_cons.mp member with rfl | member
      · rfl
      rcases List.mem_cons.mp member with rfl | member
      · split <;> rfl
      · exact isNumeric_of_mem_toDigits member

theorem toDigits_eq_cons (value : Nat) :
    ∃ first rest, Nat.toDigits 10 value = first :: rest ∧ first.isDigit = true := by
  obtain ⟨first, rest, split⟩ := List.exists_cons_of_ne_nil (@Nat.toDigits_ne_nil value 10)
  have member : first ∈ Nat.toDigits 10 value := by
    rw [split]
    exact List.mem_cons_self
  exact ⟨first, rest, split, isDigit_of_mem_toDigits member⟩

theorem mantissa_eq_cons (number : Number) :
    ∃ first rest, number.mantissa = first :: rest ∧ first.isDigit = true := by
  unfold mantissa
  split
  · exact toDigits_eq_cons _
  · obtain ⟨first, rest, split, isDigit⟩ :=
      toDigits_eq_cons (number.digits / Nat.pow 10 number.scale)
    exact ⟨first, _, by rw [split, List.cons_append], isDigit⟩

/-- A literal begins with a digit or a minus sign, and the rest may occur in a number, too. -/
theorem toList_render (number : Number) : ∃ first rest, number.render.toList = first :: rest ∧
    (first.isDigit || first == '-') = true ∧ ∀ char ∈ rest, Scan.isNumeric char = true := by
  have numeric : ∀ char ∈ number.mantissa ++ exponentText number.exponent,
      Scan.isNumeric char = true := by
    intro char member
    rcases List.mem_append.mp member with member | member
    · exact isNumeric_of_mem_mantissa member
    · exact isNumeric_of_mem_exponentText member
  obtain ⟨first, rest, split, isDigit⟩ := number.mantissa_eq_cons
  rw [render, String.toList_ofList]
  cases number.negative with
  | true => exact ⟨'-', _, rfl, rfl, numeric⟩
  | false =>
      rw [split, List.cons_append] at numeric ⊢
      exact ⟨first, _, rfl, by simp [isDigit], (List.forall_mem_cons.mp numeric).2⟩

/-- Only the number zero is written with a zero in front. -/
theorem toDigits_ne_zero_cons (value : Nat) (second : Char) (rest : List Char) :
    Nat.toDigits 10 value ≠ '0' :: second :: rest := by
  induction value using Nat.strongRecOn generalizing second rest with
  | ind value ih =>
      intro same
      rw [Nat.toDigits_eq_if (by decide)] at same
      split at same
      case isTrue => exact absurd (List.cons.inj same).2 (by simp)
      case isFalse large =>
          obtain ⟨first, others, split⟩ :=
            List.exists_cons_of_ne_nil (@Nat.toDigits_ne_nil (value / 10) 10)
          rw [split, List.cons_append] at same
          obtain ⟨rfl, -⟩ := List.cons.inj same
          cases others with
          | cons other others => exact ih (value / 10) (by omega) other others split
          | nil =>
              have zero : value / 10 = 0 := by
                rw [← @Nat.ofDigitChars_ten_toDigits (value / 10), split]
                rfl
              omega

/-- A text that does not go on with a digit. -/
def EndsDigits (rest : List Char) : Prop :=
  ∀ char ∈ rest.head?, char.isDigit = false

theorem digits?_append {digits rest : List Char} (isDigit : ∀ char ∈ digits, char.isDigit = true)
    (notEmpty : digits ≠ []) (ends : EndsDigits rest) :
    digits? (digits ++ rest) = some (digits, rest) := by
  have restTaken : rest.takeWhile Char.isDigit = [] := by
    cases rest with
    | nil => rfl
    | cons char rest => rw [List.takeWhile_cons, ends char rfl]; rfl
  have restLeft : rest.dropWhile Char.isDigit = rest := by
    cases rest with
    | nil => rfl
    | cons char rest => rw [List.dropWhile_cons, ends char rfl]; rfl
  rw [digits?, List.span_eq_takeWhile_dropWhile, List.takeWhile_append_of_pos isDigit,
    List.dropWhile_append_of_pos isDigit, restTaken, restLeft, List.append_nil]
  split
  case h_1 empty => exact absurd (congrArg Prod.fst empty) notEmpty
  case h_2 same => rw [same]

theorem whole?_toDigits (value : Nat) {rest : List Char} (ends : EndsDigits rest) :
    whole? (Nat.toDigits 10 value ++ rest) = some (Nat.toDigits 10 value, rest) := by
  rw [whole?, digits?_append (fun _ => isDigit_of_mem_toDigits) Nat.toDigits_ne_nil ends]
  split
  case h_1 same =>
      exact absurd (congrArg Prod.fst (Option.some.inj same)) (toDigits_ne_zero_cons value _ _)
  case h_2 => rfl

theorem isDigit_of_mem_lastDigits {width number : Nat} {char : Char}
    (member : char ∈ lastDigits width number) : char.isDigit = true := by
  rcases List.mem_append.mp member with zeros | digits
  · rw [List.eq_of_mem_replicate zeros]
    rfl
  · exact isDigit_of_mem_toDigits digits

theorem length_lastDigits {width : Nat} (positive : 0 < width) (number : Nat) :
    (lastDigits width number).length = width := by
  have short : (Nat.toDigits 10 (number % Nat.pow 10 width)).length ≤ width :=
    (Nat.length_toDigits_le_iff (by decide) positive).mpr (Nat.mod_lt _ (Nat.pow_pos (by decide)))
  rw [lastDigits, List.length_append, List.length_replicate]
  omega

/-- The last digits behind the number that the others make up. -/
theorem ofDigitChars_lastDigits {width : Nat} (positive : 0 < width) (number : Nat) :
    Nat.ofDigitChars 10 (lastDigits width number) (number / 10 ^ width) = number := by
  have last : Nat.ofDigitChars 10 (lastDigits width number) 0 = number % 10 ^ width := by
    rw [lastDigits, Nat.ofDigitChars_append, Nat.ofDigitChars_replicate_zero, Nat.mul_zero,
      Nat.ofDigitChars_ten_toDigits]
    rfl
  rw [Nat.ofDigitChars_eq_ofDigitChars_zero, length_lastDigits positive, last]
  exact Nat.div_add_mod number (10 ^ width)

theorem exponentDigits?_toDigits (value : Nat) :
    exponentDigits? (Nat.toDigits 10 value) = some value := by
  have read := digits?_append (fun _ => @isDigit_of_mem_toDigits value _) Nat.toDigits_ne_nil
    (show EndsDigits [] from fun _ member => by cases member)
  rw [List.append_nil] at read
  rw [exponentDigits?, read]
  exact congrArg some Nat.ofDigitChars_ten_toDigits

theorem exponent?_exponentText (exponent : Option Int) :
    exponent? (exponentText exponent) = some exponent := by
  cases exponent with
  | none => rfl
  | some exponent =>
      by_cases negative : exponent < 0
      · have value : (exponent.natAbs : Int) = -exponent := by omega
        simp [exponentText, exponent?, negative, exponentDigits?_toDigits, value]
      · have value : (exponent.natAbs : Int) = exponent := by omega
        simp [exponentText, exponent?, negative, exponentDigits?_toDigits, value]

theorem endsDigits_exponentText (exponent : Option Int) : EndsDigits (exponentText exponent) := by
  intro char member
  cases exponent with
  | none => cases member
  | some exponent =>
      cases member
      rfl

theorem fraction?_exponentText (exponent : Option Int) :
    fraction? (exponentText exponent) = some ([], exponentText exponent) := by
  cases exponent <;> rfl

theorem parseUnsigned?_mantissa (negative : Bool) (number : Number) :
    parseUnsigned? negative (number.mantissa ++ exponentText number.exponent) =
      some { number with negative } := by
  have ends := endsDigits_exponentText number.exponent
  by_cases noPoint : number.scale = 0
  · rw [mantissa, if_pos noPoint, parseUnsigned?, whole?_toDigits _ ends]
    simp [fraction?_exponentText, exponent?_exponentText, noPoint]
  · have positive : 0 < number.scale := Nat.pos_of_ne_zero noPoint
    have pointEnds : EndsDigits
        ('.' :: (lastDigits number.scale number.digits ++ exponentText number.exponent)) := by
      intro char member
      cases member
      rfl
    have notEmpty : lastDigits number.scale number.digits ≠ [] :=
      List.ne_nil_of_length_pos (Nat.lt_of_lt_of_eq positive (length_lastDigits positive _).symm)
    have fraction : fraction?
        ('.' :: (lastDigits number.scale number.digits ++ exponentText number.exponent)) =
          some (lastDigits number.scale number.digits, exponentText number.exponent) :=
      digits?_append (fun _ => isDigit_of_mem_lastDigits) notEmpty ends
    rw [mantissa, if_neg noPoint, List.append_assoc, List.cons_append, parseUnsigned?,
      whole?_toDigits _ pointEnds]
    simp [fraction, exponent?_exponentText, Nat.ofDigitChars_append, length_lastDigits positive,
      ofDigitChars_lastDigits positive]

/-- The literal that is written for a number is read as the same number. -/
theorem parse?_render (number : Number) : parse? number.render.toList = some number := by
  rw [render, String.toList_ofList]
  cases sign : number.negative with
  | true =>
      refine (parseUnsigned?_mantissa true number).trans ?_
      rw [← sign]
  | false =>
      obtain ⟨first, rest, begins, isDigit⟩ := number.mantissa_eq_cons
      have unsigned := parseUnsigned?_mantissa false number
      rw [← sign] at unsigned
      change parse? (number.mantissa ++ exponentText number.exponent) = _
      rw [begins, List.cons_append] at unsigned ⊢
      unfold parse?
      split
      case h_1 same =>
          rw [(List.cons.inj same).1] at isDigit
          cases isDigit
      case h_2 => rw [← sign]; exact unsigned

end Number

/-- A scan has found these tokens, the last one first, where the last one may be a word or a number
that is not known to have ended. -/
inductive Scan.Found : List Token → Scan → Prop
  | between (tokens : List Token) : Found tokens ⟨tokens, .between⟩
  | word {letters : List Char} {token : Token} (tokens : List Token)
      (isToken : wordToken? letters.reverse = some token) :
      Found (token :: tokens) ⟨tokens, .word letters⟩
  | number {literal : List Char} {value : Number} (tokens : List Token)
      (isNumber : Number.parse? literal.reverse = some value) :
      Found (.number value :: tokens) ⟨tokens, .number literal⟩

theorem Scan.Found.finish? {tokens : List Token} {scan : Scan} (found : Found tokens scan) :
    scan.finish? = some tokens.reverse := by
  cases found with
  | between => rfl
  | word tokens isToken => simp [Scan.finish?, isToken]
  | number tokens isNumber => simp [Scan.finish?, isNumber]

/-- A character that can be part of neither a word nor a number ends what comes before it. -/
theorem Scan.Found.step? {tokens : List Token} {scan : Scan} (found : Found tokens scan)
    {byte : UInt8} (notLower : (Char.ofUInt8 byte).isLower = false)
    (notNumeric : isNumeric (Char.ofUInt8 byte) = false) :
    scan.step? byte = start? tokens (Char.ofUInt8 byte) := by
  cases found with
  | between => rfl
  | word tokens isToken => simp [Scan.step?, isToken, notLower]
  | number tokens isNumber => simp [Scan.step?, isNumber, notNumeric]

/-- A text in which these tokens are found, the last one first. -/
def Spells (text : String) (tokens : List Token) : Prop :=
  ∃ scan, Scan.run? ⟨[], .between⟩ (utf8 text) = some scan ∧ Scan.Found tokens scan

/-- A text in which these tokens are found, the last one first, and which has ended all of them. -/
def Completes (text : String) (tokens : List Token) : Prop :=
  Scan.run? ⟨[], .between⟩ (utf8 text) = some ⟨tokens, .between⟩

/-- A text of one character that is a token by itself. -/
def Mark (text : String) (token : Token) : Prop :=
  ∃ byte, utf8 text = [byte] ∧ (Char.ofUInt8 byte).isLower = false ∧
    Scan.isNumeric (Char.ofUInt8 byte) = false ∧
    ∀ tokens, Scan.start? tokens (Char.ofUInt8 byte) = some ⟨token :: tokens, .between⟩

theorem mark_comma : Mark "," .comma :=
  ⟨0x2C, rfl, rfl, rfl, fun _ => rfl⟩

theorem mark_colon : Mark ":" .colon :=
  ⟨0x3A, rfl, rfl, rfl, fun _ => rfl⟩

theorem mark_openArray : Mark "[" .openArray :=
  ⟨0x5B, rfl, rfl, rfl, fun _ => rfl⟩

theorem mark_closeArray : Mark "]" .closeArray :=
  ⟨0x5D, rfl, rfl, rfl, fun _ => rfl⟩

theorem mark_openObject : Mark "\x7b" .openObject :=
  ⟨0x7B, rfl, rfl, rfl, fun _ => rfl⟩

theorem mark_closeObject : Mark "\x7d" .closeObject :=
  ⟨0x7D, rfl, rfl, rfl, fun _ => rfl⟩

section Parts

variable {text : String} {tokens : List Token}

theorem Completes.spells (completes : Completes text tokens) : Spells text tokens :=
  ⟨_, completes, .between tokens⟩

theorem run?_utf8_append {part : String} {before after scan : Scan}
    (first : Scan.run? before (utf8 text) = some scan)
    (second : Scan.run? scan (utf8 part) = some after) :
    Scan.run? before (utf8 (text ++ part)) = some after := by
  rw [utf8_append, Scan.run?_append, first, Option.bind_some, second]

theorem Spells.mark {mark : String} {token : Token} (spells : Spells text tokens)
    (isMark : Mark mark token) : Completes (text ++ mark) (token :: tokens) := by
  obtain ⟨scan, run, found⟩ := spells
  obtain ⟨byte, bytes, notLower, notNumeric, start⟩ := isMark
  refine run?_utf8_append run ?_
  rw [bytes, Scan.run?_cons, found.step? notLower notNumeric, start]
  rfl

theorem Completes.quote (completes : Completes text tokens) (content : String) :
    Completes (text ++ quote content) (.string (some content) :: tokens) :=
  run?_utf8_append completes (run?_quote tokens content)

theorem run?_blanks (tokens : List Token) (count : Nat) :
    Scan.run? ⟨tokens, .between⟩ (List.replicate count 0x20) = some ⟨tokens, .between⟩ := by
  induction count with
  | zero => rfl
  | succ count ih =>
      have blank : Scan.step? ⟨tokens, .between⟩ 0x20 = some ⟨tokens, .between⟩ := rfl
      rw [List.replicate_succ, Scan.run?_cons, blank, Option.bind_some, ih]

theorem utf8_lineBreak (level : Nat) :
    utf8 (Layout.pretty.lineBreak level) = 0x0A :: List.replicate (2 * level) 0x20 := by
  have blanks : ∀ count, (List.replicate count ' ').flatMap String.utf8EncodeChar =
      List.replicate count 0x20 := by
    intro count
    induction count with
    | zero => rfl
    | succ count ih =>
        rw [List.replicate_succ, List.flatMap_cons, ih]
        rfl
  rw [Layout.lineBreak, utf8_ofList, List.flatMap_cons, blanks]
  rfl

theorem Completes.lineBreak (completes : Completes text tokens) (layout : Layout) (level : Nat) :
    Completes (text ++ layout.lineBreak level) tokens := by
  cases layout with
  | compact =>
      rw [Layout.lineBreak, String.append_empty]
      exact completes
  | pretty =>
      refine run?_utf8_append completes ?_
      rw [utf8_lineBreak]
      exact run?_blanks tokens _

theorem Spells.lineBreak (spells : Spells text tokens) (layout : Layout) (level : Nat) :
    Spells (text ++ layout.lineBreak level) tokens := by
  cases layout with
  | compact =>
      rw [Layout.lineBreak, String.append_empty]
      exact spells
  | pretty =>
      obtain ⟨scan, run, found⟩ := spells
      refine ⟨⟨tokens, .between⟩, run?_utf8_append run ?_, .between tokens⟩
      rw [utf8_lineBreak, Scan.run?_cons, found.step? rfl rfl]
      exact run?_blanks tokens _

theorem Completes.colon (completes : Completes text tokens) (layout : Layout) :
    Completes (text ++ layout.colon) (.colon :: tokens) := by
  cases layout with
  | compact => exact completes.spells.mark mark_colon
  | pretty => exact run?_utf8_append completes rfl

theorem Completes.loneSurrogate (completes : Completes text tokens) :
    Completes (text ++ loneSurrogate) (.string none :: tokens) :=
  run?_utf8_append completes rfl

theorem Completes.null (completes : Completes text tokens) :
    Spells (text ++ "null") (.null :: tokens) :=
  ⟨⟨tokens, .word "null".toList.reverse⟩, run?_utf8_append completes rfl, .word tokens rfl⟩

theorem Completes.bool (completes : Completes text tokens) (value : Bool) :
    Spells (text ++ if value then "true" else "false") (.bool value :: tokens) := by
  cases value with
  | false =>
      exact ⟨⟨tokens, .word "false".toList.reverse⟩, run?_utf8_append completes rfl,
        .word tokens rfl⟩
  | true =>
      exact ⟨⟨tokens, .word "true".toList.reverse⟩, run?_utf8_append completes rfl,
        .word tokens rfl⟩

theorem run?_numeric {literal chars : List Char}
    (numeric : ∀ char ∈ chars, Scan.isNumeric char = true) :
    Scan.run? ⟨tokens, .number literal⟩ (chars.flatMap String.utf8EncodeChar) =
      some ⟨tokens, .number (chars.reverse ++ literal)⟩ := by
  induction chars generalizing literal with
  | nil => rfl
  | cons char chars ih =>
      rw [List.forall_mem_cons] at numeric
      have ascii := Number.toNat_lt_of_isNumeric numeric.1
      have step : Scan.step? ⟨tokens, .number literal⟩ (UInt8.ofNat char.toNat) =
          some ⟨tokens, .number (char :: literal)⟩ := by
        simp only [Scan.step?, ofUInt8_ofNat ascii, numeric.1, if_true]
      rw [List.flatMap_cons, utf8EncodeChar_of_lt ascii, List.singleton_append, Scan.run?_cons,
        step, Option.bind_some, ih numeric.2]
      simp

theorem Completes.number (completes : Completes text tokens) (literal : Number) :
    Spells (text ++ literal.render) (.number literal :: tokens) := by
  obtain ⟨first, rest, split, starts, numeric⟩ := literal.toList_render
  have ascii : first.toNat < 0x80 := Number.toNat_lt_of_isNumeric <| by
    rw [Bool.or_eq_true, beq_iff_eq] at starts
    rcases starts with isDigit | rfl
    · exact Number.isNumeric_of_isDigit isDigit
    · rfl
  have start : Scan.step? ⟨tokens, .between⟩ (UInt8.ofNat first.toNat) =
      some ⟨tokens, .number [first]⟩ := by
    rw [Scan.step?, ofUInt8_ofNat ascii]
    exact Scan.start?_of_digit starts tokens
  refine ⟨⟨tokens, .number (rest.reverse ++ [first])⟩, run?_utf8_append completes ?_,
    .number tokens ?_⟩
  · have spelled : literal.render = String.ofList literal.render.toList :=
      String.ofList_toList.symm
    rw [spelled, utf8_ofList, split, List.flatMap_cons,
      utf8EncodeChar_of_lt ascii, List.singleton_append, Scan.run?_cons, start, Option.bind_some,
      run?_numeric numeric]
  · rw [List.reverse_append, List.reverse_reverse, List.reverse_singleton, List.singleton_append,
      ← split]
    exact literal.parse?_render

end Parts

end Json

end Backpatch
