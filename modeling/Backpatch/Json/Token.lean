import Backpatch.Json.Number

/-!
# Tokens of documents

A document is a sequence of bytes, and is cut into tokens by looking at one byte after the other:
brackets and separators stand for themselves, words and numbers end where a byte comes that cannot
belong to them, and strings end at their closing quote.

The bytes of a string are UTF-8, and its escapes are units of UTF-16, so not every string that is
well formed spells a text: a surrogate may lack its partner, or bytes may be no UTF-8.  Such a
string is a token without a text.
-/

namespace Backpatch.Json

/-- The smallest parts of a document. -/
inductive Token
  | openArray
  | closeArray
  | openObject
  | closeObject
  | comma
  | colon
  | null
  | bool (value : Bool)
  | number (value : Number)
  /-- A string, with its text if it spells one. -/
  | string (text : Option String)
  deriving DecidableEq, Repr, Inhabited

/-- The parts of a string between its quotes. -/
inductive Piece
  /-- A byte that stands for itself. -/
  | byte (value : UInt8)
  /-- An escape, by the unit of UTF-16 that it stands for. -/
  | unit (value : Nat)
  deriving DecidableEq, Repr, Inhabited

namespace Piece

/-- Leading surrogates come first in a pair. -/
def isLeading (unit : Nat) : Bool :=
  0xD800 ≤ unit && unit < 0xDC00

/-- Trailing surrogates come second in a pair. -/
def isTrailing (unit : Nat) : Bool :=
  0xDC00 ≤ unit && unit < 0xE000

/-- The UTF-8 bytes that the pieces of a string stand for, unless a surrogate stands alone. -/
def bytes? : List Piece → Option (List UInt8)
  | [] => some []
  | .byte value :: rest => do
      return value :: (← bytes? rest)
  | .unit value :: rest =>
      if isLeading value then
        match rest with
        | .unit second :: rest =>
            if isTrailing second then do
              let code := 0x10000 + (value - 0xD800) * 0x400 + (second - 0xDC00)
              return String.utf8EncodeChar (Char.ofNat code) ++ (← bytes? rest)
            else
              none
        | _ => none
      else if isTrailing value then
        none
      else do
        return String.utf8EncodeChar (Char.ofNat value) ++ (← bytes? rest)

/-- The text that the pieces of a string spell. -/
def text? (pieces : List Piece) : Option String := do
  String.fromUTF8? ⟨(← bytes? pieces).toArray⟩

end Piece

/-- Where a scan stands. -/
inductive ScanMode
  /-- Between two tokens. -/
  | between
  /-- In a word, with its letters, the last one first. -/
  | word (letters : List Char)
  /-- In a number, with its characters, the last one first. -/
  | number (literal : List Char)
  /-- In a string, with its pieces, the last one first. -/
  | string (pieces : List Piece)
  /-- In a string, after a backslash. -/
  | escape (pieces : List Piece)
  /-- In a string, in an escape with so many hexadecimal digits to come, after a value. -/
  | hex (pieces : List Piece) (missing value : Nat)
  deriving DecidableEq, Repr, Inhabited

/-- The state of a scan: the tokens found, the last one first, and where it stands. -/
structure Scan where
  tokens : List Token
  mode : ScanMode
  deriving DecidableEq, Repr, Inhabited

namespace Scan

/-- Characters that may occur in a number. -/
def isNumeric (char : Char) : Bool :=
  char.isDigit || char == '-' || char == '+' || char == '.' || char == 'e' || char == 'E'

/-- The token of a word. -/
def wordToken? (letters : List Char) : Option Token :=
  match letters with
  | ['n', 'u', 'l', 'l'] => some .null
  | ['t', 'r', 'u', 'e'] => some (.bool true)
  | ['f', 'a', 'l', 's', 'e'] => some (.bool false)
  | _ => none

/-- The unit that a backslash and one character stand for. -/
def shortEscape? : Char → Option Nat
  | '"' => some 0x22
  | '\\' => some 0x5C
  | '/' => some 0x2F
  | 'b' => some 0x08
  | 'f' => some 0x0C
  | 'n' => some 0x0A
  | 'r' => some 0x0D
  | 't' => some 0x09
  | _ => none

/-- The value of a hexadecimal digit in either case. -/
def hexDigit? (char : Char) : Option Nat :=
  if '0' ≤ char ∧ char ≤ '9' then some (char.toNat - '0'.toNat)
  else if 'a' ≤ char ∧ char ≤ 'f' then some (char.toNat - 'a'.toNat + 10)
  else if 'A' ≤ char ∧ char ≤ 'F' then some (char.toNat - 'A'.toNat + 10)
  else none

/-- Look at a character between two tokens. -/
def start? (tokens : List Token) (char : Char) : Option Scan :=
  match char with
  | ' ' | '\n' | '\t' | '\r' => some ⟨tokens, .between⟩
  | '[' => some ⟨.openArray :: tokens, .between⟩
  | ']' => some ⟨.closeArray :: tokens, .between⟩
  | '\x7b' => some ⟨.openObject :: tokens, .between⟩
  | '\x7d' => some ⟨.closeObject :: tokens, .between⟩
  | ',' => some ⟨.comma :: tokens, .between⟩
  | ':' => some ⟨.colon :: tokens, .between⟩
  | '"' => some ⟨tokens, .string []⟩
  | _ =>
      if char.isLower then some ⟨tokens, .word [char]⟩
      else if char.isDigit || char == '-' then some ⟨tokens, .number [char]⟩
      else none

/-- Look at the next byte. -/
def step? (scan : Scan) (byte : UInt8) : Option Scan :=
  let char := Char.ofUInt8 byte
  match scan.mode with
  | .between => start? scan.tokens char
  | .word letters =>
      if char.isLower then some { scan with mode := .word (char :: letters) }
      else do start? ((← wordToken? letters.reverse) :: scan.tokens) char
  | .number literal =>
      if isNumeric char then some { scan with mode := .number (char :: literal) }
      else do start? (.number (← Number.parse? literal.reverse) :: scan.tokens) char
  | .string pieces =>
      if char = '"' then some ⟨.string (Piece.text? pieces.reverse) :: scan.tokens, .between⟩
      else if char = '\\' then some { scan with mode := .escape pieces }
      else if byte < 0x20 then none
      else some { scan with mode := .string (.byte byte :: pieces) }
  | .escape pieces =>
      if char = 'u' then some { scan with mode := .hex pieces 4 0 }
      else do return { scan with mode := .string (.unit (← shortEscape? char) :: pieces) }
  | .hex pieces missing value => do
      let value := 16 * value + (← hexDigit? char)
      if missing ≤ 1 then return { scan with mode := .string (.unit value :: pieces) }
      else return { scan with mode := .hex pieces (missing - 1) value }

/-- The tokens at the end of a document, which may not end inside a string. -/
def finish? (scan : Scan) : Option (List Token) :=
  match scan.mode with
  | .between => some scan.tokens.reverse
  | .word letters => do return ((← wordToken? letters.reverse) :: scan.tokens).reverse
  | .number literal => do
      return (.number (← Number.parse? literal.reverse) :: scan.tokens).reverse
  | _ => none

end Scan

/-- The tokens of a document. -/
def Token.scan? (bytes : List UInt8) : Option (List Token) := do
  (← bytes.foldlM Scan.step? ⟨[], .between⟩).finish?

end Backpatch.Json
