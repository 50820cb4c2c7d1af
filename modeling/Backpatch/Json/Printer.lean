import Backpatch.Json.Basic

/-!
# Writing documents

Documents are written in one of two layouts: compact, without any blanks, or with one field or item
on a line, indented by two blanks for each array or object around it.  In strings only quotes,
backslashes and control characters are escaped.  A tree without a value is written as a string that
spells no text.
-/

namespace Backpatch.Json

/-- How a document is laid out. -/
inductive Layout
  | compact
  | pretty
  deriving DecidableEq, Repr, Inhabited

namespace Layout

/-- What separates the items on a level from what comes before them. -/
def lineBreak (level : Nat) : Layout → String
  | compact => ""
  | pretty => String.ofList ('\n' :: List.replicate (2 * level) ' ')

/-- What stands between a key and its value. -/
def colon : Layout → String
  | compact => ":"
  | pretty => ": "

end Layout

/-- How a character is written in a string. -/
def escapeChar (char : Char) : List Char :=
  match char with
  | '"' => ['\\', '"']
  | '\\' => ['\\', '\\']
  | '\x08' => ['\\', 'b']
  | '\t' => ['\\', 't']
  | '\n' => ['\\', 'n']
  | '\x0c' => ['\\', 'f']
  | '\r' => ['\\', 'r']
  | _ =>
      if char.toNat < 0x20 then
        ['\\', 'u', '0', '0', Nat.digitChar (char.toNat / 16), Nat.digitChar (char.toNat % 16)]
      else
        [char]

/-- A string in quotes. -/
def quote (text : String) : String :=
  String.ofList ('"' :: text.toList.flatMap escapeChar ++ ['"'])

/-- A string that spells no text. -/
def loneSurrogate : String := "\"\\ud800\""

mutual

/-- Append a document to a text, on the given level. -/
def write (layout : Layout) (level : Nat) (text : String) : Json → String
  | null => text ++ "null"
  | bool true => text ++ "true"
  | bool false => text ++ "false"
  | number literal => text ++ literal.render
  | string content => text ++ quote content
  | array [] => text ++ "[]"
  | array (item :: items) =>
      let text := item.write layout (level + 1) (text ++ "[" ++ layout.lineBreak (level + 1))
      writeItems layout (level + 1) text items ++ layout.lineBreak level ++ "]"
  | object [] => text ++ "\x7b\x7d"
  | object ((key, value) :: fields) =>
      let text := text ++ "\x7b" ++ layout.lineBreak (level + 1) ++ quote key ++ layout.colon
      let text := value.write layout (level + 1) text
      writeFields layout (level + 1) text fields ++ layout.lineBreak level ++ "\x7d"
  | unreadable => text ++ loneSurrogate

/-- Append the items that follow the first one of an array. -/
def writeItems (layout : Layout) (level : Nat) (text : String) : List Json → String
  | [] => text
  | item :: items =>
      writeItems layout level (item.write layout level (text ++ "," ++ layout.lineBreak level))
        items

/-- Append the fields that follow the first one of an object. -/
def writeFields (layout : Layout) (level : Nat) (text : String) : List (String × Json) → String
  | [] => text
  | (key, value) :: fields =>
      let text := text ++ "," ++ layout.lineBreak level ++ quote key ++ layout.colon
      writeFields layout level (value.write layout level text) fields

end

/-- The text of a document. -/
def render (layout : Layout) (document : Json) : String :=
  document.write layout 0 ""

end Backpatch.Json
