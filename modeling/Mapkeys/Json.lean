import Mapkeys.Text.Quoted

/-!
# JSON

The values that reports are made of, and how they are written: fields in the order given, one item
on a line, and every character outside printable ASCII as an escape.
-/

namespace Mapkeys

open Text

/-- A JSON value. -/
inductive Json where
  | null
  | bool (value : Bool)
  | int (value : Int)
  | text (value : Text)
  | list (items : List Json)
  | object (fields : List (Text × Json))

namespace Json

/-! ## Building values -/

/-- A natural number. -/
def nat (n : Nat) : Json := .int n

/-- The text of a string. -/
def string (s : String) : Json := .text s.toList

/-- A list of texts. -/
def texts (ts : List Text) : Json := .list (ts.map .text)

/-- A value, or null. -/
def optional {α : Type} (encode : α → Json) : Option α → Json
  | some a => encode a
  | none => .null

/-- An object with the given fields. -/
def fields (entries : List (String × Json)) : Json :=
  .object (entries.map fun (key, value) => (key.toList, value))

/-! ## Writing values -/

/-- A unit of UTF-16 as an escape. -/
def escapeUnit (unit : Nat) : Text := '\\' :: 'u' :: hex 4 unit

/-- A character as it stands in a string. -/
def stringChar (c : Char) : Text :=
  if c = '"' then ['\\', '"']
  else if c = '\\' then ['\\', '\\']
  else if c = '\n' then ['\\', 'n']
  else if c = '\r' then ['\\', 'r']
  else if c = '\t' then ['\\', 't']
  else if c = '\x08' then ['\\', 'b']
  else if c = '\x0c' then ['\\', 'f']
  else if 0x20 ≤ c.toNat ∧ c.toNat ≤ 0x7E then [c]
  else if c.toNat < 0x10000 then escapeUnit c.toNat
  else
    let offset := c.toNat - 0x10000
    escapeUnit (0xD800 + offset / 0x400) ++ escapeUnit (0xDC00 + offset % 0x400)

/-- A text in quotes. -/
def quotedString (t : Text) : Text := '"' :: t.flatMap stringChar ++ ['"']

/-- A new line at a level of indentation. -/
def newLine (indent level : Nat) : Text := '\n' :: List.replicate (indent * level) ' '

/-- Written items between brackets, one on a line. -/
def bracketed (left right : Char) (indent level : Nat) (items : List Text) : Text :=
  if items = [] then [left, right]
  else
    left :: newLine indent (level + 1) ++ join (',' :: newLine indent (level + 1)) items
      ++ newLine indent level ++ [right]

mutual

/-- Writes a value at a level of indentation. -/
def writeAt (indent level : Nat) : Json → Text
  | .null => "null".toList
  | .bool true => "true".toList
  | .bool false => "false".toList
  | .int n => ofInt n
  | .text t => quotedString t
  | .list items => bracketed '[' ']' indent level (writeItems indent (level + 1) items)
  | .object entries =>
    bracketed '\x7b' '\x7d' indent level (writeFields indent (level + 1) entries)

/-- Writes the items of a list. -/
def writeItems (indent level : Nat) : List Json → List Text
  | [] => []
  | item :: rest => writeAt indent level item :: writeItems indent level rest

/-- Writes the fields of an object. -/
def writeFields (indent level : Nat) : List (Text × Json) → List Text
  | [] => []
  | (key, value) :: rest =>
    (quotedString key ++ [':', ' '] ++ writeAt indent level value)
      :: writeFields indent level rest

end

/-- Writes a value, each level indented by the given number of spaces. -/
def write (indent : Nat) (value : Json) : Text := writeAt indent 0 value

end Json
end Mapkeys
