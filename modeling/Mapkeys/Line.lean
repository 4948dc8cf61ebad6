import Mapkeys.Text.Basic

/-!
# Lines

The physical lines of a document, each with its number and the offset of its first character. A
line ends with a line feed, or a carriage return and a line feed; neither is part of its text.
-/

namespace Mapkeys

/-- One physical line of a document. -/
structure Line where
  index : Nat
  start : Nat
  text : Text
  deriving Repr, DecidableEq

namespace Line

/-- The offset just after the last character of the line. -/
def stop (line : Line) : Nat := line.start + line.text.length

/-- The text without one carriage return at its end. -/
def dropReturn (raw : Text) : Text := if raw.getLast? = some '\r' then raw.dropLast else raw

/-- The pieces of a text between its line feeds; a last piece that is empty is none. -/
def pieces : Text → List Text
  | [] => []
  | c :: rest =>
    if c = '\n' then [] :: pieces rest
    else match pieces rest with
      | [] => [[c]]
      | first :: others => (c :: first) :: others

/-- The lines of the pieces of a text, when the first one has the given number and offset. -/
def number (index start : Nat) : List Text → List Line
  | [] => []
  | raw :: rest =>
    ⟨index, start, dropReturn raw⟩ :: number (index + 1) (start + raw.length + 1) rest

/-- The lines of a document. -/
def split (document : Text) : List Line := number 0 0 (pieces document)

end Line
end Mapkeys
