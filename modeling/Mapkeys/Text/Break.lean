import Mapkeys.Text.Basic

/-!
# Line breaks

The characters that any reader of a text might take for the end of a line.
-/

namespace Mapkeys.Text

/-- Whether a character breaks lines. -/
def isBreak (c : Char) : Bool :=
  inRanges c.toNat [(0xA, 0xD), (0x1C, 0x1E), (0x85, 0x85), (0x2028, 0x2029)]

/-- The pieces of a text between its line breaks; a carriage return and a line feed are one break,
    and a last piece that is empty is none. -/
def brokenLines : Text → List Text
  | [] => []
  | '\r' :: '\n' :: rest => [] :: brokenLines rest
  | c :: rest =>
    if isBreak c then [] :: brokenLines rest
    else match brokenLines rest with
      | [] => [[c]]
      | first :: others => (c :: first) :: others

end Mapkeys.Text
