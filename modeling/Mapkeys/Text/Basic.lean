/-!
# Text

A document, a name and a message are lists of characters, so that an offset counts characters and
every function on text is a function on lists. This module holds what the rest of the library asks
of text: blanks and trimming, ranges, joining, padding and decimal numbers.
-/

namespace Mapkeys

/-- Text, one character after the other. -/
abbrev Text := List Char

namespace Text

/-! ## Blanks -/

/-- Whether a number lies in one of the ranges, which are listed in increasing order. -/
def inRanges (n : Nat) : List (Nat × Nat) → Bool
  | [] => false
  | (low, high) :: rest => decide (low ≤ n) && (decide (n ≤ high) || inRanges n rest)

/-- The code points of the blank characters. -/
def blankRanges : List (Nat × Nat) :=
  [(0x9, 0xD), (0x1C, 0x20), (0x85, 0x85), (0xA0, 0xA0), (0x1680, 0x1680), (0x2000, 0x200A),
    (0x2028, 0x2029), (0x202F, 0x202F), (0x205F, 0x205F), (0x3000, 0x3000)]

/-- Whether a character is blank: tabs, line breaks, separators and every kind of space. -/
def isBlank (c : Char) : Bool := inRanges c.toNat blankRanges

/-- How many blank characters stand at the beginning. -/
def indent (t : Text) : Nat := (t.takeWhile isBlank).length

/-- The text from its first character that is not blank. -/
def trimLeft (t : Text) : Text := t.dropWhile isBlank

/-- The text up to its last character that is not blank. -/
def trimRight : Text → Text
  | [] => []
  | c :: rest =>
    match trimRight rest with
    | [] => if isBlank c then [] else [c]
    | kept => c :: kept

/-- The text without the blanks at both ends. -/
def trim (t : Text) : Text := trimLeft (trimRight t)

/-- Whether every character is blank. -/
def allBlank (t : Text) : Bool := t.all isBlank

/-! ## Ranges -/

/-- The characters at offsets `start ≤ i < stop`. -/
def slice (t : Text) (start stop : Nat) : Text := (t.drop start).take (stop - start)

/-- Whether the text begins with `head`. -/
def beginsWith (t head : Text) : Bool := head.isPrefixOf t

/-- Whether the text ends with `tail`. -/
def endsWith (t tail : Text) : Bool := tail.isSuffixOf t

/-! ## Joining and padding -/

/-- The pieces with a separator between each two. -/
def join (separator : Text) : List Text → Text
  | [] => []
  | [piece] => piece
  | piece :: rest => piece ++ separator ++ join separator rest

/-- The lines with a line feed between each two. -/
def joinLines (lines : List Text) : Text := join ['\n'] lines

/-- The text followed by spaces up to a width. -/
def padRight (width : Nat) (t : Text) : Text := t ++ List.replicate (width - t.length) ' '

/-- The text preceded by spaces up to a width. -/
def padLeft (width : Nat) (t : Text) : Text := List.replicate (width - t.length) ' ' ++ t

/-! ## Numbers -/

/-- A natural number in decimal digits. -/
def ofNat (n : Nat) : Text := Nat.toDigits 10 n

/-- An integer in decimal digits, with a minus sign before a negative one. -/
def ofInt : Int → Text
  | .ofNat n => ofNat n
  | .negSucc n => '-' :: ofNat (n + 1)

end Text
end Mapkeys
