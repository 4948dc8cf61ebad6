import Mapkeys.Text.Basic

/-!
# Reading integers

An integer is written with an optional sign and decimal digits of any script; single underscores
may part the digits and spaces may surround the number.
-/

namespace Mapkeys.Text

/-- The code points of the digit zero; in each script the other nine digits follow it. -/
def zeroDigits : List Nat := [
    0x30, 0x660, 0x6F0, 0x7C0, 0x966, 0x9E6, 0xA66, 0xAE6, 0xB66, 0xBE6, 0xC66, 0xCE6, 0xD66,
    0xDE6, 0xE50, 0xED0, 0xF20, 0x1040, 0x1090, 0x17E0, 0x1810, 0x1946, 0x19D0, 0x1A80, 0x1A90,
    0x1B50, 0x1BB0, 0x1C40, 0x1C50, 0xA620, 0xA8D0, 0xA900, 0xA9D0, 0xA9F0, 0xAA50, 0xABF0,
    0xFF10, 0x104A0, 0x10D30, 0x11066, 0x110F0, 0x11136, 0x111D0, 0x112F0, 0x11450, 0x114D0,
    0x11650, 0x116C0, 0x11730, 0x118E0, 0x11950, 0x11C50, 0x11D50, 0x11DA0, 0x16A60, 0x16AC0,
    0x16B50, 0x1D7CE, 0x1D7D8, 0x1D7E2, 0x1D7EC, 0x1D7F6, 0x1E140, 0x1E2F0, 0x1E950, 0x1FBF0]

/-- The value of a decimal digit of any script. -/
def digitValue? (c : Char) : Option Nat :=
  (zeroDigits.find? fun base => base ≤ c.toNat ∧ c.toNat < base + 10).map (c.toNat - ·)

/-- The spaces that may surround a number: every blank but the four information separators. -/
def isNumberSpace (c : Char) : Bool := isBlank c && !(0x1C ≤ c.toNat && c.toNat ≤ 0x1F)

/-- Reads digits with single underscores between them onto a value read so far. -/
def readDigits (afterDigit : Bool) (value : Nat) : Text → Option Nat
  | [] => if afterDigit then some value else none
  | c :: rest =>
    if c = '_' then if afterDigit then readDigits false value rest else none
    else match digitValue? c with
      | some digit => readDigits true (10 * value + digit) rest
      | none => none

/-- The most digits that a number may have. -/
def digitLimit : Nat := 4300

/-- Reads an unsigned number of at most `digitLimit` digits. -/
def readNat? (t : Text) : Option Nat :=
  if digitLimit < (t.filter (· ≠ '_')).length then none else readDigits false 0 t

/-- Reads an integer. -/
def readInt? (t : Text) : Option Int :=
  let bare := ((t.dropWhile isNumberSpace).reverse.dropWhile isNumberSpace).reverse
  match bare with
  | '-' :: digits => (readNat? digits).map fun n => -(n : Int)
  | '+' :: digits => (readNat? digits).map Int.ofNat
  | digits => (readNat? digits).map Int.ofNat

end Mapkeys.Text
