import Mapkeys.Text.Basic

/-!
# Reading files as text

Bytes are read as UTF-8 with one replacement character for each maximal part that no character
continues (`decodeUtf8`), and every line break of a file becomes a line feed (`unifyNewlines`).
-/

namespace Mapkeys.Text

/-! ## Bytes to characters -/

/-- A character that is begun and not complete: its bits so far, the least and the greatest byte
    that may follow, and how many bytes are missing. -/
structure Begun where
  bits : Nat
  low : Nat
  high : Nat
  missing : Nat

/-- What a byte at the start of a character means. -/
inductive Lead where
  | single (c : Char)
  | begins (begun : Begun)
  | invalid

/-- The meaning of a byte at the start of a character. The bounds on the second byte exclude
    overlong forms, surrogates and code points above U+10FFFF. -/
def leadOf (byte : Nat) : Lead :=
  if byte < 0x80 then .single (Char.ofNat byte)
  else if byte < 0xC2 then .invalid
  else if byte < 0xE0 then .begins ⟨byte - 0xC0, 0x80, 0xBF, 1⟩
  else if byte = 0xE0 then .begins ⟨0, 0xA0, 0xBF, 2⟩
  else if byte = 0xED then .begins ⟨0xD, 0x80, 0x9F, 2⟩
  else if byte < 0xF0 then .begins ⟨byte - 0xE0, 0x80, 0xBF, 2⟩
  else if byte = 0xF0 then .begins ⟨0, 0x90, 0xBF, 3⟩
  else if byte < 0xF4 then .begins ⟨byte - 0xF0, 0x80, 0xBF, 3⟩
  else if byte = 0xF4 then .begins ⟨4, 0x80, 0x8F, 3⟩
  else .invalid

/-- The character that stands for a part that is not UTF-8. -/
def replacement : Char := '\uFFFD'

/-- The characters complete after a byte at the start of a character, and what is begun then. -/
def afterLead (byte : Nat) : Text × Option Begun :=
  match leadOf byte with
  | .single c => ([c], none)
  | .begins begun => ([], some begun)
  | .invalid => ([replacement], none)

/-- The characters complete after one more byte, and what is begun then. A byte that does not
    continue the begun character closes it as a replacement and starts anew. -/
def afterByte (begun : Option Begun) (byte : Nat) : Text × Option Begun :=
  match begun with
  | none => afterLead byte
  | some b =>
    if b.low ≤ byte ∧ byte ≤ b.high then
      let bits := 64 * b.bits + (byte - 0x80)
      if b.missing ≤ 1 then ([Char.ofNat bits], none)
      else ([], some ⟨bits, 0x80, 0xBF, b.missing - 1⟩)
    else
      let (complete, next) := afterLead byte
      (replacement :: complete, next)

/-- Reads the bytes that follow a begun character. -/
def decodeUtf8From (begun : Option Begun) : List UInt8 → Text
  | [] => if begun.isSome then [replacement] else []
  | byte :: rest =>
    let (complete, next) := afterByte begun byte.toNat
    complete ++ decodeUtf8From next rest

/-- Reads bytes as UTF-8. -/
def decodeUtf8 (bytes : List UInt8) : Text := decodeUtf8From none bytes

/-- Writes text as UTF-8. -/
def encodeUtf8 (t : Text) : List UInt8 := (String.ofList t).toUTF8.toList

/-! ## Line breaks -/

/-- The text with every carriage return, and every pair of carriage return and line feed, as one
    line feed. -/
def unifyNewlines : Text → Text
  | [] => []
  | '\r' :: '\n' :: rest => '\n' :: unifyNewlines rest
  | c :: rest => (if c = '\r' then '\n' else c) :: unifyNewlines rest

/-- The text of a file. -/
def ofBytes (bytes : List UInt8) : Text := unifyNewlines (decodeUtf8 bytes)

end Mapkeys.Text
