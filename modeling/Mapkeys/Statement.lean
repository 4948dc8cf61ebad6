import Mapkeys.Line.Layout

/-!
# Statements

A statement runs from some place in the body of a line up to the first semicolon that no backslash
precedes, or up to the end of a line that is not escaped. Its value is what the bodies of its
lines hold, joined by single spaces; comments on the way are passed over.
-/

namespace Mapkeys

open Text

namespace Text

/-- The columns of the semicolons that no backslash precedes, counted from the given column. -/
def terminators (column : Nat) (afterBackslash : Bool) : Text → List Nat
  | [] => []
  | c :: rest =>
    let others := terminators (column + 1) (c = '\\') rest
    if c = ';' ∧ ¬ afterBackslash then column :: others else others

/-- The column of the first semicolon that no backslash precedes. -/
def terminator? (t : Text) : Option Nat := (terminators 0 false t).head?

/-- The text with every pair of a backslash and a semicolon as one semicolon. -/
def unescape : Text → Text
  | [] => []
  | '\\' :: ';' :: rest => ';' :: unescape rest
  | c :: rest => c :: unescape rest

end Text

/-- A statement: its value, its place in the document, and whether a semicolon ends it. -/
structure Statement where
  value : Text
  start : Nat
  stop : Nat
  terminated : Bool
  deriving Repr, DecidableEq

namespace Statement

/-- The part of a piece of text that is not blank, if there is any. -/
def fragment (start : Nat) (t : Text) : List Piece :=
  if trim t = [] then [] else [⟨start + indent t, trim t⟩]

/-- The fragments of the statement that begins at a column of the first line's body, and the
    offset of the semicolon that ends it. -/
def fragments (column : Nat) : List Layout → List Piece × Option Nat
  | [] => ([], none)
  | layout :: rest =>
    if layout.holdsStatements then
      let start := layout.body.start + column
      let content := layout.body.text.drop column
      match terminator? content with
      | some length => (fragment start (content.take length), some (start + length))
      | none =>
        if layout.isEscaped then
          let (others, terminatorAt) := fragments 0 rest
          (fragment start content ++ others, terminatorAt)
        else (fragment start content, none)
    else fragments 0 rest

/-- The statement made of fragments. -/
def ofFragments (pieces : List Piece) (terminatorAt : Option Nat) : Option Statement :=
  match pieces.head?, pieces.getLast? with
  | some first, some last =>
    some ⟨unescape (join [' '] (pieces.map Piece.text)), first.start,
      terminatorAt.getD last.stop, terminatorAt.isSome⟩
  | _, _ => none

/-- The statement that begins at a column of the body of the line at a position, if it holds
    anything. -/
def read (layouts : List Layout) (position column : Nat) : Option Statement :=
  let (pieces, terminatorAt) := fragments column (layouts.drop position)
  ofFragments pieces terminatorAt

end Statement
end Mapkeys
