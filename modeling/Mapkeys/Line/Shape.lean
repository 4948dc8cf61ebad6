import Mapkeys.Line
import Mapkeys.Text.Letter

/-!
# Shapes of lines

What a line of a configuration file is: the declaration of a mapkey (`mapkey name …`), the
continuation of one (`mapkey(continued) …`), a comment (`! …`), blank, or another setting. The
words are recognised in any case. A line whose text ends in a backslash is escaped: what it says
goes on with the next line.
-/

namespace Mapkeys

open Text

/-- The kinds of lines. -/
inductive LineKind where
  | blank
  | declaration
  | continuation
  | comment
  | other
  deriving Repr, DecidableEq

namespace LineKind

/-- The name of a kind. -/
def label : LineKind → String
  | blank => "blank"
  | declaration => "declaration"
  | continuation => "continuation"
  | comment => "comment"
  | other => "other"

/-- Whether lines of this kind carry the statements of a record. -/
def carriesStatements : LineKind → Bool
  | declaration => true
  | continuation => true
  | _ => false

end LineKind

namespace Line

/-- The word that declares a mapkey. -/
def keyword : Text := "mapkey".toList

/-- The marker that carries a mapkey on. -/
def continuationMarker : Text := "mapkey(continued)".toList

/-! ## Columns of the markers -/

/-- The columns of the keyword and the name of a declaration, and the name. -/
structure Declared where
  keywordColumn : Nat
  nameColumn : Nat
  name : Text
  deriving Repr, DecidableEq

/-- Whether a character can stand in the name of a mapkey. -/
def isNameChar (c : Char) : Bool := !isBlank c && c ≠ ';'

/-- The name that a word stands for: a backslash that ends the whole line is the line's escape and
    not part of the name, unless nothing else would be left of it. -/
def nameOf (word after : Text) : Text :=
  if word.getLast? = some '\\' ∧ allBlank after ∧ 1 < word.length then word.dropLast else word

/-- Reads a declaration: the keyword, at least one blank, and a word. -/
def declared? (t : Text) : Option Declared :=
  let column := indent t
  let marked := t.drop column
  if startsLike keyword marked then
    let gap := indent (marked.drop keyword.length)
    let nameColumn := column + keyword.length + gap
    let word := (t.drop nameColumn).takeWhile isNameChar
    if gap = 0 ∨ word = [] then none
    else some ⟨column, nameColumn, nameOf word (t.drop (nameColumn + word.length))⟩
  else none

/-- The column of the continuation marker. -/
def continued? (t : Text) : Option Nat :=
  let column := indent t
  if startsLike continuationMarker (t.drop column) then some column else none

/-- The column of the exclamation mark of a comment. -/
def remarked? (t : Text) : Option Nat :=
  let column := indent t
  if (t.drop column).head? = some '!' then some column else none

/-! ## Shapes -/

/-- The shape of a line with the columns of its markers. -/
inductive Shape where
  | blank
  | declaration (head : Declared)
  | continuation (column : Nat)
  | comment (column : Nat)
  | other
  deriving Repr, DecidableEq

/-- The shape of a line with the given text. -/
def shape (t : Text) : Shape :=
  if allBlank t then .blank
  else match declared? t with
    | some head => .declaration head
    | none => match continued? t with
      | some column => .continuation column
      | none => match remarked? t with
        | some column => .comment column
        | none => .other

/-- The kind of a shape. -/
def Shape.kind : Shape → LineKind
  | .blank => .blank
  | .declaration _ => .declaration
  | .continuation _ => .continuation
  | .comment _ => .comment
  | .other => .other

/-- The kind of a line with the given text. -/
def kindOf (t : Text) : LineKind := (shape t).kind

/-- The kind of a line. -/
def kind (line : Line) : LineKind := kindOf line.text

/-! ## Escapes -/

/-- Whether the text ends in a backslash. -/
def isEscaped (t : Text) : Bool := endsWith (trimRight t) ['\\']

/-- Whether a comment keeps its record open: it ends in a semicolon and a backslash. -/
def isCommentEscaped (t : Text) : Bool := endsWith (trimRight t) [';', '\\']

end Line
end Mapkeys
