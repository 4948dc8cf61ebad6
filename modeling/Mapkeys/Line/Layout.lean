import Mapkeys.Line.Shape

/-!
# Layout of lines

Where the parts of a line stand in the document: the keyword and the name of a declaration, the
marker of a continuation, the body that follows them, and the escape at the end. The body has no
blanks at its ends and does not include the escape.
-/

namespace Mapkeys

open Text

/-- A piece of a document: its text and the offset of its first character. -/
structure Piece where
  start : Nat
  text : Text
  deriving Repr, DecidableEq

/-- The offset just after the last character of a piece. -/
def Piece.stop (piece : Piece) : Nat := piece.start + piece.text.length

/-- What stands on a line before its body. A continuation is a remark if its body begins with an
    exclamation mark. -/
inductive LineHead where
  | blank
  | declaration (keyword name : Piece)
  | continuation (marker : Piece) (isRemark : Bool)
  | comment
  | other
  deriving Repr, DecidableEq

/-- The parts of one line. -/
structure Layout where
  head : LineHead
  body : Piece
  escapeAt : Option Nat
  deriving Repr, DecidableEq

namespace Layout

/-- The kind of the line. -/
def kind (layout : Layout) : LineKind :=
  match layout.head with
  | .blank => .blank
  | .declaration _ _ => .declaration
  | .continuation _ _ => .continuation
  | .comment => .comment
  | .other => .other

/-- The keyword or the continuation marker. -/
def marker? (layout : Layout) : Option Piece :=
  match layout.head with
  | .declaration keyword _ => some keyword
  | .continuation marker _ => some marker
  | _ => none

/-- The declared name. -/
def name? (layout : Layout) : Option Piece :=
  match layout.head with
  | .declaration _ name => some name
  | _ => none

/-- Whether the body is a comment. -/
def isRemark (layout : Layout) : Bool :=
  match layout.head with
  | .continuation _ isRemark => isRemark
  | .comment => true
  | _ => false

/-- Whether the line is escaped after its body. -/
def isEscaped (layout : Layout) : Bool := layout.escapeAt.isSome

/-- Whether the body holds statements of a record. -/
def holdsStatements (layout : Layout) : Bool :=
  layout.kind.carriesStatements && !layout.isRemark

/-- The layout of a line whose body begins at the given column. A backslash at the end of the line
    is its escape, unless it stands before that column. -/
def withBody (line : Line) (head : LineHead) (column : Nat) : Layout :=
  let content := trimRight line.text
  if content.getLast? = some '\\' ∧ column < content.length then
    let kept := trimRight content.dropLast
    ⟨head, ⟨line.start + column, kept.drop column⟩, some (line.start + (content.length - 1))⟩
  else
    ⟨head, ⟨line.start + column, content.drop column⟩, none⟩

/-- The part of a line from a column on, of the given length, as a piece of the document. -/
def pieceAt (line : Line) (column length : Nat) : Piece :=
  ⟨line.start + column, (line.text.drop column).take length⟩

/-- The column of the first character at or after a column that is not blank. -/
def afterBlanks (t : Text) (column : Nat) : Nat := column + indent (t.drop column)

/-- The layout of a line. -/
def ofLine (line : Line) : Layout :=
  match Line.shape line.text with
  | .blank => ⟨.blank, ⟨line.start, []⟩, none⟩
  | .other => ⟨.other, ⟨line.start, []⟩, none⟩
  | .comment column => withBody line .comment column
  | .declaration head =>
    let keyword := pieceAt line head.keywordColumn Line.keyword.length
    let name := ⟨line.start + head.nameColumn, head.name⟩
    withBody line (.declaration keyword name)
      (afterBlanks line.text (head.nameColumn + head.name.length))
  | .continuation column =>
    let marker := pieceAt line column Line.continuationMarker.length
    let bodyColumn := afterBlanks line.text (column + Line.continuationMarker.length)
    withBody line (.continuation marker ((line.text.drop bodyColumn).head? = some '!')) bodyColumn

end Layout
end Mapkeys
