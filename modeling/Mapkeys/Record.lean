import Mapkeys.Line.Layout

/-!
# Records

A record is a declaration together with the lines it claims: the comments and continuations that
follow it, up to the first one that does not keep the record open. A blank line, another
declaration or any other line ends the record before it.
-/

namespace Mapkeys

open Text

/-- The source lines of one mapkey. -/
structure Record where
  name : Text
  declaration : Line
  others : List Line
  terminated : Bool
  deriving Repr, DecidableEq

namespace Record

/-- Every line of the record. -/
def lines (record : Record) : List Line := record.declaration :: record.others

/-- The last line of the record. -/
def lastLine (record : Record) : Line := record.others.getLast?.getD record.declaration

/-- The offset of the first character of the record. -/
def start (record : Record) : Nat := record.declaration.start

/-- The offset just after the last character of the record. -/
def stop (record : Record) : Nat := record.lastLine.stop

/-- What identifies the record in its document. -/
def id (record : Record) : Text :=
  "mapkey_".toList ++ ofNat record.declaration.index ++ ['_'] ++ record.name

/-- The source of the record in its document. -/
def source (document : Text) (record : Record) : Text := slice document record.start record.stop

/-- The layouts of the lines of the record. -/
def layouts (record : Record) : List Layout := record.lines.map Layout.ofLine

/-! ## Segmentation -/

/-- Whether a line can follow the declaration of a record. -/
def canFollow (line : Line) : Bool := line.kind = .comment || line.kind = .continuation

/-- Whether a comment or a continuation keeps its record open. -/
def keepsOpen (line : Line) : Bool :=
  if line.kind = .comment then Line.isCommentEscaped line.text
  else (Layout.ofLine line).isEscaped

/-- The lines that a record claims of those that follow, and whether the last line of the record
    keeps it open. -/
def claim (isOpen : Bool) : List Line → List Line × Bool
  | [] => ([], isOpen)
  | line :: rest =>
    if canFollow line then
      if keepsOpen line then
        let (claimed, stillOpen) := claim true rest
        (line :: claimed, stillOpen)
      else ([line], false)
    else ([], isOpen)

/-- The record of a declaration that is followed by the given lines. -/
def ofDeclaration (name : Text) (line : Line) (following : List Line) : Record :=
  let (claimed, isOpen) := claim (Line.isEscaped line.text) following
  ⟨name, line, claimed, !isOpen⟩

/-- The records of a document, one for each declaration. A line that a record claims is never a
    declaration, so it is passed over when its turn comes. -/
def segment : List Line → List Record
  | [] => []
  | line :: rest =>
    match Line.shape line.text with
    | .declaration head => ofDeclaration head.name line rest :: segment rest
    | _ => segment rest

end Record
end Mapkeys
