import Mapkeys.Record
import Mapkeys.Statement
import Mapkeys.Token

/-!
# Tokens of a record

What a record holds: its keyword, name and markers, its comments, the semicolons that end its
statements, its tags with the statements they introduce, and the mapkeys it calls (`%name;`).
Tokens of different kinds may overlap. A tag that stands inside the content of an earlier one of
the same kind is part of that content.
-/

namespace Mapkeys

open Text

/-! ## Tags -/

/-- The tags that introduce the texts of a mapkey. -/
inductive Tag where
  | description
  | label
  | system
  deriving Repr, DecidableEq

namespace Tag

/-- How a tag is written. -/
def marker : Tag → Text
  | description => "@MAPKEY_NAME".toList
  | label => "@MAPKEY_LABEL".toList
  | system => "@SYSTEM".toList

/-- The kind of the token for what a tag introduces. -/
def contentKind : Tag → TokenKind
  | description => .description
  | label => .label
  | system => .systemInstruction

/-- The tag that a text begins with. -/
def at? (t : Text) : Option Tag :=
  [description, label, system].find? fun tag => beginsWith t tag.marker

/-- The tags in a text with their columns, counted from the given column. -/
def scan (column : Nat) : Text → List (Nat × Tag)
  | [] => []
  | c :: rest =>
    match at? (c :: rest) with
    | some tag => (column, tag) :: scan (column + 1) rest
    | none => scan (column + 1) rest

end Tag

/-- A tag in a record: the line it stands on, by position, its column in the body of that line and
    its offset. -/
structure TagPlace where
  tag : Tag
  position : Nat
  column : Nat
  offset : Nat
  deriving Repr, DecidableEq

/-- A tag that counts, with the statement it introduces if that holds anything. -/
structure TagReading where
  tag : Tag
  offset : Nat
  content : Option Statement
  deriving Repr, DecidableEq

namespace TagPlace

/-- The tags of the bodies that hold statements, when the first line has the given position. -/
def all (position : Nat) : List Layout → List TagPlace
  | [] => []
  | layout :: rest =>
    let here := if layout.holdsStatements then Tag.scan 0 layout.body.text else []
    here.map (fun (column, tag) => ⟨tag, position, column, layout.body.start + column⟩)
      ++ all (position + 1) rest

/-- Reads the tags in order. `covered` gives for each tag the end of its last content; a tag that
    stands before that end is part of the content. -/
def read (layouts : List Layout) (covered : Tag → Nat) : List TagPlace → List TagReading
  | [] => []
  | place :: rest =>
    if place.offset < covered place.tag then read layouts covered rest
    else
      let content :=
        Statement.read layouts place.position (place.column + place.tag.marker.length)
      let covered' := match content with
        | some statement => fun tag => if tag = place.tag then statement.stop else covered tag
        | none => covered
      ⟨place.tag, place.offset, content⟩ :: read layouts covered' rest

end TagPlace

/-! ## Calls -/

namespace Text

/-- Whether a character can stand in the name of a called mapkey. -/
def isCallChar (c : Char) : Bool := !isBlank c && c ≠ ';' && c ≠ '%' && c ≠ '\\'

/-- The names called in a text, each between a percent sign and a semicolon, with their columns
    counted from the given column. -/
def calls (column : Nat) : Text → List (Nat × Text)
  | [] => []
  | c :: rest =>
    let others := calls (column + 1) rest
    let name := rest.takeWhile isCallChar
    if c = '%' ∧ name ≠ [] ∧ (rest.drop name.length).head? = some ';' then
      (column + 1, name) :: others
    else others

end Text

/-! ## The tokens -/

namespace Layout

/-- The tokens for the keyword and the name, or for the continuation marker. -/
def headTokens (record : Text) (layout : Layout) : List Token :=
  match layout.head with
  | .declaration keyword name =>
    [.ofPiece .keyword keyword.text keyword.start (some record),
      .ofPiece .name name.text name.start (some record)]
  | .continuation marker _ => [.ofPiece .continuationMarker marker.text marker.start (some record)]
  | _ => []

/-- The token for the escape at the end of the line. -/
def escapeTokens (record : Text) (layout : Layout) : List Token :=
  match layout.escapeAt with
  | some offset => [.ofPiece .continuationMarker ['\\'] offset (some record)]
  | none => []

/-- The tokens for a comment, or for the semicolons that end statements. -/
def bodyTokens (record : Text) (layout : Layout) : List Token :=
  if layout.isRemark then
    if layout.body.text = [] then []
    else [.ofPiece .comment layout.body.text layout.body.start (some record)]
  else
    (terminators 0 false layout.body.text).map fun column =>
      .ofPiece .terminator [';'] (layout.body.start + column) (some record)

/-- The tokens that the line has by itself. -/
def lineTokens (record : Text) (layout : Layout) : List Token :=
  layout.headTokens record ++ layout.escapeTokens record ++ layout.bodyTokens record

/-- The tokens for the names called on the line. -/
def callTokens (record : Text) (layout : Layout) : List Token :=
  if layout.holdsStatements then
    (calls 0 layout.body.text).map fun (column, name) =>
      .ofPiece .nestedCall name (layout.body.start + column) (some record)
  else []

end Layout

/-- The tokens for a tag and its content. -/
def TagReading.tokens (record : Text) (reading : TagReading) : List Token :=
  .ofPiece .tag reading.tag.marker reading.offset (some record) ::
    match reading.content with
    | some content =>
      [⟨reading.tag.contentKind, content.value, content.start, content.stop, some record⟩]
    | none => []

namespace Record

/-- The tags of a record. -/
def tagReadings (record : Record) : List TagReading :=
  TagPlace.read record.layouts (fun _ => 0) (TagPlace.all 0 record.layouts)

/-- The tokens of a record. -/
def tokens (record : Record) : List Token :=
  let layouts := record.layouts
  Token.sort (layouts.flatMap (Layout.lineTokens record.id)
    ++ record.tagReadings.flatMap (TagReading.tokens record.id)
    ++ layouts.flatMap (Layout.callTokens record.id))

end Record
end Mapkeys
