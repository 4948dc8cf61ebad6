import Mapkeys.Record
import Mapkeys.Token

/-!
# Tokens outside the records

Comments that no record claims. A comment that begins with the word `region` or `endregion`, in
any case, also begins or ends a region of the document; the rest of the comment is its title.
-/

namespace Mapkeys

open Text

namespace Marker

/-- The word that begins a region. -/
def regionWord : Text := "region".toList

/-- The word that ends a region. -/
def endRegionWord : Text := "endregion".toList

/-- The column of a word and the text from there on without the blanks at its end, if the word is
    the first one of the comment that stands on a line. -/
def titled? (word t : Text) : Option (Nat × Text) :=
  match Line.remarked? t with
  | none => none
  | some mark =>
    let column := Layout.afterBlanks t (mark + 1)
    let rest := t.drop column
    if startsLike word rest && endsWord (rest.drop word.length) then some (column, trimRight rest)
    else none

/-- The token of a kind for a comment that begins with a word. -/
def titleTokens (kind : TokenKind) (word : Text) (line : Line) : List Token :=
  match titled? word line.text with
  | some (column, title) => [.ofPiece kind title (line.start + column) none]
  | none => []

/-- The tokens of a line that no record claims. -/
def lineTokens (line : Line) : List Token :=
  match Line.shape line.text with
  | .comment column =>
    .ofPiece .comment (trimRight (line.text.drop column)) (line.start + column) none ::
      (titleTokens .regionStart regionWord line ++ titleTokens .regionEnd endRegionWord line)
  | _ => []

/-- The tokens of the lines that the records do not claim. -/
def tokens (lines : List Line) (records : List Record) : List Token :=
  let claimed := records.flatMap fun record => record.lines.map Line.index
  (lines.filter fun line => !claimed.contains line.index).flatMap lineTokens

end Marker
end Mapkeys
