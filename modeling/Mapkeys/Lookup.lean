import Mapkeys.Document

/-!
# Looking up

What stands at an offset of a document, and who defines or calls a name.
-/

namespace Mapkeys

/-- The narrower of two tokens, and of equally wide ones the first. -/
def Token.narrower (a b : Token) : Token := if b.width < a.width then b else a

/-- The narrowest token, and of equally narrow ones the first. -/
def Token.narrowest? : List Token → Option Token
  | [] => none
  | token :: rest => some (rest.foldl Token.narrower token)

namespace Document

/-- Whether an offset lies in the document, its end included. -/
def isWithin (document : Document) (position : Int) : Bool :=
  decide (0 ≤ position) && decide (position ≤ document.text.length)

/-- The narrowest token that covers an offset. -/
def tokenAt (document : Document) (position : Int) : Option Token :=
  Token.narrowest? (document.tokens.filter (·.span.covers position))

/-- The record that a cursor at an offset touches. -/
def recordAt (document : Document) (position : Int) : Option Record :=
  document.records.find? fun record => Span.touches ⟨record.start, record.stop⟩ position

/-- The definition that a cursor at an offset touches. -/
def definitionAt (document : Document) (position : Int) : Option Definition :=
  document.definitions.find? (·.span.touches position)

/-- The names of the definitions. -/
def allNames (document : Document) : List Text := document.definitions.map Definition.name

/-- The definitions of a name. -/
def definitionsOf (document : Document) (name : Text) : List Definition :=
  document.definitions.filter (·.name = name)

/-- The definitions that call a name. -/
def usagesOf (document : Document) (name : Text) : List Definition :=
  document.definitions.filter fun definition => definition.calledNames.contains name

end Document
end Mapkeys
