import Mapkeys.Sorting
import Mapkeys.Text.Basic

/-!
# Tokens

Typed pieces of a document. A token covers the offsets from its start up to and excluding its
stop; tokens of one document are listed by start, then stop, then the name of their kind.
-/

namespace Mapkeys

/-! ## Kinds -/

/-- The kinds of tokens, in the alphabetical order of their names. -/
inductive TokenKind where
  | comment
  | continuationMarker
  | description
  | keyword
  | label
  | name
  | nestedCall
  | systemInstruction
  | tag
  | terminator
  | regionEnd
  | regionStart
  deriving Repr, DecidableEq

namespace TokenKind

/-- The name of a kind. -/
def title : TokenKind → String
  | comment => "comment"
  | continuationMarker => "record.continuation_marker"
  | description => "record.description"
  | keyword => "record.keyword"
  | label => "record.label"
  | name => "record.name"
  | nestedCall => "record.nested_call"
  | systemInstruction => "record.system_instruction"
  | tag => "record.tag"
  | terminator => "record.terminator"
  | regionEnd => "region.end"
  | regionStart => "region.start"

/-- The place of a kind in the alphabetical order of the names. -/
def rank : TokenKind → Nat
  | comment => 0
  | continuationMarker => 1
  | description => 2
  | keyword => 3
  | label => 4
  | name => 5
  | nestedCall => 6
  | systemInstruction => 7
  | tag => 8
  | terminator => 9
  | regionEnd => 10
  | regionStart => 11

end TokenKind

/-! ## Spans -/

/-- A range of offsets. -/
structure Span where
  start : Int
  stop : Int
  deriving Repr, DecidableEq

namespace Span

/-- Whether the span covers an offset; its stop is not covered. -/
def covers (span : Span) (position : Int) : Bool :=
  decide (span.start ≤ position) && decide (position < span.stop)

/-- Whether a cursor at an offset touches the span: just after its last character it still does. -/
def touches (span : Span) (position : Int) : Bool :=
  decide (span.start ≤ position) && decide (position ≤ span.stop)

/-- Whether two spans have offsets in common. -/
def overlaps (span other : Span) : Bool :=
  decide (span.start < other.stop) && decide (other.start < span.stop)

end Span

/-! ## Tokens -/

/-- A typed piece of a document; `record` identifies the record that it belongs to, if any. -/
structure Token where
  kind : TokenKind
  value : Text
  start : Nat
  stop : Nat
  record : Option Text
  deriving Repr, DecidableEq

namespace Token

/-- The offsets of a token. -/
def span (token : Token) : Span := ⟨token.start, token.stop⟩

/-- How many offsets a token covers. -/
def width (token : Token) : Nat := token.stop - token.start

/-- A token for a piece of text that stands in the document as it is. -/
def ofPiece (kind : TokenKind) (value : Text) (start : Nat) (record : Option Text) : Token :=
  ⟨kind, value, start, start + value.length, record⟩

/-- Whether a token is listed before another one, or in its place. -/
def le (a b : Token) : Bool :=
  if a.start ≠ b.start then a.start < b.start
  else if a.stop ≠ b.stop then a.stop < b.stop
  else a.kind.rank ≤ b.kind.rank

/-- The tokens in the order in which a document lists them. -/
def sort (tokens : List Token) : List Token := sortBy le tokens

/-- The first token of a kind. -/
def first? (kind : TokenKind) (tokens : List Token) : Option Token :=
  tokens.find? (·.kind = kind)

end Token
end Mapkeys
