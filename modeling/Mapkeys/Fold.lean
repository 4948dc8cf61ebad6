import Mapkeys.Document

/-!
# Folding

The parts of a document that an editor can fold: records of more than one line, and the regions
between a comment that begins a region and the comment that ends it. Regions nest; a marker
without a partner is ignored.
-/

namespace Mapkeys

/-- What a fold is for. -/
inductive FoldKind where
  | mapkey
  | region
  deriving Repr, DecidableEq

/-- The name of a kind of folds. -/
def FoldKind.label : FoldKind → String
  | .mapkey => "mapkey"
  | .region => "region"

/-- Lines that can be folded, the first and the last included. -/
structure Fold where
  startLine : Nat
  endLine : Nat
  kind : FoldKind
  deriving Repr, DecidableEq

namespace Fold

/-- The number of the last line that starts at or before an offset. -/
def lineAt (lines : List Line) (offset : Nat) : Nat :=
  ((lines.takeWhile (·.start ≤ offset)).getLast?.map Line.index).getD 0

/-- The folds of the regions; `opened` holds the lines of the regions that are open, innermost
    first. -/
def regions (lines : List Line) (opened : List Nat) : List Token → List Fold
  | [] => []
  | token :: rest =>
    match token.kind, opened with
    | .regionStart, _ => regions lines (lineAt lines token.start :: opened) rest
    | .regionEnd, startLine :: outer =>
      let endLine := lineAt lines token.start
      let others := regions lines outer rest
      if startLine < endLine then ⟨startLine, endLine, .region⟩ :: others else others
    | _, _ => regions lines opened rest

/-- The folds of the records. -/
def records (records : List Record) : List Fold :=
  (records.filter fun record => record.declaration.index < record.lastLine.index).map
    fun record => ⟨record.declaration.index, record.lastLine.index, .mapkey⟩

/-- Whether a fold is listed before another one, or in its place. -/
def le (a b : Fold) : Bool :=
  if a.startLine ≠ b.startLine then a.startLine < b.startLine else a.endLine ≤ b.endLine

end Fold

/-- The folds of a document by their first lines. -/
def Document.folds (document : Document) : List Fold :=
  sortBy Fold.le
    (Fold.regions document.lines [] document.tokens ++ Fold.records document.records)

end Mapkeys
