import Mapkeys.Proofs.Layouts
import Mathlib.Data.List.Infix

/-!
# Parts of lines

The parts of a line read as the line does: marker, name, body and escape are each what stands in the
text of the line at their offset.
-/

namespace Mapkeys

open Text

namespace Piece

/-- A piece that reads as another one does from its offset on. -/
def PartOf (piece whole : Piece) : Prop :=
  ∃ column, piece.start = whole.start + column ∧ piece.text <+: whole.text.drop column

theorem PartOf.trans {inner middle outer : Piece} (first : inner.PartOf middle)
    (second : middle.PartOf outer) : inner.PartOf outer := by
  obtain ⟨column, start, begins⟩ := first
  obtain ⟨further, start', begins'⟩ := second
  refine ⟨further + column, by omega, begins.trans ?_⟩
  rw [← List.drop_drop]
  exact begins'.drop column

/-- What stands after the beginning of a text is part of it. -/
theorem partOf_of_eq {start : Nat} {t before word rest : Text}
    (spelled : t = before ++ (word ++ rest)) : PartOf ⟨start + before.length, word⟩ ⟨start, t⟩ := by
  refine ⟨before.length, rfl, ?_⟩
  rw [spelled, List.drop_left]
  exact List.prefix_append word rest

theorem PartOf.slice_eq {piece : Piece} {t : Text} (part : piece.PartOf ⟨0, t⟩) :
    slice t piece.start piece.stop = piece.text := by
  obtain ⟨column, start, begins⟩ := part
  rw [Nat.zero_add] at start
  rw [slice, stop, Nat.add_sub_cancel_left, start]
  exact (List.prefix_iff_eq_take.mp begins).symm

end Piece

/-- The line as a piece of its document. -/
def Line.piece (line : Line) : Piece := ⟨line.start, line.text⟩

namespace Line

theorem nameOf_begins (word after : Text) : nameOf word after <+: word := by
  unfold nameOf
  split_ifs
  · exact List.dropLast_prefix word
  · exact List.prefix_refl word

/-- The declared name stands in its column. -/
theorem declared_begins {t : Text} {head : Declared} (found : declared? t = some head) :
    head.name <+: t.drop head.nameColumn := by
  unfold declared? at found
  dsimp only at found
  split_ifs at found
  cases found
  exact (nameOf_begins _ _).trans (List.takeWhile_prefix isNameChar)

end Line

namespace Layout

/-- The parts of a layout read as its line does. -/
structure PartsOf (line : Line) (layout : Layout) : Prop where
  marker : ∀ marker ∈ layout.marker?, marker.PartOf line.piece
  name : ∀ name ∈ layout.name?, name.PartOf line.piece
  body : layout.body.PartOf line.piece
  escape : ∀ offset ∈ layout.escapeAt, Piece.PartOf ⟨offset, ['\\']⟩ line.piece

theorem pieceAt_partOf (line : Line) (column length : Nat) :
    (pieceAt line column length).PartOf line.piece :=
  ⟨column, rfl, List.take_prefix _ _⟩

theorem withBody_partOf (line : Line) (head : LineHead) (column : Nat) :
    (withBody line head column).body.PartOf line.piece := by
  refine ⟨column, withBody_start line head column, ?_⟩
  have content := trimRight_begins line.text
  unfold withBody
  dsimp only
  split_ifs
  · have kept : trimRight (trimRight line.text).dropLast <+: line.text :=
      ((trimRight_begins _).trans (List.dropLast_prefix _)).trans content
    exact kept.drop column
  · exact content.drop column

theorem escape_partOf {line : Line} {head : LineHead} {column offset : Nat}
    (escape : (withBody line head column).escapeAt = some offset) :
    Piece.PartOf ⟨offset, ['\\']⟩ line.piece := by
  unfold withBody at escape
  dsimp only at escape
  split_ifs at escape with escaped
  cases escape
  -- the escape is the last character of the trimmed text
  obtain ⟨before, content⟩ := List.getLast?_eq_some_iff.mp escaped.1
  obtain ⟨rest, line_text⟩ := trimRight_begins line.text
  have spelled : line.text = before ++ (['\\'] ++ rest) := by
    rw [← line_text, content, List.append_assoc]
  have length : (trimRight line.text).length - 1 = before.length := by
    rw [content, List.length_append, List.length_singleton, Nat.add_sub_cancel]
  rw [length]
  exact Piece.partOf_of_eq spelled

theorem withBody_parts {line : Line} {head : LineHead} {column : Nat}
    (marker : ∀ marker ∈ (withBody line head column).marker?, marker.PartOf line.piece)
    (name : ∀ name ∈ (withBody line head column).name?, name.PartOf line.piece) :
    PartsOf line (withBody line head column) :=
  ⟨marker, name, withBody_partOf line head column, fun _ => escape_partOf⟩

theorem parts_of_empty {line : Line} {layout : Layout} (marker : layout.marker? = none)
    (name : layout.name? = none) (body : layout.body = ⟨line.start, []⟩)
    (escape : layout.escapeAt = none) : PartsOf line layout := by
  refine ⟨by simp [marker], by simp [name], ?_, by simp [escape]⟩
  rw [body]
  exact ⟨0, rfl, List.nil_prefix⟩

/-- Every line reads as its layout says. -/
theorem ofLine_parts (line : Line) : PartsOf line (ofLine line) := by
  have read := Line.shape_spec line.text
  unfold ofLine
  cases shape : Line.shape line.text with
  | blank => exact parts_of_empty rfl rfl rfl rfl
  | other => exact parts_of_empty rfl rfl rfl rfl
  | comment column =>
    refine withBody_parts ?_ ?_
    all_goals simp [marker?, name?]
  | continuation column =>
    refine withBody_parts ?_ ?_
    · simp only [marker?, withBody_head, Option.mem_some_iff, forall_eq']
      exact pieceAt_partOf line _ _
    · simp [name?]
  | declaration head =>
    rw [shape] at read
    refine withBody_parts ?_ ?_
    · simp only [marker?, withBody_head, Option.mem_some_iff, forall_eq']
      exact pieceAt_partOf line _ _
    · simp only [name?, withBody_head, Option.mem_some_iff, forall_eq']
      exact ⟨head.nameColumn, rfl, Line.declared_begins read⟩

end Layout
end Mapkeys
