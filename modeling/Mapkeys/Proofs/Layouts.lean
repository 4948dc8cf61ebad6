import Mapkeys.Proofs.Blanks

/-!
# Order on lines

The lines of a document follow each other, and so do the parts of each line: marker, name, body and
escape stand in this order between the first and the last character of the line.
-/

namespace Mapkeys

open Text

namespace Line

/-- One line ends before the next one starts, and has the lower number. -/
structure Before (a b : Line) : Prop where
  index : a.index < b.index
  stop : a.stop < b.start

theorem dropReturn_length_le (raw : Text) : (dropReturn raw).length ≤ raw.length := by
  unfold dropReturn
  split_ifs
  · simp
  · exact Nat.le_refl _

theorem number_ge {index start : Nat} {raws : List Text} :
    ∀ line ∈ number index start raws, index ≤ line.index ∧ start ≤ line.start := by
  induction raws generalizing index start with
  | nil => simp [number]
  | cons raw rest ih =>
    intro line member
    rcases List.mem_cons.mp member with rfl | later
    · exact ⟨Nat.le_refl _, Nat.le_refl _⟩
    · have bounds := ih line later
      omega

theorem number_pairwise (index start : Nat) (raws : List Text) :
    (number index start raws).Pairwise Before := by
  induction raws generalizing index start with
  | nil => exact .nil
  | cons raw rest ih =>
    refine List.pairwise_cons.mpr ⟨fun line member => ?_, ih _ _⟩
    obtain ⟨later, beyond⟩ := number_ge line member
    have kept := dropReturn_length_le raw
    exact ⟨by dsimp only; omega, by simp only [stop]; omega⟩

theorem split_pairwise (text : Text) : (split text).Pairwise Before := number_pairwise 0 0 _

/-! ## Markers -/

theorem nameOf_length_le (word after : Text) : (nameOf word after).length ≤ word.length := by
  unfold nameOf
  split_ifs
  · simp
  · exact Nat.le_refl _

theorem nameOf_length_pos {word : Text} (some : word ≠ []) (after : Text) :
    0 < (nameOf word after).length := by
  unfold nameOf
  split_ifs with escape
  · rw [List.length_dropLast]
    omega
  · exact List.length_pos_iff.mpr some

theorem word_bound {t : Text} {column : Nat} (some : (t.drop column).takeWhile isNameChar ≠ []) :
    column + ((t.drop column).takeWhile isNameChar).length ≤ t.length := by
  have nonempty := List.length_pos_iff.mpr some
  have taken : (t.drop column).takeWhile isNameChar <+: t.drop column :=
    List.takeWhile_prefix isNameChar
  have length := taken.length_le
  rw [List.length_drop] at length
  omega

theorem declared_bounds {t : Text} {head : Declared} (found : declared? t = some head) :
    head.keywordColumn + keyword.length < head.nameColumn ∧ 0 < head.name.length ∧
      head.nameColumn + head.name.length ≤ t.length := by
  unfold declared? at found
  dsimp only at found
  split_ifs at found with starts missing
  obtain ⟨gap, word⟩ := not_or.mp missing
  cases found
  refine ⟨by dsimp only; omega, nameOf_length_pos word _, ?_⟩
  exact Nat.le_trans (Nat.add_le_add_left (nameOf_length_le _ _) _) (word_bound word)

theorem continued_bounds {t : Text} {column : Nat} (found : continued? t = some column) :
    column + continuationMarker.length ≤ t.length := by
  unfold continued? at found
  dsimp only at found
  split_ifs at found with starts
  cases found
  have marker := startsLike_length starts
  rw [List.length_drop] at marker
  have positive : 0 < continuationMarker.length := by decide
  omega

theorem remarked_head {t : Text} {column : Nat} (found : remarked? t = some column) :
    (t.drop column).head? = some '!' := by
  unfold remarked? at found
  dsimp only at found
  split_ifs at found with mark
  cases found
  exact mark

theorem remarked_bounds {t : Text} {column : Nat} (found : remarked? t = some column) :
    column < t.length := by
  have head := remarked_head found
  by_contra outside
  rw [List.drop_eq_nil_of_le (by omega)] at head
  simp at head

/-! ## Shapes -/

/-- What the shape of a line has been read from. -/
theorem shape_spec (t : Text) :
    match shape t with
    | .declaration head => declared? t = some head
    | .continuation column => continued? t = some column
    | .comment column => remarked? t = some column
    | _ => True := by
  unfold shape
  split_ifs
  · trivial
  · cases declaration : declared? t with
    | some head => rfl
    | none =>
      cases continuation : continued? t with
      | some column => rfl
      | none =>
        cases comment : remarked? t with
        | some column => rfl
        | none => trivial

end Line

/-! ## Layouts -/

namespace Layout

/-- The parts of a layout stand in order on its line: marker, name, body and escape. -/
structure Ordered (line : Line) (layout : Layout) : Prop where
  marker : ∀ marker ∈ layout.marker?,
    line.start ≤ marker.start ∧ marker.start < marker.stop ∧ marker.stop ≤ layout.body.start
  name : ∀ name ∈ layout.name?,
    line.start ≤ name.start ∧ name.start < name.stop ∧ name.stop ≤ layout.body.start
  name_after : ∀ marker ∈ layout.marker?, ∀ name ∈ layout.name?, marker.stop ≤ name.start
  body_start : line.start ≤ layout.body.start
  body_stop : layout.body.stop ≤ line.stop
  escape : ∀ offset ∈ layout.escapeAt, layout.body.stop ≤ offset ∧ offset < line.stop

@[simp] theorem withBody_head (line : Line) (head : LineHead) (column : Nat) :
    (withBody line head column).head = head := by
  unfold withBody
  dsimp only
  split_ifs <;> rfl

@[simp] theorem withBody_start (line : Line) (head : LineHead) (column : Nat) :
    (withBody line head column).body.start = line.start + column := by
  unfold withBody
  dsimp only
  split_ifs <;> rfl

theorem withBody_stop_le {line : Line} {column : Nat} (inside : column ≤ line.text.length)
    (head : LineHead) : (withBody line head column).body.stop ≤ line.stop := by
  have content := trimRight_length_le line.text
  have kept := trimRight_length_le (trimRight line.text).dropLast
  rw [List.length_dropLast] at kept
  unfold withBody Piece.stop Line.stop
  dsimp only
  split_ifs
  · simp only [List.length_drop]
    omega
  · simp only [List.length_drop]
    omega

theorem withBody_escape {line : Line} {head : LineHead} {column offset : Nat}
    (escape : (withBody line head column).escapeAt = some offset) :
    (withBody line head column).body.stop ≤ offset ∧ offset < line.stop := by
  have content := trimRight_length_le line.text
  have kept := trimRight_length_le (trimRight line.text).dropLast
  rw [List.length_dropLast] at kept
  unfold withBody Piece.stop Line.stop at *
  dsimp only at *
  split_ifs at * with escaped
  · cases escape
    simp only [List.length_drop]
    omega

theorem pieceAt_stop {line : Line} {column length : Nat} (inside : column + length ≤ line.text.length) :
    (pieceAt line column length).stop = line.start + column + length := by
  simp only [pieceAt, Piece.stop, List.length_take, List.length_drop]
  omega

theorem withBody_ordered {line : Line} {head : LineHead} {column : Nat}
    (inside : column ≤ line.text.length)
    (marker : ∀ marker ∈ (withBody line head column).marker?,
      line.start ≤ marker.start ∧ marker.start < marker.stop ∧ marker.stop ≤ line.start + column)
    (name : ∀ name ∈ (withBody line head column).name?,
      line.start ≤ name.start ∧ name.start < name.stop ∧ name.stop ≤ line.start + column)
    (name_after : ∀ marker ∈ (withBody line head column).marker?,
      ∀ name ∈ (withBody line head column).name?, marker.stop ≤ name.start) :
    Ordered line (withBody line head column) where
  marker := by simpa only [withBody_start] using marker
  name := by simpa only [withBody_start] using name
  name_after := name_after
  body_start := by simp only [withBody_start, Nat.le_add_right]
  body_stop := withBody_stop_le inside head
  escape _ escape := withBody_escape escape

theorem ordered_of_empty {line : Line} {layout : Layout} (marker : layout.marker? = none)
    (name : layout.name? = none) (body : layout.body = ⟨line.start, []⟩)
    (escape : layout.escapeAt = none) : Ordered line layout := by
  refine ⟨?_, ?_, ?_, ?_, ?_, ?_⟩
  all_goals simp [marker, name, body, escape, Piece.stop, Line.stop]

/-- Every line is laid out in order. -/
theorem ofLine_ordered (line : Line) : Ordered line (ofLine line) := by
  have read := Line.shape_spec line.text
  unfold ofLine
  cases shape : Line.shape line.text with
  | blank => exact ordered_of_empty rfl rfl rfl rfl
  | other => exact ordered_of_empty rfl rfl rfl rfl
  | comment column =>
    rw [shape] at read
    have mark := Line.remarked_bounds read
    refine withBody_ordered (by omega) ?_ ?_ ?_
    all_goals simp [marker?, name?]
  | continuation column =>
    rw [shape] at read
    have fits := Line.continued_bounds read
    have blanks := afterBlanks_le fits
    have stop := pieceAt_stop fits
    have positive : 0 < Line.continuationMarker.length := by decide
    refine withBody_ordered blanks.2 ?_ ?_ ?_
    · simp only [marker?, withBody_head, Option.mem_some_iff, forall_eq']
      rw [stop]
      simp only [pieceAt]
      omega
    · simp [name?]
    · simp [name?]
  | declaration head =>
    rw [shape] at read
    obtain ⟨gap, some, fits⟩ := Line.declared_bounds read
    have blanks := afterBlanks_le fits
    have stop := pieceAt_stop
      (show head.keywordColumn + Line.keyword.length ≤ line.text.length by omega)
    have positive : 0 < Line.keyword.length := by decide
    refine withBody_ordered blanks.2 ?_ ?_ ?_
    · simp only [marker?, withBody_head, Option.mem_some_iff, forall_eq']
      rw [stop]
      simp only [pieceAt]
      omega
    · simp only [name?, withBody_head, Option.mem_some_iff, forall_eq', Piece.stop]
      omega
    · simp only [marker?, name?, withBody_head, Option.mem_some_iff, forall_eq']
      rw [stop]
      omega

end Layout
end Mapkeys
