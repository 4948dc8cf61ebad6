import Mapkeys.Proofs.Segments
import Mapkeys.Proofs.Statements

/-!
# Tags and their contents

The tags of a record stand one after the other. A tag is read only if it stands after the last
content of its own kind, so the contents of one kind stand one after the other too.
-/

namespace Mapkeys

namespace TagPlace

/-! ## Places -/

/-- A tag stands at its column in the body of a layout. -/
structure On (layout : Layout) (place : TagPlace) : Prop where
  offset : place.offset = layout.body.start + place.column
  fits : place.column + place.tag.marker.length ≤ layout.body.text.length

theorem On.bounds {layout : Layout} {place : TagPlace} (on : On layout place) :
    layout.body.start ≤ place.offset ∧
      place.offset + place.tag.marker.length ≤ layout.body.stop := by
  have offset := on.offset
  have fits := on.fits
  unfold Piece.stop
  omega

/-- The tags found on one line. -/
def ofLayout (position : Nat) (layout : Layout) : List TagPlace :=
  (if layout.holdsStatements then Tag.scan 0 layout.body.text else []).map
    fun (column, tag) => ⟨tag, position, column, layout.body.start + column⟩

theorem all_cons (position : Nat) (layout : Layout) (rest : List Layout) :
    all position (layout :: rest) = ofLayout position layout ++ all (position + 1) rest := rfl

theorem on_ofLayout {position : Nat} {layout : Layout} :
    ∀ place ∈ ofLayout position layout, place.position = position ∧ On layout place := by
  intro place member
  unfold ofLayout at member
  split_ifs at member
  · obtain ⟨⟨column, tag⟩, found, rfl⟩ := List.mem_map.mp member
    have bounds := Tag.scan_bounds _ found
    exact ⟨rfl, rfl, by dsimp only at bounds ⊢; omega⟩
  · simp at member

theorem ofLayout_pairwise (position : Nat) (layout : Layout) :
    (ofLayout position layout).Pairwise fun place later =>
      place.offset + place.tag.marker.length ≤ later.offset := by
  unfold ofLayout
  split_ifs
  · refine List.pairwise_map.mpr ((Tag.scan_pairwise 0 _).imp fun {found later} before => ?_)
    dsimp only
    omega
  · exact .nil

theorem exists_on {position : Nat} {layouts : List Layout} :
    ∀ place ∈ all position layouts, ∃ k layout,
      place.position = position + k ∧ layouts[k]? = some layout ∧ On layout place := by
  induction layouts generalizing position with
  | nil => simp [all]
  | cons layout rest ih =>
    intro place member
    rw [all_cons] at member
    rcases List.mem_append.mp member with here | later
    · obtain ⟨there, on⟩ := on_ofLayout place here
      exact ⟨0, layout, there, rfl, on⟩
    · obtain ⟨k, found, there, at_k, on⟩ := ih place later
      exact ⟨k + 1, found, by omega, at_k, on⟩

theorem all_pairwise {position : Nat} {layouts : List Layout}
    (inLine : Statement.InLine layouts) :
    (all position layouts).Pairwise fun place later =>
      place.offset + place.tag.marker.length ≤ later.offset := by
  induction layouts generalizing position with
  | nil => exact .nil
  | cons layout rest ih =>
    obtain ⟨after, others⟩ := List.pairwise_cons.mp inLine
    rw [all_cons]
    refine List.pairwise_append.mpr ⟨ofLayout_pairwise position layout, ih others, ?_⟩
    intro place here other later
    obtain ⟨k, next, -, there, on⟩ := exists_on other later
    have first := (on_ofLayout place here).2.bounds
    have second := on.bounds
    have between := after next (List.mem_of_getElem? there)
    omega

/-! ## Readings -/

/-- The reading of a tag by itself. -/
def reading (layouts : List Layout) (place : TagPlace) : TagReading :=
  ⟨place.tag, place.offset,
    Statement.read layouts place.position (place.column + place.tag.marker.length)⟩

/-- The ends of the last contents after a tag has been read. -/
def cover (covered : Tag → Nat) (reading : TagReading) : Tag → Nat :=
  match reading.content with
  | some statement => fun tag => if tag = reading.tag then statement.stop else covered tag
  | none => covered

theorem read_cons (layouts : List Layout) (covered : Tag → Nat) (place : TagPlace)
    (rest : List TagPlace) :
    read layouts covered (place :: rest) =
      if place.offset < covered place.tag then read layouts covered rest
      else place.reading layouts :: read layouts (cover covered (place.reading layouts)) rest := rfl

theorem read_sublist (layouts : List Layout) (covered : Tag → Nat) (places : List TagPlace) :
    (read layouts covered places).Sublist (places.map (reading layouts)) := by
  induction places generalizing covered with
  | nil => exact List.Sublist.refl []
  | cons place rest ih =>
    rw [read_cons, List.map_cons]
    split_ifs
    · exact (ih covered).cons _
    · exact (ih _).cons_cons _

/-- Contents end after the tags that introduce them. -/
def Forward (layouts : List Layout) (places : List TagPlace) : Prop :=
  ∀ place ∈ places, ∀ statement ∈ (place.reading layouts).content, place.offset ≤ statement.stop

theorem le_cover {covered : Tag → Nat} {reading : TagReading}
    (read : covered reading.tag ≤ reading.offset)
    (forward : ∀ statement ∈ reading.content, reading.offset ≤ statement.stop) (tag : Tag) :
    covered tag ≤ cover covered reading tag := by
  unfold cover
  cases content : reading.content with
  | none => exact Nat.le_refl _
  | some statement =>
    dsimp only
    split_ifs with same
    · rw [same]
      exact Nat.le_trans read (forward statement content)
    · exact Nat.le_refl _

/-- A tag that is read stands after the contents of its kind before it. -/
theorem covered_le {layouts : List Layout} {covered : Tag → Nat} {places : List TagPlace}
    (forward : Forward layouts places) :
    ∀ reading ∈ read layouts covered places, covered reading.tag ≤ reading.offset := by
  induction places generalizing covered with
  | nil => simp [read]
  | cons place rest ih =>
    have later : Forward layouts rest :=
      fun next member => forward next (List.mem_cons_of_mem place member)
    intro found member
    rw [read_cons] at member
    split_ifs at member with inside
    · exact ih later found member
    · have outside : covered place.tag ≤ place.offset := by omega
      rcases List.mem_cons.mp member with rfl | further
      · exact outside
      · have grown : covered found.tag ≤ cover covered (place.reading layouts) found.tag :=
          le_cover outside (forward place List.mem_cons_self) found.tag
        exact Nat.le_trans grown (ih later found further)

theorem read_pairwise {layouts : List Layout} {covered : Tag → Nat} {places : List TagPlace}
    (forward : Forward layouts places) :
    (read layouts covered places).Pairwise fun first second =>
      first.tag = second.tag → ∀ statement ∈ first.content, statement.stop ≤ second.offset := by
  induction places generalizing covered with
  | nil => exact .nil
  | cons place rest ih =>
    have later : Forward layouts rest :=
      fun next member => forward next (List.mem_cons_of_mem place member)
    rw [read_cons]
    split_ifs
    · exact ih later
    · refine List.pairwise_cons.mpr ⟨fun second member same statement content => ?_, ih later⟩
      have bound := covered_le later second member
      simpa only [cover, Option.mem_def.mp content, ← same, if_true] using bound

end TagPlace

/-! ## Readings of a record -/

/-- A tag and its content lie between two offsets, the content after the tag. -/
structure TagReading.Within (low high : Nat) (reading : TagReading) : Prop where
  low_le : low ≤ reading.offset
  le_high : reading.offset + reading.tag.marker.length ≤ high
  content : ∀ statement ∈ reading.content,
    statement.Within (reading.offset + reading.tag.marker.length) high

/-- One tag stands before another one, and so does its content if they are of one kind. -/
structure TagReading.Before (first second : TagReading) : Prop where
  marker : first.offset + first.tag.marker.length ≤ second.offset
  content : first.tag = second.tag → ∀ statement ∈ first.content, statement.stop ≤ second.offset

/-- The bodies of lines follow each other as the lines do. -/
theorem Statement.inLine_ofLine {lines : List Line} (ordered : lines.Pairwise Line.Before) :
    Statement.InLine (lines.map Layout.ofLine) := by
  refine List.pairwise_map.mpr (ordered.imp fun {line later} before => ?_)
  have first := (Layout.ofLine_ordered line).body_stop
  have second := (Layout.ofLine_ordered later).body_start
  have between := before.stop
  omega

namespace Record

section

variable {lines : List Line} {record : Record} (ordered : lines.Pairwise Line.Before)
  (member : record ∈ segment lines)

include ordered member

theorem layouts_inLine : Statement.InLine record.layouts :=
  Statement.inLine_ofLine (lines_pairwise ordered member)

theorem body_within {layout : Layout} (own : layout ∈ record.layouts) :
    record.start ≤ layout.body.start ∧ layout.body.stop ≤ record.stop := by
  obtain ⟨line, mine, rfl⟩ := List.mem_map.mp own
  have within := line_within ordered member mine
  have parts := Layout.ofLine_ordered line
  exact ⟨Nat.le_trans within.1 parts.body_start, Nat.le_trans parts.body_stop within.2⟩

theorem reading_within {place : TagPlace} (found : place ∈ TagPlace.all 0 record.layouts) :
    (place.reading record.layouts).Within record.start record.stop := by
  obtain ⟨k, layout, there, at_k, on⟩ := TagPlace.exists_on place found
  rw [Nat.zero_add] at there
  have within := body_within ordered member (List.mem_of_getElem? at_k)
  have bounds := on.bounds
  refine ⟨Nat.le_trans within.1 bounds.1, Nat.le_trans bounds.2 within.2, ?_⟩
  intro statement content
  have placed := Statement.read_within (layouts_inLine ordered member)
    (fun _ own => (body_within ordered member own).2) (there ▸ at_k) on.fits content
  rwa [← Nat.add_assoc, ← on.offset] at placed

/-- The tags of a record and their contents stand inside the record. -/
theorem tagReading_within :
    ∀ reading ∈ record.tagReadings, reading.Within record.start record.stop := by
  intro reading found
  obtain ⟨place, present, rfl⟩ :=
    List.mem_map.mp ((TagPlace.read_sublist _ _ _).subset found)
  exact reading_within ordered member present

theorem tags_forward : TagPlace.Forward record.layouts (TagPlace.all 0 record.layouts) := by
  intro place present statement content
  have placed := (reading_within ordered member present).content statement content
  have after : place.offset + place.tag.marker.length ≤ statement.start := placed.low_le
  have some := placed.start_lt
  omega

/-- The tags of a record stand one after the other, and so do the contents of each kind. -/
theorem tagReadings_pairwise : record.tagReadings.Pairwise TagReading.Before := by
  have markers : record.tagReadings.Pairwise fun first second =>
      first.offset + first.tag.marker.length ≤ second.offset :=
    (List.pairwise_map.mpr (TagPlace.all_pairwise (layouts_inLine ordered member))).sublist
      (TagPlace.read_sublist _ _ _)
  have contents : record.tagReadings.Pairwise fun first second =>
      first.tag = second.tag → ∀ statement ∈ first.content, statement.stop ≤ second.offset :=
    TagPlace.read_pairwise (tags_forward ordered member)
  exact markers.imp₂ (fun _ _ marker content => ⟨marker, content⟩) contents

end

end Record
end Mapkeys
