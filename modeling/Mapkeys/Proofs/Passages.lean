import Mapkeys.Proofs.Flow

/-!
# Passages

What a record says lies in the bodies of its lines that hold statements, and in whether these lines
are escaped: comments between them, remarks and the places of the lines do not count
(`Record.gist_passages`).
-/

namespace Mapkeys

open Text

/-- A body that holds statements, and whether its line goes on to the next one. -/
structure Passage where
  text : Text
  goesOn : Bool
  deriving Repr, DecidableEq

namespace Passage

/-- The bodies that a statement can reach from the first one on. -/
def reach : List Passage → List Text
  | [] => []
  | passage :: rest => passage.text :: if passage.goesOn then reach rest else []

/-- What the places of a tag introduce, one after the other. -/
def contents (tag : Tag) : List Passage → List Text
  | [] => []
  | passage :: rest =>
    ((Tag.scan 0 passage.text).filter (·.2 = tag)).map
        (fun found => Statement.flow (found.1 + tag.marker.length) (reach (passage :: rest)))
      ++ contents tag rest

end Passage

/-! ## Passages of layouts -/

namespace Layout

/-- The passages of lines. -/
def passages : List Layout → List Passage
  | [] => []
  | layout :: rest =>
    if layout.holdsStatements then ⟨layout.body.text, layout.isEscaped⟩ :: passages rest
    else passages rest

section

variable {layout : Layout} {rest : List Layout}

theorem passages_holds (holds : layout.holdsStatements = true) :
    passages (layout :: rest) = ⟨layout.body.text, layout.isEscaped⟩ :: passages rest := by
  rw [passages, if_pos holds]

theorem passages_skip (holds : layout.holdsStatements = false) :
    passages (layout :: rest) = passages rest := by
  rw [passages, if_neg (by simp [holds])]

end

theorem passages_append (layouts others : List Layout) :
    passages (layouts ++ others) = passages layouts ++ passages others := by
  induction layouts with
  | nil => rfl
  | cons layout rest ih =>
    rw [List.cons_append]
    cases holds : layout.holdsStatements with
    | true => rw [passages_holds holds, passages_holds holds, ih, List.cons_append]
    | false => rw [passages_skip holds, passages_skip holds, ih]

theorem calledNames_passages (layouts : List Layout) :
    layouts.flatMap calledNames =
      (passages layouts).flatMap fun passage => Text.calledNames passage.text := by
  induction layouts with
  | nil => rfl
  | cons layout rest ih =>
    rw [List.flatMap_cons, ih, calledNames]
    cases holds : layout.holdsStatements with
    | true => rw [passages_holds holds, List.flatMap_cons, if_pos rfl]
    | false => rw [passages_skip holds, if_neg (by simp), List.nil_append]

end Layout

/-! ## Statements -/

namespace Statement

theorem fragment_nonempty (start : Nat) (t : Text) : ∀ piece ∈ fragment start t, piece.text ≠ [] := by
  intro piece member
  unfold fragment at member
  split_ifs at member with blank
  · simp at member
  · rw [List.mem_singleton.mp member]
    exact blank

theorem join_fragment (start : Nat) (t : Text) {others : List Piece}
    (nonempty : ∀ piece ∈ others, piece.text ≠ []) :
    join [' '] ((fragment start t ++ others).map Piece.text) =
      spaced (trim t) (join [' '] (others.map Piece.text)) := by
  have empty_iff : join [' '] (others.map Piece.text) = [] ↔ others.map Piece.text = [] :=
    join_eq_nil_iff (by simpa using nonempty)
  unfold fragment
  by_cases blank : trim t = []
  · simp [blank]
  · rw [if_neg blank, List.singleton_append, List.map_cons]
    by_cases last : others.map Piece.text = []
    · simp [last, join]
    · rw [join_cons last, spaced, if_neg blank, if_neg (mt empty_iff.mp last)]

theorem join_single (start : Nat) (t : Text) :
    join [' '] ((fragment start t).map Piece.text) = trim t := by
  have alone := @join_fragment start t [] (by simp)
  rw [List.append_nil] at alone
  rw [alone]
  exact spaced_nil_right _

/-- The fragments of a statement make up what flows through the passages that it reaches. A
    statement that does not begin at the start of a body begins on a line that holds statements. -/
theorem join_fragments (column : Nat) {layouts : List Layout}
    (begins : column = 0 ∨ ∀ first ∈ layouts.head?, first.holdsStatements = true) :
    (∀ piece ∈ (fragments column layouts).1, piece.text ≠ []) ∧
      join [' '] ((fragments column layouts).1.map Piece.text) =
        flow column (Passage.reach (Layout.passages layouts)) := by
  induction layouts generalizing column with
  | nil => exact ⟨by simp [fragments], rfl⟩
  | cons layout rest ih =>
    obtain ⟨nonempty, later⟩ := ih 0 (.inl rfl)
    cases holds : layout.holdsStatements with
    | false =>
      have start : column = 0 := by
        refine begins.resolve_right fun all => ?_
        simp [holds] at all
      rw [start, fragments_skip holds, Layout.passages_skip holds]
      exact ⟨nonempty, later⟩
    | true =>
      rw [Layout.passages_holds holds, Passage.reach]
      cases ends : terminator? (layout.body.text.drop column) with
      | some length =>
        rw [fragments_terminated holds ends, flow_terminated ends]
        exact ⟨fragment_nonempty _ _, join_single _ _⟩
      | none =>
        rw [flow_goes_on ends]
        cases escaped : layout.isEscaped with
        | true =>
          rw [fragments_escaped holds ends escaped, if_pos rfl, ← later]
          refine ⟨fun piece member => ?_, join_fragment _ _ nonempty⟩
          rcases List.mem_append.mp member with here | after
          · exact fragment_nonempty _ _ piece here
          · exact nonempty piece after
        | false =>
          rw [fragments_closed holds ends escaped, if_neg (by simp)]
          refine ⟨fragment_nonempty _ _, ?_⟩
          rw [join_single]
          exact (spaced_nil_right _).symm

/-- What a statement says if it holds anything. -/
def said (t : Text) : Option Text := if t = [] then none else some (unescape t)

theorem read_passages {layouts : List Layout} {position : Nat} (column : Nat)
    (begins : ∀ first ∈ (layouts.drop position).head?, first.holdsStatements = true) :
    (read layouts position column).map value =
      said (flow column (Passage.reach (Layout.passages (layouts.drop position)))) := by
  obtain ⟨nonempty, joined⟩ := join_fragments column (.inr begins)
  rw [← joined]
  unfold read said
  dsimp only
  cases pieces : (fragments column (layouts.drop position)).1 with
  | nil => simp [ofFragments, join]
  | cons first rest =>
    rw [pieces] at nonempty
    have some : join [' '] ((first :: rest).map Piece.text) ≠ [] := by
      intro empty
      have none := (join_eq_nil_iff (by simpa using nonempty)).mp empty
      simp at none
    rw [if_neg some]
    simp [ofFragments, List.getLast?_cons]

end Statement

/-! ## Texts -/

/-- The text for a tag is the first one of its contents that is not empty. -/
theorem text_passages (layouts : List Layout) (tag : Tag) :
    ((TagPlace.all 0 layouts).findSome? fun place => (place.reading layouts).text? tag) =
      (Passage.contents tag (Layout.passages layouts)).findSome? Statement.said := by
  rw [← List.head?_filterMap, ← List.head?_filterMap]
  suffices same : ∀ (position : Nat) (rest : List Layout), layouts.drop position = rest →
      (TagPlace.all position rest).filterMap (fun place => (place.reading layouts).text? tag) =
        (Passage.contents tag (Layout.passages rest)).filterMap Statement.said by
    rw [same 0 layouts rfl]
  intro position rest
  induction rest generalizing position with
  | nil => exact fun _ => rfl
  | cons layout others ih =>
    intro here
    have next : layouts.drop (position + 1) = others := by
      rw [← List.drop_drop, here]
      rfl
    rw [TagPlace.all_cons, List.filterMap_append, ih (position + 1) next]
    unfold TagPlace.ofLayout
    cases holds : layout.holdsStatements with
    | false =>
      rw [Layout.passages_skip holds, if_neg (by simp)]
      rfl
    | true =>
      have begins : ∀ first ∈ (layouts.drop position).head?, first.holdsStatements = true := by
        simp [here, holds]
      rw [Layout.passages_holds holds, Passage.contents, List.filterMap_append, if_pos rfl,
        List.filterMap_map, List.filterMap_map, List.filterMap_filter]
      congr 1
      refine List.filterMap_congr fun found _ => ?_
      have read := Statement.read_passages (found.1 + found.2.marker.length) begins
      rw [here, Layout.passages_holds holds] at read
      simp only [Function.comp, TagReading.text?, TagPlace.reading, read, decide_eq_true_eq]
      by_cases same : found.2 = tag
      · rw [if_pos same, if_pos same, same]
      · rw [if_neg same, if_neg same]

/-- What a record of some passages says. -/
def Passage.gist (name : Text) (terminated : Bool) (passages : List Passage) : Gist where
  name
  description := (contents .description passages).findSome? Statement.said
  label := (contents .label passages).findSome? Statement.said
  system := (contents .system passages).findSome? Statement.said
  calledNames := passages.flatMap fun passage => Text.calledNames passage.text
  terminated

/-- What a definition says depends on the passages of its record only. -/
theorem Record.gist_passages {lines : List Line} {record : Record}
    (ordered : lines.Pairwise Line.Before) (member : record ∈ segment lines) :
    (Definition.ofRecord record).gist =
      Passage.gist record.name record.terminated (Layout.passages record.layouts) := by
  have texts (tag : Tag) : (Token.first? tag.contentKind record.tokens).map Token.value =
      (Passage.contents tag (Layout.passages record.layouts)).findSome? Statement.said := by
    rw [text_ofRecord ordered member, text_passages]
  have calls := calledNames_ofRecord ordered member
  rw [Layout.calledNames_passages] at calls
  have description := texts .description
  have label := texts .label
  have system := texts .system
  unfold Definition.gist Passage.gist
  rw [calls, ← description, ← label, ← system]
  rfl

end Mapkeys
