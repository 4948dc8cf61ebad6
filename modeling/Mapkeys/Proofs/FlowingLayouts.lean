import Mapkeys.Proofs.Passages

/-!
# Records whose lines flow

Where every line of a record holds statements and goes on to the next one, the statements are those
of the texts of the bodies, and the text for a tag is the first one of its contents that is not
empty (`text_flow`).
-/

namespace Mapkeys

/-! ## Layouts -/

namespace Layout

open Text

/-- The texts of the bodies. -/
def bodies (layouts : List Layout) : List Text := layouts.map fun layout => layout.body.text

/-- Layouts that hold statements, each going on to the next one. -/
structure Flowing (layouts : List Layout) : Prop where
  holds : ∀ layout ∈ layouts, layout.holdsStatements = true
  goes_on : ∀ layout ∈ layouts.dropLast, layout.isEscaped = true

theorem Flowing.tail {layout : Layout} {rest : List Layout} (flowing : Flowing (layout :: rest)) :
    Flowing rest := by
  refine ⟨fun next member => flowing.holds next (List.mem_cons_of_mem layout member), ?_⟩
  intro next member
  have some : rest ≠ [] := by
    rintro rfl
    simp at member
  refine flowing.goes_on next ?_
  rw [List.dropLast_cons_of_ne_nil some]
  exact List.mem_cons_of_mem layout member

theorem Flowing.reach {layouts : List Layout} (flowing : Flowing layouts) :
    Passage.reach (passages layouts) = bodies layouts := by
  induction layouts with
  | nil => rfl
  | cons layout rest ih =>
    rw [passages_holds (flowing.holds layout List.mem_cons_self), Passage.reach, ih flowing.tail]
    cases rest with
    | nil => simp [bodies]
    | cons next others =>
      rw [if_pos (flowing.goes_on layout (by simp))]
      rfl

theorem Flowing.contents {layouts : List Layout} (flowing : Flowing layouts) (tag : Tag) :
    Passage.contents tag (passages layouts) = tag.contents (bodies layouts) := by
  induction layouts with
  | nil => rfl
  | cons layout rest ih =>
    have reach := flowing.reach
    rw [passages_holds (flowing.holds layout List.mem_cons_self)] at reach ⊢
    rw [Passage.contents, reach, ih flowing.tail]
    rfl

end Layout

/-- The text for a tag is the first one of its contents that is not empty. -/
theorem text_flow {layouts : List Layout} (flowing : Layout.Flowing layouts) (tag : Tag) :
    ((TagPlace.all 0 layouts).findSome? fun place => (place.reading layouts).text? tag) =
      (tag.contents (Layout.bodies layouts)).findSome? Statement.said := by
  rw [text_passages, flowing.contents]

end Mapkeys
