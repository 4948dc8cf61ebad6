import Mapkeys.Proofs.Layouts
import Mapkeys.Proofs.Scans

/-!
# Places of statements

The fragments of a statement follow each other as the bodies of its lines do, so the statement
begins after the place where reading began and ends inside the bodies, and it is never empty.
-/

namespace Mapkeys.Statement

open Text

/-! ## Fragments -/

theorem fragment_bounds {start : Nat} {t : Text} :
    ∀ piece ∈ fragment start t,
      start ≤ piece.start ∧ piece.start < piece.stop ∧ piece.stop ≤ start + t.length := by
  intro piece member
  unfold fragment at member
  split_ifs at member with blank
  · simp at member
  · rw [List.mem_singleton.mp member]
    have nonempty := List.length_pos_iff.mpr blank
    have bound := indent_add_trim_le t
    simp only [Piece.stop]
    omega

theorem fragment_pairwise {R : Piece → Piece → Prop} (start : Nat) (t : Text) :
    (fragment start t).Pairwise R := by
  unfold fragment
  split_ifs
  · exact .nil
  · exact List.pairwise_singleton R _

theorem terminator_lt {t : Text} {column : Nat} (found : terminator? t = some column) :
    column < t.length := by
  have bounds := terminators_bounds column (List.mem_of_head? found)
  omega

section

variable {column : Nat} {layout : Layout} {rest : List Layout}

theorem fragments_skip (holds : layout.holdsStatements = false) :
    fragments column (layout :: rest) = fragments 0 rest := by
  rw [fragments, if_neg (by simp [holds])]

theorem fragments_terminated {length : Nat} (holds : layout.holdsStatements = true)
    (ends : terminator? (layout.body.text.drop column) = some length) :
    fragments column (layout :: rest) =
      (fragment (layout.body.start + column) ((layout.body.text.drop column).take length),
        some (layout.body.start + column + length)) := by
  rw [fragments, if_pos holds]
  simp only [ends]

theorem fragments_escaped (holds : layout.holdsStatements = true)
    (goes_on : terminator? (layout.body.text.drop column) = none) (escaped : layout.isEscaped = true) :
    fragments column (layout :: rest) =
      (fragment (layout.body.start + column) (layout.body.text.drop column) ++ (fragments 0 rest).1,
        (fragments 0 rest).2) := by
  rw [fragments, if_pos holds]
  simp only [goes_on, if_pos escaped]

theorem fragments_closed (holds : layout.holdsStatements = true)
    (goes_on : terminator? (layout.body.text.drop column) = none) (closed : layout.isEscaped = false) :
    fragments column (layout :: rest) =
      (fragment (layout.body.start + column) (layout.body.text.drop column), none) := by
  rw [fragments, if_pos holds]
  simp only [goes_on, closed, Bool.false_eq_true, if_false]

end

/-- The bodies of the layouts follow each other. -/
def InLine (layouts : List Layout) : Prop :=
  layouts.Pairwise fun layout later => layout.body.stop ≤ later.body.start

/-- Pieces that follow each other from an offset up to the terminator, if there is one, and not
    beyond another offset. -/
structure Laid (low high : Nat) (pieces : List Piece) (terminatorAt : Option Nat) : Prop where
  pairwise : pieces.Pairwise fun piece later => piece.stop ≤ later.start
  bounds : ∀ piece ∈ pieces,
    low ≤ piece.start ∧ piece.start < piece.stop ∧ piece.stop ≤ terminatorAt.getD high
  low_le : low ≤ terminatorAt.getD high
  le_high : terminatorAt.getD high ≤ high

theorem laid_nil {low high : Nat} (le : low ≤ high) : Laid low high [] none :=
  ⟨.nil, by simp, le, Nat.le_refl high⟩

theorem laid_fragment {low high start : Nat} {t : Text} {terminatorAt : Option Nat}
    (from_low : low ≤ start) (stop_le : start + t.length ≤ terminatorAt.getD high)
    (le_high : terminatorAt.getD high ≤ high) : Laid low high (fragment start t) terminatorAt := by
  refine ⟨fragment_pairwise start t, fun piece member => ?_, by omega, le_high⟩
  have bounds := fragment_bounds piece member
  omega

theorem Laid.append {low middle high : Nat} {pieces others : List Piece} {terminatorAt : Option Nat}
    (first : Laid low middle pieces none) (second : Laid middle high others terminatorAt) :
    Laid low high (pieces ++ others) terminatorAt := by
  have low_le : low ≤ middle := first.low_le
  have middle_le := second.low_le
  refine ⟨List.pairwise_append.mpr ⟨first.pairwise, second.pairwise, ?_⟩, ?_, by omega,
    second.le_high⟩
  · intro piece earlier other later
    exact Nat.le_trans (first.bounds piece earlier).2.2 (second.bounds other later).1
  · intro piece member
    rcases List.mem_append.mp member with earlier | later
    · have bounds := first.bounds piece earlier
      rw [Option.getD_none] at bounds
      omega
    · have bounds := second.bounds piece later
      omega

/-- The fragments read from a column of the first body on. -/
theorem laid_fragments {low high column : Nat} {layouts : List Layout} (inLine : InLine layouts)
    (below : ∀ layout ∈ layouts, layout.body.stop ≤ high) (le : low ≤ high)
    (inside : ∀ layout ∈ layouts.head?,
      low ≤ layout.body.start + column ∧ column ≤ layout.body.text.length) :
    Laid low high (fragments column layouts).1 (fragments column layouts).2 := by
  induction layouts generalizing low column with
  | nil => exact laid_nil le
  | cons layout rest ih =>
    obtain ⟨after, others⟩ := List.pairwise_cons.mp inLine
    obtain ⟨from_low, in_body⟩ := inside layout rfl
    have stop_le := below layout List.mem_cons_self
    have body_stop : layout.body.start + column + (layout.body.text.drop column).length =
        layout.body.stop := by
      rw [List.length_drop, Piece.stop]
      omega
    -- the lines after this one begin after its body
    have tail : Laid layout.body.stop high (fragments 0 rest).1 (fragments 0 rest).2 := by
      refine ih others (fun next member => below next (List.mem_cons_of_mem layout member)) stop_le ?_
      intro next head
      exact ⟨after next (List.mem_of_mem_head? head), Nat.zero_le _⟩
    have content : Laid low layout.body.stop
        (fragment (layout.body.start + column) (layout.body.text.drop column)) none :=
      laid_fragment from_low (Nat.le_of_eq body_stop) (Nat.le_refl _)
    rw [fragments]
    by_cases holds : layout.holdsStatements = true
    · rw [if_pos holds]
      cases ends : terminator? (layout.body.text.drop column) with
      | some length =>
        have before := terminator_lt ends
        have taken := List.length_take_le length (layout.body.text.drop column)
        simp only [ends]
        refine laid_fragment from_low ?_ ?_
        · rw [Option.getD_some]
          omega
        · rw [Option.getD_some]
          omega
      | none =>
        simp only [ends]
        split_ifs
        · exact content.append tail
        · have whole := content.append (laid_nil stop_le)
          rwa [List.append_nil] at whole
    · rw [if_neg holds]
      have skipped : Laid low layout.body.stop [] none := laid_nil (by omega)
      exact skipped.append tail

/-! ## Statements -/

/-- A statement lies between two offsets and covers at least one. -/
structure Within (low high : Nat) (statement : Statement) : Prop where
  low_le : low ≤ statement.start
  start_lt : statement.start < statement.stop
  le_high : statement.stop ≤ high

theorem Laid.within {low high : Nat} {pieces : List Piece} {terminatorAt : Option Nat}
    {statement : Statement} (laid : Laid low high pieces terminatorAt)
    (made : ofFragments pieces terminatorAt = some statement) : Within low high statement := by
  cases pieces with
  | nil => simp [ofFragments] at made
  | cons first rest =>
    obtain ⟨last, found⟩ : ∃ last, (first :: rest).getLast? = some last :=
      ⟨_, List.getLast?_cons⟩
    have from_first := laid.bounds first List.mem_cons_self
    have to_last := laid.bounds last (List.mem_of_getLast? found)
    -- the last fragment is the first one or comes after it
    have order : first.stop ≤ last.stop := by
      rcases List.mem_cons.mp (List.mem_of_getLast? found) with rfl | later
      · exact Nat.le_refl _
      · have after := (List.pairwise_cons.mp laid.pairwise).1 last later
        omega
    have le_high := laid.le_high
    simp only [ofFragments, List.head?_cons, found] at made
    cases made
    cases terminatorAt with
    | none =>
      rw [Option.getD_none] at to_last
      exact ⟨from_first.1, by simp only [Option.getD_none]; omega, to_last.2.2⟩
    | some offset =>
      rw [Option.getD_some] at from_first le_high
      exact ⟨from_first.1, by simp only [Option.getD_some]; omega, le_high⟩

/-- A statement that is read from a column of a body begins there or later. -/
theorem read_within {high position column : Nat} {layouts : List Layout} {layout : Layout}
    {statement : Statement} (inLine : InLine layouts)
    (below : ∀ layout ∈ layouts, layout.body.stop ≤ high)
    (there : layouts[position]? = some layout) (inside : column ≤ layout.body.text.length)
    (found : read layouts position column = some statement) :
    Within (layout.body.start + column) high statement := by
  have stop_le := below layout (List.mem_of_getElem? there)
  unfold Piece.stop at stop_le
  refine Laid.within (laid_fragments (inLine.sublist (List.drop_sublist position layouts))
    (fun next member => below next (List.mem_of_mem_drop member)) (by omega) ?_) found
  intro first head
  rw [List.head?_drop, there] at head
  cases head
  exact ⟨Nat.le_refl _, inside⟩

end Mapkeys.Statement
