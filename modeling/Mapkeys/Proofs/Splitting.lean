import Mapkeys.Proofs.Layouts

/-!
# Lines of a text

Where a text is split into lines, and which numbers, offsets and texts the lines have.
-/

namespace Mapkeys.Line

open Text

/-! ## Pieces -/

theorem pieces_ne_nil {t : Text} (some : t ≠ []) : pieces t ≠ [] := by
  obtain ⟨c, rest, rfl⟩ := List.exists_cons_of_ne_nil some
  rw [pieces]
  split_ifs
  · simp
  · cases pieces rest with
    | nil => simp
    | cons first others => simp

/-- Whether a text is made of whole lines. -/
def Whole (t : Text) : Prop := t = [] ∨ t.getLast? = some '\n'

theorem Whole.cons {c : Char} {rest : Text} (whole : Whole (c :: rest)) :
    c = '\n' ∧ rest = [] ∨ rest ≠ [] ∧ Whole rest := by
  rcases whole with empty | last
  · simp at empty
  · cases rest with
    | nil => exact .inl ⟨by simpa using last, rfl⟩
    | cons d others =>
      rw [List.getLast?_cons_cons] at last
      exact .inr ⟨by simp, .inr last⟩

theorem pieces_append {a : Text} (whole : Whole a) (b : Text) :
    pieces (a ++ b) = pieces a ++ pieces b := by
  induction a with
  | nil => rfl
  | cons c rest ih =>
    rcases whole.cons with ⟨rfl, rfl⟩ | ⟨some, others⟩
    · rfl
    · rw [List.cons_append, pieces, pieces, ih others]
      split_ifs
      · rfl
      · cases first : pieces rest with
        | nil => exact absurd first (pieces_ne_nil some)
        | cons piece more => rfl

theorem pieces_line {t : Text} (some : t ≠ []) (flat : '\n' ∉ t) : pieces t = [t] := by
  induction t with
  | nil => exact absurd rfl some
  | cons c rest ih =>
    obtain ⟨other, others⟩ := not_or.mp (List.mem_cons.not.mp flat)
    rw [pieces, if_neg (Ne.symm other)]
    by_cases last : rest = []
    · rw [last]
      rfl
    · rw [ih last others]

theorem pieces_break {t : Text} (flat : '\n' ∉ t) (rest : Text) :
    pieces (t ++ '\n' :: rest) = t :: pieces rest := by
  induction t with
  | nil => rfl
  | cons c letters ih =>
    obtain ⟨other, others⟩ := not_or.mp (List.mem_cons.not.mp flat)
    rw [List.cons_append, pieces, if_neg (Ne.symm other), ih others]

/-- How many characters pieces take with a line feed after each of them. -/
def width : List Text → Nat
  | [] => 0
  | raw :: rest => raw.length + 1 + width rest

@[simp] theorem width_cons (raw : Text) (rest : List Text) :
    width (raw :: rest) = raw.length + 1 + width rest := rfl

theorem width_pieces_le (t : Text) : width (pieces t) ≤ t.length + 1 := by
  induction t with
  | nil => exact Nat.zero_le _
  | cons c rest ih =>
    rw [pieces, List.length_cons]
    split_ifs
    · rw [width_cons, List.length_nil]
      omega
    · cases first : pieces rest with
      | nil => simp [width]
      | cons piece more =>
        rw [first, width_cons] at ih
        rw [width_cons, List.length_cons]
        omega

theorem width_pieces {t : Text} (whole : Whole t) : width (pieces t) = t.length := by
  induction t with
  | nil => rfl
  | cons c rest ih =>
    rcases whole.cons with ⟨rfl, rfl⟩ | ⟨some, others⟩
    · rfl
    · have kept := ih others
      rw [pieces, List.length_cons]
      split_ifs
      · rw [width_cons, List.length_nil]
        omega
      · cases first : pieces rest with
        | nil => exact absurd first (pieces_ne_nil some)
        | cons piece more =>
          rw [first, width_cons] at kept
          rw [width_cons, List.length_cons]
          omega

/-! ## Numbered lines -/

@[simp] theorem length_number (index start : Nat) (raws : List Text) :
    (number index start raws).length = raws.length := by
  induction raws generalizing index start with
  | nil => rfl
  | cons raw rest ih => rw [number, List.length_cons, List.length_cons, ih]

theorem length_split (text : Text) : (split text).length = (pieces text).length :=
  length_number 0 0 _

theorem number_append (index start : Nat) (raws others : List Text) :
    number index start (raws ++ others) =
      number index start raws ++ number (index + raws.length) (start + width raws) others := by
  induction raws generalizing index start with
  | nil => rfl
  | cons raw rest ih =>
    rw [List.cons_append, number, number, ih, List.cons_append, width_cons, List.length_cons]
    congr 3 <;> omega

theorem number_lt {index start : Nat} {raws : List Text} :
    ∀ line ∈ number index start raws,
      line.index < index + raws.length ∧ line.stop < start + width raws := by
  induction raws generalizing index start with
  | nil => simp [number]
  | cons raw rest ih =>
    intro line member
    rw [width_cons, List.length_cons]
    rcases List.mem_cons.mp member with rfl | later
    · have kept := dropReturn_length_le raw
      refine ⟨by dsimp only; omega, ?_⟩
      simp only [stop]
      omega
    · have bounds := ih line later
      omega

theorem split_lt {text : Text} :
    ∀ line ∈ split text, line.index < (split text).length ∧ line.stop ≤ text.length := by
  intro line member
  have bounds := number_lt line member
  have fits := width_pieces_le text
  have count := length_split text
  omega

theorem number_text (index start : Nat) (raws : List Text) :
    (number index start raws).map Line.text = raws.map dropReturn := by
  induction raws generalizing index start with
  | nil => rfl
  | cons raw rest ih => rw [number, List.map_cons, List.map_cons, ih]

theorem dropReturn_tight {t : Text} (tight : trimRight t = t) : dropReturn t = t := by
  unfold dropReturn
  split_ifs with returned
  · have visible := visible_last tight '\r' returned
    cases visible
  · rfl

end Mapkeys.Line
