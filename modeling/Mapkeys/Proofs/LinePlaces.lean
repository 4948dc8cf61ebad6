import Mapkeys.Proofs.Concatenation

/-!
# Places of lines

Where a line stands in its text: after the whole lines before it, and up to a line feed or the end
of the text. Its number is that of the line feeds before it.
-/

namespace Mapkeys.Line

/-! ## Texts line by line -/

/-- A text is a line without a line feed, or such a line, a line feed and another text. -/
theorem text_induction {motive : Text → Prop} (last : ∀ t, '\n' ∉ t → motive t)
    (next : ∀ t rest, '\n' ∉ t → motive rest → motive (t ++ '\n' :: rest)) (t : Text) : motive t := by
  induction length : t.length using Nat.strong_induction_on generalizing t with
  | _ n ih =>
    by_cases broken : '\n' ∈ t
    · obtain ⟨first, rest, rfl, flat⟩ := List.eq_append_cons_of_mem broken
      refine next first rest flat (ih rest.length ?_ rest rfl)
      rw [← length, List.length_append, List.length_cons]
      omega
    · exact last t broken

theorem split_line {t : Text} (some : t ≠ []) (flat : '\n' ∉ t) :
    split t = [⟨0, 0, dropReturn t⟩] := by
  rw [split, pieces_line some flat]
  rfl

theorem split_break {t : Text} (flat : '\n' ∉ t) (rest : Text) :
    split (t ++ '\n' :: rest) =
      ⟨0, 0, dropReturn t⟩ :: (split rest).map (Relocation.shift (t.length + 1) 1).line := by
  have moved := number_shift 0 0 1 (t.length + 1) (pieces rest)
  simp only [Nat.zero_add] at moved
  rw [split, pieces_break flat, number, split, ← moved]
  simp only [Nat.zero_add]

theorem whole_break (t rest : Text) : Whole (t ++ '\n' :: rest) ↔ Whole rest := by
  have last : (t ++ '\n' :: rest).getLast? = ('\n' :: rest).getLast? :=
    List.getLast?_append_of_ne_nil t (by simp)
  unfold Whole
  rw [last]
  cases rest with
  | nil => simp
  | cons c others => simp [List.getLast?_cons]

theorem Whole.append {a b : Text} (first : Whole a) (second : Whole b) : Whole (a ++ b) := by
  by_cases empty : b = []
  · rwa [empty, List.append_nil]
  · refine .inr ?_
    rw [List.getLast?_append_of_ne_nil a empty]
    exact second.resolve_left empty

theorem count_whole {t : Text} (whole : Whole t) : t.count '\n' = (split t).length := by
  induction t using text_induction with
  | last t flat =>
    rcases whole with rfl | ends
    · rfl
    · exact absurd (List.mem_of_getLast? ends) flat
  | next t rest flat ih =>
    rw [split_break flat, List.count_append, List.count_cons_self,
      ih ((whole_break t rest).mp whole), List.count_eq_zero_of_not_mem flat]
    simp

/-! ## Places -/

/-- A line is a part of the text without a line feed, after whole lines. -/
structure Stands (text : Text) (line : Line) (before raw after : Text) : Prop where
  parts : text = before ++ (raw ++ after)
  whole : Whole before
  start : line.start = before.length
  index : line.index = (split before).length
  flat : '\n' ∉ raw
  text : line.text = dropReturn raw
  ends : after = [] ∨ ∃ rest, after = '\n' :: rest

/-- Whole lines before a text move the places of its lines. -/
theorem Stands.later {text before raw after : Text} {line : Line}
    (stands : Stands text line before raw after) {first : Text} (whole : Whole first) :
    Stands (first ++ text) ((Relocation.shift first.length (split first).length).line line)
      (first ++ before) raw after where
  parts := by rw [stands.parts, List.append_assoc]
  whole := whole.append stands.whole
  start := by
    rw [List.length_append, ← stands.start, Nat.add_comm]
    rfl
  index := by
    rw [split_append whole, List.length_append, List.length_map, ← stands.index, Nat.add_comm]
    rfl
  flat := stands.flat
  text := stands.text
  ends := stands.ends

/-- Every line stands at some place of its text. -/
theorem exists_place {text : Text} :
    ∀ line ∈ split text, ∃ before raw after, Stands text line before raw after := by
  induction text using text_induction with
  | last t flat =>
    intro line member
    by_cases empty : t = []
    · subst empty
      simp [split, pieces, number] at member
    · rw [split_line empty flat, List.mem_singleton] at member
      subst member
      exact ⟨[], t, [], by simp, .inl rfl, rfl, rfl, flat, rfl, .inl rfl⟩
  | next t rest flat ih =>
    intro line member
    rw [split_break flat] at member
    rcases List.mem_cons.mp member with rfl | later
    · exact ⟨[], t, '\n' :: rest, rfl, .inl rfl, rfl, rfl, flat, rfl, .inr ⟨rest, rfl⟩⟩
    · obtain ⟨origin, present, rfl⟩ := List.mem_map.mp later
      obtain ⟨before, raw, after, stands⟩ := ih origin present
      have first : split (t ++ ['\n']) = [⟨0, 0, dropReturn t⟩] := split_break flat []
      have whole : Whole (t ++ ['\n']) := .inr (by simp)
      have moved := stands.later whole
      rw [first, List.append_assoc] at moved
      exact ⟨_, raw, after, by simpa using moved⟩

section

variable {text before raw after : Text} {line : Line} (stands : Stands text line before raw after)

include stands

theorem Stands.take_start : text.take line.start = before := by
  rw [stands.parts, stands.start, List.take_left]

theorem Stands.drop_start : text.drop line.start = raw ++ after := by
  rw [stands.parts, stands.start, List.drop_left]

/-- There are as many line feeds before a place on a line as lines before the line. -/
theorem Stands.count {offset : Nat} (low : line.start ≤ offset) (high : offset ≤ line.stop) :
    (text.take offset).count '\n' = line.index := by
  have kept := dropReturn_length_le raw
  have start := stands.start
  rw [stop, stands.text] at high
  obtain ⟨column, rfl⟩ := Nat.exists_eq_add_of_le low
  have part : text.take (line.start + column) = before ++ raw.take column := by
    rw [List.take_add, stands.take_start, stands.drop_start,
      List.take_append_of_le_length (by omega)]
  have flat : '\n' ∉ raw.take column := fun member => stands.flat (List.mem_of_mem_take member)
  rw [part, List.count_append, List.count_eq_zero_of_not_mem flat, count_whole stands.whole,
    stands.index]
  rfl

end

/-! ## Cuts between lines -/

theorem number_index {index start : Nat} {raws : List Text} {before after : List Line} {line : Line}
    (parts : number index start raws = before ++ line :: after) :
    line.index = index + before.length := by
  induction before generalizing index start raws with
  | nil =>
    cases raws with
    | nil => simp [number] at parts
    | cons raw rest =>
      simp only [number, List.nil_append, List.cons.injEq] at parts
      simp [← parts.1]
  | cons first others ih =>
    cases raws with
    | nil => simp [number] at parts
    | cons raw rest =>
      simp only [number, List.cons_append, List.cons.injEq] at parts
      rw [ih parts.2, List.length_cons]
      omega

/-- The number of a line is its place in the list. -/
theorem getElem_split_iff {text : Text} {index : Nat} {line : Line} :
    (split text)[index]? = some line ↔ line ∈ split text ∧ line.index = index := by
  constructor
  · intro there
    obtain ⟨inside, rfl⟩ := List.getElem?_eq_some_iff.mp there
    have parts : split text = (split text).take index ++
        (split text)[index] :: (split text).drop (index + 1) := by simp
    refine ⟨List.getElem_mem inside, ?_⟩
    rw [number_index parts, List.length_take, Nat.zero_add, Nat.min_eq_left (Nat.le_of_lt inside)]
  · rintro ⟨member, rfl⟩
    obtain ⟨before, after, parts⟩ := List.append_of_mem member
    have index := number_index parts
    rw [Nat.zero_add] at index
    rw [parts, index]
    simp

/-- Before each of its lines a text can be cut into two texts. -/
theorem exists_cut {text : Text} {before after : List Line} {line : Line}
    (parts : split text = before ++ line :: after) :
    ∃ first raw rest, Stands text line first raw rest ∧ split first = before ∧
      (split (raw ++ rest)).map (Relocation.shift first.length before.length).line =
        line :: after := by
  have member : line ∈ split text := by simp [parts]
  obtain ⟨first, raw, rest, stands⟩ := exists_place line member
  have length : (split first).length = before.length := by
    have index := number_index parts
    rw [stands.index] at index
    omega
  have cut := split_append stands.whole (raw ++ rest)
  rw [← stands.parts, parts] at cut
  obtain ⟨lines, others⟩ := List.append_inj cut length.symm
  rw [← lines] at others
  exact ⟨first, raw, rest, stands, lines.symm, others.symm⟩

end Mapkeys.Line
