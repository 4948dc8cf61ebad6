import Mapkeys.Proofs.LineParts
import Mapkeys.Proofs.LinePlaces
import Mapkeys.Proofs.RecordSources
import Mathlib.Data.List.Chain

/-!
# Between the lines

No character of a text is lost when it is split into lines. Between two lines there is nothing but a
line feed, or a carriage return and a line feed, and after the last line at most these
(`split_lossless`). So the lines and what separates them spell the text again (`spell_of_separated`).
-/

namespace Mapkeys.Line

open Text

/-! ## Separators -/

/-- What can stand between two lines. -/
def separators : List Text := [['\n'], ['\r', '\n']]

/-- What can stand after the last line. -/
def endings : List Text := [[], ['\n'], ['\r'], ['\r', '\n']]

/-- What stands after each of the lines and before the next one. -/
def gaps (text : Text) : List Line → List Text
  | [] => []
  | [line] => [text.drop line.stop]
  | line :: next :: rest => slice text line.stop next.start :: gaps text (next :: rest)

/-- The lines, each with what stands after it. -/
def spell (text : Text) (lines : List Line) : Text :=
  (List.zipWith (fun line gap => line.text ++ gap) lines (gaps text lines)).flatten

/-- Lines with all characters of a text but those that separate them. A carriage return at the end of
    a line stands before another one, so the last one before a line feed is never part of a line. -/
structure Separated (text : Text) (lines : List Line) : Prop where
  index : lines.map Line.index = List.range lines.length
  flat : ∀ line ∈ lines, '\n' ∉ line.text
  quotes : ∀ line ∈ lines, slice text line.start line.stop = line.text
  first : ∀ line ∈ lines.head?, line.start = 0
  between : lines.IsChain fun line next =>
    line.stop ≤ next.start ∧ slice text line.stop next.start ∈ separators
  last : ∀ line ∈ lines.getLast?, text.drop line.stop ∈ endings
  returns : ∀ line ∈ lines, line.text.getLast? = some '\r' → text[line.stop]? = some '\r'
  empty : lines = [] ↔ text = []

theorem slice_append_drop {text : Text} {start stop : Nat} (order : start ≤ stop) :
    slice text start stop ++ text.drop stop = text.drop start := by
  have rest : text.drop stop = (text.drop start).drop (stop - start) := by
    rw [List.drop_drop, Nat.add_sub_cancel' order]
  rw [rest, slice, List.take_append_drop]

theorem slice_middle (before middle rest : Text) :
    slice (before ++ (middle ++ rest)) before.length (before.length + middle.length) = middle := by
  rw [slice, List.drop_left, Nat.add_sub_cancel_left, List.take_left]

theorem spell_single (text : Text) (line : Line) :
    spell text [line] = line.text ++ text.drop line.stop := by
  simp [spell, gaps]

theorem spell_cons (text : Text) (line next : Line) (rest : List Line) :
    spell text (line :: next :: rest) =
      line.text ++ (slice text line.stop next.start ++ spell text (next :: rest)) := by
  simp [spell, gaps]

/-- Lines that follow each other spell what stands from the first of them on. -/
theorem spell_from {text : Text} {line : Line} {rest : List Line}
    (quotes : ∀ own ∈ line :: rest, slice text own.start own.stop = own.text)
    (order : (line :: rest).IsChain fun line next => line.stop ≤ next.start) :
    spell text (line :: rest) = text.drop line.start := by
  induction rest generalizing line with
  | nil =>
    rw [spell_single, ← quotes line List.mem_cons_self]
    exact slice_append_drop (Nat.le_add_right _ _)
  | cons next rest ih =>
    obtain ⟨follows, order'⟩ := List.isChain_cons_cons.mp order
    obtain ⟨own, others⟩ := List.forall_mem_cons.mp quotes
    rw [spell_cons, ih others order', slice_append_drop follows, ← own]
    exact slice_append_drop (Nat.le_add_right _ _)

theorem spell_of_separated {text : Text} {lines : List Line} (separated : Separated text lines) :
    spell text lines = text := by
  cases lines with
  | nil =>
    rw [separated.empty.mp rfl]
    rfl
  | cons line rest =>
    rw [spell_from separated.quotes (separated.between.imp fun _ _ both => both.1),
      separated.first line rfl, List.drop_zero]

/-! ## Lines of a text -/

/-- A line loses the carriage return at its end, if it has one. -/
theorem exists_return (raw : Text) :
    ∃ tail, raw = dropReturn raw ++ tail ∧
      (tail = [] ∧ (dropReturn raw).getLast? ≠ some '\r' ∨ tail = ['\r']) := by
  unfold dropReturn
  split_ifs with returned
  · obtain ⟨init, rfl⟩ := List.getLast?_eq_some_iff.mp returned
    exact ⟨['\r'], by simp, .inr rfl⟩
  · exact ⟨[], by simp, .inl ⟨rfl, returned⟩⟩

theorem separated_nil : Separated [] [] := by
  refine ⟨rfl, ?_, ?_, ?_, .nil, ?_, ?_, ?_⟩
  all_goals simp

theorem shift_stop (chars lines : Nat) (line : Line) :
    ((Relocation.shift chars lines).line line).stop = line.stop + chars := by
  simp only [stop, Relocation.line, Relocation.shift]
  omega

section

variable {t tail : Text} (flat : '\n' ∉ t)
  (returned : tail = [] ∧ t.getLast? ≠ some '\r' ∨ tail = ['\r'])

include returned

theorem gap_mem_separators (rest : Text) :
    slice (t ++ (tail ++ '\n' :: rest)) t.length (t.length + tail.length + 1) ∈ separators := by
  have middle := slice_middle t (tail ++ ['\n']) rest
  simp only [List.append_assoc, List.singleton_append, List.length_append, List.length_singleton,
    ← Nat.add_assoc] at middle
  rw [middle]
  rcases returned with ⟨rfl, -⟩ | rfl <;> decide

/-- A line that still ends in a carriage return has lost another one. -/
theorem return_after (rest : Text) (ending : t.getLast? = some '\r') :
    (t ++ (tail ++ rest))[t.length]? = some '\r' := by
  rcases returned with ⟨-, kept⟩ | rfl
  · exact absurd ending kept
  · simp

include flat

theorem separated_line (some : t ++ tail ≠ []) : Separated (t ++ tail) [⟨0, 0, t⟩] where
  index := rfl
  flat := by simpa using flat
  quotes := by simp [slice, stop]
  first := by simp
  between := .singleton _
  last := by
    have after : (t ++ tail).drop t.length ∈ endings := by
      rw [List.drop_left]
      rcases returned with ⟨rfl, -⟩ | rfl <;> decide
    simpa [stop] using after
  returns := by
    intro line member ending
    obtain rfl := List.mem_singleton.mp member
    simpa [stop] using return_after returned [] ending
  empty := by simpa using some

/-- A line and a line feed before separated lines. -/
theorem separated_break {rest : Text} {lines : List Line} (separated : Separated rest lines) :
    Separated (t ++ (tail ++ '\n' :: rest))
      (⟨0, 0, t⟩ :: lines.map (Relocation.shift (t.length + tail.length + 1) 1).line) := by
  have text : t ++ (tail ++ '\n' :: rest) = (t ++ tail ++ ['\n']) ++ rest := by simp
  have length : t.length + tail.length + 1 = (t ++ tail ++ ['\n']).length := by
    simp [Nat.add_assoc]
  refine ⟨?_, ?_, ?_, by simp, ?_, ?_, ?_, by simp⟩
  · rw [List.length_cons, List.length_map, List.range_succ_eq_map, ← separated.index]
    simp [Relocation.line, Relocation.shift]
  · refine List.forall_mem_cons.mpr ⟨flat, List.forall_mem_map.mpr fun line member => ?_⟩
    exact separated.flat line member
  · refine List.forall_mem_cons.mpr ⟨by simp [slice, stop], ?_⟩
    refine List.forall_mem_map.mpr fun line member => ?_
    rw [text, shift_stop, length]
    exact (slice_append_right _ rest line.start line.stop).trans (separated.quotes line member)
  · refine List.isChain_cons.mpr ⟨?_, (List.isChain_map _).mpr (separated.between.imp ?_)⟩
    · intro next head
      rw [List.head?_map] at head
      obtain ⟨line, first, rfl⟩ := Option.mem_map.mp head
      have start : ((Relocation.shift (t.length + tail.length + 1) 1).line line).start =
          t.length + tail.length + 1 := by
        simp [Relocation.line, Relocation.shift, separated.first line first]
      rw [start]
      refine ⟨by simp only [stop]; omega, ?_⟩
      simpa only [stop, Nat.zero_add] using gap_mem_separators returned rest
    · rintro line next ⟨follows, between⟩
      rw [shift_stop, text, length]
      refine ⟨Nat.add_le_add_right follows _, ?_⟩
      rwa [← slice_append_right (t ++ tail ++ ['\n']) rest] at between
  · intro line last
    rw [List.getLast?_cons, List.getLast?_map] at last
    cases final : lines.getLast? with
    | none =>
      -- the line feed ends the text
      obtain rfl := separated.empty.mp (List.getLast?_eq_none_iff.mp final)
      obtain rfl : ⟨0, 0, t⟩ = line := by simpa [final] using last
      rw [stop, Nat.zero_add, List.drop_left]
      rcases returned with ⟨rfl, -⟩ | rfl <;> decide
    | some other =>
      obtain rfl : (Relocation.shift (t.length + tail.length + 1) 1).line other = line := by
        simpa [final] using last
      have kept := separated.last other final
      rwa [shift_stop, text, length, Nat.add_comm, ← List.drop_drop, List.drop_left]
  · refine List.forall_mem_cons.mpr ⟨fun ending => ?_, List.forall_mem_map.mpr ?_⟩
    · simpa [stop] using return_after returned ('\n' :: rest) ending
    · intro line member ending
      rw [shift_stop, text, length, Nat.add_comm, List.getElem?_append_right (Nat.le_add_right _ _),
        Nat.add_sub_cancel_left]
      exact separated.returns line member ending

end

/-- Splitting a text into lines loses nothing: the lines are numbered from zero, each quotes the text
    at its own place without a line feed, and between and after them there are only line feeds and
    carriage returns, also the one that a line would end in. The lines and what stands between them
    spell the text. -/
theorem split_lossless (text : Text) :
    Separated text (split text) ∧ spell text (split text) = text := by
  have separated : Separated text (split text) := by
    induction text using text_induction with
    | last t flat =>
      obtain ⟨tail, parts, returned⟩ := exists_return t
      have kept : '\n' ∉ dropReturn t := fun member => flat ((dropReturn_begins t).subset member)
      by_cases empty : t = []
      · subst empty
        exact separated_nil
      · rw [split_line empty flat]
        have line := separated_line kept returned (by rwa [← parts])
        rwa [← parts] at line
    | next t rest flat ih =>
      obtain ⟨tail, parts, returned⟩ := exists_return t
      have kept : '\n' ∉ dropReturn t := fun member => flat ((dropReturn_begins t).subset member)
      have length := congrArg List.length parts
      rw [List.length_append] at length
      have lines := separated_break kept returned ih
      rw [← List.append_assoc, ← parts, ← length] at lines
      rwa [split_break flat]
  exact ⟨separated, spell_of_separated separated⟩

end Mapkeys.Line
