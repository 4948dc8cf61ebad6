import Mapkeys.Line.Layout
import Mathlib.Data.List.Basic
import Mathlib.Data.List.TakeWhile
import Mathlib.Tactic.Common

/-!
# Blanks

What trimming keeps: a beginning of the text, or a part of it that starts after the indent. The two
ends can be trimmed in either order.
-/

namespace Mapkeys.Text

theorem indent_le_length (t : Text) : indent t ≤ t.length := by
  have taken : t.takeWhile isBlank <+: t := List.takeWhile_prefix isBlank
  exact taken.length_le

theorem trimLeft_eq_drop (t : Text) : trimLeft t = t.drop (indent t) := by
  unfold trimLeft indent
  induction t with
  | nil => rfl
  | cons c rest ih =>
    by_cases blank : isBlank c = true
    · simp [blank, ih]
    · simp [blank]

theorem trimRight_begins (t : Text) : trimRight t <+: t := by
  induction t with
  | nil => exact List.prefix_refl []
  | cons c rest ih =>
    rw [trimRight]
    split
    · split_ifs
      · exact List.nil_prefix
      · exact List.prefix_append [c] rest
    · exact (List.prefix_cons_inj c).mpr ih

theorem trimRight_length_le (t : Text) : (trimRight t).length ≤ t.length :=
  (trimRight_begins t).length_le

theorem trimRight_cons {c : Char} {rest : Text} (visible : isBlank c = false) :
    trimRight (c :: rest) = c :: trimRight rest := by
  rw [trimRight]
  cases trimmed : trimRight rest with
  | nil => simp [visible]
  | cons d others => rfl

/-- Trimming the right end leaves the left end to be trimmed. -/
theorem trim_eq (t : Text) : trim t = trimRight (trimLeft t) := by
  unfold trim
  induction t with
  | nil => rfl
  | cons c rest ih =>
    by_cases blank : isBlank c = true
    · have left : trimLeft (c :: rest) = trimLeft rest := by simp [trimLeft, blank]
      rw [left, ← ih, trimRight]
      cases trimmed : trimRight rest with
      | nil => simp [blank]
      | cons d others => simp [trimLeft, blank]
    · have visible : isBlank c = false := by simpa using blank
      have left : trimLeft (c :: rest) = c :: rest := by simp [trimLeft, visible]
      rw [left, trimRight_cons visible]
      simp [trimLeft, visible]

/-- What is left between the blanks starts at the indent and ends with the text. -/
theorem indent_add_trim_le (t : Text) : indent t + (trim t).length ≤ t.length := by
  have kept : (trim t).length ≤ (trimLeft t).length := by
    rw [trim_eq]
    exact trimRight_length_le _
  rw [trimLeft_eq_drop, List.length_drop] at kept
  have bound := indent_le_length t
  omega

theorem startsLike_length {marker t : Text} (starts : startsLike marker t = true) :
    marker.length ≤ t.length := by
  fun_induction startsLike marker t with
  | case1 t => exact Nat.zero_le _
  | case2 => simp at starts
  | case3 letter marker c rest ih =>
    have tail := ih (by simp_all)
    simp only [List.length_cons]
    omega

theorem startsLike_append (marker t : Text) (lower : marker.all (fun c => sameLetter c c) = true) :
    startsLike marker (marker ++ t) = true := by
  induction marker with
  | nil => rfl
  | cons c rest ih =>
    rw [List.all_cons, Bool.and_eq_true] at lower
    rw [List.cons_append, startsLike, lower.1, ih lower.2]
    rfl

/-- The text after the blanks that follow a column. -/
theorem drop_afterBlanks (t : Text) (column : Nat) :
    t.drop (Layout.afterBlanks t column) = trimLeft (t.drop column) := by
  rw [trimLeft_eq_drop, List.drop_drop, Layout.afterBlanks]

theorem afterBlanks_le {t : Text} {column : Nat} (inside : column ≤ t.length) :
    column ≤ Layout.afterBlanks t column ∧ Layout.afterBlanks t column ≤ t.length := by
  have bound := indent_le_length (t.drop column)
  rw [List.length_drop] at bound
  unfold Layout.afterBlanks
  omega

theorem trimRight_trimLeft_ne_nil {t : Text} (some : trimLeft t ≠ []) : trimRight (trimLeft t) ≠ [] := by
  cases left : trimLeft t with
  | nil => exact absurd left some
  | cons c rest =>
    have visible : isBlank c = false := by
      have head := List.head?_dropWhile_not isBlank t
      rw [← trimLeft, left] at head
      simpa using head
    rw [trimRight_cons visible]
    simp

theorem trimRight_append (a b : Text) :
    trimRight (a ++ b) = if trimRight b = [] then trimRight a else a ++ trimRight b := by
  induction a with
  | nil =>
    by_cases blank : trimRight b = []
    · simp [blank, trimRight]
    · simp [blank]
  | cons c rest ih =>
    rw [List.cons_append, trimRight, ih]
    by_cases blank : trimRight b = []
    · simp only [if_pos blank]
      rw [trimRight]
    · simp only [if_neg blank]
      cases rest with
      | nil => cases trimmed : trimRight b with
        | nil => exact absurd trimmed blank
        | cons d others => rfl
      | cons d others => rfl

theorem trimRight_append_space (a b : Text) :
    trimRight (a ++ ' ' :: b) =
      if trimRight b = [] then trimRight a else a ++ ' ' :: trimRight b := by
  have space : trimRight (' ' :: b) = if trimRight b = [] then [] else ' ' :: trimRight b :=
    trimRight_append [' '] b
  rw [trimRight_append, space]
  by_cases blank : trimRight b = []
  · simp [blank]
  · simp [blank]

theorem trimRight_visible {word : Text} (visible : ∀ c ∈ word, isBlank c = false) :
    trimRight word = word := by
  induction word with
  | nil => rfl
  | cons c rest ih =>
    rw [trimRight_cons (visible c List.mem_cons_self),
      ih fun d member => visible d (List.mem_cons_of_mem c member)]

theorem trimRight_eq_nil_iff {t : Text} : trimRight t = [] ↔ ∀ c ∈ t, isBlank c = true := by
  induction t with
  | nil => simp [trimRight]
  | cons c rest ih =>
    rw [trimRight, List.forall_mem_cons, ← ih]
    cases trimRight rest with
    | nil => simp
    | cons d others => simp

theorem trim_eq_nil_iff {t : Text} : trim t = [] ↔ ∀ c ∈ t, isBlank c = true := by
  rw [← List.dropWhile_eq_nil_iff, trim_eq]
  constructor
  · intro empty
    by_contra some
    exact trimRight_trimLeft_ne_nil some empty
  · intro empty
    rw [trimLeft, empty]
    rfl

/-- A text without blanks at its end has a last character that is not blank. -/
theorem visible_last {t : Text} (tight : trimRight t = t) : ∀ c ∈ t.getLast?, isBlank c = false := by
  intro c last
  obtain ⟨init, rfl⟩ := List.getLast?_eq_some_iff.mp last
  by_contra blank
  have empty : trimRight [c] = [] := by simpa [trimRight] using blank
  rw [trimRight_append, if_pos empty] at tight
  have short := trimRight_length_le init
  rw [tight, List.length_append, List.length_singleton] at short
  omega

theorem indent_append_le (a b : Text) : indent (a ++ b) ≤ a.length + indent b := by
  unfold indent
  rw [List.takeWhile_append]
  split_ifs
  · exact Nat.le_of_eq List.length_append
  · have taken : a.takeWhile isBlank <+: a := List.takeWhile_prefix isBlank
    exact Nat.le_trans taken.length_le (Nat.le_add_right _ _)

/-- What is left between the blanks ends where the text ends without the blanks at its right. -/
theorem indent_add_trim {t : Text} (some : trim t ≠ []) :
    indent t + (trim t).length = (trimRight t).length := by
  have split : t.takeWhile isBlank ++ trimLeft t = t := List.takeWhile_append_dropWhile
  rw [trim_eq] at *
  conv_rhs => rw [← split, trimRight_append, if_neg some, List.length_append]
  rfl

/-- The right end of a text is that of what follows a column, unless only blanks do. -/
theorem add_length_trimRight_drop {t : Text} {column : Nat} (some : trimRight (t.drop column) ≠ []) :
    column + (trimRight (t.drop column)).length = (trimRight t).length := by
  have inside : column ≤ t.length := by
    by_contra outside
    rw [List.drop_eq_nil_of_le (by omega)] at some
    exact some rfl
  conv_rhs => rw [← List.take_append_drop column t, trimRight_append, if_neg some]
  rw [List.length_append, List.length_take, Nat.min_eq_left inside]

theorem trimRight_drop {t : Text} (tight : trimRight t = t) (column : Nat) :
    trimRight (t.drop column) = t.drop column := by
  have whole : trimRight (t.take column ++ t.drop column) = t.take column ++ t.drop column := by
    rw [List.take_append_drop, tight]
  rw [trimRight_append] at whole
  split_ifs at whole with blank
  · have short := trimRight_length_le (t.take column)
    rw [whole, List.length_append] at short
    have empty : t.drop column = [] := List.length_eq_zero_iff.mp (by omega)
    rw [empty]
    rfl
  · exact List.append_cancel_left whole

theorem trimLeft_take {t : Text} (tight : trimLeft t = t) (length : Nat) :
    trimLeft (t.take length) = t.take length := by
  cases t with
  | nil => simp [trimLeft]
  | cons c rest =>
    have visible : isBlank c = false := by
      have head := List.head?_dropWhile_not isBlank (c :: rest)
      rw [← trimLeft, tight] at head
      simpa using head
    cases length with
    | zero => rfl
    | succ n => simp [trimLeft, visible]

theorem trimLeft_ne_nil {t : Text} (tight : trimRight t = t) (some : t ≠ []) : trimLeft t ≠ [] := by
  intro empty
  have blank := List.dropWhile_eq_nil_iff.mp empty
  rw [← tight, trimRight_eq_nil_iff.mpr blank] at some
  exact some rfl

theorem indent_eq_zero {t : Text} (visible : ∀ c ∈ t.head?, isBlank c = false) : indent t = 0 := by
  cases t with
  | nil => rfl
  | cons c rest => simp [indent, visible c rfl]

theorem visible_head {t : Text} {c : Char} (begins : t.head? = some c)
    (visible : isBlank c = false) : ∀ d ∈ t.head?, isBlank d = false := by
  intro d head
  rw [begins] at head
  cases head
  exact visible

theorem indent_space {t : Text} (visible : ∀ c ∈ t.head?, isBlank c = false) :
    indent (' ' :: t) = 1 := by
  have space : isBlank ' ' = true := by decide
  have none := indent_eq_zero visible
  unfold indent at *
  rw [List.takeWhile_cons_of_pos space, List.length_cons, none]

theorem drop_trimRight_append (a b : Text) : (trimRight (a ++ b)).drop a.length = trimRight b := by
  rw [trimRight_append]
  split_ifs with blank
  · rw [List.drop_eq_nil_of_le (trimRight_length_le a), blank]
  · exact List.drop_left

end Mapkeys.Text
