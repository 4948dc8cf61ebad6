import Mathlib.Combinatorics.Enumerative.DyckWord

/-!
# Matched brackets

Brackets on numbered lines, matched by a list of the open ones: each closing bracket takes the
innermost open one, and closes nothing if there is none. Two brackets are matched exactly if those
between them are balanced (`mem_matched_iff`), and matched pairs lie inside each other or apart
(`matched_pairwise`).
-/

namespace Mapkeys

open DyckStep

/-- A bracket on a line: a step up opens, a step down closes. -/
structure Bracket where
  line : Nat
  step : DyckStep

namespace Bracket

/-- The lines of matched brackets; `opened` holds the lines of the open ones, innermost first. -/
def matched (opened : List Nat) : List Bracket → List (Nat × Nat)
  | [] => []
  | ⟨line, U⟩ :: rest => matched (line :: opened) rest
  | ⟨line, D⟩ :: rest =>
    match opened with
    | [] => matched [] rest
    | first :: outer => (first, line) :: matched outer rest

/-! ## Balanced steps -/

/-- Steps that lead from a level down to zero and never below it. -/
def Lowers : (level : Nat) → List DyckStep → Prop
  | level, [] => level = 0
  | level, U :: rest => Lowers (level + 1) rest
  | 0, D :: _ => False
  | level + 1, D :: rest => Lowers level rest

theorem lowers_iff_count (level : Nat) (steps : List DyckStep) :
    Lowers level steps ↔ steps.count U + level = steps.count D ∧
      ∀ i, (steps.take i).count D ≤ (steps.take i).count U + level := by
  induction steps generalizing level with
  | nil => simp [Lowers]
  | cons step rest ih =>
    -- the first step alone, and then one more with each beginning of the rest
    have beginnings (p : List DyckStep → Prop) :
        (∀ i, p ((step :: rest).take i)) ↔ p [] ∧ ∀ i, p (step :: rest.take i) :=
      ⟨fun all => ⟨all 0, fun i => all (i + 1)⟩, fun both i => match i with
        | 0 => both.1
        | i + 1 => both.2 i⟩
    rw [beginnings fun part => part.count D ≤ part.count U + level]
    cases step with
    | U =>
      rw [Lowers, ih]
      simp [Nat.add_right_comm _ 1 level, Nat.add_assoc]
    | D =>
      cases level with
      | zero =>
        simp only [Lowers, false_iff, not_and]
        intro _ _ all
        simpa using all 0
      | succ level =>
        rw [Lowers, ih]
        simp [← Nat.add_assoc]

/-- Steps that lead from zero back to zero and never below it are a Dyck word. -/
theorem lowers_zero_iff (steps : List DyckStep) :
    Lowers 0 steps ↔ ∃ word : DyckWord, word.toList = steps := by
  rw [lowers_iff_count]
  constructor
  · rintro ⟨total, beginnings⟩
    exact ⟨⟨steps, total, beginnings⟩, rfl⟩
  · rintro ⟨word, rfl⟩
    exact ⟨word.count_U_eq_count_D, word.count_D_le_count_U⟩

/-! ## What is matched -/

/-- A bracket on the line `last` that ends what steps from a level lead down to. -/
def Ends (marks : List Bracket) (level last : Nat) : Prop :=
  ∃ between after, marks = between ++ ⟨last, D⟩ :: after ∧ Lowers level (between.map step)

/-- Two brackets with balanced ones between them. -/
def Pairs (marks : List Bracket) (first last : Nat) : Prop :=
  ∃ before rest, marks = before ++ ⟨first, U⟩ :: rest ∧ Ends rest 0 last

theorem not_ends_nil {level last : Nat} : ¬ Ends [] level last := by
  rintro ⟨between, after, split, -⟩
  simp at split

theorem ends_up {marks : List Bracket} {line level last : Nat} :
    Ends (⟨line, U⟩ :: marks) level last ↔ Ends marks (level + 1) last := by
  constructor
  · rintro ⟨between, after, split, lowers⟩
    rcases List.cons_eq_append_iff.mp split with ⟨rfl, same⟩ | ⟨rest, rfl, tail⟩
    · simp at same
    · exact ⟨rest, after, tail, lowers⟩
  · rintro ⟨between, after, rfl, lowers⟩
    exact ⟨⟨line, U⟩ :: between, after, rfl, lowers⟩

theorem ends_down {marks : List Bracket} {line level last : Nat} :
    Ends (⟨line, D⟩ :: marks) level last ↔
      level = 0 ∧ last = line ∨ ∃ below, level = below + 1 ∧ Ends marks below last := by
  constructor
  · rintro ⟨between, after, split, lowers⟩
    rcases List.cons_eq_append_iff.mp split with ⟨rfl, same⟩ | ⟨rest, rfl, tail⟩
    · simp only [List.cons.injEq, mk.injEq, and_true] at same
      exact .inl ⟨lowers, same.1⟩
    · cases level with
      | zero => exact lowers.elim
      | succ below => exact .inr ⟨below, rfl, rest, after, tail, lowers⟩
  · rintro (⟨rfl, rfl⟩ | ⟨below, rfl, between, after, rfl, lowers⟩)
    · exact ⟨[], marks, rfl, rfl⟩
    · exact ⟨⟨line, D⟩ :: between, after, rfl, lowers⟩

theorem not_pairs_nil {first last : Nat} : ¬ Pairs [] first last := by
  rintro ⟨before, rest, split, -⟩
  simp at split

theorem pairs_cons {mark : Bracket} {marks : List Bracket} {first last : Nat} :
    Pairs (mark :: marks) first last ↔
      mark = ⟨first, U⟩ ∧ Ends marks 0 last ∨ Pairs marks first last := by
  constructor
  · rintro ⟨before, rest, split, ends⟩
    rcases List.cons_eq_append_iff.mp split with ⟨rfl, same⟩ | ⟨others, rfl, tail⟩
    · obtain ⟨rfl, rfl⟩ := List.cons.inj same
      exact .inl ⟨rfl, ends⟩
    · exact .inr ⟨others, rest, tail, ends⟩
  · rintro (⟨rfl, ends⟩ | ⟨before, rest, rfl, ends⟩)
    · exact ⟨[], marks, rfl, ends⟩
    · exact ⟨mark :: before, rest, rfl, ends⟩

theorem exists_level_cons {start first : Nat} {opened : List Nat} (p : Nat → Prop) :
    (∃ level, (start :: opened)[level]? = some first ∧ p level) ↔
      start = first ∧ p 0 ∨ ∃ level, opened[level]? = some first ∧ p (level + 1) := by
  rw [← Nat.or_exists_add_one]
  simp

/-- A closing bracket is matched with one of the brackets if those between the two are balanced, and
    with an open one if the steps from the level of that one lead down to it. -/
theorem mem_matched {opened : List Nat} {marks : List Bracket} {first last : Nat} :
    (first, last) ∈ matched opened marks ↔
      Pairs marks first last ∨ ∃ level, opened[level]? = some first ∧ Ends marks level last := by
  -- on the marks: each one changes by one the level at which an open bracket stands
  fun_induction matched opened marks with
  | case1 opened => simp [not_pairs_nil, not_ends_nil]
  | case2 opened line rest ih =>
    rw [ih, pairs_cons, exists_level_cons]
    simp only [ends_up, mk.injEq, and_true]
    tauto
  | case3 line rest ih =>
    rw [ih, pairs_cons]
    simp
  | case4 line rest start outer ih =>
    rw [List.mem_cons, ih, pairs_cons, exists_level_cons]
    simp [ends_down, eq_comm (a := first)]
    tauto

/-- Two brackets are matched if those between them are balanced. -/
theorem mem_matched_iff {marks : List Bracket} {first last : Nat} :
    (first, last) ∈ matched [] marks ↔ Pairs marks first last := by
  rw [mem_matched]
  simp

/-! ## Brackets in order -/

theorem Ends.mem {marks : List Bracket} {level last : Nat} (ends : Ends marks level last) :
    ⟨last, D⟩ ∈ marks := by
  obtain ⟨between, after, rfl, -⟩ := ends
  simp

theorem Pairs.mem {marks : List Bracket} {first last : Nat} (pairs : Pairs marks first last) :
    ⟨first, U⟩ ∈ marks ∧ ⟨last, D⟩ ∈ marks := by
  obtain ⟨before, rest, rfl, ends⟩ := pairs
  exact ⟨by simp, by simp [ends.mem]⟩

/-- Whether a bracket stands between two lines. -/
def isBetween (first last : Nat) (mark : Bracket) : Bool :=
  decide (first < mark.line) && decide (mark.line < last)

theorem isBetween_iff {first last : Nat} {mark : Bracket} :
    isBetween first last mark = true ↔ first < mark.line ∧ mark.line < last := by
  simp [isBetween]

/-- Of brackets in order, those between two are the ones on the lines between. -/
theorem filter_isBetween {before between after : List Bracket} {first last : Bracket}
    (ordered : (before ++ first :: (between ++ last :: after)).Pairwise (·.line < ·.line)) :
    (before ++ first :: (between ++ last :: after)).filter (isBetween first.line last.line) =
      between := by
  obtain ⟨-, inner, earlier⟩ := List.pairwise_append.mp ordered
  obtain ⟨start, others⟩ := List.pairwise_cons.mp inner
  obtain ⟨-, outer, stop⟩ := List.pairwise_append.mp others
  obtain ⟨later, -⟩ := List.pairwise_cons.mp outer
  have outside : before.filter (isBetween first.line last.line) = [] := by
    refine List.filter_eq_nil_iff.mpr fun mark member => ?_
    have less := earlier mark member first List.mem_cons_self
    rw [isBetween_iff]
    omega
  have inside : between.filter (isBetween first.line last.line) = between := by
    refine List.filter_eq_self.mpr fun mark member => isBetween_iff.mpr ⟨?_, ?_⟩
    · exact start mark (List.mem_append_left _ member)
    · exact stop mark member last List.mem_cons_self
  have beyond : after.filter (isBetween first.line last.line) = [] := by
    refine List.filter_eq_nil_iff.mpr fun mark member => ?_
    have less := later mark member
    rw [isBetween_iff]
    omega
  have ends : ¬ isBetween first.line last.line first = true ∧
      ¬ isBetween first.line last.line last = true := by
    simp [isBetween_iff]
  rw [List.filter_append, List.filter_cons_of_neg ends.1, List.filter_append,
    List.filter_cons_of_neg ends.2, outside, inside, beyond]
  simp

/-- Two of the brackets in order are matched if those on the lines between are balanced. -/
theorem pairs_iff {marks : List Bracket} (ordered : marks.Pairwise (·.line < ·.line))
    {first last : Nat} :
    Pairs marks first last ↔ first < last ∧ ⟨first, U⟩ ∈ marks ∧ ⟨last, D⟩ ∈ marks ∧
      ∃ word : DyckWord, word.toList = (marks.filter (isBetween first last)).map step := by
  rw [← lowers_zero_iff]
  constructor
  · intro pairs
    obtain ⟨begins, ends⟩ := pairs.mem
    obtain ⟨before, _, rfl, between, after, rfl, lowers⟩ := pairs
    have less : first < last := by
      have rest := (List.pairwise_append.mp ordered).2.1
      exact (List.pairwise_cons.mp rest).1 ⟨last, D⟩ (by simp)
    have same := filter_isBetween ordered
    exact ⟨less, begins, ends, same.symm ▸ lowers⟩
  · rintro ⟨less, begins, ends, lowers⟩
    obtain ⟨before, rest, rfl⟩ := List.append_of_mem begins
    have later : ⟨last, D⟩ ∈ rest := by
      rcases List.mem_append.mp ends with earlier | upFrom
      · have greater := (List.pairwise_append.mp ordered).2.2 _ earlier ⟨first, U⟩ (by simp)
        exact absurd less (Nat.lt_asymm greater)
      · exact List.mem_of_ne_of_mem (by simp) upFrom
    obtain ⟨between, after, rfl⟩ := List.append_of_mem later
    have same := filter_isBetween ordered
    exact ⟨before, _, rfl, between, after, rfl, same ▸ lowers⟩

/-- A pair begins on the line of an open bracket or of one of the marks, and ends on that of a mark. -/
theorem mem_of_matched {opened : List Nat} {marks : List Bracket} {pair : Nat × Nat}
    (member : pair ∈ matched opened marks) :
    (pair.1 ∈ opened ∨ pair.1 ∈ marks.map line) ∧ pair.2 ∈ marks.map line := by
  rcases mem_matched.mp member with pairs | ⟨level, found, ends⟩
  · exact ⟨.inr (List.mem_map_of_mem pairs.mem.1), List.mem_map_of_mem pairs.mem.2⟩
  · exact ⟨.inl (List.mem_of_getElem? found), List.mem_map_of_mem ends.mem⟩

/-- Matched pairs are listed by their ends, and of two of them the later one begins after the end of
    the other or lies around it. -/
theorem matched_pairwise {opened : List Nat} {marks : List Bracket}
    (ordered : (opened.reverse ++ marks.map line).Pairwise (· < ·)) :
    (matched opened marks).Pairwise fun pair later =>
      pair.2 < later.2 ∧ (pair.2 < later.1 ∨ later.1 < pair.1) := by
  fun_induction matched opened marks with
  | case1 opened => exact .nil
  | case2 opened line rest ih => exact ih (by simpa using ordered)
  | case3 line rest ih => exact ih (by simpa using (List.pairwise_cons.mp ordered).2)
  | case4 line rest start outer ih =>
    rw [List.reverse_cons, List.append_assoc, List.singleton_append, List.map_cons] at ordered
    obtain ⟨-, inner, outside⟩ := List.pairwise_append.mp ordered
    obtain ⟨-, others⟩ := List.pairwise_cons.mp inner
    obtain ⟨next, -⟩ := List.pairwise_cons.mp others
    refine List.pairwise_cons.mpr ⟨fun later member => ?_, ih ?_⟩
    · obtain ⟨begins, ends⟩ := mem_of_matched member
      refine ⟨next _ ends, ?_⟩
      rcases begins with around | marked
      · exact .inr (outside _ (List.mem_reverse.mpr around) start List.mem_cons_self)
      · exact .inl (next _ marked)
    · refine ordered.sublist ?_
      exact ((List.sublist_cons_self _ _).trans (List.sublist_cons_self _ _)).append_left _

end Bracket
end Mapkeys
