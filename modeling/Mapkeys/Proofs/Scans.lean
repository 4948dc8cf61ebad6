import Mapkeys.Token.Content
import Mapkeys.Proofs.Blanks
import Mathlib.Data.List.TakeWhile

/-!
# Scans of a text

A scan reports the columns where something begins, from the left to the right. What it reports stays
inside the text and no two of its reports overlap: no call has a percent sign in its name, and no
tag has an at sign after its first character.
-/

namespace Mapkeys

namespace Text

/-! ## Terminators -/

theorem terminators_bounds {column : Nat} {escaped : Bool} {t : Text} :
    ∀ offset ∈ terminators column escaped t, column ≤ offset ∧ offset < column + t.length := by
  induction t generalizing column escaped with
  | nil => simp [terminators]
  | cons c rest ih =>
    intro offset member
    have later : offset ∈ terminators (column + 1) (c = '\\') rest →
        column ≤ offset ∧ offset < column + (c :: rest).length := by
      intro found
      have bounds := ih offset found
      rw [List.length_cons]
      omega
    rw [terminators] at member
    split_ifs at member
    · rcases List.mem_cons.mp member with rfl | found
      · rw [List.length_cons]
        omega
      · exact later found
    · exact later member

theorem terminators_pairwise (column : Nat) (escaped : Bool) (t : Text) :
    (terminators column escaped t).Pairwise (· < ·) := by
  induction t generalizing column escaped with
  | nil => exact .nil
  | cons c rest ih =>
    rw [terminators]
    split_ifs
    · refine List.pairwise_cons.mpr ⟨fun offset member => ?_, ih _ _⟩
      have bounds := terminators_bounds offset member
      omega
    · exact ih _ _

/-- Scanning may start afresh where no semicolon follows a backslash. -/
theorem terminators_afresh {t : Text} {escaped : Bool}
    (fresh : t.head? = some ';' → escaped = false) (column : Nat) :
    terminators column escaped t = terminators column false t := by
  cases t with
  | nil => rfl
  | cons c rest =>
    by_cases semicolon : c = ';'
    · rw [fresh (by rw [semicolon]; rfl)]
    · simp [terminators, semicolon]

/-- Whether a backslash stands before what follows a text; the flag says so of the text itself. -/
def escapedAfter (escaped : Bool) (t : Text) : Bool :=
  (t.getLast?.map fun c => decide (c = '\\')).getD escaped

@[simp] theorem escapedAfter_cons (escaped : Bool) (c : Char) (rest : Text) :
    escapedAfter escaped (c :: rest) = escapedAfter (c = '\\') rest := by
  cases last : rest.getLast? with
  | none => simp [escapedAfter, List.getLast?_cons, last]
  | some d => simp [escapedAfter, List.getLast?_cons, last]

theorem escapedAfter_false {t : Text} (plain : t.getLast? ≠ some '\\') :
    escapedAfter false t = false := by
  unfold escapedAfter
  cases last : t.getLast? with
  | none => rfl
  | some c =>
    rw [last] at plain
    simpa using plain

theorem terminators_append (column : Nat) (escaped : Bool) (a b : Text) :
    terminators column escaped (a ++ b) = terminators column escaped a ++
      terminators (column + a.length) (escapedAfter escaped a) b := by
  induction a generalizing column escaped with
  | nil => rfl
  | cons c rest ih =>
    rw [escapedAfter_cons, List.cons_append, terminators, terminators, ih, List.length_cons,
      show column + 1 + rest.length = column + (rest.length + 1) by omega]
    split_ifs
    · rfl
    · rfl

theorem terminators_add (column shift : Nat) (escaped : Bool) (t : Text) :
    terminators (column + shift) escaped t = (terminators column escaped t).map (· + shift) := by
  induction t generalizing column escaped with
  | nil => rfl
  | cons c rest ih =>
    rw [terminators, terminators, show column + shift + 1 = column + 1 + shift by omega, ih]
    split_ifs
    · rfl
    · rfl

theorem terminators_plain {word : Text} (plain : ';' ∉ word) (column : Nat) (escaped : Bool) :
    terminators column escaped word = [] := by
  induction word generalizing column escaped with
  | nil => rfl
  | cons c rest ih =>
    obtain ⟨other, others⟩ := not_or.mp (List.mem_cons.not.mp plain)
    rw [terminators, if_neg (fun both => other both.1.symm), ih others]

/-- A terminator is a semicolon that no backslash precedes. -/
theorem mem_terminators {column place : Nat} {escaped : Bool} {t : Text} :
    place ∈ terminators column escaped t ↔ ∃ before rest, t = before ++ ';' :: rest ∧
      place = column + before.length ∧ escapedAfter escaped before = false := by
  constructor
  · intro member
    induction t generalizing column escaped with
    | nil => simp [terminators] at member
    | cons c others ih =>
      have later : place ∈ terminators (column + 1) (c = '\\') others →
          ∃ before rest, c :: others = before ++ ';' :: rest ∧ place = column + before.length ∧
            escapedAfter escaped before = false := by
        intro found
        obtain ⟨before, rest, spelled, there, free⟩ := ih found
        refine ⟨c :: before, rest, by rw [spelled, List.cons_append], ?_, ?_⟩
        · rw [there, List.length_cons]
          omega
        · rw [escapedAfter_cons]
          exact free
      rw [terminators] at member
      split_ifs at member with here
      · rcases List.mem_cons.mp member with rfl | found
        · exact ⟨[], others, by rw [here.1]; rfl, rfl, Bool.eq_false_iff.mpr here.2⟩
        · exact later found
      · exact later member
  · rintro ⟨before, rest, rfl, rfl, free⟩
    rw [terminators_append, free, terminators]
    simp

/-- A column where no semicolon stands whose backslash is before the column. -/
def CleanAt (t : Text) (column : Nat) : Prop :=
  (t.drop column).head? = some ';' → (t.take column).getLast? ≠ some '\\'

theorem terminators_split {t : Text} {column : Nat} (clean : CleanAt t column)
    (inside : column ≤ t.length) :
    terminators 0 false t =
      terminators 0 false (t.take column) ++ (terminators 0 false (t.drop column)).map (· + column) := by
  have fresh : (t.drop column).head? = some ';' → escapedAfter false (t.take column) = false :=
    fun semicolon => escapedAfter_false (clean semicolon)
  conv_lhs => rw [← List.take_append_drop column t, terminators_append, terminators_afresh fresh]
  rw [List.length_take, Nat.min_eq_left inside, terminators_add]

theorem terminator_drop_of_none {t : Text} {column : Nat} (clean : CleanAt t column)
    (inside : column ≤ t.length) (none : terminator? t = none) :
    terminator? (t.drop column) = .none := by
  unfold terminator? at *
  rw [List.head?_eq_none_iff, terminators_split clean inside] at none
  have later := (List.append_eq_nil_iff.mp none).2
  rw [List.map_eq_nil_iff.mp later]
  rfl

theorem terminator_drop_of_some {t : Text} {column found : Nat} (clean : CleanAt t column)
    (later : column ≤ found) (some : terminator? t = some found) :
    terminator? (t.drop column) = .some (found - column) := by
  have inside := terminators_bounds found (List.mem_of_head? some)
  unfold terminator? at *
  rw [terminators_split clean (by omega)] at some
  cases first : terminators 0 false (t.take column) with
  | cons early others =>
    -- a semicolon before the column would have been the first one
    have bounds := terminators_bounds early (first ▸ List.mem_cons_self)
    have short := List.length_take_le column t
    rw [first, List.cons_append, List.head?_cons] at some
    cases some
    omega
  | nil =>
    rw [first, List.nil_append, List.head?_map] at some
    obtain ⟨place, there, rfl⟩ := Option.map_eq_some_iff.mp some
    rw [there, Nat.add_sub_cancel]

theorem cleanAt_drop {t : Text} {column further : Nat} (clean : CleanAt t (column + further)) :
    CleanAt (t.drop column) further := by
  intro semicolon backslash
  rw [List.drop_drop] at semicolon
  refine clean semicolon ?_
  have split : t.take (column + further) = t.take column ++ (t.drop column).take further :=
    List.take_add
  rw [split, List.getLast?_append, backslash]
  rfl

/-! ## Calls -/

theorem calls_bounds {column : Nat} {t : Text} :
    ∀ call ∈ calls column t,
      column < call.1 ∧ 0 < call.2.length ∧ call.1 + call.2.length < column + t.length := by
  induction t generalizing column with
  | nil => simp [calls]
  | cons c rest ih =>
    intro call member
    have later : call ∈ calls (column + 1) rest →
        column < call.1 ∧ 0 < call.2.length ∧
          call.1 + call.2.length < column + (c :: rest).length := by
      intro found
      have bounds := ih call found
      rw [List.length_cons]
      omega
    rw [calls] at member
    split_ifs at member with begins
    · rcases List.mem_cons.mp member with rfl | found
      · obtain ⟨-, some, ends⟩ := begins
        refine ⟨Nat.lt_succ_self column, List.length_pos_iff.mpr some, ?_⟩
        -- the semicolon stands after the name
        have inside : (rest.takeWhile isCallChar).length < rest.length := by
          by_contra outside
          rw [List.drop_eq_nil_of_le (by omega)] at ends
          simp at ends
        rw [List.length_cons]
        dsimp only
        omega
      · exact later found
    · exact later member

/-- No call begins inside a name. -/
theorem calls_append {word : Text} (name : ∀ c ∈ word, isCallChar c = true) (column : Nat)
    (t : Text) : calls column (word ++ t) = calls (column + word.length) t := by
  induction word generalizing column with
  | nil => rfl
  | cons c rest ih =>
    have plain : c ≠ '%' := by
      rintro rfl
      exact absurd (name '%' List.mem_cons_self) (by decide)
    rw [List.cons_append, calls, if_neg (fun begins => plain begins.1),
      ih (fun d member => name d (List.mem_cons_of_mem c member)), List.length_cons]
    congr 1
    omega

theorem calls_pairwise (column : Nat) (t : Text) :
    (calls column t).Pairwise fun call later => call.1 + call.2.length ≤ later.1 := by
  induction t generalizing column with
  | nil => exact .nil
  | cons c rest ih =>
    rw [calls]
    split_ifs
    · refine List.pairwise_cons.mpr ⟨fun later member => ?_, ih _⟩
      rw [← List.takeWhile_append_dropWhile (p := isCallChar) (l := rest),
        calls_append (fun d => List.mem_takeWhile_imp)] at member
      have bounds := calls_bounds later member
      dsimp only
      omega
    · exact ih _

theorem isCallChar_iff {c : Char} :
    isCallChar c = true ↔ isBlank c = false ∧ c ≠ ';' ∧ c ≠ '%' ∧ c ≠ '\\' := by
  unfold isCallChar
  simp only [Bool.and_eq_true, Bool.not_eq_true', decide_eq_true_eq, ne_eq, and_assoc]

/-- A call is a name between a percent sign and a semicolon. -/
theorem calls_spelled {column : Nat} {t : Text} :
    ∀ call ∈ calls column t, ∃ before rest, t = before ++ '%' :: (call.2 ++ ';' :: rest) ∧
      call.1 = column + before.length + 1 ∧ call.2 ≠ [] ∧ ∀ c ∈ call.2, isCallChar c = true := by
  induction t generalizing column with
  | nil => simp [calls]
  | cons c others ih =>
    intro call member
    have later : call ∈ calls (column + 1) others → ∃ before rest,
        c :: others = before ++ '%' :: (call.2 ++ ';' :: rest) ∧
        call.1 = column + before.length + 1 ∧ call.2 ≠ [] ∧ ∀ c ∈ call.2, isCallChar c = true := by
      intro found
      obtain ⟨before, rest, spelled, place, name⟩ := ih call found
      refine ⟨c :: before, rest, by rw [spelled, List.cons_append], ?_, name⟩
      rw [place, List.length_cons]
      omega
    rw [calls] at member
    split_ifs at member with begins
    · rcases List.mem_cons.mp member with rfl | found
      · obtain ⟨percent, some, ends⟩ := begins
        obtain ⟨rest, after⟩ := List.head?_eq_some_iff.mp ends
        refine ⟨[], rest, ?_, rfl, some, fun d => List.mem_takeWhile_imp⟩
        have word : others.takeWhile isCallChar <+: others := List.takeWhile_prefix isCallChar
        rw [List.nil_append, ← after, percent, List.prefix_iff_eq_append.mp word]
      · exact later found
    · exact later member

end Text

/-! ## Tags -/

namespace Tag

open Text

theorem marker_eq_cons (tag : Tag) : ∃ word, tag.marker = '@' :: word ∧ '@' ∉ word := by
  cases tag with
  | description => exact ⟨"MAPKEY_NAME".toList, by decide, by decide⟩
  | label => exact ⟨"MAPKEY_LABEL".toList, by decide, by decide⟩
  | system => exact ⟨"SYSTEM".toList, by decide, by decide⟩

theorem marker_begins {t : Text} {tag : Tag} (found : at? t = some tag) : tag.marker <+: t := by
  have begins := List.find?_some found
  unfold beginsWith at begins
  exact List.isPrefixOf_iff_prefix.mp begins

theorem at_eq_none {c : Char} (plain : c ≠ '@') (rest : Text) : at? (c :: rest) = none := by
  cases found : at? (c :: rest) with
  | none => rfl
  | some tag =>
    obtain ⟨word, marker, -⟩ := marker_eq_cons tag
    have begins := marker_begins found
    rw [marker] at begins
    exact absurd (List.cons_prefix_cons.mp begins).1.symm plain

theorem scan_bounds {column : Nat} {t : Text} :
    ∀ found ∈ scan column t,
      column ≤ found.1 ∧ found.1 + found.2.marker.length ≤ column + t.length := by
  induction t generalizing column with
  | nil => simp [scan]
  | cons c rest ih =>
    intro found member
    have later : found ∈ scan (column + 1) rest →
        column ≤ found.1 ∧ found.1 + found.2.marker.length ≤ column + (c :: rest).length := by
      intro further
      have bounds := ih found further
      rw [List.length_cons]
      omega
    rw [scan] at member
    cases here : at? (c :: rest) with
    | none =>
      rw [here] at member
      exact later member
    | some tag =>
      rw [here] at member
      rcases List.mem_cons.mp member with rfl | further
      · exact ⟨Nat.le_refl _, Nat.add_le_add_left (marker_begins here).length_le column⟩
      · exact later further

/-- No tag begins inside a word without an at sign. -/
theorem scan_append {word : Text} (plain : '@' ∉ word) (column : Nat) (t : Text) :
    scan column (word ++ t) = scan (column + word.length) t := by
  induction word generalizing column with
  | nil => rfl
  | cons c rest ih =>
    obtain ⟨other, others⟩ := not_or.mp (List.mem_cons.not.mp plain)
    rw [List.cons_append, scan, at_eq_none (Ne.symm other)]
    dsimp only
    rw [ih others, List.length_cons]
    congr 1
    omega

theorem scan_pairwise (column : Nat) (t : Text) :
    (scan column t).Pairwise fun found later => found.1 + found.2.marker.length ≤ later.1 := by
  induction t generalizing column with
  | nil => exact .nil
  | cons c rest ih =>
    rw [scan]
    cases here : at? (c :: rest) with
    | none => exact ih _
    | some tag =>
      refine List.pairwise_cons.mpr ⟨fun later member => ?_, ih _⟩
      obtain ⟨word, marker, plain⟩ := marker_eq_cons tag
      obtain ⟨after, split⟩ := marker_begins here
      rw [marker, List.cons_append] at split
      rw [← (List.cons.inj split).2, scan_append plain] at member
      have bounds := scan_bounds later member
      dsimp only
      rw [marker, List.length_cons]
      omega

theorem scan_spelled {column : Nat} {t : Text} :
    ∀ found ∈ scan column t, ∃ before rest, t = before ++ (found.2.marker ++ rest) ∧
      found.1 = column + before.length := by
  induction t generalizing column with
  | nil => simp [scan]
  | cons c others ih =>
    intro found member
    have later : found ∈ scan (column + 1) others → ∃ before rest,
        c :: others = before ++ (found.2.marker ++ rest) ∧ found.1 = column + before.length := by
      intro further
      obtain ⟨before, rest, spelled, place⟩ := ih found further
      refine ⟨c :: before, rest, by rw [spelled, List.cons_append], ?_⟩
      rw [place, List.length_cons]
      omega
    rw [scan] at member
    cases here : at? (c :: others) with
    | none =>
      rw [here] at member
      exact later member
    | some tag =>
      rw [here] at member
      rcases List.mem_cons.mp member with rfl | further
      · obtain ⟨rest, spelled⟩ := marker_begins here
        exact ⟨[], rest, spelled.symm, rfl⟩
      · exact later further

/-- A tag could be the name of a called mapkey. -/
theorem marker_plain (tag : Tag) :
    ∀ c ∈ tag.marker, isBlank c = false ∧ c ≠ ';' ∧ c ≠ '%' ∧ c ≠ '\\' := by
  have called : tag.marker.all isCallChar = true := by cases tag <;> decide
  exact fun c member => isCallChar_iff.mp (List.all_eq_true.mp called c member)

end Tag

/-! ## Tags beside calls -/

namespace Text

/-- A word around a letter that it does not contain. -/
theorem not_mem_between {before word rest before' rest' : Text} {c : Char} (plain : c ∉ word)
    (same : before ++ (word ++ rest) = before' ++ c :: rest') :
    before'.length < before.length ∨ before.length + word.length ≤ before'.length := by
  by_contra inside
  have at_place : (before ++ (word ++ rest))[before'.length]? = some c := by
    rw [same]
    simp
  rw [List.getElem?_append_right (by omega), List.getElem?_append_left (by omega)] at at_place
  exact plain (List.mem_of_getElem? at_place)

/-- A tag that touches a call stands inside the name that is called. -/
theorem marker_outside_or_inside_call {tag : Tag} {before rest before' name rest' : Text}
    (same : before ++ (tag.marker ++ rest) = before' ++ '%' :: (name ++ ';' :: rest')) :
    before.length + tag.marker.length ≤ before'.length ∨
      before'.length + 1 + name.length < before.length ∨
      before'.length < before.length ∧
        before.length + tag.marker.length ≤ before'.length + 1 + name.length := by
  have percent := not_mem_between (fun member => (tag.marker_plain _ member).2.2.1 rfl) same
  have shifted : before ++ (tag.marker ++ rest) = (before' ++ '%' :: name) ++ ';' :: rest' := by
    rw [same]
    simp
  have semicolon := not_mem_between (fun member => (tag.marker_plain _ member).2.1 rfl) shifted
  rw [List.length_append, List.length_cons] at semicolon
  omega

end Text
end Mapkeys
