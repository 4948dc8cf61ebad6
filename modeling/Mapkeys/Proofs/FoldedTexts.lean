import Mapkeys.Proofs.PlainLines
import Mapkeys.Proofs.Splitting

/-!
# Folded texts

A record can be written on one line or folded between its words: a backslash, a line feed and the
continuation marker then stand for a space (`folded`). Its lines are those of a `sheet`, which holds
the words line by line. A backslash that ends the last word is the escape of the last line and not
part of the word (`strip`), on one line and on several.
-/

namespace Mapkeys.Folding

open Text

/-! ## Words on lines -/

/-- Words with a space before each of them. -/
def spread (words : List Text) : Text := words.flatMap fun word => ' ' :: word

theorem spread_eq {words : List Text} (some : words ≠ []) :
    spread words = ' ' :: join [' '] words := by
  induction words with
  | nil => exact absurd rfl some
  | cons word rest ih =>
    by_cases last : rest = []
    · subst last
      simp [spread, join]
    · rw [join_cons last, ← List.cons_append, ← ih last]
      rfl

/-- The lines on which words are written, with a head on the first line and a marker on each line
    that follows. -/
def sheet (head : Text) (here : List Text) : List (List Text) → List Text
  | [] => [head ++ spread here]
  | next :: rest => (head ++ spread here ++ ['\\']) :: sheet Line.continuationMarker next rest

theorem sheet_cons (head word : Text) (here : List Text) (later : List (List Text)) :
    sheet (head ++ ' ' :: word) here later = sheet head (word :: here) later := by
  cases later with
  | nil => simp [sheet, spread]
  | cons next rest => simp [sheet, spread]

theorem sheet_tight {head : Text} {here : List Text} {later : List (List Text)}
    (tight : trimRight head = head) (all : ∀ words ∈ here :: later, ∀ word ∈ words, IsWord word) :
    ∀ line ∈ sheet head here later, trimRight line = line := by
  induction later generalizing head here with
  | nil =>
    intro line member
    rw [List.mem_singleton.mp member]
    by_cases none : here = []
    · rw [none]
      simpa [spread] using tight
    · have solid := solid_join none (all here List.mem_cons_self)
      have split : head ++ spread here = (head ++ [' ']) ++ join [' '] here := by
        simp [spread_eq none]
      rw [split, trimRight_append, solid.tight, if_neg solid.some]
  | cons next rest ih =>
    intro line member
    rcases List.mem_cons.mp member with rfl | later
    · exact trimRight_escape _
    · exact ih (by decide) (fun words present => all words (List.mem_cons_of_mem here present)) line
        later

/-- The words up to the first fold, and the words of each line that follows. -/
def lineWords : List (Bool × Text) → List Text × List (List Text)
  | [] => ([], [])
  | (isFolded, word) :: rest =>
    if isFolded then ([], (word :: (lineWords rest).1) :: (lineWords rest).2)
    else (word :: (lineWords rest).1, (lineWords rest).2)

theorem lineWords_flatten (words : List (Bool × Text)) :
    (lineWords words).1 ++ (lineWords words).2.flatten = words.map Prod.snd := by
  induction words with
  | nil => rfl
  | cons word rest ih =>
    obtain ⟨isFolded, letters⟩ := word
    cases isFolded with
    | false => simp [lineWords, ih]
    | true => simp [lineWords, ih]

/-- A line that follows begins with a word before which there is a fold. -/
theorem lineWords_later {words : List (Bool × Text)} :
    ∀ line ∈ (lineWords words).2, ∃ word rest, line = word :: rest ∧ (true, word) ∈ words := by
  induction words with
  | nil => simp [lineWords]
  | cons word rest ih =>
    obtain ⟨isFolded, letters⟩ := word
    intro line member
    have further : line ∈ (lineWords rest).2 →
        ∃ word more, line = word :: more ∧ (true, word) ∈ (isFolded, letters) :: rest := by
      intro later
      obtain ⟨word, more, spelled, present⟩ := ih line later
      exact ⟨word, more, spelled, List.mem_cons_of_mem _ present⟩
    cases isFolded with
    | false => exact further (by simpa [lineWords] using member)
    | true =>
      have either : line = letters :: (lineWords rest).1 ∨ line ∈ (lineWords rest).2 := by
        simpa [lineWords] using member
      rcases either with rfl | later
      · exact ⟨letters, _, rfl, List.mem_cons_self⟩
      · exact further later

/-! ## Folded texts -/

/-- What stands before a word: a space or a fold. -/
def gap : Bool → Text
  | false => [' ']
  | true => "\\\nmapkey(continued) ".toList

/-- A record on one line. -/
def oneLine (name : Text) (words : List Text) : Text :=
  "mapkey ".toList ++ join [' '] (name :: words)

/-- A record with a space or a fold before each word. -/
def folded (name : Text) (words : List (Bool × Text)) : Text :=
  "mapkey ".toList ++ name ++ words.flatMap fun word => gap word.1 ++ word.2

theorem oneLine_eq (name : Text) (words : List (Bool × Text)) :
    oneLine name (words.map Prod.snd) = folded name (words.map fun word => (false, word.2)) := by
  have spaces : (words.map fun word => (false, word.2)).flatMap (fun word => gap word.1 ++ word.2) =
      spread (words.map Prod.snd) := by
    rw [spread, List.flatMap_map, List.flatMap_map]
    rfl
  unfold oneLine folded
  rw [spaces, List.append_assoc]
  congr 1
  by_cases none : words.map Prod.snd = []
  · rw [none]
    simp [join, spread]
  · rw [join_cons none, spread_eq none]

theorem space_gap : gap false = [' '] := rfl

theorem fold_gap : gap true = '\\' :: '\n' :: (Line.continuationMarker ++ [' ']) := by decide

theorem pieces_folded {words : List (Bool × Text)} {head : Text} (some : head ≠ [])
    (flat : '\n' ∉ head) (words_flat : ∀ word ∈ words, '\n' ∉ word.2) :
    Line.pieces (head ++ words.flatMap fun word => gap word.1 ++ word.2) =
      sheet head (lineWords words).1 (lineWords words).2 := by
  induction words generalizing head with
  | nil =>
    simp only [List.flatMap_nil, List.append_nil]
    rw [Line.pieces_line some flat]
    simp [lineWords, sheet, spread]
  | cons word rest ih =>
    obtain ⟨isFolded, letters⟩ := word
    have own : '\n' ∉ letters := words_flat (isFolded, letters) List.mem_cons_self
    have others : ∀ word ∈ rest, '\n' ∉ word.2 :=
      fun word member => words_flat word (List.mem_cons_of_mem _ member)
    rw [List.flatMap_cons]
    cases isFolded with
    | false =>
      have spelled (tail : Text) :
          head ++ (gap false ++ letters ++ tail) = (head ++ ' ' :: letters) ++ tail := by
        simp [space_gap]
      have next := @ih (head ++ ' ' :: letters) (by simp) (by simp [flat, own]) others
      rw [spelled, next, sheet_cons]
      rfl
    | true =>
      have marker : '\n' ∉ Line.continuationMarker := by decide
      have spelled (tail : Text) : head ++ (gap true ++ letters ++ tail) =
          (head ++ ['\\']) ++ '\n' :: (Line.continuationMarker ++ ' ' :: letters ++ tail) := by
        simp [fold_gap]
      have next := @ih (Line.continuationMarker ++ ' ' :: letters) (by simp)
        (by simp [marker, own]) others
      rw [spelled, Line.pieces_break (by simp [flat]), next, sheet_cons]
      simp [lineWords, sheet, spread]

/-! ## The escape of the last line -/

/-- Whether the last word ends in a backslash. -/
def lastEscaped (words : List Text) : Bool := words.getLast?.any endsEscaped

/-- The words without a backslash that ends the last one. -/
def strip : List Text → List Text
  | [] => []
  | [word] =>
    if endsEscaped word then if word.dropLast = [] then [] else [word.dropLast] else [word]
  | word :: next :: rest => word :: strip (next :: rest)

theorem strip_cons {rest : List Text} (some : rest ≠ []) (word : Text) :
    strip (word :: rest) = word :: strip rest := by
  obtain ⟨next, others, rfl⟩ := List.exists_cons_of_ne_nil some
  rfl

theorem strip_append {rest : List Text} (some : rest ≠ []) (words : List Text) :
    strip (words ++ rest) = words ++ strip rest := by
  induction words with
  | nil => rfl
  | cons word others ih => rw [List.cons_append, strip_cons (by simp [some]), ih, List.cons_append]

theorem strip_words {words : List Text} (all : ∀ word ∈ words, IsWord word) :
    ∀ word ∈ strip words, IsWord word := by
  induction words with
  | nil => simp [strip]
  | cons first rest ih =>
    have own := all first List.mem_cons_self
    by_cases last : rest = []
    · subst last
      intro word member
      unfold strip at member
      split_ifs at member with escaped empty
      · simp at member
      · rw [List.mem_singleton.mp member]
        exact ⟨empty, fun c inner => own.visible c (List.dropLast_subset _ inner)⟩
      · rw [List.mem_singleton.mp member]
        exact own
    · intro word member
      rw [strip_cons last] at member
      rcases List.mem_cons.mp member with rfl | later
      · exact own
      · exact ih (fun next present => all next (List.mem_cons_of_mem first present)) word later

theorem join_spaced {word : Text} {words : List Text} (own : word ≠ [])
    (nonempty : ∀ word ∈ words, word ≠ []) :
    join [' '] (word :: words) = spaced word (join [' '] words) := by
  by_cases last : words = []
  · subst last
    simp [join]
  · rw [join_cons last, spaced, if_neg own, if_neg (mt (join_eq_nil_iff nonempty).mp last)]

theorem endsEscaped_append_space {rest : Text} (some : rest ≠ []) (word : Text) :
    endsEscaped (word ++ ' ' :: rest) = endsEscaped rest := by
  have split : word ++ ' ' :: rest = (word ++ [' ']) ++ rest := by simp
  unfold endsEscaped
  rw [split, List.getLast?_append_of_ne_nil _ some]

theorem withoutEscape_spaced {word rest : Text} (own : IsWord word) (some : rest ≠ []) :
    withoutEscape (word ++ ' ' :: rest) = spaced word (withoutEscape rest) := by
  unfold withoutEscape
  rw [endsEscaped_append_space some]
  split_ifs
  · have init : (word ++ ' ' :: rest).dropLast = word ++ ' ' :: rest.dropLast := by
      rw [List.dropLast_append_of_ne_nil (by simp), List.dropLast_cons_of_ne_nil some]
    rw [init, trimRight_append_space, trimRight_visible own.visible]
    by_cases blank : trimRight rest.dropLast = []
    · simp [blank]
    · simp [blank, spaced, own.some]
  · rw [spaced, if_neg own.some, if_neg some]

/-- Taking the escape off a line takes it off its last word. -/
theorem join_strip {words : List Text} (all : ∀ word ∈ words, IsWord word) :
    join [' '] (strip words) = withoutEscape (join [' '] words) := by
  induction words with
  | nil => rfl
  | cons word rest ih =>
    obtain ⟨own, others⟩ := List.forall_mem_cons.mp all
    by_cases last : rest = []
    · subst last
      have letters : trimRight word.dropLast = word.dropLast :=
        trimRight_visible fun c inner => own.visible c (List.dropLast_subset _ inner)
      have single : join [' '] [word] = word := rfl
      rw [single, strip, withoutEscape, letters]
      split_ifs with escaped empty
      · rw [empty]
        rfl
      · rfl
      · rfl
    · have stripped := fun next member => (strip_words others next member).some
      rw [strip_cons last, join_spaced own.some stripped, ih others, join_cons last,
        withoutEscape_spaced own (solid_join last others).some]

theorem endsEscaped_join {words : List Text} (all : ∀ word ∈ words, IsWord word) :
    endsEscaped (join [' '] words) = lastEscaped words := by
  induction words with
  | nil => rfl
  | cons word rest ih =>
    have others := fun next member => all next (List.mem_cons_of_mem word member)
    by_cases last : rest = []
    · subst last
      rfl
    · have tail : lastEscaped (word :: rest) = lastEscaped rest := by
        unfold lastEscaped
        rw [List.getLast?_cons_of_ne_nil last]
      rw [tail, ← ih others, join_cons last,
        endsEscaped_append_space (solid_join last others).some]

/-- The words of each line, those of the last one without the escape. -/
def closing (here : List Text) : List (List Text) → List (List Text)
  | [] => [strip here]
  | next :: rest => here :: closing next rest

theorem closing_flatten {here : List Text} {later : List (List Text)}
    (nonempty : ∀ line ∈ later, line ≠ []) :
    (closing here later).flatten = strip (here ++ later.flatten) := by
  induction later generalizing here with
  | nil => simp [closing]
  | cons next rest ih =>
    have some : next ++ rest.flatten ≠ [] := by simp [nonempty next List.mem_cons_self]
    have others := fun line member => nonempty line (List.mem_cons_of_mem next member)
    rw [closing, List.flatten_cons, ih others, List.flatten_cons, strip_append some]

theorem closing_words {here : List Text} {later : List (List Text)}
    (all : ∀ line ∈ here :: later, ∀ word ∈ line, IsWord word) :
    ∀ line ∈ closing here later, ∀ word ∈ line, IsWord word := by
  induction later generalizing here with
  | nil =>
    intro line member
    rw [List.mem_singleton.mp member]
    exact strip_words (all here List.mem_cons_self)
  | cons next rest ih =>
    intro line member
    rcases List.mem_cons.mp member with rfl | further
    · exact all line List.mem_cons_self
    · exact ih (fun line present => all line (List.mem_cons_of_mem here present)) line further

end Mapkeys.Folding
