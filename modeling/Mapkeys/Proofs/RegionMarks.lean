import Mapkeys.Fold
import Mapkeys.Proofs.Brackets
import Mapkeys.Proofs.TokenNesting
import Mapkeys.Proofs.TrailingBlanks

/-!
# Marks of regions

A comment whose first word is `region` or `endregion` opens or closes a region (`Marker.Marks`). The
lines of a document that no record claims have their marks in order, one on a line at most, and the
regions are what these marks match as brackets (`Document.regions_eq`).
-/

namespace Mapkeys

open Text Token DyckStep

/-! ## Comments -/

namespace Text

/-- The blanks before a visible character are trimmed. -/
theorem trimLeft_append {b : Text} (blank : ∀ c ∈ b, isBlank c = true) {c : Char}
    (visible : isBlank c = false) (t : Text) : trimLeft (b ++ c :: t) = c :: t := by
  unfold trimLeft
  rw [List.dropWhile_append_of_pos blank, List.dropWhile_cons_of_neg (by simp [visible])]

/-- A text that begins with a marker has its first letter. -/
theorem exists_of_startsLike {letter : Char} {marker t : Text}
    (starts : startsLike (letter :: marker) t = true) :
    ∃ c rest, t = c :: rest ∧ sameLetter letter c = true := by
  cases t with
  | nil => simp [startsLike] at starts
  | cons c rest =>
    rw [startsLike, Bool.and_eq_true] at starts
    exact ⟨c, rest, rfl, starts.1⟩

theorem visible_of_sameLetter {letter c : Char} (visible : isBlank letter = false)
    (same : sameLetter letter c = true) : isBlank c = false := by
  rw [Bool.eq_false_iff]
  intro blank
  rw [sameLetter_blank blank same, blank] at visible
  cases visible

end Text

namespace Line

theorem remarked_iff {t : Text} {column : Nat} :
    remarked? t = some column ↔ column = indent t ∧ ∃ rest, trimLeft t = '!' :: rest := by
  rw [trimLeft_eq_drop, ← List.head?_eq_some_iff]
  simp only [remarked?]
  split_ifs with mark
  · simp only [mark, Option.some.injEq, and_true, eq_comm]
  · simp only [mark, and_false]

/-- An exclamation mark after the indent makes a comment. -/
theorem shape_remarked {t : Text} {column : Nat} (found : remarked? t = some column) :
    shape t = .comment column := by
  obtain ⟨rest, mark⟩ := (remarked_iff.mp found).2
  have marked := mark
  rw [trimLeft_eq_drop] at marked
  have some : ¬ allBlank t = true := by
    rw [allBlank, List.all_eq_true, ← List.dropWhile_eq_nil_iff]
    exact fun empty => List.cons_ne_nil _ _ (mark.symm.trans empty)
  have undeclared : declared? t = none := by
    simp only [declared?, marked]
    rfl
  have first : continued? t = none := by
    simp only [continued?, marked]
    rfl
  unfold shape
  rw [if_neg some, undeclared, first, found]

end Line

/-! ## Marked lines -/

namespace Marker

/-- The word that marks a step. -/
def word : DyckStep → Text
  | U => regionWord
  | D => endRegionWord

/-- The kind of the tokens for a step. -/
def kind : DyckStep → TokenKind
  | U => .regionStart
  | D => .regionEnd

/-- A line is a comment whose first word is the one of a step, in any case. -/
def Marks (step : DyckStep) (t : Text) : Prop :=
  ∃ lead gap title, t = lead ++ '!' :: (gap ++ title) ∧
    (∀ c ∈ lead, isBlank c = true) ∧ (∀ c ∈ gap, isBlank c = true) ∧
    startsLike (word step) title = true ∧ endsWord (title.drop (word step).length) = true

/-- The letter that the word of a step begins with. -/
def letter : DyckStep → Char
  | U => 'r'
  | D => 'e'

theorem word_begins (step : DyckStep) : ∃ rest, word step = letter step :: rest := by
  cases step with
  | U => exact ⟨"egion".toList, by decide⟩
  | D => exact ⟨"ndregion".toList, by decide⟩

/-- What begins with the word of a step begins with its letter, so it has no blanks before it. -/
theorem exists_of_word {step : DyckStep} {title : Text}
    (starts : startsLike (word step) title = true) :
    ∃ c rest, title = c :: rest ∧ isBlank c = false ∧ c.toLower = letter step := by
  obtain ⟨marker, spelled⟩ := word_begins step
  rw [spelled] at starts
  obtain ⟨c, rest, rfl, same⟩ := exists_of_startsLike starts
  cases step with
  | U =>
    exact ⟨c, rest, rfl, visible_of_sameLetter (by decide) same,
      by simpa [sameLetter, letter] using same⟩
  | D =>
    exact ⟨c, rest, rfl, visible_of_sameLetter (by decide) same,
      by simpa [sameLetter, letter] using same⟩

/-- The blanks of a marked line can be told apart from the rest in one way. -/
theorem marks_iff_trimLeft {step : DyckStep} {t : Text} :
    Marks step t ↔ ∃ rest, trimLeft t = '!' :: rest ∧ startsLike (word step) (trimLeft rest) = true ∧
      endsWord ((trimLeft rest).drop (word step).length) = true := by
  constructor
  · rintro ⟨lead, gap, title, rfl, blank, blank', starts, ends⟩
    obtain ⟨c, rest, rfl, visible, -⟩ := exists_of_word starts
    refine ⟨_, trimLeft_append blank (by decide) _, ?_⟩
    rw [trimLeft_append blank' visible]
    exact ⟨starts, ends⟩
  · rintro ⟨rest, mark, starts, ends⟩
    refine ⟨t.takeWhile isBlank, rest.takeWhile isBlank, trimLeft rest, ?_, ?_, ?_, starts, ends⟩
    · rw [trimLeft, List.takeWhile_append_dropWhile, ← mark, trimLeft,
        List.takeWhile_append_dropWhile]
    · exact fun c => List.mem_takeWhile_imp
    · exact fun c => List.mem_takeWhile_imp

theorem isSome_titled_iff {step : DyckStep} {t : Text} :
    (titled? (word step) t).isSome = true ↔ Marks step t := by
  rw [marks_iff_trimLeft]
  unfold titled?
  cases found : Line.remarked? t with
  | none =>
    have unmarked : ¬ ∃ rest, trimLeft t = '!' :: rest := fun mark =>
      Option.some_ne_none _ ((Line.remarked_iff.mpr ⟨rfl, mark⟩).symm.trans found)
    simp only [Option.isSome_none, Bool.false_eq_true, false_iff]
    rintro ⟨rest, mark, -⟩
    exact unmarked ⟨rest, mark⟩
  | some mark =>
    obtain ⟨rfl, rest, mark⟩ := Line.remarked_iff.mp found
    have after : t.drop (indent t + 1) = rest := by
      rw [← List.drop_drop, ← trimLeft_eq_drop, mark, List.drop_one, List.tail_cons]
    simp only [drop_afterBlanks, after, mark, List.cons.injEq, true_and, exists_eq_left']
    rw [← Bool.and_eq_true]
    split_ifs with both
    · simp [both]
    · simp [both]

instance (step : DyckStep) (t : Text) : Decidable (Marks step t) :=
  decidable_of_iff _ isSome_titled_iff

theorem eq_of_marks {step other : DyckStep} {t : Text} (marks : Marks step t)
    (marks' : Marks other t) : step = other := by
  obtain ⟨rest, mark, starts, -⟩ := marks_iff_trimLeft.mp marks
  obtain ⟨rest', mark', starts', -⟩ := marks_iff_trimLeft.mp marks'
  obtain rfl : rest = rest' := by simpa [mark] using mark'
  obtain ⟨c, title, same, -, lower⟩ := exists_of_word starts
  obtain ⟨c', title', same', -, lower'⟩ := exists_of_word starts'
  obtain ⟨rfl, -⟩ : c = c' ∧ title = title' := by simpa [same] using same'
  have letters : letter step = letter other := lower.symm.trans lower'
  cases step <;> cases other <;> first | rfl | simp [letter] at letters

/-- The step that the text of a line marks. -/
def step? (t : Text) : Option DyckStep :=
  if Marks U t then some U else if Marks D t then some D else none

theorem step_eq_some_iff {step : DyckStep} {t : Text} : step? t = some step ↔ Marks step t := by
  constructor
  · intro found
    unfold step? at found
    split_ifs at found with begins ends
    · cases found
      exact begins
    · cases found
      exact ends
  · intro marks
    cases step with
    | U => exact if_pos marks
    | D =>
      have other : ¬ Marks U t := fun begins => nomatch eq_of_marks begins marks
      rw [step?, if_neg other, if_pos marks]

/-! ## Tokens of marked lines -/

/-- Whether a token opens or closes a region. -/
def isRegion (token : Token) : Bool := token.kind = .regionStart || token.kind = .regionEnd

theorem titleTokens_eq_nil {step : DyckStep} {line : Line} (unmarked : ¬ Marks step line.text) :
    titleTokens (kind step) (word step) line = [] := by
  have none : titled? (word step) line.text = none := by
    rwa [← isSome_titled_iff, Option.isSome_iff_ne_none, not_not] at unmarked
  rw [titleTokens, none]

theorem exists_titleTokens {step : DyckStep} {line : Line} (marks : Marks step line.text) :
    ∃ token, titleTokens (kind step) (word step) line = [token] ∧ token.kind = kind step ∧
      token.Within line.start line.stop := by
  obtain ⟨title, found⟩ := Option.isSome_iff_exists.mp (isSome_titled_iff.mpr marks)
  have some : word step ≠ [] := by cases step <;> decide
  have all : titleTokens (kind step) (word step) line =
      [.ofPiece (kind step) title.2 (line.start + title.1) none] := by
    rw [titleTokens, found]
  exact ⟨_, all, titleTokens_within some _ (all ▸ List.mem_singleton_self _)⟩

theorem exists_shape {step : DyckStep} {t : Text} (marks : Marks step t) :
    ∃ column, Line.shape t = .comment column := by
  obtain ⟨rest, mark, -⟩ := marks_iff_trimLeft.mp marks
  exact ⟨indent t, Line.shape_remarked (Line.remarked_iff.mpr ⟨rfl, rest, mark⟩)⟩

theorem filter_lineTokens (line : Line) :
    (lineTokens line).filter isRegion =
      titleTokens (kind U) (word U) line ++ titleTokens (kind D) (word D) line := by
  unfold lineTokens
  cases shape : Line.shape line.text with
  | comment column =>
    dsimp only
    rw [List.filter_cons_of_neg (by simp [isRegion])]
    refine List.filter_eq_self.mpr fun token member => ?_
    rcases List.mem_append.mp member with begins | ends
    · simp [isRegion, (titleTokens_within regionWord_ne_nil token begins).1]
    · simp [isRegion, (titleTokens_within endRegionWord_ne_nil token ends).1]
  | _ =>
    have unmarked (step : DyckStep) : ¬ Marks step line.text := fun marks => by
      obtain ⟨column, comment⟩ := exists_shape marks
      simp [shape] at comment
    simp [titleTokens_eq_nil (unmarked _)]

/-- A line has a token for the step it marks. -/
theorem filter_lineTokens_of_marks {step : DyckStep} {line : Line} (marks : Marks step line.text) :
    ∃ token, (lineTokens line).filter isRegion = [token] ∧ token.kind = kind step ∧
      token.Within line.start line.stop := by
  obtain ⟨token, own, facts⟩ := exists_titleTokens marks
  refine ⟨token, ?_, facts⟩
  have other {step' : DyckStep} (differ : step' ≠ step) :
      titleTokens (kind step') (word step') line = [] :=
    titleTokens_eq_nil fun marks' => differ (eq_of_marks marks' marks)
  rw [filter_lineTokens]
  cases step with
  | U => rw [own, other (by simp), List.append_nil]
  | D => rw [own, other (by simp), List.nil_append]

theorem filter_lineTokens_of_unmarked {line : Line} (unmarked : step? line.text = none) :
    (lineTokens line).filter isRegion = [] := by
  have neither (step : DyckStep) : ¬ Marks step line.text := fun marks => by
    simp [step_eq_some_iff.mpr marks] at unmarked
  rw [filter_lineTokens, titleTokens_eq_nil (neither U), titleTokens_eq_nil (neither D),
    List.append_nil]

/-- The tokens for the marks stand in the order of the lines. -/
theorem regionTokens_pairwise {lines : List Line} (ordered : lines.Pairwise Line.Before) :
    (lines.flatMap fun line => (lineTokens line).filter isRegion).Pairwise Precedes := by
  refine List.pairwise_flatMap.mpr ⟨fun line _ => ?_, ordered.imp fun {line later} before => ?_⟩
  · cases step : step? line.text with
    | none =>
      rw [filter_lineTokens_of_unmarked step]
      exact .nil
    | some step' =>
      obtain ⟨token, own, -⟩ := filter_lineTokens_of_marks (step_eq_some_iff.mp step)
      rw [own]
      exact List.pairwise_singleton _ _
  · intro a first b second
    have within := lineTokens_within line a (List.mem_of_mem_filter first)
    have within' := lineTokens_within later b (List.mem_of_mem_filter second)
    exact .inl <| calc
      a.start < a.stop := within.start_lt
      _ ≤ line.stop := within.le_high
      _ < later.start := before.stop
      _ ≤ b.start := within'.low_le

end Marker

/-! ## Marks as brackets -/

namespace Fold

/-- The last line that starts at or before an offset of a line is that line. -/
theorem lineAt_eq {lines : List Line} (ordered : lines.Pairwise Line.Before) {line : Line}
    (member : line ∈ lines) {offset : Nat} (low : line.start ≤ offset) (high : offset ≤ line.stop) :
    lineAt lines offset = line.index := by
  obtain ⟨before, after, rfl⟩ := List.append_of_mem member
  obtain ⟨-, rest, earlier⟩ := List.pairwise_append.mp ordered
  have later := (List.pairwise_cons.mp rest).1
  have beyond : after.takeWhile (·.start ≤ offset) = [] := by
    cases after with
    | nil => rfl
    | cons next others =>
      have less := (later next List.mem_cons_self).stop
      exact List.takeWhile_cons_of_neg (by simpa using Nat.lt_of_le_of_lt high less)
  have taken : (before ++ line :: after).takeWhile (·.start ≤ offset) = before ++ [line] := by
    rw [List.takeWhile_append_of_pos, List.takeWhile_cons_of_pos (by simpa using low), beyond]
    intro first member
    have less := (earlier first member line List.mem_cons_self).stop
    unfold Line.stop at less
    rw [decide_eq_true_iff]
    omega
  rw [lineAt, taken]
  simp

/-- The bracket of a token that opens or closes a region. -/
def bracket? (lines : List Line) (token : Token) : Option Bracket :=
  match token.kind with
  | .regionStart => some ⟨lineAt lines token.start, U⟩
  | .regionEnd => some ⟨lineAt lines token.start, D⟩
  | _ => none

/-- The fold of two matched brackets. -/
def ofPair (pair : Nat × Nat) : Fold := ⟨pair.1, pair.2, .region⟩

theorem bracket_of_kind {lines : List Line} {token : Token} (step : DyckStep)
    (same : token.kind = Marker.kind step) :
    bracket? lines token = some ⟨lineAt lines token.start, step⟩ := by
  unfold bracket?
  cases step with
  | U => rw [same, Marker.kind]
  | D => rw [same, Marker.kind]

theorem bracket_eq_none {lines : List Line} {token : Token} (other : Marker.isRegion token = false) :
    bracket? lines token = none := by
  unfold bracket?
  split
  · simp [Marker.isRegion, *] at other
  · simp [Marker.isRegion, *] at other
  · rfl

/-- Tokens in order fold what their brackets match. -/
theorem regions_eq_matched {lines : List Line} {opened : List Nat} {tokens : List Token}
    (ordered : (opened.reverse ++ (tokens.filterMap (bracket? lines)).map Bracket.line).Pairwise
      (· < ·)) :
    regions lines opened tokens =
      (Bracket.matched opened (tokens.filterMap (bracket? lines))).map ofPair := by
  fun_induction regions lines opened tokens with
  | case1 opened => rfl
  | case2 opened token rest begins ih =>
    rw [List.filterMap_cons_some (bracket_of_kind U begins)] at ordered ⊢
    exact ih (by simpa using ordered)
  | case3 token rest start outer ends endLine others less ih =>
    rw [List.filterMap_cons_some (bracket_of_kind D ends)] at ordered ⊢
    rw [Bracket.matched, List.map_cons]
    refine congrArg _ (ih (ordered.sublist ?_))
    simp
  | case4 token rest start outer ends endLine others less ih =>
    -- cannot be: what is open stands before its end
    rw [List.filterMap_cons_some (bracket_of_kind D ends)] at ordered
    refine absurd ((List.pairwise_append.mp ordered).2.2 start ?_ _ List.mem_cons_self) less
    simp
  | case5 opened token rest unopened unmatched ih =>
    -- an end with nothing open is matched with nothing; other tokens are no brackets
    by_cases ends : token.kind = .regionEnd
    · cases opened with
      | nil =>
        rw [List.filterMap_cons_some (bracket_of_kind D ends)] at ordered ⊢
        exact ih (List.pairwise_cons.mp ordered).2
      | cons start outer => exact (unmatched start outer ends rfl).elim
    · have other : Marker.isRegion token = false := by
        simpa [Marker.isRegion, ends] using unopened
      rw [List.filterMap_cons_none (bracket_eq_none other)] at ordered ⊢
      exact ih ordered

end Fold

namespace Record

theorem not_isRegion_of_mem {record : Record} {token : Token} (member : token ∈ record.tokens) :
    Marker.isRegion token = false := by
  cases given_of_mem member with
  | line line own found =>
    have of_kinds := Layout.lineTokens_kind token found
    unfold Marker.isRegion
    grind
  | marker place present => rfl
  | content place content present found =>
    have of_kinds := place.tag.contentKind_mem
    unfold Marker.isRegion contentToken
    grind
  | call layout own called =>
    have of_kinds := Layout.callTokens_kind token called
    unfold Marker.isRegion
    grind

end Record

namespace Document

/-- No record claims the line. -/
def IsFree (document : Document) (line : Line) : Prop :=
  ∀ record ∈ document.records, line ∉ record.lines

instance (document : Document) (line : Line) : Decidable (document.IsFree line) :=
  inferInstanceAs (Decidable (∀ record ∈ document.records, line ∉ record.lines))

/-- The marks on the lines that no record claims. -/
def marks (document : Document) : List Bracket :=
  (document.lines.filter document.IsFree).filterMap fun line =>
    (Marker.step? line.text).map (Bracket.mk line.index)

theorem mem_marks {document : Document} {index : Nat} {step : DyckStep} :
    ⟨index, step⟩ ∈ document.marks ↔
      ∃ line ∈ document.lines, line.index = index ∧ document.IsFree line ∧
        Marker.Marks step line.text := by
  simp only [marks, List.mem_filterMap, List.mem_filter, decide_eq_true_iff, Option.map_eq_some_iff,
    Bracket.mk.injEq, Marker.step_eq_some_iff]
  constructor
  · rintro ⟨line, ⟨present, free⟩, _, marked, rfl, rfl⟩
    exact ⟨line, present, rfl, free, marked⟩
  · rintro ⟨line, present, rfl, free, marked⟩
    exact ⟨line, ⟨present, free⟩, step, marked, rfl, rfl⟩

theorem marks_pairwise (text : Text) : (parse text).marks.Pairwise (·.line < ·.line) := by
  refine List.pairwise_filterMap.mpr (((Line.split_pairwise text).filter _).imp ?_)
  intro line later before a first b second
  obtain ⟨_, -, rfl⟩ := Option.map_eq_some_iff.mp first
  obtain ⟨_, -, rfl⟩ := Option.map_eq_some_iff.mp second
  exact before.index

theorem eq_of_index {text : Text} {line other : Line} (present : line ∈ (parse text).lines)
    (present' : other ∈ (parse text).lines) (same : line.index = other.index) : line = other := by
  rcases Record.pairwise_cases (Line.split_pairwise text) present present' with
    equal | before | after
  · exact equal
  · exact absurd same (Nat.ne_of_lt before.index)
  · exact absurd same.symm (Nat.ne_of_lt after.index)

/-- No record claims a line if none claims its number. -/
theorem isFree_iff {text : Text} {line : Line} (present : line ∈ (parse text).lines) :
    (parse text).IsFree line ↔
      ∀ record ∈ (parse text).records, line.index ∉ record.lines.map Line.index := by
  refine forall₂_congr fun record member => not_congr ?_
  constructor
  · exact List.mem_map_of_mem
  · intro claimed
    obtain ⟨own, mine, same⟩ := List.mem_map.mp claimed
    have there : own ∈ (parse text).lines := (Record.lines_consecutive record member).subset mine
    exact eq_of_index there present same ▸ mine

theorem markerTokens_eq (text : Text) :
    Marker.tokens (parse text).lines (parse text).records =
      ((parse text).lines.filter (parse text).IsFree).flatMap Marker.lineTokens := by
  unfold Marker.tokens
  refine congrArg (List.flatMap Marker.lineTokens) (List.filter_congr fun line present => ?_)
  rw [Bool.eq_iff_iff, decide_eq_true_iff, isFree_iff present]
  simp only [List.contains_eq_mem, Bool.not_eq_true', decide_eq_false_iff_not, List.mem_flatMap,
    not_exists, not_and]

theorem filter_isRegion (text : Text) :
    (parse text).tokens.filter Marker.isRegion =
      ((parse text).lines.filter (parse text).IsFree).flatMap fun line =>
        (Marker.lineTokens line).filter Marker.isRegion := by
  have records : ((parse text).records.flatMap Record.tokens).filter Marker.isRegion = [] := by
    refine List.filter_eq_nil_iff.mpr fun token member => ?_
    obtain ⟨record, -, own⟩ := List.mem_flatMap.mp member
    simp [Record.not_isRegion_of_mem own]
  rw [parse_tokens]
  refine filter_sort ?_ (Marker.regionTokens_pairwise ((Line.split_pairwise text).filter _))
  rw [unsorted, List.filter_append, records, List.nil_append, markerTokens_eq, List.filter_flatMap]

/-- The bracket of the token for the mark on a line is the mark. -/
theorem filterMap_lineTokens {text : Text} {line : Line} (present : line ∈ (parse text).lines) :
    ((Marker.lineTokens line).filter Marker.isRegion).filterMap (Fold.bracket? (parse text).lines) =
      ((Marker.step? line.text).map (Bracket.mk line.index)).toList := by
  cases step : Marker.step? line.text with
  | none =>
    rw [Marker.filter_lineTokens_of_unmarked step]
    rfl
  | some step' =>
    obtain ⟨token, own, kind, within⟩ :=
      Marker.filter_lineTokens_of_marks (Marker.step_eq_some_iff.mp step)
    have index : Fold.lineAt (parse text).lines token.start = line.index :=
      Fold.lineAt_eq (Line.split_pairwise text) present within.low_le
        (Nat.le_trans (Nat.le_of_lt within.start_lt) within.le_high)
    rw [own, List.filterMap_cons_some (Fold.bracket_of_kind step' kind), index]
    rfl

theorem filterMap_bracket (text : Text) :
    (parse text).tokens.filterMap (Fold.bracket? (parse text).lines) = (parse text).marks := by
  have regions : (parse text).tokens.filterMap (Fold.bracket? (parse text).lines) =
      ((parse text).tokens.filter Marker.isRegion).filterMap (Fold.bracket? (parse text).lines) := by
    rw [List.filterMap_filter]
    refine List.filterMap_congr fun token _ => ?_
    split_ifs with region
    · rfl
    · exact Fold.bracket_eq_none (by simpa using region)
  rw [regions, filter_isRegion, List.filterMap_flatMap, marks, List.filterMap_eq_flatMap_toList]
  exact List.flatMap_congr fun line member => filterMap_lineTokens (List.mem_of_mem_filter member)

/-- The regions of a document are what its marks match. -/
theorem regions_eq (text : Text) :
    Fold.regions (parse text).lines [] (parse text).tokens =
      (Bracket.matched [] (parse text).marks).map Fold.ofPair := by
  have brackets := filterMap_bracket text
  rw [← brackets]
  refine Fold.regions_eq_matched ?_
  rw [brackets]
  exact List.pairwise_map.mpr (marks_pairwise text)

end Document
end Mapkeys
