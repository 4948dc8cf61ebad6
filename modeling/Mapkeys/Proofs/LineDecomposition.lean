import Mapkeys.Proofs.ContentEnds
import Mapkeys.Proofs.RegionMarks

/-!
# Decomposition of lines

Every line is of one kind: the tests that tell the kinds apart exclude each other, so they can be
made in any order (`firstKind_perm`). A declaration, a continuation or a comment is then made up of
its parts and blanks, and each part is of the right form (`ofLine_decomposes`).
-/

namespace Mapkeys

open Text

namespace Text

theorem startsLike_append_marker (marker more t : Text) :
    startsLike (marker ++ more) t =
      (startsLike marker t && startsLike more (t.drop marker.length)) := by
  fun_induction startsLike marker t with
  | case1 t => simp
  | case2 letter marker => rfl
  | case3 letter marker c rest ih =>
    rw [List.cons_append, startsLike, ih, Bool.and_assoc, List.length_cons, List.drop_succ_cons]

theorem startsLike_take {marker t : Text} (starts : startsLike marker t = true) :
    startsLike marker (t.take marker.length) = true := by
  fun_induction startsLike marker t with
  | case1 t => rfl
  | case2 => simp at starts
  | case3 letter marker c rest ih =>
    obtain ⟨same, others⟩ := Bool.and_eq_true_iff.mp starts
    rw [List.length_cons, List.take_succ_cons, startsLike, same, ih others]
    rfl

theorem allBlank_iff {t : Text} : allBlank t = true ↔ trimLeft t = [] := by
  rw [allBlank, List.all_eq_true, trimLeft, List.dropWhile_eq_nil_iff]

theorem exists_blank_of_indent {t : Text} (indented : indent t ≠ 0) :
    ∃ c rest, t = c :: rest ∧ isBlank c = true := by
  cases t with
  | nil => exact absurd rfl indented
  | cons c rest =>
    refine ⟨c, rest, rfl, ?_⟩
    by_contra visible
    simp [indent, visible] at indented

theorem visible_trimLeft (t : Text) : ∀ c ∈ (trimLeft t).head?, isBlank c = false := by
  intro c head
  have first := List.head?_dropWhile_not isBlank t
  rw [← trimLeft, Option.mem_def.mp head] at first
  simpa using first

end Text

/-! ## Kinds -/

namespace Line

/-- The tests that tell the kinds of lines apart. A line that passes none of them is another one. -/
def tests : List (LineKind × (Text → Bool)) :=
  [(.blank, allBlank), (.declaration, fun t => (declared? t).isSome),
    (.continuation, fun t => (continued? t).isSome), (.comment, fun t => (remarked? t).isSome)]

/-- The kind of the first test that a text passes. -/
def firstKind (tests : List (LineKind × (Text → Bool))) (t : Text) : LineKind :=
  ((tests.find? (·.2 t)).map Prod.fst).getD .other

theorem declared_starts {t : Text} {head : Declared} (found : declared? t = some head) :
    startsLike keyword (trimLeft t) = true ∧
      ∃ c rest, (trimLeft t).drop keyword.length = c :: rest ∧ isBlank c = true := by
  unfold declared? at found
  dsimp only at found
  split_ifs at found with starts missing
  rw [trimLeft_eq_drop]
  exact ⟨starts, exists_blank_of_indent (not_or.mp missing).1⟩

theorem continued_starts {t : Text} {column : Nat} (found : continued? t = some column) :
    startsLike continuationMarker (trimLeft t) = true := by
  unfold continued? at found
  dsimp only at found
  split_ifs at found with starts
  rwa [trimLeft_eq_drop]

theorem not_allBlank_of_starts {t : Text} {letter : Char} {marker : Text}
    (starts : startsLike (letter :: marker) (trimLeft t) = true) : ¬ allBlank t = true := by
  obtain ⟨c, rest, visible, -⟩ := exists_of_startsLike starts
  rw [allBlank_iff, visible]
  exact List.cons_ne_nil c rest

/-- After the keyword a continuation has a bracket where a declaration has a blank. -/
theorem declared_of_continued {t : Text} {column : Nat} (found : continued? t = some column) :
    declared? t = none := by
  rw [Option.eq_none_iff_forall_ne_some]
  intro head declared
  obtain ⟨-, c, rest, gap, blank⟩ := declared_starts declared
  have starts := continued_starts found
  have marker : continuationMarker = keyword ++ '(' :: "continued)".toList := rfl
  rw [marker, startsLike_append_marker, Bool.and_eq_true, gap] at starts
  obtain ⟨d, others, same, bracket⟩ := exists_of_startsLike starts.2
  obtain ⟨rfl, -⟩ := List.cons.inj same
  rw [visible_of_sameLetter (by decide) bracket] at blank
  cases blank

theorem shape_of_declared {t : Text} {head : Declared} (found : declared? t = some head) :
    shape t = .declaration head := by
  unfold shape
  rw [if_neg (not_allBlank_of_starts (declared_starts found).1), found]

theorem shape_of_continued {t : Text} {column : Nat} (found : continued? t = some column) :
    shape t = .continuation column := by
  unfold shape
  rw [if_neg (not_allBlank_of_starts (continued_starts found)), declared_of_continued found, found]

theorem passes_of_kind (t : Text) : ∀ test ∈ tests, kindOf t = test.1 → test.2 t = true := by
  unfold kindOf shape
  by_cases blank : allBlank t = true
  · simp [tests, blank, Shape.kind]
  cases declaration : declared? t with
  | some head => simp [tests, blank, declaration, Shape.kind]
  | none =>
    cases continuation : continued? t with
    | some column => simp [tests, blank, continuation, Shape.kind]
    | none =>
      cases comment : remarked? t with
      | some column => simp [tests, blank, comment, Shape.kind]
      | none => simp [tests, blank, Shape.kind]

/-- Each test finds exactly the lines of its kind. -/
theorem kindOf_iff (t : Text) : ∀ test ∈ tests, kindOf t = test.1 ↔ test.2 t = true := by
  intro test member
  refine ⟨passes_of_kind t test member, ?_⟩
  unfold kindOf
  simp only [tests, List.mem_cons, List.not_mem_nil, or_false] at member
  rcases member with rfl | rfl | rfl | rfl
  · intro blank
    rw [shape, if_pos blank]
    rfl
  · intro passed
    obtain ⟨head, found⟩ := Option.isSome_iff_exists.mp passed
    rw [shape_of_declared found]
    rfl
  · intro passed
    obtain ⟨column, found⟩ := Option.isSome_iff_exists.mp passed
    rw [shape_of_continued found]
    rfl
  · intro passed
    obtain ⟨column, found⟩ := Option.isSome_iff_exists.mp passed
    rw [shape_remarked found]
    rfl

theorem tests_apart (t : Text) : tests.Pairwise fun a b => ¬ (a.2 t = true ∧ b.2 t = true) := by
  have kinds : tests.Pairwise fun a b => a.1 ≠ b.1 := by decide
  refine kinds.imp_of_mem fun {a b} first second differ both => differ ?_
  rw [← (kindOf_iff t a first).mpr both.1, ← (kindOf_iff t b second).mpr both.2]

/-- The tests can be made in any order. -/
theorem firstKind_perm {order : List (LineKind × (Text → Bool))} (perm : order.Perm tests)
    (t : Text) : firstKind order t = kindOf t := by
  unfold firstKind
  cases found : order.find? (·.2 t) with
  | some test =>
    have member := perm.subset (List.mem_of_find?_eq_some found)
    have passed := List.find?_some found
    exact ((kindOf_iff t test member).mpr passed).symm
  | none =>
    have failed : ∀ test ∈ tests, kindOf t ≠ test.1 := by
      intro test member kind
      have none := List.find?_eq_none.mp found test (perm.symm.subset member)
      exact none ((kindOf_iff t test member).mp kind)
    simp only [tests, List.forall_mem_cons] at failed
    cases kind : kindOf t with
    | other => rfl
    | _ => simp [kind] at failed

end Line

/-! ## Parts -/

namespace Layout

/-- The marker that lines of a kind have. -/
def markerWord : LineKind → Text
  | .declaration => Line.keyword
  | .continuation => Line.continuationMarker
  | _ => []

theorem withBody_begins (line : Line) (head : LineHead) (column : Nat) :
    (withBody line head column).body.text <+: line.text.drop column := by
  obtain ⟨pause, rest, -, parts, -⟩ := withBody_spelled line head column
  rw [parts]
  exact List.prefix_append _ _

theorem visible_of_begins {t body : Text} (begins : body <+: t)
    (visible : ∀ c ∈ t.head?, isBlank c = false) : ∀ c ∈ body.head?, isBlank c = false := by
  intro c head
  obtain ⟨rest, rfl⟩ := begins
  refine visible c ?_
  rw [List.head?_append, Option.mem_def.mp head]
  rfl

/-- A body has no blanks at its beginning. -/
theorem visible_body (line : Line) : ∀ c ∈ (ofLine line).body.text.head?, isBlank c = false := by
  have after (head : LineHead) (column : Nat) :
      ∀ c ∈ (withBody line head (afterBlanks line.text column)).body.text.head?,
        isBlank c = false := by
    refine visible_of_begins (withBody_begins line head _) ?_
    rw [drop_afterBlanks]
    exact visible_trimLeft _
  have read := Line.shape_spec line.text
  unfold ofLine
  cases shape : Line.shape line.text with
  | blank => simp
  | other => simp
  | comment column =>
    rw [shape] at read
    refine visible_of_begins (withBody_begins line _ _) ?_
    exact visible_head (Line.remarked_head read) (by decide)
  | continuation column => exact after _ _
  | declaration head => exact after _ _

theorem comment_body {line : Line} (kind : line.kind = .comment) :
    (ofLine line).body.text.head? = some '!' := by
  have read := Line.shape_spec line.text
  unfold Line.kind Line.kindOf at kind
  unfold ofLine
  cases shape : Line.shape line.text with
  | comment column =>
    rw [shape] at read
    have mark := Line.remarked_head read
    obtain ⟨pause, rest, blank, parts, -⟩ := withBody_spelled line .comment column
    rw [parts] at mark
    cases body : (withBody line .comment column).body.text with
    | cons c others => simpa [body] using mark
    | nil =>
      -- an exclamation mark is neither blank nor an escape
      rw [body, List.nil_append] at mark
      have hidden : isBlank '!' = false := by decide
      rcases List.mem_append.mp (List.mem_of_head? mark) with between | later
      · rw [blank '!' (List.mem_append_left _ between)] at hidden
        cases hidden
      · rcases List.mem_append.mp later with escape | after
        · unfold escapeText at escape
          split_ifs at escape <;> simp at escape
        · rw [blank '!' (List.mem_append_right _ after)] at hidden
          cases hidden
  | _ => simp [shape, Line.Shape.kind] at kind

theorem markerText_like (line : Line) :
    startsLike (markerWord line.kind) (ofLine line).markerText = true ∧
      (ofLine line).markerText.length = (markerWord line.kind).length := by
  have like {word : Text} {column : Nat} (starts : startsLike word (line.text.drop column) = true) :
      startsLike word (pieceAt line column word.length).text = true ∧
        (pieceAt line column word.length).text.length = word.length :=
    ⟨startsLike_take starts, List.length_take_of_le (startsLike_length starts)⟩
  have read := Line.shape_spec line.text
  unfold Line.kind Line.kindOf ofLine
  cases shape : Line.shape line.text with
  | blank => exact ⟨rfl, rfl⟩
  | other => exact ⟨rfl, rfl⟩
  | comment column => simp [markerText, marker?, markerWord, Line.Shape.kind, startsLike]
  | continuation column =>
    rw [shape] at read
    have starts := Line.continued_starts read
    rw [trimLeft_eq_drop, ← Line.continued_column read] at starts
    simpa [markerText, marker?, markerWord, Line.Shape.kind] using like starts
  | declaration head =>
    rw [shape] at read
    have starts := (Line.declared_starts read).1
    rw [trimLeft_eq_drop, ← (Line.declared_columns read).1] at starts
    simpa [markerText, marker?, markerWord, Line.Shape.kind] using like starts

theorem name_isSome_iff (line : Line) :
    (ofLine line).name?.isSome = true ↔ line.kind = .declaration := by
  rw [← ofLine_kind]
  unfold name? kind
  cases (ofLine line).head with
  | _ => simp

/-- The parts of a line: the marker of its kind, the name of a declaration, and a body without blanks
    at its ends, which is the remark of a comment. Between them there are only blanks, and each part
    stands at its own offset. -/
structure Decomposed (line : Line) (layout : Layout) : Prop where
  kind : layout.kind = line.kind
  marker : startsLike (markerWord line.kind) layout.markerText = true ∧
    layout.markerText.length = (markerWord line.kind).length
  spelled : ∃ lead gap space pause rest, Spelled line layout lead gap space pause rest
  body_start : ∀ c ∈ layout.body.text.head?, isBlank c = false
  body_stop : ∀ c ∈ layout.body.text.getLast?, isBlank c = false
  remark : line.kind = .comment → layout.body.text.head? = some '!'
  declared : layout.name?.isSome = true ↔ line.kind = .declaration
  name : ∀ name ∈ layout.name?, name.text ≠ [] ∧ ∀ c ∈ name.text, isBlank c = false ∧ c ≠ ';'

/-- No line passes two of the tests for the kinds, so they can be made in any order, and each of them
    finds exactly the lines of its kind. A line that is neither blank nor another setting is spelled by
    its parts with nothing but blanks between them. -/
theorem ofLine_decomposes (line : Line) :
    (Line.tests.Pairwise fun a b => ¬ (a.2 line.text = true ∧ b.2 line.text = true)) ∧
      (∀ order, order.Perm Line.tests → Line.firstKind order line.text = line.kind) ∧
      (∀ test ∈ Line.tests, line.kind = test.1 ↔ test.2 line.text = true) ∧
      (line.kind ∉ [LineKind.blank, .other] → Decomposed line (ofLine line)) := by
  refine ⟨Line.tests_apart line.text, fun order perm => Line.firstKind_perm perm line.text,
    Line.kindOf_iff line.text, fun known => ?_⟩
  refine ⟨ofLine_kind line, markerText_like line, ofLine_spelled known, visible_body line,
    visible_last (ofLine_tight line), comment_body, name_isSome_iff line, fun name own => ?_⟩
  have ordered := (ofLine_ordered line).name name own
  refine ⟨fun empty => ?_, name_letters own⟩
  rw [Piece.stop, empty, List.length_nil] at ordered
  omega

/-- A declaration whose name ends in a backslash before the escape of the line. -/
def twoBackslashes : Line := ⟨4, 10, " MapKey a\\\\ ".toList⟩

theorem twoBackslashes_decomposed :
    twoBackslashes.kind = .declaration ∧ Decomposed twoBackslashes (ofLine twoBackslashes) ∧
      (ofLine twoBackslashes).name? = some ⟨18, ['a', '\\']⟩ ∧
      (ofLine twoBackslashes).escapeAt = some 20 := by
  have kind : twoBackslashes.kind = .declaration := by decide
  exact ⟨kind, (ofLine_decomposes twoBackslashes).2.2.2 (by simp [kind]), by decide, by decide⟩

end Layout
end Mapkeys
