import Mapkeys.Proofs.LineParts
import Mapkeys.Proofs.TrailingBlanks

/-!
# How lines are spelled

A declaration, a continuation or a comment is spelled by its marker, name, body and escape, with
nothing but blanks around them (`ofLine_spelled`). So every other character of the line stands in one
of these parts (`ofLine_part`).
-/

namespace Mapkeys

open Text

namespace Text

/-- The blanks that stand at a column. -/
def blanksAt (t : Text) (column : Nat) : Text := (t.drop column).takeWhile isBlank

theorem blank_of_blanksAt {t : Text} {column : Nat} {c : Char} (member : c ∈ blanksAt t column) :
    isBlank c = true :=
  List.mem_takeWhile_imp member

theorem take_afterBlanks (t : Text) (column : Nat) :
    t.take (Layout.afterBlanks t column) = t.take column ++ blanksAt t column := by
  have taken : blanksAt t column <+: t.drop column := List.takeWhile_prefix isBlank
  rw [Layout.afterBlanks, List.take_add, List.prefix_iff_eq_take.mp taken]
  rfl

theorem take_indent (t : Text) : t.take (indent t) = blanksAt t 0 := by
  have taken : blanksAt t 0 <+: t := List.takeWhile_prefix isBlank
  exact (List.prefix_iff_eq_take.mp taken).symm

theorem getElem_append_cases {a b : Text} {column : Nat} {c : Char}
    (there : (a ++ b)[column]? = some c) :
    a[column]? = some c ∨ a.length ≤ column ∧ b[column - a.length]? = some c := by
  by_cases inside : column < a.length
  · rw [List.getElem?_append_left inside] at there
    exact .inl there
  · rw [List.getElem?_append_right (by omega)] at there
    exact .inr ⟨by omega, there⟩

end Text

namespace Piece

/-- The character that a piece has at an offset. -/
def Shows (piece : Piece) (offset : Nat) (c : Char) : Prop :=
  ∃ column, offset = piece.start + column ∧ piece.text[column]? = some c

theorem shows_text {text : Text} {offset : Nat} {c : Char} :
    Shows ⟨0, text⟩ offset c ↔ text[offset]? = some c := by
  simp [Shows]

theorem Shows.bounds {piece : Piece} {offset : Nat} {c : Char} (shows : piece.Shows offset c) :
    piece.start ≤ offset ∧ offset < piece.stop := by
  obtain ⟨column, rfl, there⟩ := shows
  have inside := (List.getElem?_eq_some_iff.mp there).1
  unfold stop
  omega

theorem PartOf.shows_iff {piece whole : Piece} (part : piece.PartOf whole) {offset : Nat} {c : Char} :
    piece.Shows offset c ↔ whole.Shows offset c ∧ piece.start ≤ offset ∧ offset < piece.stop := by
  obtain ⟨column, start, begins⟩ := part
  have same {further : Nat} (inside : further < piece.text.length) :
      piece.text[further]? = whole.text[column + further]? := by
    rw [← List.getElem?_drop, List.prefix_iff_getElem?.mp begins further inside,
      List.getElem?_eq_getElem inside]
  constructor
  · intro shows
    refine ⟨?_, shows.bounds⟩
    obtain ⟨further, rfl, there⟩ := shows
    have inside := (List.getElem?_eq_some_iff.mp there).1
    exact ⟨column + further, by omega, by rw [← same inside, there]⟩
  · rintro ⟨⟨place, rfl, there⟩, low, high⟩
    unfold stop at high
    refine ⟨whole.start + place - piece.start, by omega, ?_⟩
    rw [same (by omega), ← there]
    congr 1
    omega

/-- A part of a piece reads as the whole does between two columns of the part. -/
theorem PartOf.slice_inner {piece : Piece} {text : Text} (part : piece.PartOf ⟨0, text⟩)
    {first last : Nat} (order : first ≤ last) (inside : last ≤ piece.text.length) :
    slice text (piece.start + first) (piece.start + last) = slice piece.text first last := by
  obtain ⟨column, start, rest, begins⟩ := part
  rw [Nat.zero_add] at start
  change piece.text ++ rest = text.drop column at begins
  rw [slice, slice, Nat.add_sub_add_left, ← List.drop_drop, start, ← begins,
    List.drop_append_of_le_length (by omega), List.take_append_of_le_length]
  rw [List.length_drop]
  omega

end Piece

namespace Layout

/-! ## Parts and blanks -/

/-- The text of the keyword or the continuation marker. -/
def markerText (layout : Layout) : Text := (layout.marker?.map Piece.text).getD []

/-- The text of the declared name. -/
def nameText (layout : Layout) : Text := (layout.name?.map Piece.text).getD []

/-- The backslash at the end of an escaped line. -/
def escapeText (layout : Layout) : Text := if layout.isEscaped then ['\\'] else []

/-- The parts of a line and the blanks between them: before the marker, the name, the body and the
    escape, and at the end of the line. -/
structure Spelled (line : Line) (layout : Layout) (lead gap space pause rest : Text) : Prop where
  text : line.text = lead ++ (layout.markerText ++ (gap ++ (layout.nameText ++ (space ++
    (layout.body.text ++ (pause ++ (layout.escapeText ++ rest)))))))
  blank : ∀ c ∈ lead ++ gap ++ space ++ pause ++ rest, isBlank c = true
  marker : ∀ marker ∈ layout.marker?, marker.start = line.start + lead.length
  name : ∀ name ∈ layout.name?,
    name.start = line.start + (lead ++ (layout.markerText ++ gap)).length
  body : layout.body.start =
    line.start + (lead ++ (layout.markerText ++ (gap ++ (layout.nameText ++ space)))).length
  escape : ∀ offset ∈ layout.escapeAt, offset = layout.body.stop + pause.length

/-- What follows the column of the body: the body itself, and the escape after blanks. -/
theorem withBody_spelled (line : Line) (head : LineHead) (column : Nat) :
    ∃ pause rest, (∀ c ∈ pause ++ rest, isBlank c = true) ∧
      line.text.drop column = (withBody line head column).body.text ++
        (pause ++ ((withBody line head column).escapeText ++ rest)) ∧
      ∀ offset ∈ (withBody line head column).escapeAt,
        offset = (withBody line head column).body.stop + pause.length := by
  obtain ⟨rest, whole, blank⟩ := exists_blanks line.text
  unfold withBody
  dsimp only
  split_ifs with escaped
  · obtain ⟨inner, content⟩ := List.getLast?_eq_some_iff.mp escaped.1
    obtain ⟨pause, kept, blank'⟩ := exists_blanks inner
    have inside : column ≤ inner.length := by
      have before := escaped.2
      rw [content, List.length_append, List.length_singleton] at before
      omega
    have cut : inner.drop column =
        (trimRight inner).drop column ++ pause.drop (column - (trimRight inner).length) := by
      conv_lhs => rw [kept]
      exact List.drop_append
    have length := congrArg List.length kept
    rw [List.length_append] at length
    refine ⟨pause.drop (column - (trimRight inner).length), rest, ?_, ?_, ?_⟩
    · intro c member
      rcases List.mem_append.mp member with between | after
      · exact blank' c (List.mem_of_mem_drop between)
      · exact blank c after
    · have text : line.text = inner ++ ('\\' :: rest) := by
        rw [whole, content, List.append_assoc, List.singleton_append]
      rw [content, List.dropLast_concat]
      conv_lhs => rw [text, List.drop_append_of_le_length inside, cut]
      simp [escapeText, isEscaped]
    · simp only [content, Option.mem_some_iff, forall_eq', Piece.stop, List.length_append,
        List.length_singleton, List.length_drop, List.dropLast_concat]
      omega
  · refine ⟨[], rest.drop (column - (trimRight line.text).length), ?_, ?_, by simp⟩
    · intro c member
      exact blank c (List.mem_of_mem_drop member)
    · conv_lhs => rw [whole]
      simp [escapeText, isEscaped, List.drop_append]

theorem spelled_withBody {line : Line} {head : LineHead} {column : Nat} {lead gap space : Text}
    (inside : column ≤ line.text.length)
    (before : line.text.take column = lead ++ ((withBody line head column).markerText ++
      (gap ++ ((withBody line head column).nameText ++ space))))
    (blank : ∀ c ∈ lead ++ gap ++ space, isBlank c = true)
    (marker : ∀ marker ∈ (withBody line head column).marker?,
      marker.start = line.start + lead.length)
    (name : ∀ name ∈ (withBody line head column).name?, name.start =
      line.start + (lead ++ ((withBody line head column).markerText ++ gap)).length) :
    ∃ pause rest, Spelled line (withBody line head column) lead gap space pause rest := by
  obtain ⟨pause, rest, blank', after, escape⟩ := withBody_spelled line head column
  refine ⟨pause, rest, ?_, ?_, marker, name, ?_, escape⟩
  · have whole := List.take_append_drop column line.text
    rw [before, after] at whole
    rw [← whole]
    simp only [List.append_assoc]
  · intro c member
    simp only [List.mem_append] at member blank blank'
    rcases member with (former | pause) | rest
    · exact blank c former
    · exact blank' c (.inl pause)
    · exact blank' c (.inr rest)
  · have length := congrArg List.length before
    rw [List.length_take, Nat.min_eq_left inside] at length
    rw [withBody_start, ← length]

end Layout

namespace Line

theorem declared_columns {t : Text} {head : Declared} (found : declared? t = some head) :
    head.keywordColumn = indent t ∧
      head.nameColumn = Layout.afterBlanks t (head.keywordColumn + keyword.length) := by
  unfold declared? at found
  dsimp only at found
  split_ifs at found
  cases found
  rw [List.drop_drop]
  exact ⟨rfl, rfl⟩

theorem continued_column {t : Text} {column : Nat} (found : continued? t = some column) :
    column = indent t := by
  unfold continued? at found
  dsimp only at found
  split_ifs at found
  cases found
  rfl

theorem remarked_column {t : Text} {column : Nat} (found : remarked? t = some column) :
    column = indent t := by
  unfold remarked? at found
  dsimp only at found
  split_ifs at found
  cases found
  rfl

end Line

namespace Layout

theorem comment_spelled {line : Line} {column : Nat} (found : Line.remarked? line.text = some column) :
    ∃ lead gap space pause rest,
      Spelled line (withBody line .comment column) lead gap space pause rest := by
  have bound := Line.remarked_bounds found
  obtain rfl := Line.remarked_column found
  refine ⟨blanksAt line.text 0, [], [], spelled_withBody (by omega) ?_ ?_ ?_ ?_⟩
  · simp [take_indent, markerText, nameText, marker?, name?]
  · simpa using fun c => blank_of_blanksAt
  · simp [marker?]
  · simp [name?]

theorem continuation_spelled {line : Line} {column : Nat} (isRemark : Bool)
    (found : Line.continued? line.text = some column) :
    ∃ lead gap space pause rest,
      Spelled line (withBody line
        (.continuation (pieceAt line column Line.continuationMarker.length) isRemark)
        (afterBlanks line.text (column + Line.continuationMarker.length)))
        lead gap space pause rest := by
  have bound := Line.continued_bounds found
  obtain rfl := Line.continued_column found
  have lead := congrArg List.length (take_indent line.text)
  rw [List.length_take, Nat.min_eq_left (by omega)] at lead
  refine ⟨blanksAt line.text 0, [],
    blanksAt line.text (indent line.text + Line.continuationMarker.length),
    spelled_withBody (afterBlanks_le bound).2 ?_ ?_ ?_ ?_⟩
  · rw [take_afterBlanks, List.take_add, take_indent]
    simp [markerText, nameText, marker?, name?, pieceAt]
  · intro c member
    rw [List.append_nil] at member
    rcases List.mem_append.mp member with before | after
    · exact blank_of_blanksAt before
    · exact blank_of_blanksAt after
  · simp only [marker?, withBody_head, Option.mem_some_iff, forall_eq', pieceAt]
    omega
  · simp [name?]

theorem declaration_spelled {line : Line} {head : Line.Declared}
    (found : Line.declared? line.text = some head) :
    ∃ lead gap space pause rest,
      Spelled line (withBody line
        (.declaration (pieceAt line head.keywordColumn Line.keyword.length)
          ⟨line.start + head.nameColumn, head.name⟩)
        (afterBlanks line.text (head.nameColumn + head.name.length)))
        lead gap space pause rest := by
  obtain ⟨start, name_start⟩ := Line.declared_columns found
  obtain ⟨order, -, bound⟩ := Line.declared_bounds found
  have name := List.prefix_iff_eq_take.mp (Line.declared_begins found)
  have lead := congrArg List.length (take_indent line.text)
  rw [List.length_take, Nat.min_eq_left (by omega), ← start] at lead
  have before : line.text.take head.nameColumn = blanksAt line.text 0 ++
      ((line.text.drop head.keywordColumn).take Line.keyword.length ++
        blanksAt line.text (head.keywordColumn + Line.keyword.length)) := by
    rw [name_start, take_afterBlanks, List.take_add, start, take_indent, List.append_assoc]
  have length := congrArg List.length before
  rw [List.length_take, Nat.min_eq_left (by omega)] at length
  refine ⟨blanksAt line.text 0, blanksAt line.text (head.keywordColumn + Line.keyword.length),
    blanksAt line.text (head.nameColumn + head.name.length),
    spelled_withBody (afterBlanks_le bound).2 ?_ ?_ ?_ ?_⟩
  · rw [take_afterBlanks, List.take_add, ← name, before]
    simp [markerText, nameText, marker?, name?, pieceAt]
  · intro c member
    rcases List.mem_append.mp member with outer | space
    · rcases List.mem_append.mp outer with lead | gap
      · exact blank_of_blanksAt lead
      · exact blank_of_blanksAt gap
    · exact blank_of_blanksAt space
  · simp only [marker?, withBody_head, Option.mem_some_iff, forall_eq', pieceAt]
    omega
  · simp only [name?, markerText, marker?, withBody_head, Option.mem_some_iff, forall_eq', pieceAt,
      Option.map_some, Option.getD_some]
    rw [← length]

/-- How a declaration, a continuation or a comment is spelled. -/
theorem ofLine_spelled {line : Line} (known : line.kind ∉ [LineKind.blank, .other]) :
    ∃ lead gap space pause rest, Spelled line (ofLine line) lead gap space pause rest := by
  have read := Line.shape_spec line.text
  unfold Line.kind Line.kindOf at known
  unfold ofLine
  cases shape : Line.shape line.text with
  | blank => simp [shape, Line.Shape.kind] at known
  | other => simp [shape, Line.Shape.kind] at known
  | comment column =>
    rw [shape] at read
    exact comment_spelled read
  | continuation column =>
    rw [shape] at read
    exact continuation_spelled _ read
  | declaration head =>
    rw [shape] at read
    exact declaration_spelled read

/-! ## The part that a character stands in -/

/-- The part of a line that has a character at an offset. -/
inductive Part (layout : Layout) (offset : Nat) (c : Char) : Prop
  | marker (marker : Piece) (own : layout.marker? = some marker) (shows : marker.Shows offset c)
  | name (name : Piece) (own : layout.name? = some name) (shows : name.Shows offset c)
  | body (shows : layout.body.Shows offset c)
  | escape (own : layout.escapeAt = some offset) (reads : c = '\\')

theorem exists_of_getD {piece? : Option Piece} {column : Nat} {c : Char}
    (there : ((piece?.map Piece.text).getD [])[column]? = some c) :
    ∃ piece, piece? = some piece ∧ piece.text[column]? = some c := by
  cases piece? with
  | none => simp at there
  | some piece => exact ⟨piece, rfl, there⟩

theorem Spelled.part {line : Line} {layout : Layout} {lead gap space pause rest : Text}
    (spelled : Spelled line layout lead gap space pause rest) {offset : Nat} {c : Char}
    (shows : line.piece.Shows offset c) (visible : isBlank c = false) : layout.Part offset c := by
  have blank : ∀ c', c' ∈ lead ++ gap ++ space ++ pause ++ rest → c' ≠ c := by
    rintro c' member rfl
    rw [spelled.blank c' member] at visible
    cases visible
  simp only [List.mem_append] at blank
  have body := spelled.body
  simp only [List.length_append] at body
  obtain ⟨column, rfl, there⟩ := shows
  change line.text[column]? = some c at there
  rw [spelled.text] at there
  rcases getElem_append_cases there with here | ⟨after_lead, there⟩
  · exact absurd rfl (blank c (by simp [List.mem_of_getElem? here]))
  rcases getElem_append_cases there with here | ⟨after_marker, there⟩
  · obtain ⟨marker, own, reads⟩ := exists_of_getD here
    have start := spelled.marker marker own
    exact .marker marker own ⟨_, by change line.start + column = _; omega, reads⟩
  rcases getElem_append_cases there with here | ⟨after_gap, there⟩
  · exact absurd rfl (blank c (by simp [List.mem_of_getElem? here]))
  rcases getElem_append_cases there with here | ⟨after_name, there⟩
  · obtain ⟨name, own, reads⟩ := exists_of_getD here
    have start := spelled.name name own
    simp only [List.length_append] at start
    exact .name name own ⟨_, by change line.start + column = _; omega, reads⟩
  rcases getElem_append_cases there with here | ⟨after_space, there⟩
  · exact absurd rfl (blank c (by simp [List.mem_of_getElem? here]))
  rcases getElem_append_cases there with here | ⟨after_body, there⟩
  · exact .body ⟨_, by change line.start + column = _; omega, here⟩
  rcases getElem_append_cases there with here | ⟨after_pause, there⟩
  · exact absurd rfl (blank c (by simp [List.mem_of_getElem? here]))
  rcases getElem_append_cases there with here | ⟨after_escape, there⟩
  · unfold escapeText isEscaped at here
    cases escape : layout.escapeAt with
    | none => simp [escape] at here
    | some place =>
      have start := spelled.escape place escape
      have inside := (List.getElem?_eq_some_iff.mp here).1
      simp only [escape, Option.isSome_some, if_true, List.length_singleton] at here inside
      refine .escape ?_ ?_
      · rw [escape, start, Piece.stop]
        change _ = some (line.start + column)
        congr 1
        omega
      · have reads := List.mem_of_getElem? here
        simpa using reads
  · exact absurd rfl (blank c (by simp [List.mem_of_getElem? there]))

/-- A character of a declaration, a continuation or a comment stands in one of its parts unless it is
    blank. -/
theorem ofLine_part {line : Line} (known : line.kind ∉ [LineKind.blank, .other]) {offset : Nat}
    {c : Char} (shows : line.piece.Shows offset c) (visible : isBlank c = false) :
    (ofLine line).Part offset c := by
  obtain ⟨lead, gap, space, pause, rest, spelled⟩ := ofLine_spelled known
  exact spelled.part shows visible

/-! ## Letters of the parts -/

theorem startsLike_letters {marker t : Text} (starts : startsLike marker t = true) :
    ∀ c ∈ t.take marker.length, ∃ letter ∈ marker, sameLetter letter c = true := by
  fun_induction startsLike marker t with
  | case1 t => simp
  | case2 => simp at starts
  | case3 letter marker d rest ih =>
    obtain ⟨same, others⟩ := Bool.and_eq_true_iff.mp starts
    intro c member
    rw [List.length_cons, List.take_succ_cons] at member
    rcases List.mem_cons.mp member with rfl | later
    · exact ⟨letter, List.mem_cons_self, same⟩
    · obtain ⟨other, present, like⟩ := ih others c later
      exact ⟨other, List.mem_cons_of_mem letter present, like⟩

/-- Neither the keyword nor the continuation marker has a semicolon or a backslash. -/
theorem marker_letters {line : Line} {marker : Piece} (own : (ofLine line).marker? = some marker) :
    ∀ c ∈ marker.text, c ≠ ';' ∧ c ≠ '\\' := by
  have plain {word : Text} {column : Nat}
      (starts : startsLike word (line.text.drop column) = true)
      (letters : word.all (fun letter => !sameLetter letter ';' && !sameLetter letter '\\') = true) :
      ∀ c ∈ (pieceAt line column word.length).text, c ≠ ';' ∧ c ≠ '\\' := by
    intro c member
    obtain ⟨letter, present, like⟩ := startsLike_letters starts c member
    have differs := List.all_eq_true.mp letters letter present
    constructor
    · rintro rfl
      simp [like] at differs
    · rintro rfl
      simp [like] at differs
  have read := Line.shape_spec line.text
  unfold ofLine at own
  cases shape : Line.shape line.text with
  | declaration head =>
    simp only [shape, marker?, withBody_head, Option.some.injEq] at own read
    subst own
    unfold Line.declared? at read
    dsimp only at read
    split_ifs at read with starts
    cases read
    exact plain starts (by decide)
  | continuation column =>
    simp only [shape, marker?, withBody_head, Option.some.injEq] at own read
    subst own
    unfold Line.continued? at read
    dsimp only at read
    split_ifs at read with starts
    cases read
    exact plain starts (by decide)
  | _ => simp [shape, marker?] at own

theorem name_letters {line : Line} {name : Piece} (own : (ofLine line).name? = some name) :
    ∀ c ∈ name.text, isBlank c = false ∧ c ≠ ';' := by
  have read := Line.shape_spec line.text
  unfold ofLine at own
  cases shape : Line.shape line.text with
  | declaration head =>
    simp only [shape, name?, withBody_head, Option.some.injEq] at own read
    subst own
    unfold Line.declared? at read
    dsimp only at read
    split_ifs at read
    cases read
    intro c member
    have letter := List.mem_takeWhile_imp ((Line.nameOf_begins _ _).subset member)
    simpa [Line.isNameChar] using letter
  | _ => simp [shape, name?] at own

/-- A body has no blanks at its end. -/
theorem ofLine_tight (line : Line) : trimRight (ofLine line).body.text = (ofLine line).body.text := by
  have tight (head : LineHead) (column : Nat) :
      trimRight (withBody line head column).body.text = (withBody line head column).body.text := by
    unfold withBody
    dsimp only
    split_ifs
    · exact trimRight_drop (trimRight_trimRight _) column
    · exact trimRight_drop (trimRight_trimRight _) column
  unfold ofLine
  cases Line.shape line.text with
  | blank => rfl
  | other => rfl
  | comment column => exact tight _ _
  | continuation column => exact tight _ _
  | declaration head => exact tight _ _

end Layout
end Mapkeys
