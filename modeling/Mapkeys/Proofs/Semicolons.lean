import Mapkeys.Proofs.LineSpelling
import Mapkeys.Proofs.TokenSources

/-!
# Semicolons that end statements

A semicolon of a record ends a statement unless a backslash stands before it. There is one
exception (`terminator_iff_free_or_after_name`): right after the declared name a semicolon ends a
statement in any case, as a backslash at the end of the name is part of the name.
-/

namespace Mapkeys

open Text Token

namespace Text

theorem getLast_take_eq_some {t : Text} {offset : Nat} {c : Char} (inside : offset ≤ t.length) :
    (t.take offset).getLast? = some c ↔ ∃ before, offset = before + 1 ∧ t[before]? = some c := by
  cases offset with
  | zero => simp
  | succ before =>
    have there : t[before]? = some t[before] := List.getElem?_eq_getElem (by omega)
    rw [List.take_add_one, there, Option.toList_some, List.getLast?_append, List.getLast?_singleton]
    simp [there]

/-- The columns of the terminators of a text. -/
theorem mem_terminators_iff {t : Text} {column : Nat} :
    column ∈ terminators 0 false t ↔
      t[column]? = some ';' ∧ ∀ before, column = before + 1 → t[before]? ≠ some '\\' := by
  rw [mem_terminators]
  constructor
  · rintro ⟨before, rest, rfl, start, free⟩
    rw [Nat.zero_add] at start
    subst start
    refine ⟨by simp, fun place last backslash => ?_⟩
    rw [List.getElem?_append_left (by omega)] at backslash
    have ends : before.getLast? = some '\\' := by
      rw [List.getLast?_eq_getElem?, last]
      exact backslash
    simp [escapedAfter, ends] at free
  · rintro ⟨semicolon, free⟩
    have inside := (List.getElem?_eq_some_iff.mp semicolon).1
    have rest := List.drop_eq_getElem_cons inside
    rw [(List.getElem?_eq_some_iff.mp semicolon).2] at rest
    refine ⟨t.take column, t.drop (column + 1), ?_, ?_, escapedAfter_false fun backslash => ?_⟩
    · rw [← rest, List.take_append_drop]
    · rw [List.length_take]
      omega
    · obtain ⟨before, last, there⟩ := (getLast_take_eq_some (by omega)).mp backslash
      exact free before last there

end Text

/-! ## Tokens of the terminators -/

namespace Layout

theorem exists_marker {layout : Layout} (holds : layout.holdsStatements = true) :
    ∃ marker, layout.marker? = some marker := by
  unfold holdsStatements kind at holds
  unfold marker?
  cases head : layout.head with
  | declaration keyword name => exact ⟨keyword, rfl⟩
  | continuation marker isRemark => exact ⟨marker, rfl⟩
  | _ => simp [head, LineKind.carriesStatements] at holds

theorem known_of_holds {line : Line} (holds : (ofLine line).holdsStatements = true) :
    line.kind ∉ [LineKind.blank, .other] := by
  unfold Line.kind Line.kindOf
  unfold ofLine at holds
  cases shape : Line.shape line.text with
  | blank => simp [shape, holdsStatements, kind, LineKind.carriesStatements] at holds
  | other => simp [shape, holdsStatements, kind, LineKind.carriesStatements] at holds
  | _ => simp [Line.Shape.kind]

theorem holds_of_body {line : Line} (plain : (ofLine line).isRemark = false)
    (some : (ofLine line).body.text ≠ []) : (ofLine line).holdsStatements = true := by
  unfold holdsStatements
  rw [plain]
  unfold ofLine at *
  cases shape : Line.shape line.text with
  | blank => simp [shape] at some
  | other => simp [shape] at some
  | comment column => simp [shape, isRemark] at plain
  | continuation column => simp [kind, LineKind.carriesStatements]
  | declaration head => simp [kind, LineKind.carriesStatements]

theorem isRemark_of_holds {layout : Layout} (holds : layout.holdsStatements = true) :
    layout.isRemark = false := by
  unfold holdsStatements at holds
  simpa using (Bool.and_eq_true_iff.mp holds).2

/-- The terminators among the tokens of a line. -/
theorem exists_terminator_iff {line : Line} {id : Text} {offset : Nat} :
    (∃ token ∈ (ofLine line).lineTokens id, token.kind = .terminator ∧ token.start = offset) ↔
      (ofLine line).holdsStatements = true ∧
        ∃ column ∈ terminators 0 false (ofLine line).body.text,
          offset = (ofLine line).body.start + column := by
  constructor
  · rintro ⟨token, member, kind, rfl⟩
    rcases List.mem_append.mp member with outer | inner
    · rcases List.mem_append.mp outer with head | escape
      · have kinds := headTokens_kind token head
        simp [kind] at kinds
      · have kinds := escapeTokens_kind token escape
        simp [kind] at kinds
    · unfold bodyTokens at inner
      split_ifs at inner with remark empty
      · simp at inner
      · rw [List.mem_singleton.mp inner] at kind
        cases kind
      · obtain ⟨column, found, rfl⟩ := List.mem_map.mp inner
        have some : (ofLine line).body.text ≠ [] := by
          intro empty
          simp [empty, terminators] at found
        exact ⟨holds_of_body (Bool.eq_false_iff.mpr remark) some, column, found, rfl⟩
  · rintro ⟨holds, column, found, rfl⟩
    refine ⟨.ofPiece .terminator [';'] ((ofLine line).body.start + column) (some id),
      List.mem_append_right _ ?_, rfl, rfl⟩
    rw [bodyTokens, isRemark_of_holds holds, if_neg (by simp)]
    exact List.mem_map_of_mem found

end Layout

namespace Record

theorem mem_split {text : Text} {record : Record} (member : record ∈ (Document.parse text).records)
    {line : Line} (own : line ∈ record.lines) : line ∈ Line.split text :=
  (lines_consecutive record member).subset own

theorem mem_tokens_of_line {record : Record} {line : Line} {token : Token} (own : line ∈ record.lines)
    (found : token ∈ (Layout.ofLine line).lineTokens record.id) : token ∈ record.tokens := by
  refine (sort_perm _).mem_iff.mpr (List.mem_append_left _ (List.mem_append_left _ ?_))
  exact List.mem_flatMap.mpr ⟨_, List.mem_map_of_mem own, found⟩

/-- The terminators among the tokens of a record. -/
theorem exists_terminator_iff {record : Record} {offset : Nat} :
    (∃ token ∈ record.tokens, token.kind = .terminator ∧ token.start = offset) ↔
      ∃ line ∈ record.lines, (Layout.ofLine line).holdsStatements = true ∧
        ∃ column ∈ terminators 0 false (Layout.ofLine line).body.text,
          offset = (Layout.ofLine line).body.start + column := by
  constructor
  · rintro ⟨token, member, kind, start⟩
    cases given_of_mem member with
    | line line own found =>
      exact ⟨line, own, Layout.exists_terminator_iff.mp ⟨token, found, kind, start⟩⟩
    | marker place present => cases kind
    | content place content present found =>
      have kinds := Tag.contentKind_mem place.tag
      rw [show place.tag.contentKind = .terminator from kind] at kinds
      simp at kinds
    | call layout own called =>
      have kinds := Layout.callTokens_kind token called
      simp [kind] at kinds
  · rintro ⟨line, own, ends⟩
    obtain ⟨token, found, kind, start⟩ := Layout.exists_terminator_iff.mpr ends
    exact ⟨token, mem_tokens_of_line own found, kind, start⟩

end Record

namespace Marker

theorem lineTokens_kind {line : Line} :
    ∀ token ∈ lineTokens line, token.kind ∈ [TokenKind.comment, .regionStart, .regionEnd] := by
  intro token member
  unfold lineTokens at member
  split at member
  · rcases List.mem_cons.mp member with rfl | titled
    · simp
    · rcases List.mem_append.mp titled with begins | ends
      · simp [(titleTokens_within regionWord_ne_nil token begins).1]
      · simp [(titleTokens_within endRegionWord_ne_nil token ends).1]
  · simp at member

end Marker

namespace Document

/-- The terminators among the tokens of a document are those of its records. -/
theorem exists_terminator_iff {text : Text} {offset : Nat} :
    (∃ token ∈ (parse text).tokens, token.kind = .terminator ∧ token.start = offset) ↔
      ∃ record ∈ (parse text).records,
        ∃ token ∈ record.tokens, token.kind = .terminator ∧ token.start = offset := by
  constructor
  · rintro ⟨token, member, kind, start⟩
    rcases List.mem_append.mp ((sort_perm _).subset member) with own | outside
    · obtain ⟨record, present, mine⟩ := List.mem_flatMap.mp own
      exact ⟨record, present, token, mine, kind, start⟩
    · obtain ⟨line, -, -, found⟩ := Marker.mem_tokens outside
      have kinds := Marker.lineTokens_kind token found
      simp [kind] at kinds
  · rintro ⟨record, present, token, mine, kind, start⟩
    refine ⟨token, (sort_perm _).mem_iff.mpr (List.mem_append_left _ ?_), kind, start⟩
    exact List.mem_flatMap.mpr ⟨record, present, mine⟩

end Document

/-! ## Semicolons of a document -/

/-- A semicolon on a line of a record that holds statements. -/
structure Record.Semicolon (text : Text) (record : Record) (line : Line) (offset : Nat) : Prop where
  own : line ∈ record.lines
  holds : (Layout.ofLine line).holdsStatements = true
  low : line.start ≤ offset
  high : offset < line.stop
  reads : text[offset]? = some ';'

namespace Line

/-- A semicolon on a line that holds statements stands in its body. -/
theorem body_shows_semicolon {line : Line} (holds : (Layout.ofLine line).holdsStatements = true)
    {offset : Nat} (shows : line.piece.Shows offset ';') :
    (Layout.ofLine line).body.Shows offset ';' := by
  cases Layout.ofLine_part (Layout.known_of_holds holds) shows (by decide) with
  | marker marker own shows =>
    obtain ⟨column, -, there⟩ := shows
    exact absurd rfl (Layout.marker_letters own _ (List.mem_of_getElem? there)).1
  | name name own shows =>
    obtain ⟨column, -, there⟩ := shows
    exact absurd rfl (Layout.name_letters own _ (List.mem_of_getElem? there)).2
  | body shows => exact shows
  | escape own reads => cases reads

section

variable {text : Text} {line : Line} (present : line ∈ split text)

include present

theorem shows_iff {offset : Nat} {c : Char} :
    line.piece.Shows offset c ↔
      text[offset]? = some c ∧ line.start ≤ offset ∧ offset < line.stop := by
  rw [(piece_partOf present).shows_iff, Piece.shows_text]
  rfl

theorem body_partOf : (Layout.ofLine line).body.PartOf ⟨0, text⟩ :=
  (Layout.ofLine_parts line).body.trans (piece_partOf present)

/-- A backslash right before a place in the body stands in the body or at the end of the name. -/
theorem backslash_before (holds : (Layout.ofLine line).holdsStatements = true) {before : Nat}
    (backslash : text[before]? = some '\\')
    (low : (Layout.ofLine line).body.start ≤ before + 1)
    (high : before + 1 < (Layout.ofLine line).body.stop) :
    (Layout.ofLine line).body.Shows before '\\' ∨
      ∃ name ∈ (Layout.ofLine line).name?, name.stop = before + 1 := by
  have ordered := Layout.ofLine_ordered line
  obtain ⟨marker, own⟩ := Layout.exists_marker holds
  obtain ⟨marker_low, marker_some, marker_high⟩ := ordered.marker marker own
  have body_stop := ordered.body_stop
  have shows : line.piece.Shows before '\\' :=
    (shows_iff present).mpr ⟨backslash, by omega, by omega⟩
  cases Layout.ofLine_part (Layout.known_of_holds holds) shows (by decide) with
  | marker marker own shows =>
    obtain ⟨column, -, there⟩ := shows
    exact absurd rfl (Layout.marker_letters own _ (List.mem_of_getElem? there)).2
  | name name own shows =>
    have bounds := shows.bounds
    have ends := (ordered.name name own).2.2
    exact .inr ⟨name, own, by omega⟩
  | body shows => exact .inl shows
  | escape own reads =>
    have after := (ordered.escape before own).1
    omega

/-- The semicolons of a line that end statements, by where they stand in the document. -/
theorem exists_terminators_iff (holds : (Layout.ofLine line).holdsStatements = true) {offset : Nat} :
    (∃ column ∈ terminators 0 false (Layout.ofLine line).body.text,
      offset = (Layout.ofLine line).body.start + column) ↔
    line.piece.Shows offset ';' ∧ ((text.take offset).getLast? ≠ some '\\' ∨
      ∃ name ∈ (Layout.ofLine line).name?, name.stop = offset) := by
  have ordered := Layout.ofLine_ordered line
  have reads {place : Nat} {c : Char} (shows : (Layout.ofLine line).body.Shows place c) :
      text[place]? = some c :=
    Piece.shows_text.mp ((body_partOf present).shows_iff.mp shows).1
  constructor
  · rintro ⟨column, ends, rfl⟩
    obtain ⟨semicolon, free⟩ := mem_terminators_iff.mp ends
    have shows : (Layout.ofLine line).body.Shows ((Layout.ofLine line).body.start + column) ';' :=
      ⟨column, rfl, semicolon⟩
    have bounds := shows.bounds
    have inside := (List.getElem?_eq_some_iff.mp (reads shows)).1
    refine ⟨((Layout.ofLine_parts line).body.shows_iff.mp shows).1, ?_⟩
    by_cases escaped : (text.take ((Layout.ofLine line).body.start + column)).getLast? = some '\\'
    · -- the backslash is not in the body, or the semicolon would not end a statement
      obtain ⟨before, last, backslash⟩ := (getLast_take_eq_some (by omega)).mp escaped
      rcases backslash_before present holds backslash (by omega) (by omega) with inner | name
      · obtain ⟨place, same, there⟩ := inner
        exact absurd there (free place (by omega))
      · rw [last]
        exact .inr name
    · exact .inl escaped
  · rintro ⟨semicolon, free⟩
    have shows := body_shows_semicolon holds semicolon
    have inside := (List.getElem?_eq_some_iff.mp (reads shows)).1
    obtain ⟨column, rfl, there⟩ := shows
    refine ⟨column, mem_terminators_iff.mpr ⟨there, ?_⟩, rfl⟩
    rintro before rfl backslash
    rcases free with free | ⟨name, own, stop⟩
    · refine free ((getLast_take_eq_some (by omega)).mpr ⟨_, rfl, ?_⟩)
      exact reads ⟨before, rfl, backslash⟩
    · have ends := (ordered.name name own).2.2
      omega

end

end Line

namespace Document

/-- A token ends a statement at an offset exactly if a semicolon of a record stands there, on a line
    that holds statements, and no backslash stands before it or the declared name does. -/
theorem terminator_iff_free_or_after_name (text : Text) (offset : Nat) :
    (∃ token ∈ (parse text).tokens, token.kind = .terminator ∧ token.start = offset) ↔
      ∃ record ∈ (parse text).records, ∃ line, record.Semicolon text line offset ∧
        ((text.take offset).getLast? ≠ some '\\' ∨
          ∃ name ∈ (Layout.ofLine line).name?, name.stop = offset) := by
  rw [exists_terminator_iff]
  refine exists_congr fun record => and_congr_right fun member => ?_
  rw [Record.exists_terminator_iff]
  constructor
  · rintro ⟨line, own, holds, ends⟩
    have present := Record.mem_split member own
    obtain ⟨shows, free⟩ := (Line.exists_terminators_iff present holds).mp ends
    obtain ⟨reads, low, high⟩ := (Line.shows_iff present).mp shows
    exact ⟨line, ⟨own, holds, low, high, reads⟩, free⟩
  · rintro ⟨line, semicolon, free⟩
    have present := Record.mem_split member semicolon.own
    have shows := (Line.shows_iff present).mpr ⟨semicolon.reads, semicolon.low, semicolon.high⟩
    exact ⟨line, semicolon.own, semicolon.holds,
      (Line.exists_terminators_iff present semicolon.holds).mpr ⟨shows, free⟩⟩

/-- A record whose name ends in a backslash, with a semicolon right after the name. -/
def backslashName : Text := "mapkey a\\;b".toList

/-- The semicolon ends a statement although a backslash stands before it. -/
theorem backslashName_terminator :
    (∃ token ∈ (parse backslashName).tokens, token.kind = .terminator ∧ token.start = 9) ∧
      ¬ ∃ record ∈ (parse backslashName).records, ∃ line, record.Semicolon backslashName line 9 ∧
        (backslashName.take 9).getLast? ≠ some '\\' := by
  constructor
  · decide +kernel
  · rintro ⟨-, -, -, -, free⟩
    exact free (by decide)

end Document
end Mapkeys
