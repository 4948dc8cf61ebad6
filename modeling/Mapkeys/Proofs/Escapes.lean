import Mapkeys.Proofs.LineDecomposition
import Mathlib.Data.List.DropRight

/-!
# Escapes

A line is escaped by its text if the text ends in a backslash, and by its layout if that backslash
stands after the place of the body. The two say the same of every line but a declaration whose name
is a backslash at the end of the line (`ofLine_isEscaped`). So a record that a declaration or a
continuation leaves open shows it by a token for the escape (`escapes_agree`).
-/

namespace Mapkeys

open Text Token

namespace Text

/-- A column lies in the blanks at the end of a text if nothing else follows it. -/
theorem length_trimRight_le_iff {t : Text} {column : Nat} :
    (trimRight t).length ≤ column ↔ allBlank (t.drop column) = true := by
  rw [allBlank, List.all_eq_true, ← trimRight_eq_nil_iff]
  constructor
  · intro short
    by_contra visible
    have length := add_length_trimRight_drop visible
    have positive := List.length_pos_iff.mpr visible
    omega
  · intro blank
    rw [← List.take_append_drop column t, trimRight_append, if_pos blank]
    exact (trimRight_length_le _).trans (List.length_take_le _ _)

theorem allBlank_afterBlanks (t : Text) (column : Nat) :
    allBlank (t.drop (Layout.afterBlanks t column)) = allBlank (t.drop column) := by
  rw [Bool.eq_iff_iff, allBlank_iff, allBlank_iff, drop_afterBlanks, trimLeft, trimLeft,
    List.dropWhile_idempotent]

end Text

namespace Line

/-- Whether the text declares a name that is a single backslash with nothing but blanks after it. -/
def declaresBackslash (t : Text) : Bool :=
  match declared? t with
  | some head => head.name = ['\\'] && allBlank (t.drop (head.nameColumn + 1))
  | none => false

/-! ## Texts that end in a backslash -/

theorem isEscaped_iff {t : Text} : isEscaped t = true ↔ (trimRight t).getLast? = some '\\' := by
  rw [isEscaped, endsWith, List.isSuffixOf_iff_suffix, List.getLast?_eq_some_iff]
  exact exists_congr fun _ => eq_comm

/-- Blanks at the end of a text do not tell whether it is escaped. -/
theorem isEscaped_take {t : Text} {column : Nat} (blank : allBlank (t.drop column) = true) :
    isEscaped (t.take column) = isEscaped t := by
  have trimmed : trimRight (t.drop column) = [] :=
    trimRight_eq_nil_iff.mpr (List.all_eq_true.mp blank)
  unfold isEscaped
  conv_rhs => rw [← List.take_append_drop column t, trimRight_append, if_pos trimmed]

theorem isEscaped_append_word (a : Text) {word : Text} (nonempty : word ≠ [])
    (visible : ∀ c ∈ word, isBlank c = false) :
    isEscaped (a ++ word) = true ↔ word.getLast? = some '\\' := by
  have kept := trimRight_visible visible
  rw [isEscaped_iff, trimRight_append, kept, if_neg nonempty, List.getLast?_append_of_ne_nil a nonempty]

/-! ## Markers and names at the end of a line -/

/-- What a continuation says up to the end of its marker is not escaped. -/
theorem isEscaped_take_marker {t : Text} {column : Nat} (found : continued? t = some column) :
    isEscaped (t.take (column + continuationMarker.length)) = false := by
  have starts := continued_starts found
  rw [trimLeft_eq_drop, ← continued_column found] at starts
  have plain : continuationMarker.all
      (fun letter => !isBlank letter && !sameLetter letter '\\') = true := by decide
  have letters : ∀ c ∈ (t.drop column).take continuationMarker.length,
      isBlank c = false ∧ c ≠ '\\' := by
    intro c member
    obtain ⟨letter, present, like⟩ := Layout.startsLike_letters starts c member
    have differs := List.all_eq_true.mp plain letter present
    rw [Bool.and_eq_true, Bool.not_eq_eq_eq_not, Bool.not_eq_eq_eq_not] at differs
    refine ⟨visible_of_sameLetter differs.1 like, ?_⟩
    rintro rfl
    exact absurd like (by simp [differs.2])
  have nonempty : (t.drop column).take continuationMarker.length ≠ [] := by
    rw [← List.length_pos_iff, List.length_take_of_le (startsLike_length starts)]
    decide
  rw [List.take_add, Bool.eq_false_iff, ne_eq,
    isEscaped_append_word _ nonempty fun c member => (letters c member).1]
  intro last
  exact (letters _ (List.mem_of_getLast? last)).2 rfl

theorem nameOf_lone {word after : Text} (ends : (nameOf word after).getLast? = some '\\')
    (blank : allBlank ((word ++ after).drop (nameOf word after).length) = true) :
    nameOf word after = ['\\'] := by
  unfold nameOf at *
  split_ifs at * with escape
  · -- the backslash that is not part of the name would have to be blank
    obtain ⟨init, rfl⟩ := List.getLast?_eq_some_iff.mp escape.1
    simp only [List.dropLast_concat, List.append_assoc, List.drop_left] at blank
    have hidden : isBlank '\\' = false := by decide
    simp [allBlank, hidden] at blank
  · rw [List.drop_left] at blank
    have short : ¬ 1 < word.length := fun long => escape ⟨ends, blank, long⟩
    obtain ⟨init, rfl⟩ := List.getLast?_eq_some_iff.mp ends
    rw [List.length_append, List.length_singleton] at short
    have none : init = [] := List.length_eq_zero_iff.mp (by omega)
    rw [none, List.nil_append]

/-- The name is read from the word in its column and what follows the word. -/
theorem declared_word {t : Text} {head : Declared} (found : declared? t = some head) :
    ∃ word after, t.drop head.nameColumn = word ++ after ∧ head.name = nameOf word after ∧
      ∀ c ∈ word, isBlank c = false := by
  have cut (column : Nat) : t.drop column = (t.drop column).takeWhile isNameChar ++
      t.drop (column + ((t.drop column).takeWhile isNameChar).length) := by
    have begins : (t.drop column).takeWhile isNameChar <+: t.drop column :=
      List.takeWhile_prefix isNameChar
    rw [← List.drop_drop]
    exact (List.prefix_iff_eq_append.mp begins).symm
  unfold declared? at found
  dsimp only at found
  split_ifs at found
  cases found
  refine ⟨_, _, cut _, rfl, fun c member => ?_⟩
  have letter := List.mem_takeWhile_imp member
  simp only [isNameChar, Bool.and_eq_true, Bool.not_eq_true'] at letter
  exact letter.1

/-- A name that ends the line with a backslash is nothing else. -/
theorem declared_lone {t : Text} {head : Declared} (found : declared? t = some head)
    (ends : head.name.getLast? = some '\\')
    (blank : allBlank (t.drop (head.nameColumn + head.name.length)) = true) :
    head.name = ['\\'] := by
  obtain ⟨word, after, split, name, -⟩ := declared_word found
  rw [← List.drop_drop, split] at blank
  rw [name] at ends blank ⊢
  exact nameOf_lone ends blank

/-- What a declaration says up to the end of its name is escaped if the name ends in a backslash. -/
theorem isEscaped_take_name {t : Text} {head : Declared} (found : declared? t = some head) :
    isEscaped (t.take (head.nameColumn + head.name.length)) = true ↔
      head.name.getLast? = some '\\' := by
  obtain ⟨word, after, -, name, visible⟩ := declared_word found
  have nonempty := List.length_pos_iff.mp (declared_bounds found).2.1
  rw [List.take_add, ← List.prefix_iff_eq_take.mp (declared_begins found)]
  refine isEscaped_append_word _ nonempty fun c member => visible c ?_
  rw [name] at member
  exact (nameOf_begins word after).subset member

theorem declaresBackslash_iff {t : Text} {head : Declared} (found : declared? t = some head) :
    declaresBackslash t = true ↔
      head.name = ['\\'] ∧ allBlank (t.drop (head.nameColumn + 1)) = true := by
  simp [declaresBackslash, found]

theorem declaresBackslash_of_shape {t : Text} (other : ∀ head, shape t ≠ .declaration head) :
    declaresBackslash t = false := by
  unfold declaresBackslash
  cases found : declared? t with
  | none => rfl
  | some head => exact absurd (shape_of_declared found) (other head)

/-- A line that declares a backslash at its end is escaped by its text. -/
theorem isEscaped_of_declaresBackslash {t : Text} (lone : declaresBackslash t = true) :
    isEscaped t = true := by
  cases found : declared? t with
  | none => simp [declaresBackslash, found] at lone
  | some head =>
    obtain ⟨name, blank⟩ := (declaresBackslash_iff found).mp lone
    have escaped := (isEscaped_take_name found).mpr (by rw [name]; rfl)
    rw [name, List.length_singleton] at escaped
    rw [← isEscaped_take blank, escaped]

end Line

/-! ## Layouts -/

namespace Layout

/-- A layout is escaped if the text is and not only blanks stand from the column of its body on. -/
theorem withBody_isEscaped (line : Line) (head : LineHead) (column : Nat) :
    (withBody line head column).isEscaped =
      (Line.isEscaped line.text && !allBlank (line.text.drop column)) := by
  rw [Bool.eq_iff_iff, Bool.and_eq_true, Line.isEscaped_iff, Bool.not_eq_true', Bool.eq_false_iff,
    ne_eq, ← length_trimRight_le_iff, Nat.not_le]
  unfold withBody
  dsimp only
  split_ifs with escaped
  · simp [isEscaped, escaped]
  · simpa [isEscaped] using escaped

/-- A comment is escaped by its layout if its text is. -/
theorem comment_isEscaped {line : Line} {column : Nat}
    (found : Line.remarked? line.text = some column) :
    (withBody line .comment column).isEscaped = Line.isEscaped line.text := by
  have visible : allBlank (line.text.drop column) = false := by
    obtain ⟨rest, mark⟩ := List.head?_eq_some_iff.mp (Line.remarked_head found)
    have hidden : isBlank '!' = false := by decide
    simp [allBlank, mark, hidden]
  rw [withBody_isEscaped, visible, Bool.not_false, Bool.and_true]

/-- A continuation is escaped by its layout if its text is, because its marker is not. -/
theorem continuation_isEscaped {line : Line} {column : Nat} (head : LineHead)
    (found : Line.continued? line.text = some column) :
    (withBody line head (afterBlanks line.text (column + Line.continuationMarker.length))).isEscaped =
      Line.isEscaped line.text := by
  rw [withBody_isEscaped, allBlank_afterBlanks]
  cases blank : allBlank (line.text.drop (column + Line.continuationMarker.length)) with
  | false => rw [Bool.not_false, Bool.and_true]
  | true => rw [← Line.isEscaped_take blank, Line.isEscaped_take_marker found, Bool.false_and]

/-- A declaration is escaped by its layout if its text is, unless the backslash is its name. -/
theorem declaration_isEscaped {line : Line} {declared : Line.Declared} (head : LineHead)
    (found : Line.declared? line.text = some declared) :
    (withBody line head
        (afterBlanks line.text (declared.nameColumn + declared.name.length))).isEscaped =
      (Line.isEscaped line.text && !Line.declaresBackslash line.text) := by
  rw [withBody_isEscaped, allBlank_afterBlanks]
  cases escaped : Line.isEscaped line.text with
  | false => rfl
  | true =>
    have same : allBlank (line.text.drop (declared.nameColumn + declared.name.length)) =
        Line.declaresBackslash line.text := by
      rw [Bool.eq_iff_iff, Line.declaresBackslash_iff found]
      constructor
      · intro blank
        rw [← Line.isEscaped_take blank] at escaped
        have lone := Line.declared_lone found ((Line.isEscaped_take_name found).mp escaped) blank
        rw [lone] at blank
        exact ⟨lone, blank⟩
      · rintro ⟨lone, blank⟩
        rwa [lone]
    rw [same]

/-- The two kinds of escapes differ for declarations of a backslash at the end of the line only. -/
theorem ofLine_isEscaped {line : Line} (known : line.kind ∉ [LineKind.blank, .other]) :
    (ofLine line).isEscaped = (Line.isEscaped line.text && !Line.declaresBackslash line.text) := by
  have read := Line.shape_spec line.text
  unfold Line.kind Line.kindOf at known
  unfold ofLine
  cases shape : Line.shape line.text with
  | blank => simp [shape, Line.Shape.kind] at known
  | other => simp [shape, Line.Shape.kind] at known
  | comment column =>
    rw [shape] at read
    rw [Line.declaresBackslash_of_shape (by simp [shape]), Bool.not_false, Bool.and_true]
    exact comment_isEscaped read
  | continuation column =>
    rw [shape] at read
    rw [Line.declaresBackslash_of_shape (by simp [shape]), Bool.not_false, Bool.and_true]
    exact continuation_isEscaped _ read
  | declaration declared =>
    rw [shape] at read
    exact declaration_isEscaped _ read

end Layout

/-! ## Tokens for escapes -/

/-- A token for a backslash that carries a record on, on the given line. -/
structure Token.EscapeOn (line : Line) (token : Token) : Prop where
  kind : token.kind = .continuationMarker
  value : token.value = ['\\']
  within : token.Within line.start line.stop

/-- Of the tokens that a line has by itself one is for its escape if its layout is escaped. -/
theorem Layout.exists_escapeOn_iff (line : Line) (id : Text) :
    (∃ token ∈ (ofLine line).lineTokens id, token.EscapeOn line) ↔
      (ofLine line).isEscaped = true := by
  constructor
  · rintro ⟨token, member, kind, value, -⟩
    rcases List.mem_append.mp member with outer | inner
    · rcases List.mem_append.mp outer with marker | escape
      · -- the continuation marker is of the same kind, but it has no backslash
        unfold headTokens at marker
        cases head : (ofLine line).head with
        | declaration keyword name =>
          simp only [head, List.mem_cons, List.not_mem_nil, or_false] at marker
          rcases marker with rfl | rfl <;> simp at kind
        | continuation mark isRemark =>
          simp only [head, List.mem_singleton] at marker
          subst marker
          have text : mark.text = ['\\'] := value
          have own : (ofLine line).marker? = some mark := by simp [marker?, head]
          exact absurd rfl (marker_letters own '\\' (by simp [text])).2
        | _ => simp [head] at marker
      · unfold escapeTokens at escape
        cases found : (ofLine line).escapeAt with
        | none => simp [found] at escape
        | some offset => simp [isEscaped, found]
    · have other := bodyTokens_kind token inner
      simp [kind] at other
  · intro escaped
    obtain ⟨offset, found⟩ := Option.isSome_iff_exists.mp escaped
    have member : ofPiece .continuationMarker ['\\'] offset (some id) ∈
        (ofLine line).lineTokens id := by
      simp [lineTokens, escapeTokens, found]
    exact ⟨_, member, rfl, rfl, lineTokens_within (ofLine_ordered line) _ member⟩

namespace Document

/-- A token that carries a record on comes from a line of a record. -/
theorem exists_line_of_marker {text : Text} {token : Token} (member : token ∈ (parse text).tokens)
    (kind : token.kind = .continuationMarker) :
    ∃ record ∈ (parse text).records, ∃ line ∈ record.lines,
      token ∈ (Layout.ofLine line).lineTokens record.id := by
  rcases List.mem_append.mp ((sort_perm _).subset member) with own | outside
  · obtain ⟨record, present, mine⟩ := List.mem_flatMap.mp own
    refine ⟨record, present, ?_⟩
    cases Record.given_of_mem mine with
    | line line own found => exact ⟨line, own, found⟩
    | marker place present => cases kind
    | content place content present found =>
      have other := Tag.contentKind_mem place.tag
      rw [show place.tag.contentKind = .continuationMarker from kind] at other
      simp at other
    | call layout own called =>
      have other := Layout.callTokens_kind token called
      simp [kind] at other
  · obtain ⟨line, -, -, found⟩ := Marker.mem_tokens outside
    have other := Marker.lineTokens_kind token found
    simp [kind] at other

section

variable {text : Text} {record : Record} (member : record ∈ (parse text).records)

include member

theorem mem_tokens_of_record {token : Token} (own : token ∈ record.tokens) :
    token ∈ (parse text).tokens :=
  (sort_perm _).mem_iff.mpr (List.mem_append_left _ (List.mem_flatMap.mpr ⟨record, member, own⟩))

/-- A line of a record carries a token for its escape if its layout is escaped. -/
theorem exists_escapeOn_iff {line : Line} (own : line ∈ record.lines) :
    ((∃ token ∈ record.tokens, token.EscapeOn line) ↔ (Layout.ofLine line).isEscaped = true) ∧
      ((∃ token ∈ (parse text).tokens, token.EscapeOn line) ↔
        (Layout.ofLine line).isEscaped = true) := by
  have shown (escaped : (Layout.ofLine line).isEscaped = true) :
      ∃ token ∈ record.tokens, token.EscapeOn line := by
    obtain ⟨token, found, escape⟩ := (Layout.exists_escapeOn_iff line record.id).mpr escaped
    exact ⟨token, Record.mem_tokens_of_line own found, escape⟩
  have listed : (∃ token ∈ record.tokens, token.EscapeOn line) →
      ∃ token ∈ (parse text).tokens, token.EscapeOn line := by
    rintro ⟨token, mine, escape⟩
    exact ⟨token, mem_tokens_of_record member mine, escape⟩
  have escaped : (∃ token ∈ (parse text).tokens, token.EscapeOn line) →
      (Layout.ofLine line).isEscaped = true := by
    rintro ⟨token, present, escape⟩
    obtain ⟨owner, theirs, holder, held, found⟩ := exists_line_of_marker present escape.kind
    have there := Layout.lineTokens_within (Layout.ofLine_ordered holder) token found
    have here := escape.within
    -- the token stands on one line only
    obtain rfl : holder = line :=
      Line.eq_of_covers (Line.split_pairwise text) (Record.mem_split theirs held)
        (Record.mem_split member own)
        ⟨there.low_le, Nat.lt_of_lt_of_le there.start_lt there.le_high⟩
        ⟨here.low_le, Nat.lt_of_lt_of_le here.start_lt here.le_high⟩
    exact (Layout.exists_escapeOn_iff _ _).mp ⟨token, found, escape⟩
  exact ⟨⟨fun own => escaped (listed own), shown⟩, ⟨escaped, fun shows => listed (shown shows)⟩⟩

/-- A record that ends with a declaration or a continuation is open if that line is escaped. -/
theorem terminated_iff_isEscaped
    (kind : record.lastLine.kind ∈ [LineKind.declaration, .continuation])
    (ordinary : Line.declaresBackslash record.lastLine.text = false) :
    record.terminated = false ↔ (Layout.ofLine record.lastLine).isEscaped = true := by
  obtain ⟨first, last, extent⟩ := Record.extent_of_mem member
  have known := Record.known_of_mem member (Record.lastLine_mem record)
  rw [extent.terminated]
  split_ifs with alone
  · have stops := extent.stops
    rw [← alone, extent.starts] at stops
    rw [← Option.some.inj stops] at known ordinary ⊢
    rw [Layout.ofLine_isEscaped known, ordinary, Bool.not_false, Bool.and_true]
  · have reaches := extent.greatest.1
    have order := reaches.order
    have follows := reaches.follow last _ (by omega) (Nat.le_refl last) extent.stops
    have continued : record.lastLine.kind = .continuation := by
      rcases follows with comment | continuation
      · simp [comment] at kind
      · exact continuation
    simp [Record.HoldsOpen, continued]

end

/-- A declaration, a continuation or a comment is escaped by its text if and only if it is so by its
    layout, but for a declaration of a lone backslash at the end of the line, which only its text
    makes an escaped line. So a record that ends with another declaration or with a continuation is
    open if and only if that line carries a token for the backslash at its end. -/
theorem escapes_agree :
    (∀ line : Line, line.kind ∈ [LineKind.declaration, .continuation, .comment] →
      ((Layout.ofLine line).isEscaped = Line.isEscaped line.text ↔
        Line.declaresBackslash line.text = false) ∧
      (Line.declaresBackslash line.text = true →
        Line.isEscaped line.text = true ∧ (Layout.ofLine line).isEscaped = false)) ∧
    ∀ (text : Text), ∀ record ∈ (parse text).records,
      record.lastLine.kind ∈ [LineKind.declaration, .continuation] →
      Line.declaresBackslash record.lastLine.text = false →
      (record.terminated = false ↔ ∃ token ∈ record.tokens, token.EscapeOn record.lastLine) ∧
      (record.terminated = false ↔
        ∃ token ∈ (parse text).tokens, token.EscapeOn record.lastLine) := by
  constructor
  · intro line kind
    have known : line.kind ∉ [LineKind.blank, .other] := by
      simp only [List.mem_cons, List.not_mem_nil, or_false] at kind
      rcases kind with kind | kind | kind <;> simp [kind]
    have layout := Layout.ofLine_isEscaped known
    cases lone : Line.declaresBackslash line.text with
    | false => simp [layout, lone]
    | true =>
      have escaped := Line.isEscaped_of_declaresBackslash lone
      simp [layout, lone, escaped]
  · intro text record member kind ordinary
    obtain ⟨own, all⟩ := exists_escapeOn_iff member (Record.lastLine_mem record)
    rw [own, all]
    exact ⟨terminated_iff_isEscaped member kind ordinary,
      terminated_iff_isEscaped member kind ordinary⟩

/-- A record that declares a backslash, and one that goes on with a line that is not there. -/
def unended : Text := "mapkey \\ \nmapkey a x\\\nmapkey(continued) y \\".toList

/-- The first line of the document `unended`. -/
def unendedFirst : Line := ⟨0, 0, "mapkey \\ ".toList⟩

/-- The second record of the document `unended`. -/
def unendedRecord : Record :=
  ⟨['a'], ⟨1, 10, "mapkey a x\\".toList⟩, [⟨2, 22, "mapkey(continued) y \\".toList⟩], false⟩

/-- The first line is escaped by its text only; the last one carries a token for its escape. -/
theorem unended_escapes :
    (unendedFirst ∈ (parse unended).lines ∧ unendedFirst.kind = .declaration ∧
      Line.declaresBackslash unendedFirst.text = true ∧
      Line.isEscaped unendedFirst.text = true ∧ (Layout.ofLine unendedFirst).isEscaped = false) ∧
    unendedRecord ∈ (parse unended).records ∧ unendedRecord.lastLine.kind = .continuation ∧
      Line.declaresBackslash unendedRecord.lastLine.text = false ∧
      unendedRecord.terminated = false ∧
      ∃ token ∈ (parse unended).tokens, token.EscapeOn unendedRecord.lastLine := by
  have declared : unendedFirst.kind = .declaration := by decide
  have lone : Line.declaresBackslash unendedFirst.text = true := by decide
  have member : unendedRecord ∈ (parse unended).records := by decide +kernel
  have continued : unendedRecord.lastLine.kind = .continuation := by decide
  have ordinary : Line.declaresBackslash unendedRecord.lastLine.text = false := by decide
  obtain ⟨lines, records⟩ := escapes_agree
  have marked := (records unended unendedRecord member (by simp [continued]) ordinary).2
  exact ⟨⟨by decide +kernel, declared, lone, (lines unendedFirst (by simp [declared])).2 lone⟩,
    member, continued, ordinary, rfl, marked.mp rfl⟩

end Document
end Mapkeys
