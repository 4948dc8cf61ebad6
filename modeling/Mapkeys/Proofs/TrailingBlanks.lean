import Mapkeys.Proofs.Segments
import Mapkeys.Token.Content

/-!
# Blanks at the ends of lines

Blanks at the end of a line say nothing: a line keeps its shape without them, lines give the same
records, and a record has the same tokens (`Record.tokens_tight`). Only where an empty body begins
depends on them, and no token tells where that is.
-/

namespace Mapkeys

open Text

namespace Text

/-! ## Texts without blanks at the end -/

/-- A text is what is left of it, and blanks. -/
theorem exists_blanks (t : Text) :
    ∃ blanks, t = trimRight t ++ blanks ∧ ∀ c ∈ blanks, isBlank c = true := by
  obtain ⟨blanks, parts⟩ := trimRight_begins t
  refine ⟨blanks, parts.symm, ?_⟩
  have trimmed := trimRight_append (trimRight t) blanks
  rw [parts] at trimmed
  rw [← trimRight_eq_nil_iff]
  by_contra some
  rw [if_neg some] at trimmed
  exact some (List.self_eq_append_right.mp trimmed)

@[simp] theorem trimRight_trimRight (t : Text) : trimRight (trimRight t) = trimRight t := by
  obtain ⟨blanks, parts, blank⟩ := exists_blanks t
  have trimmed := trimRight_append (trimRight t) blanks
  rwa [← parts, if_pos (trimRight_eq_nil_iff.mpr blank), eq_comm] at trimmed

/-- The first blanks of a text are before its end, unless that is blank. -/
theorem indent_append {a : Text} (tight : trimRight a = a) (some : a ≠ []) (b : Text) :
    indent (a ++ b) = indent a := by
  have visible : (a.takeWhile isBlank).length ≠ a.length := by
    intro whole
    have blank : a.takeWhile isBlank = a := (List.takeWhile_prefix isBlank).eq_of_length whole
    have none := trimRight_eq_nil_iff.mpr (List.takeWhile_eq_self_iff.mp blank)
    rw [tight] at none
    exact some none
  unfold indent
  rw [List.takeWhile_append, if_neg visible]

theorem indent_lt_length {a : Text} (tight : trimRight a = a) (some : a ≠ []) :
    indent a < a.length := by
  have rest := trimLeft_ne_nil tight some
  rw [trimLeft_eq_drop] at rest
  by_contra outside
  exact rest (List.drop_eq_nil_of_le (by omega))

/-- A blank is the same letter as itself only. -/
theorem sameLetter_blank {c : Char} (blank : isBlank c = true) {letter : Char}
    (same : sameLetter letter c = true) : letter = c := by
  have code : ¬ (65 ≤ c.toNat ∧ c.toNat ≤ 90) ∧ c.toNat ≠ 0x212A ∧ c.toNat ≠ 0x17F ∧
      c.toNat ≠ 0x130 ∧ c.toNat ≠ 0x131 := by
    simp only [isBlank, blankRanges, inRanges, Bool.and_eq_true, Bool.or_eq_true,
      decide_eq_true_eq, Bool.or_false] at blank
    omega
  have other {d : Char} (differs : c.toNat ≠ d.toNat) : (c == d) = false := by
    rw [beq_eq_false_iff_ne]
    rintro rfl
    exact differs rfl
  have lower : c.toLower = c := dif_neg code.1
  unfold sameLetter at same
  rw [lower, other (d := '\u212A') code.2.1, other (d := '\u017F') code.2.2.1,
    other (d := '\u0130') code.2.2.2.1, other (d := '\u0131') code.2.2.2.2] at same
  simp only [Bool.or_self, Bool.and_false, Bool.or_false, beq_iff_eq] at same
  exact same.symm

/-! ## Texts with blanks after them -/

section

variable {b : Text} (blank : ∀ c ∈ b, isBlank c = true)

include blank

/-- A marker without blanks does not reach into the blanks after a text. -/
theorem startsLike_blanks {marker : Text} (visible : marker.any isBlank = false) (a : Text) :
    startsLike marker (a ++ b) = startsLike marker a := by
  induction marker generalizing a with
  | nil => simp [startsLike]
  | cons letter rest ih =>
    rw [List.any_cons, Bool.or_eq_false_iff] at visible
    have later := ih visible.2
    cases a with
    | cons c others => simp [startsLike, later]
    | nil =>
      cases b with
      | nil => rfl
      | cons c others =>
        have hidden : isBlank c = true := blank c List.mem_cons_self
        have differs : sameLetter letter c = false := by
          rw [Bool.eq_false_iff]
          intro same
          rw [← sameLetter_blank hidden same, visible.1] at hidden
          cases hidden
        simp [startsLike, differs]

/-- Nor does a word. -/
theorem takeWhile_blanks {p : Char → Bool} (visible : ∀ c, isBlank c = true → p c = false)
    (a : Text) : (a ++ b).takeWhile p = a.takeWhile p := by
  have none : b.takeWhile p = [] := by
    cases b with
    | nil => rfl
    | cons c others => simp [visible c (blank c List.mem_cons_self)]
  rw [List.takeWhile_append, none]
  split_ifs with whole
  · rw [List.append_nil]
    exact ((List.takeWhile_prefix p).eq_of_length whole).symm
  · rfl

theorem allBlank_blanks (a : Text) : allBlank (a ++ b) = allBlank a := by
  unfold allBlank
  rw [List.all_append, List.all_eq_true.mpr blank, Bool.and_true]

theorem head_trimLeft_blanks (a : Text) : (trimLeft (a ++ b)).head? = (trimLeft a).head? := by
  induction a with
  | nil =>
    have none : trimLeft b = [] := List.dropWhile_eq_nil_iff.mpr blank
    rw [List.nil_append, none]
    rfl
  | cons c rest ih =>
    by_cases hidden : isBlank c = true
    · simpa [trimLeft, hidden] using ih
    · simp [trimLeft, hidden]

end

end Text

/-! ## Shapes -/

namespace Line

section

variable {a b : Text} (tight : trimRight a = a) (blank : ∀ c ∈ b, isBlank c = true)

include tight blank

theorem declared_blanks (some : a ≠ []) : declared? (a ++ b) = declared? a := by
  have letters : keyword.any isBlank = false := by decide
  have visible (c : Char) (hidden : isBlank c = true) : isNameChar c = false := by
    simp [isNameChar, hidden]
  have inside := indent_lt_length tight some
  unfold declared?
  dsimp only
  rw [indent_append tight some, List.drop_append_of_le_length (by omega),
    startsLike_blanks blank letters]
  by_cases starts : startsLike keyword (a.drop (indent a)) = true
  · rw [if_pos starts, if_pos starts]
    have fits := startsLike_length starts
    rw [List.drop_append_of_le_length fits]
    rw [List.length_drop] at fits
    by_cases more : (a.drop (indent a)).drop keyword.length = []
    · -- the keyword ends the line, so there is no name, with or without blanks
      have length : a.length = indent a + keyword.length := by
        rw [List.drop_drop, List.drop_eq_nil_iff] at more
        omega
      have word : (a ++ b).drop (indent a + keyword.length + indent b) = [] := by
        rw [← length, List.drop_length_add_append, ← trimLeft_eq_drop]
        exact List.dropWhile_eq_nil_iff.mpr blank
      rw [more, List.nil_append, word]
      simp [indent]
    · have within := indent_lt_length (trimRight_drop (trimRight_drop tight _) _) more
      rw [List.length_drop, List.length_drop] at within
      have short : indent a + keyword.length +
          indent ((a.drop (indent a)).drop keyword.length) ≤ a.length := by omega
      rw [indent_append (trimRight_drop (trimRight_drop tight _) _) more]
      generalize indent a + keyword.length + indent ((a.drop (indent a)).drop keyword.length) =
        nameColumn at short
      have bound : ((a.drop nameColumn).takeWhile isNameChar).length ≤ a.length - nameColumn := by
        rw [← List.length_drop]
        exact (List.takeWhile_prefix isNameChar).length_le
      rw [List.drop_append_of_le_length short, takeWhile_blanks blank visible,
        List.drop_append_of_le_length (by omega)]
      simp only [nameOf, allBlank_blanks blank]
  · rw [if_neg starts, if_neg starts]

theorem continued_blanks (some : a ≠ []) : continued? (a ++ b) = continued? a := by
  have letters : continuationMarker.any isBlank = false := by decide
  have inside := indent_lt_length tight some
  unfold continued?
  dsimp only
  rw [indent_append tight some, List.drop_append_of_le_length (by omega),
    startsLike_blanks blank letters]

omit blank in
theorem remarked_blanks (some : a ≠ []) : remarked? (a ++ b) = remarked? a := by
  have inside := indent_lt_length tight some
  have rest : a.drop (indent a) ≠ [] := by simpa using inside
  unfold remarked?
  dsimp only
  rw [indent_append tight some, List.drop_append_of_le_length (by omega),
    List.head?_append_of_ne_nil _ rest]

end

/-- A line keeps its shape without the blanks at its end. -/
theorem shape_trimRight (t : Text) : shape (trimRight t) = shape t := by
  obtain ⟨blanks, parts, blank⟩ := exists_blanks t
  have tight := trimRight_trimRight t
  generalize trimRight t = a at parts tight
  subst parts
  unfold shape
  rw [allBlank_blanks blank]
  by_cases empty : a = []
  · subst empty
    rfl
  · rw [declared_blanks tight blank empty, continued_blanks tight blank empty,
      remarked_blanks tight empty]

/-- The line without the blanks at its end. -/
def tight (line : Line) : Line := { line with text := trimRight line.text }

@[simp] theorem kind_tight (line : Line) : line.tight.kind = line.kind := by
  unfold kind kindOf tight
  rw [shape_trimRight]

end Line

/-! ## Layouts -/

namespace Layout

/-- The layout with the same place for every empty body. -/
def settled (layout : Layout) : Layout :=
  if layout.body.text = [] then { layout with body := ⟨0, []⟩ } else layout

theorem settled_of_body {layout : Layout} (some : layout.body.text ≠ []) :
    layout.settled = layout := if_neg some

@[simp] theorem settled_head (layout : Layout) : layout.settled.head = layout.head := by
  unfold settled
  split_ifs <;> rfl

@[simp] theorem settled_escapeAt (layout : Layout) :
    layout.settled.escapeAt = layout.escapeAt := by
  unfold settled
  split_ifs <;> rfl

@[simp] theorem settled_holdsStatements (layout : Layout) :
    layout.settled.holdsStatements = layout.holdsStatements := by
  simp [holdsStatements, kind, isRemark]

@[simp] theorem settled_isEscaped (layout : Layout) :
    layout.settled.isEscaped = layout.isEscaped := by
  simp [isEscaped]

/-- A body that would begin among the blanks at the end of a line begins at their start. -/
theorem afterBlanks_trimRight {t : Text} {column : Nat} (inside : column ≤ (trimRight t).length) :
    afterBlanks (trimRight t) column = min (afterBlanks t column) (trimRight t).length := by
  obtain ⟨blanks, parts, -⟩ := exists_blanks t
  have tight := trimRight_drop (trimRight_trimRight t) column
  generalize trimRight t = a at parts tight inside
  subst parts
  have reach := afterBlanks_le inside
  unfold afterBlanks at *
  rw [List.drop_append_of_le_length inside]
  by_cases last : a.drop column = []
  · rw [List.drop_eq_nil_iff] at last
    omega
  · rw [indent_append tight last]
    omega

theorem settled_withBody (line : Line) (head : LineHead) (column : Nat) :
    (withBody line.tight head (min column (trimRight line.text).length)).settled =
      (withBody line head column).settled := by
  have content : trimRight line.tight.text = trimRight line.text := trimRight_trimRight line.text
  unfold withBody
  dsimp only
  rw [content]
  by_cases inside : column < (trimRight line.text).length
  · rw [Nat.min_eq_left (Nat.le_of_lt inside)]
    rfl
  · have outside : (trimRight line.text).length ≤ column := by omega
    rw [Nat.min_eq_right outside, if_neg (by omega), if_neg (by omega), List.drop_length,
      List.drop_eq_nil_of_le outside]
    rfl

theorem pieceAt_tight {line : Line} {column length : Nat}
    (inside : column + length ≤ (trimRight line.text).length) :
    pieceAt line.tight column length = pieceAt line column length := by
  obtain ⟨blanks, parts, -⟩ := exists_blanks line.text
  have text : (line.text.drop column).take length =
      ((trimRight line.text).drop column).take length := by
    conv_lhs => rw [parts]
    rw [List.drop_append_of_le_length (by omega), List.take_append_of_le_length]
    rw [List.length_drop]
    omega
  unfold pieceAt
  rw [text]
  rfl

/-- A line is laid out the same without the blanks at its end, up to the place of an empty body. -/
theorem settled_tight (line : Line) : (ofLine line.tight).settled = (ofLine line).settled := by
  have read := Line.shape_spec (trimRight line.text)
  have text : line.tight.text = trimRight line.text := rfl
  have start : line.tight.start = line.start := rfl
  unfold ofLine
  rw [text, Line.shape_trimRight] at *
  cases shape : Line.shape line.text with
  | blank => rfl
  | other => rfl
  | comment column =>
    rw [shape] at read
    have inside := Line.remarked_bounds read
    rw [← settled_withBody line, Nat.min_eq_left (Nat.le_of_lt inside)]
  | declaration head =>
    rw [shape] at read
    obtain ⟨gap, -, inside⟩ := Line.declared_bounds read
    dsimp only
    rw [← settled_withBody line, pieceAt_tight (by omega), afterBlanks_trimRight inside, start]
  | continuation column =>
    rw [shape] at read
    have inside := Line.continued_bounds read
    obtain ⟨blanks, parts, blank⟩ := exists_blanks line.text
    have mark : (line.text.drop (afterBlanks line.text
          (column + Line.continuationMarker.length))).head? =
        ((trimRight line.text).drop (afterBlanks (trimRight line.text)
          (column + Line.continuationMarker.length))).head? := by
      rw [drop_afterBlanks, drop_afterBlanks]
      conv_lhs => rw [parts, List.drop_append_of_le_length inside, head_trimLeft_blanks blank]
    dsimp only
    rw [← settled_withBody line, pieceAt_tight inside, mark, afterBlanks_trimRight inside]

/-! ## Tokens -/

@[simp] theorem settled_text (layout : Layout) : layout.settled.body.text = layout.body.text := by
  unfold settled
  split_ifs with empty
  · exact empty.symm
  · rfl

theorem lineTokens_settled (id : Text) (layout : Layout) :
    layout.settled.lineTokens id = layout.lineTokens id := by
  have body : layout.settled.bodyTokens id = layout.bodyTokens id := by
    by_cases empty : layout.body.text = []
    · simp [bodyTokens, empty, terminators, isRemark]
    · rw [settled_of_body empty]
  unfold lineTokens
  rw [body]
  simp [headTokens, escapeTokens]

theorem callTokens_settled (id : Text) (layout : Layout) :
    layout.settled.callTokens id = layout.callTokens id := by
  by_cases empty : layout.body.text = []
  · simp [callTokens, empty, calls]
  · rw [settled_of_body empty]

end Layout

theorem TagPlace.all_settled (position : Nat) (layouts : List Layout) :
    all position (layouts.map Layout.settled) = all position layouts := by
  induction layouts generalizing position with
  | nil => rfl
  | cons layout rest ih =>
    rw [List.map_cons, all, all, ih]
    by_cases empty : layout.body.text = []
    · simp [empty, Tag.scan]
    · rw [Layout.settled_of_body empty]

namespace Statement

theorem fragments_settled (column : Nat) (layouts : List Layout) :
    fragments column (layouts.map Layout.settled) = fragments column layouts := by
  induction layouts generalizing column with
  | nil => rfl
  | cons layout rest ih =>
    rw [List.map_cons, fragments, fragments, ih]
    by_cases empty : layout.body.text = []
    · have nothing : terminator? [] = none := rfl
      simp [empty, nothing, fragment, trim, trimLeft, trimRight]
    · rw [Layout.settled_of_body empty]

theorem read_settled (layouts : List Layout) (position column : Nat) :
    read (layouts.map Layout.settled) position column = read layouts position column := by
  unfold read
  rw [← List.map_drop, fragments_settled]

end Statement

theorem TagPlace.read_settled (layouts : List Layout) (covered : Tag → Nat)
    (places : List TagPlace) :
    read (layouts.map Layout.settled) covered places = read layouts covered places := by
  induction places generalizing covered with
  | nil => rfl
  | cons place rest ih =>
    rw [read, read, Statement.read_settled]
    simp only [ih]

namespace Record

/-- Records with the same layouts have the same tokens, wherever their empty bodies begin. -/
theorem tokens_of_settled {record other : Record} (id : other.id = record.id)
    (layouts : other.layouts.map Layout.settled = record.layouts.map Layout.settled) :
    other.tokens = record.tokens := by
  have parts (tokens : Layout → List Token)
      (settled : ∀ layout, tokens layout.settled = tokens layout) :
      other.layouts.flatMap tokens = record.layouts.flatMap tokens := by
    have moved (layouts : List Layout) :
        (layouts.map Layout.settled).flatMap tokens = layouts.flatMap tokens := by
      rw [List.flatMap_map]
      exact List.flatMap_congr fun layout _ => settled layout
    rw [← moved, layouts, moved]
  have readings : other.tagReadings = record.tagReadings := by
    unfold tagReadings
    rw [← TagPlace.all_settled, ← TagPlace.read_settled, layouts, TagPlace.all_settled,
      TagPlace.read_settled]
  unfold tokens
  dsimp only
  rw [id, readings, parts _ (Layout.lineTokens_settled _), parts _ (Layout.callTokens_settled _)]

/-- A record has the same tokens without the blanks at the ends of its lines. -/
theorem tokens_tight (record : Record) : (record.map Line.tight).tokens = record.tokens := by
  refine tokens_of_settled rfl ?_
  unfold layouts
  rw [lines_map, List.map_map, List.map_map, List.map_map]
  exact List.map_congr_left fun line _ => Layout.settled_tight line

/-! ## Segmentation -/

theorem keepsOpen_tight (line : Line) : keepsOpen line.tight = keepsOpen line := by
  have comment : Line.isCommentEscaped line.tight.text = Line.isCommentEscaped line.text := by
    simp [Line.isCommentEscaped, Line.tight]
  have escaped : (Layout.ofLine line.tight).isEscaped = (Layout.ofLine line).isEscaped := by
    rw [← Layout.settled_isEscaped, Layout.settled_tight, Layout.settled_isEscaped]
  unfold keepsOpen
  rw [Line.kind_tight, comment, escaped]

theorem keeps_tight : Keeps Line.tight where
  shape line := Line.shape_trimRight line.text
  isEscaped line := by simp [Line.isEscaped, Line.tight]
  keepsOpen := keepsOpen_tight

end Record
end Mapkeys
