import Mapkeys.Proofs.StatementValues

/-!
# Where contents begin and end

The content of a tag and the tokens of its record agree on where the content stands
(`contents_meet_terminators`): after the tag come only markers and comments before the content begins,
no token ends a statement inside the content, and one does right after it unless none does on the rest
of the lines that the statement goes over.
-/

namespace Mapkeys

open Text Token

namespace Text

@[simp] theorem cleanAt_zero (t : Text) : CleanAt t 0 := by
  intro _
  simp

theorem lt_of_terminator_none {t : Text} {column : Nat} (clean : CleanAt t column)
    (inside : column ≤ t.length) (none : terminator? (t.drop column) = none) :
    ∀ place ∈ terminators 0 false t, place < column := by
  intro place member
  rw [terminators_split clean inside, List.head?_eq_none_iff.mp none, List.map_nil,
    List.append_nil] at member
  have bounds := terminators_bounds place member
  have short := List.length_take_le column t
  omega

theorem mem_of_terminator_some {t : Text} {column length : Nat} (clean : CleanAt t column)
    (inside : column ≤ t.length) (ends : terminator? (t.drop column) = some length) :
    column + length ∈ terminators 0 false t := by
  rw [terminators_split clean inside]
  refine List.mem_append_right _ (List.mem_map.mpr ⟨length, List.mem_of_head? ends, ?_⟩)
  omega

end Text

/-! ## What a reading goes over -/

namespace Statement

/-- A reading comes to a line if the lines before it are escaped, as far as they hold statements. -/
def Reached (layouts : List Layout) (position : Nat) : Prop :=
  ∀ k < position, ∀ before ∈ layouts[k]?, before.holdsStatements = true → before.isEscaped = true

theorem Reached.tail {layout : Layout} {rest : List Layout} {position : Nat}
    (reached : Reached (layout :: rest) (position + 1)) : Reached rest position := by
  intro k inside before there
  exact reached (k + 1) (by omega) before (by rwa [List.getElem?_cons_succ])

/-- A reading may begin at a column of the first body: no backslash is cut off its semicolon there. -/
def CleanStart (column : Nat) (layouts : List Layout) : Prop :=
  ∀ start ∈ layouts.head?, column ≤ start.body.text.length ∧ CleanAt start.body.text column

theorem cleanStart_zero (layouts : List Layout) : CleanStart 0 layouts :=
  fun _ _ => ⟨Nat.zero_le _, cleanAt_zero _⟩

theorem CleanStart.place_lt {column : Nat} {start : Layout} {rest : List Layout}
    (first : CleanStart column (start :: rest))
    (none : terminator? (start.body.text.drop column) = none) :
    ∀ place ∈ terminators 0 false start.body.text, place < column :=
  have ⟨inside, clean⟩ := first start rfl
  lt_of_terminator_none clean inside none

/-- A reading that no semicolon ends has passed none on the lines that it came to. -/
theorem place_lt_of_open {column position : Nat} {layouts : List Layout} {layout : Layout}
    (first : CleanStart column layouts) (unended : (fragments column layouts).2 = none)
    (there : layouts[position]? = some layout) (holds : layout.holdsStatements = true)
    (reached : Reached layouts position) :
    ∀ place ∈ terminators 0 false layout.body.text, position = 0 ∧ place < column := by
  intro place member
  induction column, layouts using reading_induction generalizing position with
  | nil column => simp at there
  | skip column start rest mine read ih =>
    cases position with
    | zero =>
      rw [List.getElem?_cons_zero, Option.some.injEq] at there
      rw [there, holds] at mine
      cases mine
    | succ further =>
      rw [read] at unended
      exact absurd (ih (cleanStart_zero rest) unended there reached.tail).2 (Nat.not_lt_zero place)
  | terminated column start rest length mine ends read =>
    rw [read] at unended
    cases unended
  | escaped column start rest mine ends escaped read ih =>
    cases position with
    | zero =>
      rw [List.getElem?_cons_zero, Option.some.injEq] at there
      subst there
      exact ⟨rfl, first.place_lt ends place member⟩
    | succ further =>
      rw [read] at unended
      exact absurd (ih (cleanStart_zero rest) unended there reached.tail).2 (Nat.not_lt_zero place)
  | closed column start rest mine ends closed read =>
    cases position with
    | zero =>
      rw [List.getElem?_cons_zero, Option.some.injEq] at there
      subst there
      exact ⟨rfl, first.place_lt ends place member⟩
    | succ further =>
      rw [reached 0 (by omega) start rfl mine] at closed
      cases closed

/-- The semicolon that ends a reading ends a statement of its line. -/
theorem exists_place_of_ended {column offset : Nat} {layouts : List Layout}
    (first : CleanStart column layouts) (ended : (fragments column layouts).2 = some offset) :
    ∃ layout ∈ layouts, layout.holdsStatements = true ∧
      ∃ place ∈ terminators 0 false layout.body.text, offset = layout.body.start + place := by
  induction column, layouts using reading_induction with
  | nil column => cases ended
  | skip column start rest holds read ih =>
    rw [read] at ended
    obtain ⟨layout, member, ends⟩ := ih (cleanStart_zero rest) ended
    exact ⟨layout, List.mem_cons_of_mem start member, ends⟩
  | terminated column start rest length holds ends read =>
    rw [read] at ended
    cases ended
    obtain ⟨inside, clean⟩ := first start rfl
    exact ⟨start, List.mem_cons_self, holds, _, mem_of_terminator_some clean inside ends, by omega⟩
  | escaped column start rest holds ends escaped read ih =>
    rw [read] at ended
    obtain ⟨layout, member, ends⟩ := ih (cleanStart_zero rest) ended
    exact ⟨layout, List.mem_cons_of_mem start member, ends⟩
  | closed column start rest holds ends closed read =>
    rw [read] at ended
    cases ended

/-! ## What a reading passes before it finds anything -/

theorem blank_of_fragment_nil {start : Nat} {t : Text} (none : fragment start t = []) :
    ∀ c ∈ t, isBlank c = true := by
  unfold fragment at none
  split_ifs at none with blank
  exact trim_eq_nil_iff.mp blank

/-- Before a fragment of a body stand blanks only, from the column on. -/
theorem fragment_first {body piece : Piece} {column : Nat} {t : Text}
    (begins : t <+: body.text.drop column) (member : piece ∈ fragment (body.start + column) t) :
    piece.start < body.stop ∧ ∀ {offset : Nat} {c : Char}, body.Shows offset c →
      body.start + column ≤ offset → offset < piece.start → isBlank c = true := by
  have bounds := fragment_bounds piece member
  have short := begins.length_le
  rw [List.length_drop] at short
  constructor
  · unfold Piece.stop at *
    omega
  · rintro offset c ⟨place, rfl, there⟩ low before
    have first : piece.start = body.start + column + indent t := by
      unfold fragment at member
      split_ifs at member
      · simp at member
      · rw [List.mem_singleton.mp member]
    have inside : place - column < t.length := by
      have indented := indent_le_length t
      omega
    have reads : (t.take (indent t))[place - column]? = some c := by
      rw [List.getElem?_take_of_lt (by omega), List.getElem?_eq_getElem inside,
        ← List.prefix_iff_getElem?.mp begins _ inside, List.getElem?_drop,
        Nat.add_sub_cancel' (by omega), there]
    exact blank_of_take_indent (Nat.le_refl (indent t)) c (List.mem_of_getElem? reads)

/-- Where the first body has a fragment, what stands before the fragment in any of the bodies stands
    in the first one. -/
theorem blank_before_first {column position offset : Nat} {start layout : Layout}
    {rest : List Layout} {t : Text} {c : Char} {first : Piece} (inLine : InLine (start :: rest))
    (begins : t <+: start.body.text.drop column)
    (member : first ∈ fragment (start.body.start + column) t)
    (there : (start :: rest)[position]? = some layout) (shows : layout.body.Shows offset c)
    (from_column : position = 0 → layout.body.start + column ≤ offset)
    (before : offset < first.start) : isBlank c = true := by
  have bounds := fragment_first begins member
  cases position with
  | zero =>
    rw [List.getElem?_cons_zero, Option.some.injEq] at there
    subst there
    exact bounds.2 shows (from_column rfl) before
  | succ further =>
    rw [List.getElem?_cons_succ] at there
    have order := (List.pairwise_cons.mp inLine).1 layout (List.mem_of_getElem? there)
    have low := shows.bounds.1
    omega

/-- Before its first fragment a reading passes nothing but blanks in the bodies. -/
theorem blank_before_fragments {column : Nat} {layouts : List Layout} (inLine : InLine layouts)
    {first : Piece} (head : (fragments column layouts).1.head? = some first) {position : Nat}
    {layout : Layout} (there : layouts[position]? = some layout)
    (holds : layout.holdsStatements = true) {offset : Nat} {c : Char}
    (shows : layout.body.Shows offset c)
    (from_column : position = 0 → layout.body.start + column ≤ offset)
    (before : offset < first.start) : isBlank c = true := by
  have low := shows.bounds.1
  induction column, layouts using reading_induction generalizing position with
  | nil column => simp at there
  | skip column start rest mine read ih =>
    rw [read] at head
    cases position with
    | zero =>
      rw [List.getElem?_cons_zero, Option.some.injEq] at there
      rw [there, holds] at mine
      cases mine
    | succ further => exact ih (List.pairwise_cons.mp inLine).2 head there (fun _ => low)
  | terminated column start rest length mine ends read =>
    rw [read] at head
    exact blank_before_first inLine (List.take_prefix _ _) (List.mem_of_head? head) there shows
      from_column before
  | escaped column start rest mine ends escaped read ih =>
    rw [read] at head
    cases own : fragment (start.body.start + column) (start.body.text.drop column) with
    | cons piece more =>
      rw [own, List.cons_append, List.head?_cons, Option.some.injEq] at head
      refine blank_before_first inLine (List.prefix_refl _) ?_ there shows from_column before
      rw [own, head]
      exact List.mem_cons_self
    | nil =>
      -- the whole body is blank from the column on
      rw [own, List.nil_append] at head
      cases position with
      | succ further => exact ih (List.pairwise_cons.mp inLine).2 head there (fun _ => low)
      | zero =>
        rw [List.getElem?_cons_zero, Option.some.injEq] at there
        subst there
        have reached := from_column rfl
        obtain ⟨place, rfl, reads⟩ := shows
        refine blank_of_fragment_nil own c (List.mem_of_getElem? (i := place - column) ?_)
        rw [List.getElem?_drop, Nat.add_sub_cancel' (by omega), reads]
  | closed column start rest mine ends closed read =>
    rw [read] at head
    exact blank_before_first inLine (List.prefix_refl _) (List.mem_of_head? head) there shows
      from_column before

end Statement

/-! ## Lines of a record -/

namespace Line

theorem lt_of_visible {t : Text} {column : Nat} {c : Char} (there : t[column]? = some c)
    (visible : isBlank c = false) : column < (dropReturn t).length := by
  have inside := (List.getElem?_eq_some_iff.mp there).1
  unfold dropReturn
  split_ifs with returned
  · by_contra beyond
    rw [List.length_dropLast] at beyond
    rw [List.getLast?_eq_getElem?, show t.length - 1 = column by omega, there] at returned
    cases returned
    exact absurd visible (by decide)
  · exact inside

/-- Every character that is not blank stands on a line. -/
theorem exists_of_visible {text : Text} {offset : Nat} {c : Char} (reads : text[offset]? = some c)
    (visible : isBlank c = false) : ∃ line ∈ split text, line.start ≤ offset ∧ offset < line.stop := by
  induction text using text_induction generalizing offset with
  | last t flat =>
    have some : t ≠ [] := by
      rintro rfl
      simp at reads
    have inside := lt_of_visible reads visible
    rw [split_line some flat]
    refine ⟨_, List.mem_cons_self, Nat.zero_le _, ?_⟩
    simp only [stop]
    omega
  | next t rest flat ih =>
    rw [split_break flat]
    rcases Nat.lt_trichotomy offset t.length with here | rfl | beyond
    · rw [List.getElem?_append_left here] at reads
      have inside := lt_of_visible reads visible
      refine ⟨_, List.mem_cons_self, Nat.zero_le _, ?_⟩
      simp only [stop]
      omega
    · rw [List.getElem?_append_right (Nat.le_refl _), Nat.sub_self, List.getElem?_cons_zero] at reads
      cases reads
      exact absurd visible (by decide)
    · obtain ⟨further, rfl⟩ := Nat.exists_eq_add_of_lt beyond
      rw [List.getElem?_append_right (by omega),
        show t.length + further + 1 - t.length = further + 1 by omega, List.getElem?_cons_succ] at reads
      obtain ⟨line, present, low, high⟩ := ih reads
      refine ⟨_, List.mem_cons_of_mem _ (List.mem_map_of_mem present), ?_, ?_⟩
      · simp only [Relocation.line, Relocation.shift]
        omega
      · simp only [stop, Relocation.line, Relocation.shift] at high ⊢
        omega

theorem eq_of_covers {lines : List Line} (ordered : lines.Pairwise Before) {line other : Line}
    (present : line ∈ lines) (present' : other ∈ lines) {offset : Nat}
    (covers : line.start ≤ offset ∧ offset < line.stop)
    (covers' : other.start ≤ offset ∧ offset < other.stop) : line = other := by
  rcases Record.pairwise_cases ordered present present' with same | before | after
  · exact same
  · have gap := before.stop
    omega
  · have gap := after.stop
    omega

end Line

@[simp] theorem Layout.ofLine_kind (line : Line) : (ofLine line).kind = line.kind := by
  unfold ofLine Line.kind Line.kindOf
  cases Line.shape line.text with
  | _ => simp [kind, Line.Shape.kind]

namespace Record

theorem line_cases {lines : List Line} {record : Record} (member : record ∈ segment lines) {line : Line}
    (own : line ∈ record.lines) :
    line = record.declaration ∧ line.kind = .declaration ∨ canFollow line = true := by
  obtain ⟨before, following, head, -, shape, made⟩ := exists_declaration record member
  rcases List.mem_cons.mp own with rfl | other
  · refine .inl ⟨rfl, ?_⟩
    rw [Line.kind, Line.kindOf, shape]
    rfl
  · rw [congrArg others made] at other
    exact .inr (claim_canFollow line other)

theorem known_of_mem {lines : List Line} {record : Record} (member : record ∈ segment lines)
    {line : Line} (own : line ∈ record.lines) : line.kind ∉ [LineKind.blank, .other] := by
  rcases line_cases member own with ⟨-, kind⟩ | follows
  · simp [kind]
  · rcases canFollow_iff.mp follows with kind | kind
    · simp [kind]
    · simp [kind]

theorem eq_declaration {lines : List Line} {record : Record} (member : record ∈ segment lines)
    {line : Line} (own : line ∈ record.lines) (declares : (Layout.ofLine line).kind = .declaration) :
    line = record.declaration := by
  rw [Layout.ofLine_kind] at declares
  rcases line_cases member own with ⟨same, -⟩ | follows
  · exact same
  · rw [canFollow_iff, declares] at follows
    simp at follows

section

variable {text : Text} {record : Record} (member : record ∈ (Document.parse text).records)

include member

/-- A line of the document that touches a record belongs to it. -/
theorem mem_lines_of_covers {line : Line} (present : line ∈ Line.split text) {offset : Nat}
    (covers : line.start ≤ offset ∧ offset < line.stop)
    (within : record.start ≤ offset ∧ offset ≤ record.stop) : line ∈ record.lines := by
  have ordered := Line.split_pairwise text
  by_contra foreign
  have free : line.index ∉ record.lines.map Line.index := by
    intro known
    obtain ⟨own, mine, same⟩ := List.mem_map.mp known
    have there := mem_split member mine
    rcases pairwise_cases ordered there present with rfl | before | after
    · exact foreign mine
    · have less := before.index
      omega
    · have less := after.index
      omega
  rcases line_outside ordered member present free with before | after
  · omega
  · omega

/-- A character of a record that is not blank is part of a marker or a comment, unless it stands in a
    body that holds statements or before the first one. -/
theorem exists_cover {line : Line} (own : line ∈ record.lines) {offset : Nat} {c : Char}
    (shows : line.piece.Shows offset c) (visible : isBlank c = false)
    (outside : (Layout.ofLine line).holdsStatements = true →
      ¬ (Layout.ofLine line).body.Shows offset c)
    (after : (Layout.ofLine record.declaration).body.start ≤ offset) :
    ∃ cover ∈ record.tokens, cover.kind ∈ [TokenKind.continuationMarker, .comment] ∧
      cover.start ≤ offset ∧ offset < cover.stop := by
  have ordered := Layout.ofLine_ordered line
  have covered {cover : Token} (found : cover ∈ (Layout.ofLine line).lineTokens record.id)
      (kind : cover.kind ∈ [TokenKind.continuationMarker, .comment])
      (bounds : cover.start ≤ offset ∧ offset < cover.stop) :
      ∃ cover ∈ record.tokens, cover.kind ∈ [TokenKind.continuationMarker, .comment] ∧
        cover.start ≤ offset ∧ offset < cover.stop :=
    ⟨cover, mem_tokens_of_line own found, kind, bounds⟩
  -- keyword and name of the declaration stand before its body
  have declared {part : Piece} (declares : (Layout.ofLine line).kind = .declaration)
      (left : part.stop ≤ (Layout.ofLine line).body.start) (shows : part.Shows offset c) : False := by
    rw [eq_declaration member own declares] at left
    have bounds := shows.bounds
    omega
  cases Layout.ofLine_part (known_of_mem member own) shows visible with
  | marker marker mine shows =>
    cases head : (Layout.ofLine line).head with
    | declaration keyword name =>
      exact (declared (by simp only [Layout.kind, head]) (ordered.marker marker mine).2.2 shows).elim
    | continuation mark isRemark =>
      have same : mark = marker := by simpa [Layout.marker?, head] using mine
      subst same
      have found : ofPiece .continuationMarker mark.text mark.start (some record.id) ∈
          (Layout.ofLine line).headTokens record.id := by
        simp [Layout.headTokens, head]
      exact covered (List.mem_append_left _ (List.mem_append_left _ found)) (by simp [ofPiece])
        shows.bounds
    | _ => simp [Layout.marker?, head] at mine
  | name name mine shows =>
    cases head : (Layout.ofLine line).head with
    | declaration keyword _ =>
      exact (declared (by simp only [Layout.kind, head]) (ordered.name name mine).2.2 shows).elim
    | _ => simp [Layout.name?, head] at mine
  | body shows =>
    have some : (Layout.ofLine line).body.text ≠ [] := by
      obtain ⟨column, -, there⟩ := shows
      exact List.ne_nil_of_mem (List.mem_of_getElem? there)
    have remark : (Layout.ofLine line).isRemark = true := by
      by_contra plain
      exact outside (Layout.holds_of_body (Bool.eq_false_iff.mpr plain) some) shows
    have found : ofPiece .comment (Layout.ofLine line).body.text (Layout.ofLine line).body.start
        (.some record.id) ∈ (Layout.ofLine line).bodyTokens record.id := by
      simp [Layout.bodyTokens, remark, some]
    exact covered (List.mem_append_right _ found) (by simp [ofPiece]) shows.bounds
  | escape mine reads =>
    have found : ofPiece .continuationMarker ['\\'] offset (some record.id) ∈
        (Layout.ofLine line).escapeTokens record.id := by
      simp [Layout.escapeTokens, mine]
    exact covered (List.mem_append_left _ (List.mem_append_right _ found)) (by simp [ofPiece])
      (by simp [ofPiece])

end

theorem exists_position {record : Record} {line : Line} (own : line ∈ record.lines) :
    ∃ position : Nat, record.layouts[position]? = some (Layout.ofLine line) :=
  List.mem_iff_getElem?.mp (List.mem_map_of_mem own)

/-- A token that ends a statement stands for a semicolon of a body. -/
theorem exists_of_terminator {text : Text} {ending : Token}
    (ends : ending ∈ (Document.parse text).tokens) (kind : ending.kind = .terminator) :
    ∃ record ∈ (Document.parse text).records, ∃ line ∈ record.lines,
      (Layout.ofLine line).holdsStatements = true ∧
        ∃ column ∈ terminators 0 false (Layout.ofLine line).body.text,
          ending.start = (Layout.ofLine line).body.start + column := by
  obtain ⟨record, member, own⟩ := Document.exists_terminator_iff.mp ⟨ending, ends, kind, rfl⟩
  exact ⟨record, member, exists_terminator_iff.mp own⟩

/-! ## Contents of a record -/

/-- A content among the tokens of a record is introduced by a tag among them. -/
theorem exists_marker {lines : List Line} {record : Record} (ordered : lines.Pairwise Line.Before)
    (member : record ∈ segment lines) {token : Token} (own : token ∈ record.tokens) {tag : Tag}
    (kind : token.kind = tag.contentKind) :
    ∃ place content, place ∈ TagPlace.all 0 record.layouts ∧ place.tag = tag ∧
      (place.reading record.layouts).content = some content ∧
      token = contentToken record.id place content ∧ markerToken record.id place ∈ record.tokens := by
  have among : token ∈ record.tokens.filter (·.kind = tag.contentKind) :=
    List.mem_filter.mpr ⟨own, by simpa using kind⟩
  rw [filter_contents ordered member] at among
  obtain ⟨reading, mine, given⟩ := List.mem_flatMap.mp among
  split_ifs at given with same
  · obtain ⟨content, introduced, rfl⟩ := List.mem_map.mp given
    obtain ⟨place, present, rfl⟩ := List.mem_map.mp ((TagPlace.read_sublist _ _ _).subset mine)
    refine ⟨place, content, present, same, Option.mem_toList.mp introduced, rfl, ?_⟩
    refine (sort_perm _).mem_iff.mpr (List.mem_append_left _ (List.mem_append_right _ ?_))
    exact List.mem_flatMap.mpr ⟨_, mine, List.mem_cons_self⟩
  · simp at given

/-- A line that the statement goes over which begins on the line at a position: it holds statements,
    and the lines before it are escaped as far as they do. -/
def StatementLine (record : Record) (position : Nat) (line : Line) : Prop :=
  ∃ further, record.lines[position + further]? = some line ∧
    (Layout.ofLine line).holdsStatements = true ∧
    Statement.Reached (record.layouts.drop position) further

section

variable {text : Text} {record : Record} (member : record ∈ (Document.parse text).records)
  {place : TagPlace} (present : place ∈ TagPlace.all 0 record.layouts) {content : Statement}
  (found : (place.reading record.layouts).content = some content)

include member present found

theorem content_within_record :
    content.Within (place.offset + place.tag.marker.length) record.stop :=
  content_within (layouts_inLine (Line.split_pairwise text) member)
    (fun _ own => (body_within (Line.split_pairwise text) member own).2) present found

/-- No token ends a statement inside a content. -/
theorem content_free {ending : Token} (ends : ending ∈ (Document.parse text).tokens)
    (kind : ending.kind = .terminator) :
    ending.start < content.start ∨ content.stop ≤ ending.start := by
  have ordered := Line.split_pairwise text
  have inLine := layouts_inLine ordered member
  have within := content_within_record member present found
  obtain ⟨layout, before, rest, stands⟩ := TagPlace.stands_of_mem present
  have starts := (body_within ordered member (List.mem_of_getElem? stands.there)).1
  have offset := stands.offset
  have low := within.low_le
  have high := within.le_high
  obtain ⟨other, member', line, own, holds, column, terminator, there⟩ := exists_of_terminator ends kind
  have inside := body_within ordered member' (List.mem_map_of_mem own)
  have bounds := terminators_bounds column terminator
  unfold Piece.stop at inside
  rcases pairwise_cases (segment_stop_lt_start ordered) member member' with rfl | before | after
  · obtain ⟨position, at_position⟩ := exists_position own
    by_cases earlier : ending.start < content.start
    · exact .inl earlier
    · have later : Statement.Later place.position (place.column + place.tag.marker.length) position
          column :=
        Statement.later_of_le inLine stands.there at_position (by omega) (by omega)
      have stop := Statement.stop_le_terminator inLine stands.there stands.fits at_position later found
        holds terminator
      exact .inr (by omega)
  · exact .inr (by omega)
  · exact .inl (by omega)

/-- Between a tag and its content stand markers and comments only. -/
theorem gap_covered {offset : Nat} {c : Char} (low : place.offset + place.tag.marker.length ≤ offset)
    (high : offset < content.start) (reads : text[offset]? = some c) (visible : isBlank c = false) :
    ∃ cover ∈ record.tokens, cover.kind ∈ [TokenKind.continuationMarker, .comment] ∧
      cover.start ≤ offset ∧ offset < cover.stop := by
  have ordered := Line.split_pairwise text
  have inLine := layouts_inLine ordered member
  have within := content_within_record member present found
  have content_some := within.start_lt
  have content_high := within.le_high
  obtain ⟨layout, before, rest, stands⟩ := TagPlace.stands_of_mem present
  have starts := (body_within ordered member (List.mem_of_getElem? stands.there)).1
  have place_offset := stands.offset
  obtain ⟨line, there, covers⟩ := Line.exists_of_visible reads visible
  have own := mem_lines_of_covers member there covers ⟨by omega, by omega⟩
  have shows := (Line.shows_iff there).mpr ⟨reads, covers⟩
  refine exists_cover member own shows visible (fun holds inner => ?_) ?_
  · obtain ⟨position, at_position⟩ := exists_position own
    have bounds := inner.bounds
    have reached : place.position ≤ position := by
      by_contra earlier
      have order := Statement.body_stop_le inLine at_position stands.there (by omega)
      omega
    obtain ⟨further, rfl⟩ := Nat.exists_eq_add_of_le reached
    obtain ⟨first, -, head, -, begins, -⟩ := Statement.ofFragments_cases found
    have blank := Statement.blank_before_fragments
      (inLine.sublist (List.drop_sublist place.position _)) head
      (by rw [List.getElem?_drop]; exact at_position) holds inner ?_ (by omega)
    · rw [visible] at blank
      cases blank
    · rintro rfl
      rw [Nat.add_zero, stands.there] at at_position
      cases at_position
      omega
  · have first : record.layouts[0]? = some (Layout.ofLine record.declaration) := rfl
    cases position : place.position with
    | zero =>
      have same := stands.there
      rw [position, first] at same
      cases same
      omega
    | succ further =>
      have order := Statement.body_stop_le inLine first stands.there (by omega)
      unfold Piece.stop at order
      omega

/-- A token ends a statement right after a content, or none does from the content on, on the lines
    that the statement goes over. -/
theorem content_ends :
    (∃ ending ∈ (Document.parse text).tokens,
      ending.kind = .terminator ∧ ending.start = content.stop) ∨
    ∀ ending ∈ (Document.parse text).tokens, ending.kind = .terminator →
      content.start ≤ ending.start → ∀ line, record.StatementLine place.position line →
        ¬ (line.start ≤ ending.start ∧ ending.start < line.stop) := by
  have ordered := Line.split_pairwise text
  have low := (content_within_record member present found).low_le
  obtain ⟨layout, before, rest, stands⟩ := TagPlace.stands_of_mem present
  have offset := stands.offset
  have first : Statement.CleanStart (place.column + place.tag.marker.length)
      (record.layouts.drop place.position) := by
    intro start head
    rw [List.head?_drop, stands.there] at head
    cases head
    exact ⟨stands.fits, stands.clean⟩
  obtain ⟨_, _, _, _, _, stops⟩ := Statement.ofFragments_cases found
  cases ends : (Statement.fragments (place.column + place.tag.marker.length)
      (record.layouts.drop place.position)).2 with
  | some stop =>
    rw [ends, Option.getD_some] at stops
    obtain ⟨holder, there, holds, column, terminator, same⟩ :=
      Statement.exists_place_of_ended first ends
    obtain ⟨line, own, rfl⟩ := List.mem_map.mp (List.mem_of_mem_drop there)
    refine .inl (Document.exists_terminator_iff.mpr ⟨record, member, exists_terminator_iff.mpr ?_⟩)
    exact ⟨line, own, holds, column, terminator, by omega⟩
  | none =>
    refine .inr ?_
    rintro ending member' kind after line ⟨further, at_further, holds, reached⟩ covers
    obtain ⟨other, theirs, holder, mine, -, column, terminator, there⟩ :=
      exists_of_terminator member' kind
    have parts := Layout.ofLine_ordered holder
    have body_low := parts.body_start
    have body_high := parts.body_stop
    have bounds := terminators_bounds column terminator
    unfold Piece.stop at body_high
    -- the line is the one that the semicolon stands on
    obtain rfl : holder = line :=
      Line.eq_of_covers ordered (mem_split theirs mine)
        (mem_split member (List.mem_of_getElem? at_further)) ⟨by omega, by omega⟩ covers
    have at_layout : (record.layouts.drop place.position)[further]? = some (Layout.ofLine holder) := by
      rw [List.getElem?_drop, layouts, List.getElem?_map, at_further, Option.map_some]
    obtain ⟨rfl, early⟩ :=
      Statement.place_lt_of_open first ends at_layout holds reached column terminator
    rw [List.getElem?_drop, Nat.add_zero, stands.there] at at_layout
    cases at_layout
    omega

end

end Record

namespace Document

/-- The content of a tag agrees with the tokens of its record: no token ends a statement inside it;
    between the tag and the content stand markers and comments only; and one ends a statement right
    after the content, unless none does on the rest of the lines that the statement goes over. -/
theorem contents_meet_terminators {text : Text} {record : Record}
    (member : record ∈ (parse text).records) {token : Token} (own : token ∈ record.tokens) {tag : Tag}
    (kind : token.kind = tag.contentKind) :
    (∀ ending ∈ (parse text).tokens, ending.kind = .terminator →
      ¬ (token.start ≤ ending.start ∧ ending.start < token.stop)) ∧
    ∃ marker ∈ record.tokens, marker.kind = .tag ∧ marker.value = tag.marker ∧
      marker.stop ≤ token.start ∧
      (∀ offset c, marker.stop ≤ offset → offset < token.start → text[offset]? = some c →
        isBlank c = false → ∃ cover ∈ record.tokens,
          cover.kind ∈ [TokenKind.continuationMarker, .comment] ∧
          cover.start ≤ offset ∧ offset < cover.stop) ∧
      ∃ position line, record.lines[position]? = some line ∧
        line.start ≤ marker.start ∧ marker.stop ≤ line.stop ∧
        ((∃ ending ∈ (parse text).tokens, ending.kind = .terminator ∧ ending.start = token.stop) ∨
          ∀ ending ∈ (parse text).tokens, ending.kind = .terminator → token.start ≤ ending.start →
            ∀ other, record.StatementLine position other →
              ¬ (other.start ≤ ending.start ∧ ending.start < other.stop)) := by
  obtain ⟨place, content, present, rfl, found, rfl, marked⟩ :=
    Record.exists_marker (Line.split_pairwise text) member own kind
  have within := Record.content_within_record member present found
  obtain ⟨layout, before, rest, stands⟩ := TagPlace.stands_of_mem present
  have fits := stands.fits
  have offset := stands.offset
  obtain ⟨line, there, rfl⟩ : ∃ line, record.lines[place.position]? = some line ∧
      Layout.ofLine line = layout := by
    have there := stands.there
    rw [Record.layouts, List.getElem?_map] at there
    exact Option.map_eq_some_iff.mp there
  have parts := Layout.ofLine_ordered line
  have body_low := parts.body_start
  have body_high := parts.body_stop
  unfold Piece.stop at body_high
  constructor
  · intro ending ends terminator inside
    have free := Record.content_free member present found ends terminator
    simp only [Record.contentToken] at inside
    omega
  refine ⟨_, marked, rfl, rfl, within.low_le, ?_, place.position, line, there, ?_, ?_, ?_⟩
  · intro offset c low high reads visible
    exact Record.gap_covered member present found low high reads visible
  · simp only [Record.markerToken, ofPiece_start]
    omega
  · simp only [Record.markerToken, ofPiece_stop]
    omega
  · exact Record.content_ends member present found

/-- A tag whose content begins three lines further on, after a remark and a comment. -/
def deferred : Text :=
  "mapkey a @SYSTEM \\\nmapkey(continued) !;\\\n! ;\\\nmapkey(continued) x\\;y ;z".toList

/-- The semicolons of the remark and of the comment stand in tokens between the tag and its content. -/
theorem deferred_gap :
    ∃ record ∈ (parse deferred).records, ∃ token ∈ record.tokens,
      token.kind = Tag.system.contentKind ∧ token.start = 64 ∧ token.stop = 69 ∧
      (∀ ending ∈ (parse deferred).tokens, ending.kind = .terminator →
        ¬ (64 ≤ ending.start ∧ ending.start < 69)) ∧
      ∀ offset ∈ [38, 43], ∃ cover ∈ record.tokens,
        cover.kind ∈ [TokenKind.continuationMarker, .comment] ∧
        cover.start ≤ offset ∧ offset < cover.stop := by
  obtain ⟨record, member, token, own, kind, start, stop, only⟩ :
      ∃ record ∈ (parse deferred).records, ∃ token ∈ record.tokens,
        token.kind = Tag.system.contentKind ∧ token.start = 64 ∧ token.stop = 69 ∧
        ∀ marker ∈ record.tokens, marker.kind = .tag → marker.stop = 16 := by
    decide +kernel
  obtain ⟨free, marker, marked, tagged, -, -, gap, -⟩ := contents_meet_terminators member own kind
  have ends := only marker marked tagged
  rw [start, stop] at free
  refine ⟨record, member, token, own, kind, start, stop, free, ?_⟩
  intro offset chosen
  have reads : deferred[offset]? = some ';' := by
    rcases List.mem_pair.mp chosen with rfl | rfl
    · decide
    · decide
  have low : 16 ≤ offset ∧ offset < 64 := by
    rcases List.mem_pair.mp chosen with rfl | rfl
    · omega
    · omega
  exact gap offset ';' (by omega) (by omega) reads (by decide)

end Document
end Mapkeys
