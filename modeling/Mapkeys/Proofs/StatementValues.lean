import Mapkeys.Proofs.LinePlaces
import Mapkeys.Proofs.Semicolons

/-!
# Values of statements

The value of a statement can be read off the offsets it covers: it is what the bodies that hold
statements have there, without the blanks at their ends, joined and with its semicolons freed of
their backslashes (`read_determined_by_range`). A semicolon stands right after a statement exactly
if it ends the statement.
-/

namespace Mapkeys

open Text

/-! ## Parts of texts -/

namespace Text

theorem trim_append_left {a : Text} (blank : ∀ c ∈ a, isBlank c = true) (t : Text) :
    trim (a ++ t) = trim t := by
  rw [trim_eq, trim_eq, trimLeft, List.dropWhile_append_of_pos blank]
  rfl

theorem trim_append_right (t : Text) {b : Text} (blank : ∀ c ∈ b, isBlank c = true) :
    trim (t ++ b) = trim t := by
  rw [trim, trim, trimRight_append, if_pos (trimRight_eq_nil_iff.mpr blank)]

theorem blank_of_take_indent {t : Text} {column : Nat} (inside : column ≤ indent t) :
    ∀ c ∈ t.take column, isBlank c = true := by
  intro c member
  rw [← Nat.min_eq_left inside, ← List.take_take, take_indent] at member
  exact blank_of_blanksAt (List.mem_of_mem_take member)

theorem blank_of_drop_trim {t : Text} {column : Nat} (some : trim t ≠ [])
    (beyond : indent t + (trim t).length ≤ column) : ∀ c ∈ t.drop column, isBlank c = true := by
  obtain ⟨blanks, whole, blank⟩ := exists_blanks t
  rw [indent_add_trim some] at beyond
  intro c member
  rw [whole, List.drop_append, List.drop_eq_nil_of_le beyond, List.nil_append] at member
  exact blank c (List.mem_of_mem_drop member)

/-- A part of a text that has everything but blanks is the text up to blanks. -/
theorem trim_slice {t : Text} {low high : Nat}
    (wide : trim t ≠ [] → low ≤ indent t ∧ indent t + (trim t).length ≤ high) :
    trim (slice t low high) = trim t := by
  by_cases empty : trim t = []
  · rw [empty, trim_eq_nil_iff]
    intro c member
    exact trim_eq_nil_iff.mp empty c (List.mem_of_mem_drop (List.mem_of_mem_take member))
  · obtain ⟨from_low, to_high⟩ := wide empty
    have parts : t = t.take low ++ (slice t low high ++ t.drop high) := by
      have rest : t.drop high = (t.drop low).drop (high - low) := by
        rw [List.drop_drop, Nat.add_sub_cancel' (by omega)]
      rw [rest, slice, List.take_append_drop, List.take_append_drop]
    conv_rhs => rw [parts, trim_append_left (blank_of_take_indent from_low),
      trim_append_right _ (blank_of_drop_trim empty to_high)]

end Text

namespace Piece

/-- What a piece holds between two offsets. -/
def cut (start stop : Nat) (piece : Piece) : Text :=
  slice piece.text (start - piece.start) (stop - piece.start)

theorem cut_outside {start stop : Nat} {piece : Piece}
    (outside : min stop piece.stop ≤ max start piece.start) : piece.cut start stop = [] := by
  unfold Piece.stop at outside
  rw [cut, slice, List.take_eq_nil_iff, List.drop_eq_nil_iff]
  omega

theorem cut_drop {start stop column : Nat} {piece : Piece}
    (before : piece.start + column ≤ start ∨ column = 0) :
    cut start stop ⟨piece.start + column, piece.text.drop column⟩ = piece.cut start stop := by
  simp only [cut, slice, List.drop_drop]
  congr 1
  · omega
  · congr 1
    omega

theorem cut_take (start length : Nat) (piece : Piece) :
    cut start (piece.start + length) ⟨piece.start, piece.text.take length⟩ =
      piece.cut start (piece.start + length) := by
  unfold cut slice
  rw [List.drop_take, List.take_take]
  congr 1
  dsimp only
  omega

/-- What a part of a document holds between two offsets is where the ranges meet. -/
theorem PartOf.slice_eq_cut {piece : Piece} {text : Text} (part : piece.PartOf ⟨0, text⟩)
    (start stop : Nat) :
    slice text (max start piece.start) (min stop piece.stop) = piece.cut start stop := by
  by_cases meet : max start piece.start ≤ min stop piece.stop
  · have length : piece.stop = piece.start + piece.text.length := rfl
    have first : max start piece.start = piece.start + (start - piece.start) := by omega
    have last : min stop piece.stop =
        piece.start + min (stop - piece.start) piece.text.length := by
      omega
    rw [first, last, part.slice_inner (by omega) (by omega), cut, slice, slice,
      List.take_eq_take_iff, List.length_drop]
    omega
  · rw [cut_outside (Nat.le_of_not_le meet), slice, Nat.sub_eq_zero_of_le (by omega), List.take_zero]

end Piece

/-! ## Fragments between two offsets -/

namespace Statement

/-- What a reading does with one line after the other: it passes over a line that holds no statements,
    ends at a terminator, goes on after an escaped line, or ends with the line. -/
@[elab_as_elim]
theorem reading_induction {motive : Nat → List Layout → Prop} (nil : ∀ column, motive column [])
    (skip : ∀ column layout rest, layout.holdsStatements = false →
      fragments column (layout :: rest) = fragments 0 rest → motive 0 rest →
      motive column (layout :: rest))
    (terminated : ∀ column layout rest length, layout.holdsStatements = true →
      terminator? (layout.body.text.drop column) = some length →
      fragments column (layout :: rest) =
        (fragment (layout.body.start + column) ((layout.body.text.drop column).take length),
          some (layout.body.start + column + length)) →
      motive column (layout :: rest))
    (escaped : ∀ column layout rest, layout.holdsStatements = true →
      terminator? (layout.body.text.drop column) = none → layout.isEscaped = true →
      fragments column (layout :: rest) =
        (fragment (layout.body.start + column) (layout.body.text.drop column) ++ (fragments 0 rest).1,
          (fragments 0 rest).2) →
      motive 0 rest → motive column (layout :: rest))
    (closed : ∀ column layout rest, layout.holdsStatements = true →
      terminator? (layout.body.text.drop column) = none → layout.isEscaped = false →
      fragments column (layout :: rest) =
        (fragment (layout.body.start + column) (layout.body.text.drop column), none) →
      motive column (layout :: rest))
    (column : Nat) (layouts : List Layout) : motive column layouts := by
  induction layouts generalizing column with
  | nil => exact nil column
  | cons layout rest ih =>
    cases holds : layout.holdsStatements with
    | false => exact skip column layout rest holds (fragments_skip holds) (ih 0)
    | true =>
      cases ends : terminator? (layout.body.text.drop column) with
      | some length =>
        exact terminated column layout rest length holds ends (fragments_terminated holds ends)
      | none =>
        cases further : layout.isEscaped with
        | true =>
          exact escaped column layout rest holds ends further (fragments_escaped holds ends further)
            (ih 0)
        | false =>
          exact closed column layout rest holds ends further (fragments_closed holds ends further)

theorem fragment_texts (start : Nat) (t : Text) :
    (fragment start t).map Piece.text = [trim t].filter (· ≠ []) := by
  unfold fragment
  split_ifs with blank
  · simp [blank]
  · simp [blank]

/-- A range that covers the fragment of a piece has all of it but blanks. -/
theorem trim_cut {piece : Piece} {start stop : Nat}
    (covers : ∀ part ∈ fragment piece.start piece.text, start ≤ part.start ∧ part.stop ≤ stop) :
    trim (piece.cut start stop) = trim piece.text := by
  refine trim_slice fun some => ?_
  have bounds := covers ⟨piece.start + indent piece.text, trim piece.text⟩ (by simp [fragment, some])
  simp only [Piece.stop] at bounds
  omega

section

variable {start stop column : Nat} {body : Piece}
  (before : body.start + column ≤ start ∨ column = 0)

include before

/-- The fragment of a body from a column on is what the body has in a range that covers it. -/
theorem fragment_excerpt
    (covers : ∀ piece ∈ fragment (body.start + column) (body.text.drop column),
      start ≤ piece.start ∧ piece.stop ≤ stop) :
    (fragment (body.start + column) (body.text.drop column)).map Piece.text =
      [trim (body.cut start stop)].filter (· ≠ []) := by
  have whole := @trim_cut ⟨body.start + column, body.text.drop column⟩ start stop covers
  rw [fragment_texts, ← Piece.cut_drop before, whole]

/-- The same for a fragment that a terminator ends. -/
theorem fragment_excerpt_take {length : Nat} (stops : body.start + column + length = stop)
    (covers : ∀ piece ∈ fragment (body.start + column) ((body.text.drop column).take length),
      start ≤ piece.start ∧ piece.stop ≤ stop) :
    (fragment (body.start + column) ((body.text.drop column).take length)).map Piece.text =
      [trim (body.cut start stop)].filter (· ≠ []) := by
  have whole :=
    @trim_cut ⟨body.start + column, (body.text.drop column).take length⟩ start stop covers
  have shortened := Piece.cut_take start length ⟨body.start + column, body.text.drop column⟩
  dsimp only at shortened
  rw [stops] at shortened
  rw [fragment_texts, ← Piece.cut_drop before, ← shortened, whole]

end

/-- What the bodies that hold statements have between two offsets, as far as it is not blank. -/
def excerpts (start stop : Nat) (layouts : List Layout) : List Text :=
  ((layouts.filter Layout.holdsStatements).map fun layout =>
    trim (layout.body.cut start stop)).filter (· ≠ [])

section

variable {start stop : Nat}

theorem excerpts_append (layouts others : List Layout) :
    excerpts start stop (layouts ++ others) =
      excerpts start stop layouts ++ excerpts start stop others := by
  unfold excerpts
  rw [List.filter_append, List.map_append, List.filter_append]

theorem excerpts_skip {layout : Layout} (holds : layout.holdsStatements = false) (rest : List Layout) :
    excerpts start stop (layout :: rest) = excerpts start stop rest := by
  unfold excerpts
  rw [List.filter_cons_of_neg (by simp [holds])]

theorem excerpts_cons {layout : Layout} (holds : layout.holdsStatements = true) (rest : List Layout) :
    excerpts start stop (layout :: rest) =
      [trim (layout.body.cut start stop)].filter (· ≠ []) ++ excerpts start stop rest := by
  unfold excerpts
  rw [List.filter_cons_of_pos holds, List.map_cons, ← List.filter_append]
  rfl

theorem excerpts_outside {layouts : List Layout}
    (outside : ∀ layout ∈ layouts, layout.body.stop ≤ start ∨ stop ≤ layout.body.start) :
    excerpts start stop layouts = [] := by
  unfold excerpts
  refine List.filter_eq_nil_iff.mpr fun excerpt member => ?_
  obtain ⟨layout, own, rfl⟩ := List.mem_map.mp member
  have apart := outside layout (List.mem_of_mem_filter own)
  rw [Piece.cut_outside (by omega)]
  simp [trim, trimRight, trimLeft]

/-- A range of offsets covers what is read from a column of the first body, and not more: it ends
    where the reading ends. -/
structure Spans (start stop column : Nat) (layouts : List Layout) : Prop where
  begins : ∀ layout ∈ layouts.head?, layout.body.start + column ≤ start ∨ column = 0
  fits : ∀ layout ∈ layouts.head?, column ≤ layout.body.text.length
  covers : ∀ piece ∈ (fragments column layouts).1, start ≤ piece.start ∧ piece.stop ≤ stop
  ends : ∀ offset ∈ (fragments column layouts).2, offset = stop
  reaches : (fragments column layouts).2 = none →
    (∃ piece ∈ (fragments column layouts).1, stop ≤ piece.stop) ∨
      ∀ layout ∈ layouts, stop ≤ layout.body.start

section

variable {column : Nat} {layout : Layout} {rest : List Layout}

/-- A reading that goes on with the next line spans what it reads there. -/
theorem Spans.next (spans : Spans start stop column (layout :: rest))
    (pieces : ∀ piece ∈ (fragments 0 rest).1, piece ∈ (fragments column (layout :: rest)).1)
    (same : (fragments column (layout :: rest)).2 = (fragments 0 rest).2)
    (others : ∀ piece ∈ (fragments column (layout :: rest)).1,
      piece ∈ (fragments 0 rest).1 ∨ ∀ later ∈ rest, piece.stop ≤ later.body.start) :
    Spans start stop 0 rest where
  begins _ _ := .inr rfl
  fits _ _ := Nat.zero_le _
  covers piece member := spans.covers piece (pieces piece member)
  ends offset found := spans.ends offset (same ▸ found)
  reaches none := by
    rcases spans.reaches (same.trans none) with ⟨piece, member, reached⟩ | beyond
    · rcases others piece member with later | before
      · exact .inl ⟨piece, later, reached⟩
      · exact .inr fun later own => Nat.le_trans reached (before later own)
    · exact .inr fun later own => beyond later (List.mem_cons_of_mem layout own)

end

/-- A fragment of a body ends before the lines after it. -/
theorem fragment_stop_le {column : Nat} {layout : Layout} {rest : List Layout}
    (fits : column ≤ layout.body.text.length)
    (after : ∀ later ∈ rest, layout.body.stop ≤ later.body.start) :
    ∀ piece ∈ fragment (layout.body.start + column) (layout.body.text.drop column),
      ∀ later ∈ rest, piece.stop ≤ later.body.start := by
  intro piece member later own
  have bounds := fragment_bounds piece member
  have order := after later own
  rw [List.length_drop] at bounds
  unfold Piece.stop at *
  omega

/-- What is read is what the bodies have in the range that it spans. -/
theorem fragments_texts {column : Nat} {layouts : List Layout} (inLine : InLine layouts)
    (spans : Spans start stop column layouts) :
    (fragments column layouts).1.map Piece.text = excerpts start stop layouts := by
  induction column, layouts using reading_induction with
  | nil column => rfl
  | skip column layout rest holds read ih =>
    rw [read, excerpts_skip holds]
    refine ih (List.pairwise_cons.mp inLine).2 (spans.next ?_ ?_ ?_)
    · exact fun piece member => read ▸ member
    · rw [read]
    · exact fun piece member => .inl (read ▸ member)
  | terminated column layout rest length holds ends read =>
    have covers := spans.covers
    rw [read] at covers
    have stops : layout.body.start + column + length = stop := spans.ends _ (by rw [read]; rfl)
    have bound := terminator_lt ends
    rw [List.length_drop] at bound
    have beyond : excerpts start stop rest = [] := by
      refine excerpts_outside fun later own => ?_
      have order := (List.pairwise_cons.mp inLine).1 later own
      unfold Piece.stop at order
      omega
    rw [read, excerpts_cons holds, beyond, List.append_nil,
      fragment_excerpt_take (spans.begins layout rfl) stops covers]
  | escaped column layout rest holds ends escaped read ih =>
    obtain ⟨after, others⟩ := List.pairwise_cons.mp inLine
    have covers := spans.covers
    rw [read] at covers
    have next : Spans start stop 0 rest := by
      refine spans.next ?_ ?_ ?_
      · intro piece member
        rw [read]
        exact List.mem_append_right _ member
      · rw [read]
      · intro piece member
        rw [read] at member
        rcases List.mem_append.mp member with here | later
        · exact .inr (fragment_stop_le (spans.fits layout rfl) after piece here)
        · exact .inl later
    rw [read, excerpts_cons holds, List.map_append, ih others next,
      fragment_excerpt (spans.begins layout rfl)]
    exact fun piece member => covers piece (List.mem_append_left _ member)
  | closed column layout rest holds ends closed read =>
    obtain ⟨after, others⟩ := List.pairwise_cons.mp inLine
    have covers := spans.covers
    rw [read] at covers
    have beyond : excerpts start stop rest = [] := by
      refine excerpts_outside fun later own => .inr ?_
      rcases spans.reaches (by rw [read]) with ⟨piece, member, reached⟩ | beyond
      · rw [read] at member
        exact Nat.le_trans reached
          (fragment_stop_le (spans.fits layout rfl) after piece member later own)
      · exact beyond later (List.mem_cons_of_mem layout own)
    rw [read, excerpts_cons holds, beyond, List.append_nil,
      fragment_excerpt (spans.begins layout rfl) covers]

end

/-! ## Ends of statements -/

theorem ofFragments_value {pieces : List Piece} {terminatorAt : Option Nat} {statement : Statement}
    (made : ofFragments pieces terminatorAt = some statement) :
    statement.value = unescape (join [' '] (pieces.map Piece.text)) ∧
      statement.terminated = terminatorAt.isSome := by
  unfold ofFragments at made
  split at made
  · cases made
    exact ⟨rfl, rfl⟩
  · cases made

theorem terminator_reads {t : Text} {column length : Nat}
    (ends : terminator? (t.drop column) = some length) : t[column + length]? = some ';' := by
  have found := (mem_terminators_iff.mp (List.mem_of_head? ends)).1
  rwa [List.getElem?_drop] at found

/-- The fragment of the end of a body reaches up to the end of the body. -/
theorem fragment_stop {body : Piece} (tight : trimRight body.text = body.text) {column : Nat} :
    ∀ piece ∈ fragment (body.start + column) (body.text.drop column), piece.stop = body.stop := by
  intro piece member
  unfold fragment at member
  split_ifs at member with blank
  · simp at member
  · have length := indent_add_trim blank
    have inside : column ≤ body.text.length := by
      by_contra outside
      rw [List.drop_eq_nil_of_le (by omega)] at blank
      exact blank rfl
    rw [trimRight_drop tight, List.length_drop] at length
    rw [List.mem_singleton.mp member]
    simp only [Piece.stop]
    omega

/-- What ends a reading: a semicolon of a body, or else the end of a body. -/
theorem fragments_ends {column : Nat} {layouts : List Layout}
    (tight : ∀ layout ∈ layouts, trimRight layout.body.text = layout.body.text) :
    (∀ offset ∈ (fragments column layouts).2,
      ∃ layout ∈ layouts, layout.holdsStatements = true ∧ layout.body.Shows offset ';') ∧
    ((fragments column layouts).2 = none → ∀ piece ∈ (fragments column layouts).1,
      ∃ layout ∈ layouts, layout.holdsStatements = true ∧ piece.stop = layout.body.stop) := by
  have later {layout : Layout} {rest : List Layout} {P : Layout → Prop} :
      (∃ other ∈ rest, P other) → ∃ other ∈ layout :: rest, P other := by
    rintro ⟨other, member, property⟩
    exact ⟨other, List.mem_cons_of_mem layout member, property⟩
  induction column, layouts using reading_induction with
  | nil column => simp [fragments]
  | skip column layout rest holds read ih =>
    have next := ih fun other member => tight other (List.mem_cons_of_mem layout member)
    rw [read]
    exact ⟨fun offset found => later (next.1 offset found),
      fun none piece member => later (next.2 none piece member)⟩
  | terminated column layout rest length holds ends read =>
    rw [read]
    refine ⟨fun offset found => ?_, fun none => by cases none⟩
    cases found
    exact ⟨layout, List.mem_cons_self, holds, column + length, by omega, terminator_reads ends⟩
  | escaped column layout rest holds ends escaped read ih =>
    have next := ih fun other member => tight other (List.mem_cons_of_mem layout member)
    rw [read]
    refine ⟨fun offset found => later (next.1 offset found), fun none piece member => ?_⟩
    rcases List.mem_append.mp member with here | further
    · exact ⟨layout, List.mem_cons_self, holds,
        fragment_stop (tight layout List.mem_cons_self) piece here⟩
    · exact later (next.2 none piece further)
  | closed column layout rest holds ends closed read =>
    rw [read]
    refine ⟨by simp, fun _ piece member => ?_⟩
    exact ⟨layout, List.mem_cons_self, holds,
      fragment_stop (tight layout List.mem_cons_self) piece member⟩

/-! ## Statements of a document -/

/-- A column beyond the end of a body is as good as the end. -/
theorem fragments_min (column : Nat) (layout : Layout) (rest : List Layout) :
    fragments column (layout :: rest) =
      fragments (min column layout.body.text.length) (layout :: rest) := by
  by_cases inside : column ≤ layout.body.text.length
  · rw [Nat.min_eq_left inside]
  · have blank : fragment (layout.body.start + column) [] =
        fragment (layout.body.start + layout.body.text.length) [] := rfl
    rw [Nat.min_eq_right (by omega), fragments, fragments, List.drop_length,
      List.drop_eq_nil_of_le (by omega)]
    dsimp only [terminator?, terminators, List.head?_nil]
    rw [blank]

/-- A statement is read from a column inside the body of a line. -/
theorem exists_fitting {layouts : List Layout} {position column : Nat} {statement : Statement}
    (found : read layouts position column = some statement) :
    ∃ layout column', layouts[position]? = some layout ∧ column' ≤ layout.body.text.length ∧
      read layouts position column' = some statement := by
  cases from_there : layouts.drop position with
  | nil => simp [read, from_there, fragments, ofFragments] at found
  | cons layout rest =>
    have there : layouts[position]? = some layout := by
      rw [← List.head?_drop, from_there, List.head?_cons]
    refine ⟨layout, min column layout.body.text.length, there, Nat.min_le_right _ _, ?_⟩
    rw [read, from_there] at found ⊢
    rwa [← fragments_min]

section

variable {layouts : List Layout} {layout : Layout} {high position column : Nat} {statement : Statement}
  (inLine : InLine layouts) (below : ∀ layout ∈ layouts, layout.body.stop ≤ high)
  (here : layouts[position]? = some layout) (fits : column ≤ layout.body.text.length)
  (found : read layouts position column = some statement)

include inLine below here fits found

theorem read_spans : Spans statement.start statement.stop column (layouts.drop position) := by
  have laid := laid_read inLine below here fits
  have within := laid.within found
  obtain ⟨first, last, head, tail, starts, stops⟩ := ofFragments_cases found
  have first_line {other : Layout} (member : other ∈ (layouts.drop position).head?) :
      layout = other := by
    rw [List.head?_drop, here] at member
    exact Option.some.inj member
  refine ⟨fun other member => .inl ?_, fun other member => ?_, laid.covers found, ?_, ?_⟩
  · rw [← first_line member]
    exact within.low_le
  · rw [← first_line member]
    exact fits
  · intro offset terminatorAt
    rw [stops, Option.mem_def.mp terminatorAt, Option.getD_some]
  · intro none
    rw [none, Option.getD_none] at stops
    exact .inl ⟨last, List.mem_of_getLast? tail, Nat.le_of_eq stops⟩

/-- The value of a statement is made of what the bodies have in its range. -/
theorem read_value : statement.value =
    unescape (join [' '] (excerpts statement.start statement.stop layouts)) := by
  have spans := read_spans inLine below here fits found
  have within := read_within inLine below here fits found
  have earlier : excerpts statement.start statement.stop (layouts.take position) = [] := by
    refine excerpts_outside fun other member => .inl ?_
    obtain ⟨k, there⟩ := List.mem_iff_getElem?.mp member
    have inside := (List.getElem?_eq_some_iff.mp there).1
    rw [List.length_take] at inside
    rw [List.getElem?_take_of_lt (by omega)] at there
    have order := body_stop_le inLine there here (by omega)
    have low := within.low_le
    omega
  have texts := fragments_texts (inLine.sublist (List.drop_sublist position layouts)) spans
  rw [(ofFragments_value found).1, texts]
  conv_rhs => rw [← List.take_append_drop position layouts, excerpts_append, earlier, List.nil_append]

end

end Statement

namespace Line

variable {text : Text} {line : Line} (present : line ∈ split text)

include present

/-- What follows a line is a line break. -/
theorem blank_after {c : Char} (reads : text[line.stop]? = some c) : isBlank c = true := by
  obtain ⟨before, raw, after, stands⟩ := exists_place line present
  rw [stands.parts, stop, stands.start, stands.text, List.getElem?_append_right (by omega),
    Nat.add_sub_cancel_left] at reads
  unfold dropReturn at reads
  split_ifs at reads with returned
  · obtain ⟨init, rfl⟩ := List.getLast?_eq_some_iff.mp returned
    rw [List.dropLast_concat, List.append_assoc, List.getElem?_append_right (Nat.le_refl _),
      Nat.sub_self] at reads
    cases reads
    decide
  · rw [List.getElem?_append_right (Nat.le_refl _), Nat.sub_self] at reads
    rcases stands.ends with rfl | ⟨rest, rfl⟩
    · cases reads
    · cases reads
      decide

/-- No semicolon follows a body that holds statements. -/
theorem body_stop_free (holds : (Layout.ofLine line).holdsStatements = true) :
    text[(Layout.ofLine line).body.stop]? ≠ some ';' := by
  intro semicolon
  have ordered := Layout.ofLine_ordered line
  have low := ordered.body_start
  have body : (Layout.ofLine line).body.start ≤ (Layout.ofLine line).body.stop := Nat.le_add_right _ _
  rcases Nat.lt_or_eq_of_le ordered.body_stop with inside | ending
  · have shows := body_shows_semicolon holds
      ((shows_iff present).mpr ⟨semicolon, by omega, inside⟩)
    exact Nat.lt_irrefl _ shows.bounds.2
  · rw [ending] at semicolon
    exact absurd (blank_after present semicolon) (by decide)

end Line

namespace Statement

section

variable {text : Text} {position column : Nat} {statement : Statement}
  (found : read ((Line.split text).map Layout.ofLine) position column = some statement)

include found

/-- A semicolon follows a statement exactly if it ends the statement. -/
theorem read_terminated_iff :
    statement.terminated = true ↔ text[statement.stop]? = some ';' := by
  have tight : ∀ layout ∈ ((Line.split text).map Layout.ofLine).drop position,
      trimRight layout.body.text = layout.body.text := by
    intro layout member
    obtain ⟨line, -, rfl⟩ := List.mem_map.mp (List.mem_of_mem_drop member)
    exact Layout.ofLine_tight line
  obtain ⟨_, last, _, tail, _, stops⟩ := ofFragments_cases found
  have ends := @fragments_ends column _ tight
  rw [(ofFragments_value found).2]
  cases terminatorAt :
      (fragments column (((Line.split text).map Layout.ofLine).drop position)).2 with
  | some offset =>
    rw [terminatorAt, Option.getD_some] at stops
    obtain ⟨layout, member, -, shows⟩ := ends.1 offset terminatorAt
    obtain ⟨line, present, rfl⟩ := List.mem_map.mp (List.mem_of_mem_drop member)
    have reads := Piece.shows_text.mp ((Line.body_partOf present).shows_iff.mp shows).1
    rw [stops]
    exact iff_of_true rfl reads
  | none =>
    rw [terminatorAt, Option.getD_none] at stops
    obtain ⟨layout, member, holds, same⟩ := ends.2 terminatorAt last (List.mem_of_getLast? tail)
    obtain ⟨line, present, rfl⟩ := List.mem_map.mp (List.mem_of_mem_drop member)
    rw [stops, same]
    exact iff_of_false (by simp) (Line.body_stop_free present holds)

/-- A statement covers a part of its document, a semicolon follows it exactly if one ends it, and its
    value is what the bodies that hold statements have in that part, joined with spaces. -/
theorem read_determined_by_range :
    statement.start < statement.stop ∧ statement.stop ≤ text.length ∧
    (statement.terminated = true ↔
      statement.stop < text.length ∧ text[statement.stop]? = some ';') ∧
    statement.value = unescape (join [' ']
      (((((Line.split text).map Layout.ofLine).filter Layout.holdsStatements).map fun layout =>
        trim (slice text (max statement.start layout.body.start)
          (min statement.stop layout.body.stop))).filter (· ≠ []))) := by
  obtain ⟨layout, column', here, fits, found'⟩ := exists_fitting found
  have inLine := inLine_ofLine (Line.split_pairwise text)
  have below : ∀ layout ∈ (Line.split text).map Layout.ofLine, layout.body.stop ≤ text.length := by
    intro other member
    obtain ⟨line, present, rfl⟩ := List.mem_map.mp member
    exact Nat.le_trans (Layout.ofLine_ordered line).body_stop (Line.split_lt line present).2
  have within := read_within inLine below here fits found'
  refine ⟨within.start_lt, within.le_high, ?_, ?_⟩
  · rw [read_terminated_iff found]
    exact ⟨fun reads => ⟨(List.getElem?_eq_some_iff.mp reads).1, reads⟩, And.right⟩
  · rw [read_value inLine below here fits found', excerpts]
    congr 3
    refine List.map_congr_left fun other member => ?_
    obtain ⟨line, present, rfl⟩ := List.mem_map.mp (List.mem_of_mem_filter member)
    rw [(Line.body_partOf present).slice_eq_cut]

end

/-- A statement that passes over a remark, an empty body and a comment, with a semicolon of its own
    before the one that ends it. -/
def scattered : Text :=
  ("mapkey a x y \\\r\nmapkey(continued) ! ;\\\nmapkey(continued) \\\n! \n" ++
    "mapkey(continued) z\\; w ;v").toList

/-- Read from the second column of the first body on, it has a value from two of its lines. -/
theorem scattered_value :
    read ((Line.split scattered).map Layout.ofLine) 0 1 =
        some ⟨"y z; w".toList, 11, 86, true⟩ ∧
      scattered[86]? = some ';' ∧
      "y z; w".toList = unescape (join [' ']
        (((((Line.split scattered).map Layout.ofLine).filter Layout.holdsStatements).map fun layout =>
          trim (slice scattered (max 11 layout.body.start)
            (min 86 layout.body.stop))).filter (· ≠ []))) := by
  have found : read ((Line.split scattered).map Layout.ofLine) 0 1 =
      some ⟨"y z; w".toList, 11, 86, true⟩ := by
    decide +kernel
  obtain ⟨-, -, ends, value⟩ := read_determined_by_range found
  exact ⟨found, (ends.mp rfl).2, value⟩

end Statement
end Mapkeys
