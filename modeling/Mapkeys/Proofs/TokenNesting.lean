import Mapkeys.Proofs.DocumentTokens
import Mapkeys.Proofs.StatementExtent

/-!
# Nesting of tokens

Two tokens of a document never cross: they stand apart, or one lies inside the other. The tags and
the called names of a record are words of its bodies, which no content cuts through; of two
contents, one contains the other unless it ends before the other's tag.
-/

namespace Mapkeys

open Text Token

namespace Token

/-- One token lies inside another one. -/
def Inside (a b : Token) : Prop := b.start ≤ a.start ∧ a.stop ≤ b.stop

/-- Two tokens that do not cross. -/
def Nested (a b : Token) : Prop := Apart a b ∨ Inside a b ∨ Inside b a

theorem Inside.refl (a : Token) : Inside a a := ⟨Nat.le_refl _, Nat.le_refl _⟩

theorem Nested.symm {a b : Token} (nested : Nested a b) : Nested b a := by
  rcases nested with apart | inner | outer
  · exact .inl apart.symm
  · exact .inr (.inr inner)
  · exact .inr (.inl outer)

theorem nested_of_single {a : Token} (single : a.stop = a.start + 1) (b : Token) : Nested a b := by
  unfold Nested Apart Inside
  omega

end Token

/-! ## Words of the bodies -/

namespace TagPlace

/-- The tag stands in the body of a layout that holds statements, after `before`. -/
structure Stands (layouts : List Layout) (place : TagPlace) (layout : Layout) (before rest : Text) :
    Prop where
  there : layouts[place.position]? = some layout
  holds : layout.holdsStatements = true
  offset : place.offset = layout.body.start + place.column
  spelled : layout.body.text = before ++ (place.tag.marker ++ rest)
  column : before.length = place.column

theorem exists_stands {position : Nat} {layouts : List Layout} :
    ∀ place ∈ all position layouts, ∃ k layout before rest, place.position = position + k ∧
      layouts[k]? = some layout ∧ layout.holdsStatements = true ∧
      place.offset = layout.body.start + place.column ∧
      layout.body.text = before ++ (place.tag.marker ++ rest) ∧ before.length = place.column := by
  induction layouts generalizing position with
  | nil => simp [all]
  | cons layout others ih =>
    intro place member
    rw [all_cons] at member
    rcases List.mem_append.mp member with here | later
    · unfold ofLayout at here
      split_ifs at here with holds
      · obtain ⟨⟨column, tag⟩, found, rfl⟩ := List.mem_map.mp here
        obtain ⟨before, rest, spelled, start⟩ := Tag.scan_spelled _ found
        exact ⟨0, layout, before, rest, rfl, rfl, holds, rfl, spelled, by dsimp only at start ⊢; omega⟩
      · simp at here
    · obtain ⟨k, found, before, rest, there, at_k, standing⟩ := ih place later
      exact ⟨k + 1, found, before, rest, by omega, at_k, standing⟩

theorem stands_of_mem {layouts : List Layout} {place : TagPlace} (member : place ∈ all 0 layouts) :
    ∃ layout before rest, Stands layouts place layout before rest := by
  obtain ⟨k, layout, before, rest, there, at_k, holds, offset, spelled, column⟩ :=
    exists_stands place member
  rw [Nat.zero_add] at there
  exact ⟨layout, before, rest, there ▸ at_k, holds, offset, spelled, column⟩

section

variable {layouts : List Layout} {place : TagPlace} {layout : Layout} {before rest : Text}
  (stands : Stands layouts place layout before rest)

include stands

theorem Stands.fits : place.column + place.tag.marker.length ≤ layout.body.text.length := by
  rw [stands.spelled, List.length_append, List.length_append, stands.column]
  omega

/-- Reading may start afresh after a tag, since no tag ends in a backslash. -/
theorem Stands.clean : CleanAt layout.body.text (place.column + place.tag.marker.length) := by
  intro _ backslash
  have taken : layout.body.text.take (place.column + place.tag.marker.length) =
      before ++ place.tag.marker := by
    rw [stands.spelled, ← stands.column, ← List.append_assoc, ← List.length_append, List.take_left]
  obtain ⟨word, marker, -⟩ := Tag.marker_eq_cons place.tag
  rw [taken, List.getLast?_append_of_ne_nil _ (by simp [marker])] at backslash
  exact (place.tag.marker_plain _ (List.mem_of_getLast? backslash)).2.2.2 rfl

end

end TagPlace

/-- A called name stands in a body that holds statements, between a percent sign and a semicolon. -/
structure Layout.Calls (layout : Layout) (token : Token) (before name rest : Text) : Prop where
  holds : layout.holdsStatements = true
  spelled : layout.body.text = before ++ '%' :: (name ++ ';' :: rest)
  start : token.start = layout.body.start + before.length + 1
  stop : token.stop = token.start + name.length
  some : name ≠ []
  plain : ∀ c ∈ name, isCallChar c = true

theorem Layout.calls_of_mem {layout : Layout} {record : Text} {token : Token}
    (member : token ∈ layout.callTokens record) :
    ∃ before name rest, layout.Calls token before name rest := by
  unfold Layout.callTokens at member
  split_ifs at member with holds
  · obtain ⟨⟨column, name⟩, found, rfl⟩ := List.mem_map.mp member
    obtain ⟨before, rest, spelled, start, some, plain⟩ := calls_spelled _ found
    refine ⟨before, name, rest, holds, spelled, ?_, rfl, some, plain⟩
    rw [ofPiece_start]
    dsimp only at start
    omega
  · simp at member

/-- The semicolon after a called name ends a statement. -/
theorem Layout.Calls.terminator {layout : Layout} {token : Token} {before name rest : Text}
    (calls : layout.Calls token before name rest) :
    before.length + 1 + name.length ∈ terminators 0 false layout.body.text := by
  refine mem_terminators.mpr ⟨before ++ '%' :: name, rest, ?_, ?_, ?_⟩
  · rw [calls.spelled]
    simp
  · rw [List.length_append, List.length_cons]
    omega
  · refine escapedAfter_false fun backslash => ?_
    rw [List.getLast?_append_of_ne_nil _ (by simp)] at backslash
    rcases List.mem_cons.mp (List.mem_of_getLast? backslash) with percent | inside
    · exact absurd percent (by decide)
    · exact (isCallChar_iff.mp (calls.plain _ inside)).2.2.2 rfl

/-! ## Tags, contents and calls -/

namespace Record

/-- The token of a tag. -/
def markerToken (id : Text) (place : TagPlace) : Token :=
  .ofPiece .tag place.tag.marker place.offset (some id)

/-- The token of the content of a tag. -/
def contentToken (id : Text) (place : TagPlace) (content : Statement) : Token :=
  ⟨place.tag.contentKind, content.value, content.start, content.stop, some id⟩

theorem pairwise_cases {α : Type} {R : α → α → Prop} {list : List α} (pairwise : list.Pairwise R)
    {a b : α} (first : a ∈ list) (second : b ∈ list) : a = b ∨ R a b ∨ R b a := by
  obtain ⟨i, inside, rfl⟩ := List.getElem_of_mem first
  obtain ⟨j, inside', rfl⟩ := List.getElem_of_mem second
  have order := List.pairwise_iff_getElem.mp pairwise
  rcases Nat.lt_trichotomy i j with before | same | after
  · exact .inr (.inl (order i j inside inside' before))
  · subst same
    exact .inl rfl
  · exact .inr (.inr (order j i inside' inside after))

theorem nested_of_apart {tokens : List Token} (apart : tokens.Pairwise Apart) :
    ∀ a ∈ tokens, ∀ b ∈ tokens, Nested a b := by
  intro a first b second
  rcases pairwise_cases apart first second with rfl | before | after
  · exact .inr (.inl (Inside.refl _))
  · exact .inl before
  · exact .inl after.symm

section

variable {layouts : List Layout} {high : Nat} {place place' : TagPlace} {layout : Layout} {id : Text}
  {content content' : Statement} {token : Token} (inLine : Statement.InLine layouts)
  (below : ∀ layout ∈ layouts, layout.body.stop ≤ high)
  (present : place ∈ TagPlace.all 0 layouts) (present' : place' ∈ TagPlace.all 0 layouts)
  (found : (place.reading layouts).content = some content)

include inLine present present' in
theorem places_cases :
    place = place' ∨ place.offset + place.tag.marker.length ≤ place'.offset ∨
      place'.offset + place'.tag.marker.length ≤ place.offset :=
  pairwise_cases (TagPlace.all_pairwise inLine) present present'

include inLine present present' in
theorem markers_nested : Nested (markerToken id place) (markerToken id place') := by
  rcases places_cases inLine present present' with rfl | before | after
  · exact .inr (.inl (Inside.refl _))
  · exact .inl (.inl before)
  · exact .inl (.inr after)

include inLine present in
/-- A tag that touches a called name stands inside it. -/
theorem marker_apart_or_inside_call (own : layout ∈ layouts)
    (called : token ∈ layout.callTokens id) :
    Apart (markerToken id place) token ∨ Inside (markerToken id place) token := by
  obtain ⟨position, there⟩ := List.mem_iff_getElem?.mp own
  obtain ⟨before', name, rest', calls⟩ := Layout.calls_of_mem called
  obtain ⟨standing, before, rest, stands⟩ := TagPlace.stands_of_mem present
  have fits := stands.fits
  have offset := stands.offset
  have column := stands.column
  have start := calls.start
  have stop := calls.stop
  have length := congrArg List.length calls.spelled
  simp only [List.length_append, List.length_cons] at length
  unfold Apart Inside markerToken
  simp only [ofPiece_start, ofPiece_stop]
  rcases Nat.lt_trichotomy place.position position with earlier | same | later
  · have order := Statement.body_stop_le inLine stands.there there earlier
    unfold Piece.stop at order
    omega
  · subst same
    have one := stands.there
    rw [there] at one
    cases one
    have cases := marker_outside_or_inside_call (stands.spelled.symm.trans calls.spelled)
    omega
  · have order := Statement.body_stop_le inLine there stands.there later
    unfold Piece.stop at order
    omega

include inLine below present found

theorem content_within : content.Within (place.offset + place.tag.marker.length) high := by
  obtain ⟨standing, before, rest, stands⟩ := TagPlace.stands_of_mem present
  have within := Statement.read_within inLine below stands.there stands.fits found
  rwa [← Nat.add_assoc, ← stands.offset] at within

/-- A content does not cut through a word after its tag. -/
theorem content_word_nested {position : Nat} (before : Text) {word : Text} (rest : Text)
    (there : layouts[position]? = some layout) (holds : layout.holdsStatements = true)
    (spelled : layout.body.text = before ++ (word ++ rest)) (nonempty : word ≠ [])
    (plain : ∀ c ∈ word, isBlank c = false ∧ c ≠ ';')
    (start : token.start = layout.body.start + before.length)
    (stop : token.stop = token.start + word.length)
    (after : place.offset + place.tag.marker.length ≤ token.start) :
    Nested (contentToken id place content) token := by
  obtain ⟨standing, _, _, stands⟩ := TagPlace.stands_of_mem present
  have positive := List.length_pos_iff.mpr nonempty
  have inside : before.length < layout.body.text.length := by
    rw [spelled, List.length_append, List.length_append]
    omega
  have offset := stands.offset
  have later : Statement.Later place.position (place.column + place.tag.marker.length) position
      before.length :=
    Statement.later_of_le inLine stands.there there inside (by omega)
  rcases Statement.word_apart_or_inside inLine below stands.there stands.fits there later found holds
    spelled rfl nonempty plain with apart | ⟨low, high⟩
  · exact .inl (.inl (by simp only [contentToken]; omega))
  · exact .inr (.inr ⟨by simp only [contentToken]; omega, by simp only [contentToken]; omega⟩)

theorem content_call_nested (own : layout ∈ layouts) (called : token ∈ layout.callTokens id) :
    Nested (contentToken id place content) token := by
  obtain ⟨position, there⟩ := List.mem_iff_getElem?.mp own
  obtain ⟨before, name, rest, calls⟩ := Layout.calls_of_mem called
  obtain ⟨standing, _, _, stands⟩ := TagPlace.stands_of_mem present
  have low := (content_within inLine below present found).low_le
  have offset := stands.offset
  have start := calls.start
  have stop := calls.stop
  by_cases after : place.offset + place.tag.marker.length ≤ token.start
  · refine content_word_nested inLine below present found (before ++ ['%']) (';' :: rest)
      there calls.holds ?_ calls.some ?_ ?_ stop after
    · rw [calls.spelled]
      simp
    · intro c member
      have plain := isCallChar_iff.mp (calls.plain c member)
      exact ⟨plain.1, plain.2.1⟩
    · rw [start, List.length_append, List.length_singleton]
      omega
  · -- the call begins before the content does
    rcases marker_apart_or_inside_call inLine present own called with apart | inner
    · unfold Apart markerToken at apart
      simp only [ofPiece_start, ofPiece_stop] at apart
      exact .inl (.inr (by simp only [contentToken]; omega))
    · -- the tag stands in the called name, so the semicolon after the name ends its content
      unfold Inside markerToken at inner
      simp only [ofPiece_start, ofPiece_stop] at inner
      have fits := (terminators_bounds _ calls.terminator).2
      have later : Statement.Later place.position (place.column + place.tag.marker.length) position
          (before.length + 1 + name.length) :=
        Statement.later_of_le inLine stands.there there (by omega) (by omega)
      have ends := Statement.stop_le_terminator inLine stands.there stands.fits there later found
        calls.holds calls.terminator
      exact .inr (.inl ⟨by simp only [contentToken]; omega, by simp only [contentToken]; omega⟩)

include present'

theorem content_marker_nested : Nested (contentToken id place content) (markerToken id place') := by
  have low := (content_within inLine below present found).low_le
  obtain ⟨standing, before, rest, stands⟩ := TagPlace.stands_of_mem present'
  obtain ⟨word, marker, -⟩ := Tag.marker_eq_cons place'.tag
  rcases places_cases inLine present present' with rfl | after | earlier
  · exact .inl (.inr low)
  · refine content_word_nested inLine below present found before rest stands.there stands.holds
      stands.spelled (by simp [marker]) ?_ ?_ rfl after
    · intro c member
      have plain := place'.tag.marker_plain c member
      exact ⟨plain.1, plain.2.1⟩
    · rw [stands.column]
      exact stands.offset
  · refine .inl (.inr ?_)
    simp only [markerToken, contentToken, ofPiece_stop]
    omega

/-- A content that does not end before a later tag contains what that tag introduces. -/
theorem content_later_nested (found' : (place'.reading layouts).content = some content')
    (after : place.offset + place.tag.marker.length ≤ place'.offset) :
    Nested (contentToken id place content) (contentToken id place' content') := by
  obtain ⟨standing, _, _, stands⟩ := TagPlace.stands_of_mem present
  obtain ⟨standing', _, _, stands'⟩ := TagPlace.stands_of_mem present'
  have low := (content_within inLine below present' found').low_le
  have offset := stands.offset
  have offset' := stands'.offset
  have fits' := stands'.fits
  obtain ⟨word, marker, -⟩ := Tag.marker_eq_cons place'.tag
  have positive : 0 < place'.tag.marker.length := by simp [marker]
  have later : Statement.Later place.position (place.column + place.tag.marker.length)
      place'.position place'.column :=
    Statement.later_of_le inLine stands.there stands'.there (by omega) (by omega)
  have beyond : Statement.Later place.position (place.column + place.tag.marker.length)
      place'.position (place'.column + place'.tag.marker.length) := by
    unfold Statement.Later at *
    omega
  rcases Statement.statement_apart_or_inside inLine below stands.there stands.fits stands'.there
    beyond found fits' stands'.clean found' with apart | inside
  · exact .inl (.inl (by simp only [contentToken]; omega))
  · exact .inr (.inr inside)

theorem contents_nested (found' : (place'.reading layouts).content = some content') :
    Nested (contentToken id place content) (contentToken id place' content') := by
  rcases places_cases inLine present present' with rfl | earlier | later
  · rw [found] at found'
    cases found'
    exact .inr (.inl (Inside.refl _))
  · exact content_later_nested inLine below present present' found found' earlier
  · exact (content_later_nested inLine below present' present found' found later).symm

end

/-! ## Tokens of a record -/

/-- A token begins and ends in bodies that hold statements. -/
def InBodies (layouts : List Layout) (token : Token) : Prop :=
  (∃ layout ∈ layouts, layout.holdsStatements = true ∧
      layout.body.start ≤ token.start ∧ token.start ≤ layout.body.stop) ∧
    ∃ layout ∈ layouts, layout.holdsStatements = true ∧
      layout.body.start ≤ token.stop ∧ token.stop ≤ layout.body.stop

theorem marker_inBodies {layouts : List Layout} {place : TagPlace} {id : Text}
    (present : place ∈ TagPlace.all 0 layouts) : InBodies layouts (markerToken id place) := by
  obtain ⟨layout, before, rest, stands⟩ := TagPlace.stands_of_mem present
  have own := List.mem_of_getElem? stands.there
  have offset := stands.offset
  have fits := stands.fits
  constructor
  · refine ⟨layout, own, stands.holds, ?_⟩
    simp only [markerToken, ofPiece_start, Piece.stop]
    omega
  · refine ⟨layout, own, stands.holds, ?_⟩
    simp only [markerToken, ofPiece_stop, Piece.stop]
    omega

theorem content_inBodies {layouts : List Layout} {place : TagPlace} {id : Text} {content : Statement}
    (present : place ∈ TagPlace.all 0 layouts)
    (found : (place.reading layouts).content = some content) :
    InBodies layouts (contentToken id place content) := by
  obtain ⟨layout, before, rest, stands⟩ := TagPlace.stands_of_mem present
  exact Statement.read_in_bodies stands.there stands.fits found

theorem call_inBodies {layouts : List Layout} {layout : Layout} {token : Token} {id : Text}
    (own : layout ∈ layouts) (called : token ∈ layout.callTokens id) : InBodies layouts token := by
  obtain ⟨before, name, rest, calls⟩ := Layout.calls_of_mem called
  have within := Layout.callTokens_within token called
  have low := within.low_le
  have positive := within.start_lt
  have high := within.le_high
  exact ⟨⟨layout, own, calls.holds, low, by omega⟩, ⟨layout, own, calls.holds, by omega, high⟩⟩

/-- What gives a token of a record: a line by itself, a tag, the content of a tag, or a call. -/
inductive Given (record : Record) : Token → Prop
  | line {token : Token} (line : Line) (own : line ∈ record.lines)
      (found : token ∈ (Layout.ofLine line).lineTokens record.id) : Given record token
  | marker (place : TagPlace) (present : place ∈ TagPlace.all 0 record.layouts) :
      Given record (markerToken record.id place)
  | content (place : TagPlace) (content : Statement)
      (present : place ∈ TagPlace.all 0 record.layouts)
      (found : (place.reading record.layouts).content = some content) :
      Given record (contentToken record.id place content)
  | call {token : Token} (layout : Layout) (own : layout ∈ record.layouts)
      (called : token ∈ layout.callTokens record.id) : Given record token

theorem given_of_mem {record : Record} {token : Token} (member : token ∈ record.tokens) :
    Given record token := by
  rcases List.mem_append.mp ((sort_perm _).subset member) with others | call
  · rcases List.mem_append.mp others with own | tag
    · obtain ⟨layout, mine, found⟩ := List.mem_flatMap.mp own
      obtain ⟨line, here, rfl⟩ := List.mem_map.mp mine
      exact .line line here found
    · obtain ⟨reading, mine, found⟩ := List.mem_flatMap.mp tag
      obtain ⟨place, present, rfl⟩ := List.mem_map.mp ((TagPlace.read_sublist _ _ _).subset mine)
      rcases TagReading.mem_tokens found with rfl | ⟨content, introduced, rfl⟩
      · exact .marker place present
      · exact .content place content present introduced
  · obtain ⟨layout, mine, found⟩ := List.mem_flatMap.mp call
    exact .call layout mine found

section

variable {lines : List Line} {record : Record} (ordered : lines.Pairwise Line.Before)
  (member : record ∈ segment lines)

include ordered member

/-- A token of a line that is longer than one character stands outside the bodies that hold
    statements. -/
theorem lineToken_outside {line : Line} {token : Token} {id : Text} (own : line ∈ record.lines)
    (found : token ∈ (Layout.ofLine line).lineTokens id) :
    token.stop = token.start + 1 ∨ ∀ layout ∈ record.layouts, layout.holdsStatements = true →
      token.stop ≤ layout.body.start ∨ layout.body.stop ≤ token.start := by
  have parts := Layout.ofLine_ordered line
  have within := Layout.lineTokens_within parts token found
  -- on other lines the token is outside the bodies in any case
  have elsewhere : (token.stop ≤ (Layout.ofLine line).body.start ∨
        (Layout.ofLine line).holdsStatements = false) →
      ∀ layout ∈ record.layouts, layout.holdsStatements = true →
        token.stop ≤ layout.body.start ∨ layout.body.stop ≤ token.start := by
    intro here layout mine holds
    obtain ⟨other, theirs, rfl⟩ := List.mem_map.mp mine
    have parts' := Layout.ofLine_ordered other
    have low := parts'.body_start
    have high := parts'.body_stop
    have start := within.low_le
    have stop := within.le_high
    rcases pairwise_cases (lines_pairwise ordered member) own theirs with rfl | before | after
    · rcases here with left | idle
      · exact .inl left
      · rw [idle] at holds
        cases holds
    · have gap := before.stop
      exact .inl (by omega)
    · have gap := after.stop
      exact .inr (by omega)
  rcases List.mem_append.mp found with outer | inner
  · rcases List.mem_append.mp outer with head | escape
    · exact .inr (elsewhere (.inl (Layout.headTokens_within parts token head).le_high))
    · unfold Layout.escapeTokens at escape
      split at escape
      · rw [List.mem_singleton.mp escape]
        exact .inl rfl
      · simp at escape
  · unfold Layout.bodyTokens at inner
    split_ifs at inner with remark empty
    · simp at inner
    · refine .inr (elsewhere (.inr ?_))
      simp [Layout.holdsStatements, remark]
    · obtain ⟨column, -, rfl⟩ := List.mem_map.mp inner
      exact .inl rfl

theorem lineToken_nested {line : Line} {a b : Token} {id : Text} (own : line ∈ record.lines)
    (found : a ∈ (Layout.ofLine line).lineTokens id) (bodies : InBodies record.layouts b) :
    Nested a b := by
  rcases lineToken_outside ordered member own found with single | outside
  · exact nested_of_single single b
  · obtain ⟨⟨first, mine, holds, low, high⟩, last, theirs, holds', low', high'⟩ := bodies
    have start := outside first mine holds
    have stop := outside last theirs holds'
    unfold Nested Apart Inside
    omega

/-- Two tokens of a record do not cross. -/
theorem tokens_nested : ∀ a ∈ record.tokens, ∀ b ∈ record.tokens, Nested a b := by
  have inLine := layouts_inLine ordered member
  have below : ∀ layout ∈ record.layouts, layout.body.stop ≤ record.stop :=
    fun layout own => (body_within ordered member own).2
  have lines := nested_of_apart (lineTokens_apart ordered member record.id)
  have calls := nested_of_apart (callTokens_apart ordered member record.id)
  intro a first b second
  have given := given_of_mem second
  cases given_of_mem first with
  | line line own found =>
    have outside {b : Token} := lineToken_nested (b := b) ordered member own found
    cases given with
    | line _ own' found' =>
      exact lines a (List.mem_flatMap.mpr ⟨_, List.mem_map_of_mem own, found⟩) b
        (List.mem_flatMap.mpr ⟨_, List.mem_map_of_mem own', found'⟩)
    | marker _ present => exact outside (marker_inBodies present)
    | content _ _ present found => exact outside (content_inBodies present found)
    | call _ own called => exact outside (call_inBodies own called)
  | marker place present =>
    cases given with
    | line _ own found => exact (lineToken_nested ordered member own found (marker_inBodies present)).symm
    | marker _ present' => exact markers_nested inLine present present'
    | content _ _ present' found =>
      exact (content_marker_nested inLine below present' present found).symm
    | call _ own called =>
      rcases marker_apart_or_inside_call inLine present own called with apart | inside
      · exact .inl apart
      · exact .inr (.inl inside)
  | content place content present introduced =>
    cases given with
    | line _ own found =>
      exact (lineToken_nested ordered member own found (content_inBodies present introduced)).symm
    | marker _ present' => exact content_marker_nested inLine below present present' introduced
    | content _ _ present' found => exact contents_nested inLine below present present' introduced found
    | call _ own called => exact content_call_nested inLine below present introduced own called
  | call layout own called =>
    cases given with
    | line _ own' found => exact (lineToken_nested ordered member own' found (call_inBodies own called)).symm
    | marker _ present =>
      rcases marker_apart_or_inside_call inLine present own called with apart | inside
      · exact .inl apart.symm
      · exact .inr (.inr inside)
    | content _ _ present found =>
      exact (content_call_nested inLine below present found own called).symm
    | call _ own' called' =>
      exact calls a (List.mem_flatMap.mpr ⟨_, own, called⟩) b
        (List.mem_flatMap.mpr ⟨_, own', called'⟩)

end

end Record

/-! ## Tokens of the document -/

namespace Marker

/-- The tokens of a comment outside the records all end where the comment ends. -/
theorem lineTokens_stop (line : Line) :
    ∀ token ∈ lineTokens line, token.stop = line.start + (trimRight line.text).length := by
  have titles : ∀ {kind word}, word ≠ [] → ∀ token ∈ titleTokens kind word line,
      token.stop = line.start + (trimRight line.text).length := by
    intro kind word nonempty token member
    unfold titleTokens at member
    cases found : titled? word line.text with
    | none => simp [found] at member
    | some title =>
      obtain ⟨column, title⟩ := title
      have positive := (titled_bounds nonempty found).1
      simp only [found, List.mem_singleton] at member
      subst member
      unfold titled? at found
      cases remark : Line.remarked? line.text with
      | none => simp [remark] at found
      | some mark =>
        simp only [remark] at found
        split_ifs at found
        cases found
        rw [ofPiece_stop, Nat.add_assoc,
          add_length_trimRight_drop (List.length_pos_iff.mp positive)]
  have read := Line.shape_spec line.text
  intro token member
  unfold lineTokens at member
  cases shape : Line.shape line.text with
  | comment column =>
    simp only [shape, List.mem_cons, List.mem_append] at member read
    rcases member with rfl | begins | ends
    · have positive := (comment_within read).start_lt
      simp only [ofPiece_start, ofPiece_stop] at positive ⊢
      rw [Nat.add_assoc, add_length_trimRight_drop (List.length_pos_iff.mp (by omega))]
    · exact titles regionWord_ne_nil token begins
    · exact titles endRegionWord_ne_nil token ends
  | _ => simp [shape] at member

theorem tokens_nested {lines : List Line} (ordered : lines.Pairwise Line.Before)
    (records : List Record) :
    ∀ a ∈ tokens lines records, ∀ b ∈ tokens lines records, Nested a b := by
  intro a first b second
  obtain ⟨line, present, -, found⟩ := mem_tokens first
  obtain ⟨line', present', -, found'⟩ := mem_tokens second
  have within := lineTokens_within line a found
  have within' := lineTokens_within line' b found'
  rcases Record.pairwise_cases ordered present present' with rfl | before | after
  · have stop := lineTokens_stop line a found
    have stop' := lineTokens_stop line b found'
    unfold Nested Inside
    omega
  · exact .inl (within.apart within' (Nat.le_of_lt before.stop))
  · exact .inl (within'.apart within (Nat.le_of_lt after.stop)).symm

end Marker

namespace Document

/-- Two tokens of a document do not cross. -/
theorem tokens_nested (text : Text) :
    ∀ a ∈ (parse text).tokens, ∀ b ∈ (parse text).tokens, Nested a b := by
  have ordered := Line.split_pairwise text
  have records : ∀ record ∈ (parse text).records, ∀ a ∈ record.tokens,
      ∀ later ∈ (parse text).records, ∀ b ∈ later.tokens, Nested a b := by
    intro record member a own later member' b own'
    have within := Record.tokens_within ordered member a own
    have within' := Record.tokens_within ordered member' b own'
    rcases Record.pairwise_cases (Record.segment_stop_lt_start ordered) member member' with
      rfl | before | after
    · exact Record.tokens_nested ordered member a own b own'
    · exact .inl (within.apart within' (Nat.le_of_lt before))
    · exact .inl (within'.apart within (Nat.le_of_lt after)).symm
  intro a first b second
  rcases List.mem_append.mp ((sort_perm _).subset first) with own | outside
  · obtain ⟨record, member, mine⟩ := List.mem_flatMap.mp own
    rcases List.mem_append.mp ((sort_perm _).subset second) with own' | outside'
    · obtain ⟨later, member', mine'⟩ := List.mem_flatMap.mp own'
      exact records record member a mine later member' b mine'
    · exact .inl (record_marker_apart member mine outside')
  · rcases List.mem_append.mp ((sort_perm _).subset second) with own' | outside'
    · obtain ⟨record, member, mine⟩ := List.mem_flatMap.mp own'
      exact .inl (record_marker_apart member mine outside).symm
    · exact Marker.tokens_nested ordered _ a outside b outside'

end Document
end Mapkeys
