import Mapkeys.Proofs.Statements

/-!
# How far a statement reaches

Reading a statement from one place and from a later place of the same record. Either the first
statement ends before the later place, or the second one is its end (`fragments_later`). Hence a
statement never cuts through a word, or through another statement that begins after it.
-/

namespace Mapkeys.Statement

open Text

/-- A fragment of the end of a text is the end of a fragment of the text. -/
theorem fragment_drop (start : Nat) {column : Nat} {t : Text} (inside : column ≤ t.length) :
    ∀ piece ∈ fragment (start + column) (t.drop column), ∃ outer ∈ fragment start t,
      outer.start ≤ piece.start ∧ outer.stop = piece.stop := by
  intro piece member
  unfold fragment at member
  split_ifs at member with blank
  · simp at member
  · rw [List.mem_singleton] at member
    have some : trimRight (t.drop column) ≠ [] := by
      intro empty
      exact blank (by rw [trim, empty]; rfl)
    have whole : trim t ≠ [] := by
      intro empty
      rw [trim_eq_nil_iff] at empty
      exact blank (trim_eq_nil_iff.mpr fun c member => empty c (List.mem_of_mem_drop member))
    have length := add_length_trimRight_drop some
    have indented : indent t ≤ column + indent (t.drop column) := by
      conv_lhs => rw [← List.take_append_drop column t]
      exact (indent_append_le _ _).trans_eq (by rw [List.length_take, Nat.min_eq_left inside])
    have inner := indent_add_trim blank
    have outer := indent_add_trim whole
    refine ⟨⟨start + indent t, trim t⟩, by simp [fragment, whole], ?_⟩
    subst member
    simp only [Piece.stop]
    omega

/-! ## Two readings -/

/-- What has been read ends no later than an offset. -/
def EndsBy (offset : Nat) (read : List Piece × Option Nat) : Prop :=
  (∀ piece ∈ read.1, piece.stop ≤ offset) ∧ ∀ terminatorAt ∈ read.2, terminatorAt ≤ offset

/-- The one reading is the end of the other: both come to the same end, and every fragment of the
    first is the end of a fragment of the second. -/
def EndOf (part whole : List Piece × Option Nat) : Prop :=
  part.2 = whole.2 ∧
    ∀ piece ∈ part.1, ∃ outer ∈ whole.1, outer.start ≤ piece.start ∧ outer.stop = piece.stop

theorem EndOf.refl (read : List Piece × Option Nat) : EndOf read read :=
  ⟨rfl, fun piece member => ⟨piece, member, Nat.le_refl _, rfl⟩⟩

theorem EndOf.append {pieces pieces' others : List Piece} {terminatorAt : Option Nat}
    (part : ∀ piece ∈ pieces', ∃ outer ∈ pieces, outer.start ≤ piece.start ∧ outer.stop = piece.stop) :
    EndOf (pieces' ++ others, terminatorAt) (pieces ++ others, terminatorAt) := by
  refine ⟨rfl, fun piece member => ?_⟩
  rcases List.mem_append.mp member with first | later
  · obtain ⟨outer, present, bounds⟩ := part piece first
    exact ⟨outer, List.mem_append_left _ present, bounds⟩
  · exact ⟨piece, List.mem_append_right _ later, Nat.le_refl _, rfl⟩

theorem EndOf.prepend {part whole : List Piece × Option Nat} (ends : EndOf part whole)
    (pieces : List Piece) : EndOf part (pieces ++ whole.1, whole.2) := by
  refine ⟨ends.1, fun piece member => ?_⟩
  obtain ⟨outer, present, bounds⟩ := ends.2 piece member
  exact ⟨outer, List.mem_append_right _ present, bounds⟩

theorem fragment_endsBy {start offset : Nat} {t : Text} {terminatorAt : Option Nat}
    (fits : start + t.length ≤ offset) (ends : ∀ place ∈ terminatorAt, place ≤ offset) :
    EndsBy offset (fragment start t, terminatorAt) := by
  refine ⟨fun piece member => ?_, ends⟩
  have bounds := fragment_bounds piece member
  omega

/-- Reading from a later column of the same line. -/
theorem fragments_further {column further : Nat} {layout : Layout} {rest : List Layout}
    (order : column ≤ further) (inside : further ≤ layout.body.text.length)
    (clean : CleanAt layout.body.text further) :
    EndsBy (layout.body.start + further) (fragments column (layout :: rest)) ∨
      EndOf (fragments further (layout :: rest)) (fragments column (layout :: rest)) := by
  obtain ⟨gap, rfl⟩ := Nat.exists_eq_add_of_le order
  cases holds : layout.holdsStatements with
  | false =>
    rw [fragments_skip holds, fragments_skip holds]
    exact .inr (EndOf.refl _)
  | true =>
    have cut : layout.body.text.drop (column + gap) = (layout.body.text.drop column).drop gap := by
      rw [List.drop_drop]
    have fits : gap ≤ (layout.body.text.drop column).length := by
      rw [List.length_drop]
      omega
    have clean := cleanAt_drop clean
    cases ends : terminator? (layout.body.text.drop column) with
    | none =>
      have goes_on : terminator? (layout.body.text.drop (column + gap)) = none := by
        rw [cut]
        exact terminator_drop_of_none clean fits ends
      have part := fragment_drop (layout.body.start + column) fits
      rw [← cut, Nat.add_assoc] at part
      refine .inr ?_
      cases escaped : layout.isEscaped with
      | true =>
        rw [fragments_escaped holds ends escaped, fragments_escaped holds goes_on escaped]
        exact EndOf.append part
      | false =>
        rw [fragments_closed holds ends escaped, fragments_closed holds goes_on escaped]
        exact ⟨rfl, part⟩
    | some found =>
      have bound := terminator_lt ends
      have taken := List.length_take_le found (layout.body.text.drop column)
      rw [fragments_terminated holds ends]
      by_cases before : found < gap
      · refine .inl (fragment_endsBy (by omega) ?_)
        simp only [Option.mem_some_iff, forall_eq']
        omega
      · have further := terminator_drop_of_some clean (by omega) ends
        rw [← cut] at further
        have inner : gap ≤ ((layout.body.text.drop column).take found).length := by
          rw [List.length_take]
          omega
        have part := fragment_drop (layout.body.start + column) inner
        rw [List.drop_take, ← cut, Nat.add_assoc] at part
        rw [fragments_terminated holds further]
        exact .inr ⟨by simp only [Option.some.injEq]; omega, part⟩

/-- A statement that is read from a place either ends before a later place, or reading from there
    gives its end. -/
theorem fragments_later {column further position : Nat} {layouts : List Layout} {layout : Layout}
    (inLine : InLine layouts) (there : layouts[position]? = some layout)
    (first : ∀ start ∈ layouts.head?, column ≤ start.body.text.length)
    (order : position = 0 → column ≤ further) (inside : further ≤ layout.body.text.length)
    (clean : CleanAt layout.body.text further) :
    EndsBy (layout.body.start + further) (fragments column layouts) ∨
      EndOf (fragments further (layouts.drop position)) (fragments column layouts) := by
  induction layouts generalizing column position with
  | nil => simp at there
  | cons start rest ih =>
    cases position with
    | zero =>
      cases there
      exact fragments_further (order rfl) inside clean
    | succ position =>
      rw [List.getElem?_cons_succ] at there
      obtain ⟨after, others⟩ := List.pairwise_cons.mp inLine
      have beyond := after layout (List.mem_of_getElem? there)
      have column_le := first start rfl
      have body_stop : start.body.start + column + (start.body.text.drop column).length =
          start.body.stop := by
        rw [List.length_drop, Piece.stop]
        omega
      have next := ih others there (fun _ _ => Nat.zero_le _) (fun _ => Nat.zero_le further)
      rw [List.drop_succ_cons]
      cases holds : start.holdsStatements with
      | false =>
        rw [fragments_skip holds]
        exact next
      | true =>
        cases ends : terminator? (start.body.text.drop column) with
        | some found =>
          have bound := terminator_lt ends
          have taken := List.length_take_le found (start.body.text.drop column)
          rw [fragments_terminated holds ends]
          refine .inl (fragment_endsBy (by omega) ?_)
          simp only [Option.mem_some_iff, forall_eq']
          omega
        | none =>
          have here : EndsBy (layout.body.start + further)
              (fragment (start.body.start + column) (start.body.text.drop column), none) :=
            fragment_endsBy (by omega) (by simp)
          cases escaped : start.isEscaped with
          | false =>
            rw [fragments_closed holds ends escaped]
            exact .inl here
          | true =>
            rw [fragments_escaped holds ends escaped]
            rcases next with before | reached
            · refine .inl ⟨fun piece member => ?_, before.2⟩
              rcases List.mem_append.mp member with own | later
              · exact here.1 piece own
              · exact before.1 piece later
            · exact .inr (reached.prepend _)

/-- What is read lies in the bodies that hold statements. -/
theorem fragments_in_bodies {column : Nat} {layouts : List Layout}
    (first : ∀ layout ∈ layouts.head?, column ≤ layout.body.text.length) :
    (∀ piece ∈ (fragments column layouts).1, ∃ layout ∈ layouts, layout.holdsStatements = true ∧
        layout.body.start ≤ piece.start ∧ piece.stop ≤ layout.body.stop) ∧
      ∀ terminatorAt ∈ (fragments column layouts).2, ∃ layout ∈ layouts,
        layout.holdsStatements = true ∧ layout.body.start ≤ terminatorAt ∧
        terminatorAt ≤ layout.body.stop := by
  induction layouts generalizing column with
  | nil => simp [fragments]
  | cons layout rest ih =>
    have fits := first layout rfl
    have next := @ih 0 (fun _ _ => Nat.zero_le _)
    have later : ∀ {P : Layout → Prop}, (∃ other ∈ rest, P other) → ∃ other ∈ layout :: rest, P other := by
      rintro P ⟨other, member, property⟩
      exact ⟨other, List.mem_cons_of_mem layout member, property⟩
    cases holds : layout.holdsStatements with
    | false =>
      rw [fragments_skip holds]
      exact ⟨fun piece member => later (next.1 piece member),
        fun place member => later (next.2 place member)⟩
    | true =>
      have own : ∀ piece ∈ fragment (layout.body.start + column) (layout.body.text.drop column),
          ∃ other ∈ layout :: rest, other.holdsStatements = true ∧
            other.body.start ≤ piece.start ∧ piece.stop ≤ other.body.stop := by
        intro piece member
        have bounds := fragment_bounds piece member
        rw [List.length_drop] at bounds
        refine ⟨layout, List.mem_cons_self, holds, by omega, ?_⟩
        unfold Piece.stop at *
        omega
      cases ends : terminator? (layout.body.text.drop column) with
      | some found =>
        have bound := terminator_lt ends
        rw [List.length_drop] at bound
        rw [fragments_terminated holds ends]
        refine ⟨fun piece member => ?_, fun place member => ?_⟩
        · have bounds := fragment_bounds piece member
          rw [List.length_take, List.length_drop] at bounds
          refine ⟨layout, List.mem_cons_self, holds, by omega, ?_⟩
          unfold Piece.stop at *
          omega
        · cases member
          refine ⟨layout, List.mem_cons_self, holds, by omega, ?_⟩
          unfold Piece.stop
          omega
      | none =>
        cases escaped : layout.isEscaped with
        | false =>
          rw [fragments_closed holds ends escaped]
          exact ⟨own, by simp⟩
        | true =>
          rw [fragments_escaped holds ends escaped]
          refine ⟨fun piece member => ?_, fun place member => later (next.2 place member)⟩
          rcases List.mem_append.mp member with here | further
          · exact own piece here
          · exact later (next.1 piece further)

/-! ## Statements made of readings -/

/-- A statement has a first and a last fragment, and ends at its terminator or with the last one. -/
theorem ofFragments_cases {pieces : List Piece} {terminatorAt : Option Nat} {statement : Statement}
    (made : ofFragments pieces terminatorAt = some statement) :
    ∃ first last, pieces.head? = some first ∧ pieces.getLast? = some last ∧
      statement.start = first.start ∧ statement.stop = terminatorAt.getD last.stop := by
  unfold ofFragments at made
  cases head : pieces.head? with
  | none => simp [head] at made
  | some first =>
    cases tail : pieces.getLast? with
    | none => simp [head, tail] at made
    | some last =>
      simp only [head, tail, Option.some.injEq] at made
      subst made
      exact ⟨first, last, rfl, rfl, rfl, rfl⟩

/-- A statement reaches over all its fragments. -/
theorem Laid.covers {low high : Nat} {pieces : List Piece} {terminatorAt : Option Nat}
    {statement : Statement} (laid : Laid low high pieces terminatorAt)
    (made : ofFragments pieces terminatorAt = some statement) :
    ∀ piece ∈ pieces, statement.start ≤ piece.start ∧ piece.stop ≤ statement.stop := by
  intro piece member
  obtain ⟨first, last, head, tail, starts, stops⟩ := ofFragments_cases made
  have bounds := laid.bounds piece member
  have pairwise := laid.pairwise
  constructor
  · obtain ⟨rest, rfl⟩ := List.head?_eq_some_iff.mp head
    have positive := laid.bounds first List.mem_cons_self
    rcases List.mem_cons.mp member with rfl | later
    · omega
    · have after := (List.pairwise_cons.mp pairwise).1 piece later
      omega
  · cases terminatorAt with
    | some offset =>
      rw [Option.getD_some] at bounds stops
      omega
    | none =>
      obtain ⟨init, rfl⟩ := List.getLast?_eq_some_iff.mp tail
      have positive := laid.bounds last (List.mem_append_right init List.mem_cons_self)
      rw [Option.getD_none] at stops
      rcases List.mem_append.mp member with earlier | own
      · have before := (List.pairwise_append.mp pairwise).2.2 piece earlier last List.mem_cons_self
        omega
      · rw [List.mem_singleton.mp own]
        omega

theorem EndsBy.stop_le {offset : Nat} {pieces : List Piece} {terminatorAt : Option Nat}
    {statement : Statement} (ends : EndsBy offset (pieces, terminatorAt))
    (made : ofFragments pieces terminatorAt = some statement) : statement.stop ≤ offset := by
  obtain ⟨first, last, -, tail, -, stops⟩ := ofFragments_cases made
  rw [stops]
  cases terminatorAt with
  | some place => exact ends.2 place rfl
  | none => exact ends.1 last (List.mem_of_getLast? tail)

/-! ## Words -/

theorem exists_fragment_append (start : Nat) {word : Text} (rest : Text) (some : word ≠ [])
    (visible : ∀ c ∈ word, isBlank c = false) :
    ∃ piece ∈ fragment start (word ++ rest),
      piece.start = start ∧ start + word.length ≤ piece.stop := by
  obtain ⟨c, others, rfl⟩ := List.exists_cons_of_ne_nil some
  have first := visible c List.mem_cons_self
  have left : indent (c :: others ++ rest) = 0 := by simp [indent, first]
  have whole : trim (c :: others ++ rest) ≠ [] := by
    intro empty
    have blank := trim_eq_nil_iff.mp empty c (by simp)
    simp [first] at blank
  have right : (c :: others).length ≤ (trimRight (c :: others ++ rest)).length := by
    rw [trimRight_append, trimRight_visible visible]
    split_ifs
    · exact Nat.le_refl _
    · rw [List.length_append]
      exact Nat.le_add_right _ _
  have length := indent_add_trim whole
  refine ⟨_, by rw [fragment, if_neg whole, List.mem_singleton], ?_⟩
  simp only [Piece.stop]
  omega

/-- Reading from a word begins with it. -/
theorem exists_fragments_word {column : Nat} {layout : Layout} {others : List Layout}
    {word rest : Text} (holds : layout.holdsStatements = true)
    (spelled : layout.body.text.drop column = word ++ rest) (some : word ≠ [])
    (plain : ∀ c ∈ word, isBlank c = false ∧ c ≠ ';') :
    ∃ piece ∈ (fragments column (layout :: others)).1,
      piece.start = layout.body.start + column ∧
        layout.body.start + column + word.length ≤ piece.stop := by
  have visible : ∀ c ∈ word, isBlank c = false := fun c member => (plain c member).1
  cases ends : terminator? (layout.body.text.drop column) with
  | some found =>
    have beyond : word.length ≤ found := by
      have member := List.mem_of_head? ends
      rw [spelled, terminators_append,
        terminators_plain (fun member => (plain _ member).2 rfl)] at member
      have bounds := terminators_bounds found member
      omega
    rw [fragments_terminated holds ends, spelled, List.take_append,
      List.take_of_length_le beyond]
    exact exists_fragment_append _ _ some visible
  | none =>
    have first := exists_fragment_append (layout.body.start + column) rest some visible
    cases escaped : layout.isEscaped with
    | false =>
      rw [fragments_closed holds ends escaped, spelled]
      exact first
    | true =>
      rw [fragments_escaped holds ends escaped, spelled]
      obtain ⟨piece, member, bounds⟩ := first
      exact ⟨piece, List.mem_append_left _ member, bounds⟩

/-! ## Places -/

theorem drop_eq_cons {layouts : List Layout} {position : Nat} {layout : Layout}
    (there : layouts[position]? = some layout) :
    layouts.drop position = layout :: layouts.drop (position + 1) := by
  obtain ⟨inside, rfl⟩ := List.getElem?_eq_some_iff.mp there
  exact List.drop_eq_getElem_cons inside

/-- A place in the bodies of a record is not before another one. -/
def Later (position column position' column' : Nat) : Prop :=
  position < position' ∨ position = position' ∧ column ≤ column'

theorem body_stop_le {layouts : List Layout} {layout layout' : Layout} {position position' : Nat}
    (inLine : InLine layouts) (here : layouts[position]? = some layout)
    (there : layouts[position']? = some layout') (before : position < position') :
    layout.body.stop ≤ layout'.body.start := by
  obtain ⟨inside, rfl⟩ := List.getElem?_eq_some_iff.mp here
  obtain ⟨inside', rfl⟩ := List.getElem?_eq_some_iff.mp there
  exact List.pairwise_iff_getElem.mp inLine position position' inside inside' before

/-- Places of a record are in order as their offsets are. -/
theorem later_of_le {layouts : List Layout} {layout layout' : Layout}
    {position column position' column' : Nat} (inLine : InLine layouts)
    (here : layouts[position]? = some layout) (there : layouts[position']? = some layout')
    (inside : column' < layout'.body.text.length)
    (le : layout.body.start + column ≤ layout'.body.start + column') :
    Later position column position' column' := by
  rcases Nat.lt_trichotomy position position' with before | same | after
  · exact .inl before
  · subst same
    rw [here] at there
    cases there
    exact .inr ⟨rfl, by omega⟩
  · have order := body_stop_le inLine there here after
    unfold Piece.stop at order
    omega

section

variable {layouts : List Layout} {layout layout' : Layout}
  {high position column position' column' : Nat} {statement : Statement}
  (inLine : InLine layouts) (below : ∀ layout ∈ layouts, layout.body.stop ≤ high)
  (here : layouts[position]? = some layout) (fits : column ≤ layout.body.text.length)
  (there : layouts[position']? = some layout')
  (later : Later position column position' column')

include inLine here fits there later in
theorem read_later (inside : column' ≤ layout'.body.text.length)
    (clean : CleanAt layout'.body.text column') :
    EndsBy (layout'.body.start + column') (fragments column (layouts.drop position)) ∨
      EndOf (fragments column' (layouts.drop position'))
        (fragments column (layouts.drop position)) := by
  have le : position ≤ position' := by
    rcases later with before | ⟨same, -⟩ <;> omega
  obtain ⟨gap, rfl⟩ := Nat.exists_eq_add_of_le le
  rw [← List.drop_drop]
  refine fragments_later (inLine.sublist (List.drop_sublist position layouts)) ?_ ?_ ?_ inside clean
  · rw [List.getElem?_drop]
    exact there
  · intro start head
    rw [List.head?_drop, here] at head
    cases head
    exact fits
  · intro zero
    rcases later with before | ⟨-, order⟩ <;> omega

include inLine below here fits in
theorem laid_read :
    Laid (layout.body.start + column) high (fragments column (layouts.drop position)).1
      (fragments column (layouts.drop position)).2 := by
  have stop_le := below layout (List.mem_of_getElem? here)
  unfold Piece.stop at stop_le
  refine laid_fragments (inLine.sublist (List.drop_sublist position layouts))
    (fun next member => below next (List.mem_of_mem_drop member)) (by omega) ?_
  intro first head
  rw [List.head?_drop, here] at head
  cases head
  exact ⟨Nat.le_refl _, fits⟩

variable (found : read layouts position column = some statement)

include here fits found in
/-- A statement begins and ends in bodies that hold statements. -/
theorem read_in_bodies :
    (∃ body ∈ layouts, body.holdsStatements = true ∧
        body.body.start ≤ statement.start ∧ statement.start ≤ body.body.stop) ∧
      ∃ body ∈ layouts, body.holdsStatements = true ∧
        body.body.start ≤ statement.stop ∧ statement.stop ≤ body.body.stop := by
  have first : ∀ start ∈ (layouts.drop position).head?, column ≤ start.body.text.length := by
    intro start head
    rw [List.head?_drop, here] at head
    cases head
    exact fits
  have within := fragments_in_bodies first
  obtain ⟨start, last, head, tail, starts, stops⟩ := ofFragments_cases found
  constructor
  · obtain ⟨body, member, holds, low, high⟩ := within.1 start (List.mem_of_head? head)
    have positive : start.start ≤ start.stop := Nat.le_add_right _ _
    exact ⟨body, List.mem_of_mem_drop member, holds, by omega, by omega⟩
  · cases terminatorAt : (fragments column (layouts.drop position)).2 with
    | some offset =>
      obtain ⟨body, member, holds, low, high⟩ := within.2 offset terminatorAt
      rw [terminatorAt, Option.getD_some] at stops
      exact ⟨body, List.mem_of_mem_drop member, holds, by omega, by omega⟩
    | none =>
      obtain ⟨body, member, holds, low, high⟩ := within.1 last (List.mem_of_getLast? tail)
      rw [terminatorAt, Option.getD_none] at stops
      have positive : last.start ≤ last.stop := Nat.le_add_right _ _
      exact ⟨body, List.mem_of_mem_drop member, holds, by omega, by omega⟩

include inLine below here fits there later found

/-- A statement that does not end before a later one contains it. -/
theorem statement_apart_or_inside {statement' : Statement}
    (inside : column' ≤ layout'.body.text.length) (clean : CleanAt layout'.body.text column')
    (found' : read layouts position' column' = some statement') :
    statement.stop ≤ layout'.body.start + column' ∨
      statement.start ≤ statement'.start ∧ statement'.stop ≤ statement.stop := by
  have covers := (laid_read inLine below here fits).covers found
  rcases read_later inLine here fits there later inside clean with before | ends
  · exact .inl (before.stop_le found)
  · obtain ⟨first, last, head, tail, starts, stops⟩ := ofFragments_cases found'
    refine .inr ⟨?_, ?_⟩
    · obtain ⟨outer, present, order, -⟩ := ends.2 first (List.mem_of_head? head)
      have bounds := covers outer present
      omega
    · obtain ⟨outer, present, -, same⟩ := ends.2 last (List.mem_of_getLast? tail)
      have bounds := covers outer present
      obtain ⟨_, _, _, _, _, stops'⟩ := ofFragments_cases found
      rw [ends.1] at stops
      cases terminatorAt : (fragments column (layouts.drop position)).2 with
      | some offset =>
        rw [terminatorAt, Option.getD_some] at stops stops'
        omega
      | none =>
        rw [terminatorAt, Option.getD_none] at stops
        omega

/-- A statement that does not end before a later word contains it. -/
theorem word_apart_or_inside {before word rest : Text} (holds : layout'.holdsStatements = true)
    (spelled : layout'.body.text = before ++ (word ++ rest)) (start : before.length = column')
    (some : word ≠ []) (plain : ∀ c ∈ word, isBlank c = false ∧ c ≠ ';') :
    statement.stop ≤ layout'.body.start + column' ∨
      statement.start ≤ layout'.body.start + column' ∧
        layout'.body.start + column' + word.length ≤ statement.stop := by
  have covers := (laid_read inLine below here fits).covers found
  have from_word : layout'.body.text.drop column' = word ++ rest := by
    rw [spelled, ← start, List.drop_left]
  have inside : column' ≤ layout'.body.text.length := by
    rw [spelled, List.length_append]
    omega
  have clean : CleanAt layout'.body.text column' := by
    intro semicolon
    rw [from_word] at semicolon
    obtain ⟨c, others, rfl⟩ := List.exists_cons_of_ne_nil some
    cases semicolon
    exact absurd rfl (plain ';' List.mem_cons_self).2
  rcases read_later inLine here fits there later inside clean with ends | ends
  · exact .inl (ends.stop_le found)
  · rw [drop_eq_cons there] at ends
    obtain ⟨piece, member, starts, reaches⟩ := exists_fragments_word holds from_word some plain
    obtain ⟨outer, present, order, same⟩ := ends.2 piece member
    have bounds := covers outer present
    exact .inr ⟨by omega, by omega⟩

omit below in
/-- A statement ends no later than the next terminator. -/
theorem stop_le_terminator (holds : layout'.holdsStatements = true)
    (ends : column' ∈ terminators 0 false layout'.body.text) :
    statement.stop ≤ layout'.body.start + column' := by
  obtain ⟨before, rest, spelled, start, free⟩ := mem_terminators.mp ends
  rw [Nat.zero_add] at start
  have from_there : layout'.body.text.drop column' = ';' :: rest := by
    rw [spelled, start, List.drop_left]
  have inside : column' ≤ layout'.body.text.length := by
    rw [spelled, List.length_append]
    omega
  have clean : CleanAt layout'.body.text column' := by
    intro _ backslash
    rw [spelled, start, List.take_left] at backslash
    simp [escapedAfter, backslash] at free
  have now : terminator? (layout'.body.text.drop column') = some 0 := by
    rw [from_there]
    simp [terminator?, terminators]
  rcases read_later inLine here fits there later inside clean with early | same
  · exact early.stop_le found
  · obtain ⟨_, _, _, _, _, stops⟩ := ofFragments_cases found
    rw [drop_eq_cons there, fragments_terminated holds now] at same
    rw [stops, ← same.1]
    exact Nat.le_refl _

end

end Mapkeys.Statement
