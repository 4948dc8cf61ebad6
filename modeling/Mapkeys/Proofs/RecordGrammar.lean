import Mapkeys.Proofs.Segments
import Mathlib.Order.Bounds.Basic

/-!
# The grammar of records

Which lines a record claims, said without reading them one after the other: the longest run of
comments and continuations after its declaration in which every line but the last keeps the record
open. Reading the lines one by one, with the open record as the only state, gives the same records.
-/

namespace Mapkeys.Record

/-! ## Lines that keep a record open -/

/-- A comment that ends in a semicolon and a backslash, or an escaped continuation. -/
def HoldsOpen (line : Line) : Prop :=
  line.kind = .comment ∧ Line.isCommentEscaped line.text = true ∨
    line.kind = .continuation ∧ (Layout.ofLine line).isEscaped = true

theorem canFollow_iff {line : Line} :
    canFollow line = true ↔ line.kind = .comment ∨ line.kind = .continuation := by
  simp [canFollow]

theorem keepsOpen_iff {line : Line} (follows : canFollow line = true) :
    keepsOpen line = true ↔ HoldsOpen line := by
  unfold keepsOpen HoldsOpen
  rcases canFollow_iff.mp follows with comment | continuation
  · simp [comment]
  · simp [continuation]

/-! ## The lines of one record -/

/-- The lines that a record claims of those that follow its declaration. -/
structure Claims (isOpen : Bool) (following claimed : List Line) (stillOpen : Bool) : Prop where
  begins : claimed <+: following
  follow : ∀ line ∈ claimed, canFollow line = true
  inner : ∀ line ∈ claimed.dropLast, keepsOpen line = true
  last : stillOpen = (claimed.getLast?.map keepsOpen).getD isOpen
  ends : (∀ line ∈ claimed.getLast?, keepsOpen line = true) →
    ∀ next ∈ following[claimed.length]?, canFollow next = false

theorem claims_nil {isOpen : Bool} {following : List Line}
    (ends : ∀ next ∈ following.head?, canFollow next = false) : Claims isOpen following [] isOpen := by
  refine ⟨List.nil_prefix, by simp, by simp, rfl, fun _ next here => ends next ?_⟩
  rwa [List.head?_eq_getElem?]

theorem Claims.cons {isOpen stillOpen : Bool} {line : Line} {rest claimed : List Line}
    (claims : Claims true rest claimed stillOpen) (follows : canFollow line = true)
    (holds : keepsOpen line = true) : Claims isOpen (line :: rest) (line :: claimed) stillOpen := by
  refine ⟨(List.prefix_cons_inj line).mpr claims.begins, ?_, ?_, ?_, ?_⟩
  · intro other member
    rcases List.mem_cons.mp member with rfl | later
    · exact follows
    · exact claims.follow other later
  · intro other member
    cases claimed with
    | nil => simp at member
    | cons first others =>
      rw [List.dropLast_cons_cons] at member
      rcases List.mem_cons.mp member with rfl | later
      · exact holds
      · exact claims.inner other later
  · rw [claims.last]
    cases claimed with
    | nil => simp [holds]
    | cons first others => simp [List.getLast?_cons]
  · intro open_ next here
    rw [List.length_cons, List.getElem?_cons_succ] at here
    refine claims.ends (fun other last => open_ other ?_) next here
    rw [List.getLast?_cons, Option.mem_def.mp last]
    rfl

/-- What `claim` takes. -/
theorem claim_claims (isOpen : Bool) (following : List Line) :
    Claims isOpen following (claim isOpen following).1 (claim isOpen following).2 := by
  induction following generalizing isOpen with
  | nil => exact claims_nil (by simp)
  | cons line rest ih =>
    unfold claim
    by_cases follows : canFollow line = true
    · by_cases holds : keepsOpen line = true
      · simp only [if_pos follows, if_pos holds]
        exact (ih true).cons follows holds
      · simp only [if_pos follows, if_neg holds]
        refine ⟨List.prefix_append [line] rest, by simp [follows], by simp, ?_, ?_⟩
        · simpa using holds
        · intro open_
          exact absurd (open_ line rfl) holds
    · simp only [if_neg follows]
      refine claims_nil fun next here => ?_
      cases here
      simpa using follows

/-! ## Extents -/

/-- The record declared on the line `first` can reach to the line `last`: after the declaration
    there are only comments and continuations, and all but the last keep the record open. -/
structure Reaches (lines : List Line) (first last : Nat) : Prop where
  order : first ≤ last
  inside : last < lines.length
  follow : ∀ k line, first < k → k ≤ last → lines[k]? = some line →
    line.kind = .comment ∨ line.kind = .continuation
  holdOpen : ∀ k line, first < k → k < last → lines[k]? = some line → HoldsOpen line

section

variable {before following claimed : List Line} {declaration : Line} {isOpen stillOpen : Bool}

theorem getElem_after (k : Nat) :
    (before ++ declaration :: following)[before.length + 1 + k]? = following[k]? := by
  rw [List.getElem?_append_right (by omega), show before.length + 1 + k - before.length = k + 1 by omega,
    List.getElem?_cons_succ]

theorem Claims.getElem (claims : Claims isOpen following claimed stillOpen) (before : List Line)
    (declaration : Line) {k : Nat} (inside : k < claimed.length) :
    (before ++ declaration :: following)[before.length + 1 + k]? = claimed[k]? := by
  obtain ⟨after, rfl⟩ := claims.begins
  rw [getElem_after, List.getElem?_append_left inside]

/-- The lines that a record claims are the longest run that the grammar allows. -/
theorem Claims.isGreatest (claims : Claims isOpen following claimed stillOpen) :
    IsGreatest {last | Reaches (before ++ declaration :: following) before.length last}
      (before.length + claimed.length) := by
  have length := claims.begins.length_le
  refine ⟨⟨Nat.le_add_right _ _, ?_, ?_, ?_⟩, ?_⟩
  · rw [List.length_append, List.length_cons]
    omega
  · intro k line after upTo there
    obtain ⟨place, rfl⟩ := Nat.exists_eq_add_of_le (show before.length + 1 ≤ k by omega)
    rw [claims.getElem _ _ (by omega)] at there
    exact canFollow_iff.mp (claims.follow line (List.mem_of_getElem? there))
  · intro k line after strictly there
    obtain ⟨place, rfl⟩ := Nat.exists_eq_add_of_le (show before.length + 1 ≤ k by omega)
    rw [claims.getElem _ _ (by omega)] at there
    have inner : line ∈ claimed.dropLast := by
      refine List.mem_of_getElem? (i := place) ?_
      rw [List.getElem?_dropLast, if_pos (by omega)]
      exact there
    exact (keepsOpen_iff (claims.follow line (List.mem_of_getElem? there))).mp (claims.inner line inner)
  · intro last reaches
    by_contra beyond
    -- the line after the claimed ones would have to follow them
    have inside := reaches.inside
    rw [List.length_append, List.length_cons] at inside
    have next_there : following[claimed.length]? = some following[claimed.length] :=
      List.getElem?_eq_getElem (by omega)
    have follows := reaches.follow (before.length + 1 + claimed.length) _ (by omega) (by omega)
      ((getElem_after _).trans next_there)
    have stops := claims.ends ?_ _ next_there
    · rw [canFollow_iff.mpr follows] at stops
      cases stops
    · intro line final
      have member := List.mem_of_getLast? final
      have nonempty := List.length_pos_of_mem member
      rw [List.getLast?_eq_getElem?, Option.mem_def] at final
      have there : (before ++ declaration :: following)[before.length + claimed.length]? =
          some line := by
        rw [← final, ← claims.getElem before declaration
          (show claimed.length - 1 < claimed.length by omega)]
        congr 1
        omega
      have open_ := reaches.holdOpen _ line (by omega) (by omega) there
      exact (keepsOpen_iff (claims.follow line member)).mpr open_

end

/-! ## The records of a document -/

/-- A record comes from a declaration and the lines after it. -/
theorem exists_declaration {lines : List Line} :
    ∀ record ∈ segment lines, ∃ before following head,
      lines = before ++ record.declaration :: following ∧
      Line.shape record.declaration.text = .declaration head ∧
      record = ofDeclaration head.name record.declaration following := by
  induction lines with
  | nil => simp [segment]
  | cons line rest ih =>
    intro record member
    have later : record ∈ segment rest → ∃ before following head,
        line :: rest = before ++ record.declaration :: following ∧
        Line.shape record.declaration.text = .declaration head ∧
        record = ofDeclaration head.name record.declaration following := by
      intro found
      obtain ⟨before, following, head, split, declared⟩ := ih record found
      exact ⟨line :: before, following, head, by rw [List.cons_append, ← split], declared⟩
    rw [segment] at member
    cases shape : Line.shape line.text with
    | declaration head =>
      rw [shape] at member
      rcases List.mem_cons.mp member with rfl | found
      · exact ⟨[], rest, head, rfl, shape, rfl⟩
      · exact later found
    | _ =>
      rw [shape] at member
      exact later member

/-- There is one record for each declaration, in the order of the lines. -/
theorem segment_declarations (lines : List Line) :
    (segment lines).map Record.declaration = lines.filter (·.kind = .declaration) := by
  induction lines with
  | nil => rfl
  | cons line rest ih =>
    rw [segment, List.filter_cons]
    cases shape : Line.shape line.text with
    | declaration head => simp [ih, Line.kind, Line.kindOf, shape, Line.Shape.kind, ofDeclaration]
    | _ => simp [ih, Line.kind, Line.kindOf, shape, Line.Shape.kind]

theorem claimed_once {lines : List Line} (ordered : lines.Pairwise Line.Before) :
    (((segment lines).flatMap Record.lines).map Line.index).Nodup := by
  have pairwise : ((segment lines).flatMap Record.lines).Pairwise Line.Before :=
    List.pairwise_flatMap.mpr
      ⟨fun _ member => lines_pairwise ordered member, segment_pairwise ordered⟩
  refine List.pairwise_map.mpr (pairwise.imp fun {line later} before => ?_)
  exact Nat.ne_of_lt before.index

/-- The lines of a record, and whether it is terminated, by the grammar. -/
structure Extent (lines : List Line) (record : Record) (first last : Nat) : Prop where
  starts : lines[first]? = some record.declaration
  stops : lines[last]? = some record.lastLine
  greatest : IsGreatest {last | Reaches lines first last} last
  claimed : record.lines = (lines.drop first).take (last + 1 - first)
  terminated : record.terminated = false ↔
    if first = last then Line.isEscaped record.declaration.text = true else HoldsOpen record.lastLine

theorem Claims.extent {following others : List Line} {declaration : Line} {stillOpen : Bool}
    (claims : Claims (Line.isEscaped declaration.text) following others stillOpen) (name : Text)
    (before : List Line) :
    Extent (before ++ declaration :: following) ⟨name, declaration, others, !stillOpen⟩ before.length
      (before.length + others.length) := by
  have final : (before ++ declaration :: following)[before.length + others.length]? =
      some (others.getLast?.getD declaration) := by
    cases last : others.getLast? with
    | none =>
      rw [List.getLast?_eq_none_iff.mp last]
      simp
    | some line =>
      have nonempty := List.length_pos_of_mem (List.mem_of_getLast? last)
      rw [List.getLast?_eq_getElem?] at last
      rw [show before.length + others.length = before.length + 1 + (others.length - 1) by omega,
        claims.getElem _ _ (by omega), last, Option.getD_some]
  refine ⟨by simp, final, claims.isGreatest, ?_, ?_⟩
  · obtain ⟨after, rfl⟩ := claims.begins
    rw [show before.length + others.length + 1 - before.length = others.length + 1 by omega,
      List.drop_left, List.take_succ_cons, List.take_left]
    rfl
  · have last := claims.last
    simp only [Bool.not_eq_eq_eq_not, Bool.not_false, lastLine]
    cases final : others.getLast? with
    | none =>
      rw [final] at last
      rw [List.getLast?_eq_none_iff.mp final]
      simpa using congrArg (· = true) last
    | some line =>
      have member := List.mem_of_getLast? final
      have nonempty := List.length_pos_of_mem member
      rw [final] at last
      rw [if_neg (by omega), Option.getD_some, ← keepsOpen_iff (claims.follow line member), last]
      rfl

/-- Every record has the extent that the grammar gives it. -/
theorem extent_of_mem {lines : List Line} {record : Record} (member : record ∈ segment lines) :
    ∃ first last, Extent lines record first last := by
  obtain ⟨before, following, head, split, -, made⟩ := exists_declaration record member
  have extent := (claim_claims (Line.isEscaped record.declaration.text) following).extent head.name
    before
  change Extent _ (ofDeclaration head.name record.declaration following) _ _ at extent
  rw [← split, ← made] at extent
  exact ⟨_, _, extent⟩

/-! ## Reading line by line -/

/-- The record that a line begins, if it is a declaration. -/
def begun (line : Line) : Option Record :=
  match Line.shape line.text with
  | .declaration head => some ⟨head.name, line, [], !Line.isEscaped line.text⟩
  | _ => none

/-- Reads the lines one after the other; `current` is the record that is open, as far as it has been
    read. A line that cannot follow closes it and is then looked at by itself. -/
def scan (current : Option Record) : List Line → List Record
  | [] => current.toList
  | line :: rest =>
    match current with
    | none => scan (begun line) rest
    | some record =>
      if canFollow line then
        let grown := { record with others := record.others ++ [line], terminated := !keepsOpen line }
        if keepsOpen line then scan (some grown) rest else grown :: scan none rest
      else record :: scan (begun line) rest

/-- The open record with what it claims of the lines that follow. -/
def closed (record : Record) (following : List Line) : Record :=
  let (claimed, isOpen) := claim (!record.terminated) following
  { record with others := record.others ++ claimed, terminated := !isOpen }

/-- Reading line by line finds the records of the declarations. -/
theorem scan_eq (lines : List Line) :
    scan none lines = segment lines ∧
      ∀ record, scan (some record) lines = record.closed lines :: segment lines := by
  induction lines with
  | nil => exact ⟨rfl, fun record => by simp [scan, closed, claim, segment]⟩
  | cons line rest ih =>
    have fresh : scan (begun line) rest = segment (line :: rest) := by
      rw [segment]
      unfold begun
      cases shape : Line.shape line.text with
      | declaration head =>
        simp only [ih.2]
        simp [closed, ofDeclaration]
      | _ => exact ih.1
    refine ⟨fresh, fun record => ?_⟩
    rw [scan, closed, claim]
    by_cases follows : canFollow line = true
    · rw [segment_cons_of_canFollow follows]
      by_cases holds : keepsOpen line = true
      · simp only [if_pos follows, if_pos holds, ih.2]
        simp [closed, holds]
      · simp only [if_pos follows, if_neg holds, ih.1]
        simpa using holds
    · simp [follows, fresh]

/-! ## The grammar -/

/-- A document has one record for each declaration, in order, and each record has the extent that the
    grammar gives it. So no line is claimed twice, and a record ends before the next one starts.
    Reading the lines one by one finds these records. -/
theorem segment_grammar (text : Text) :
    scan none (Line.split text) = segment (Line.split text) ∧
      (segment (Line.split text)).map Record.declaration =
        (Line.split text).filter (·.kind = .declaration) ∧
      (∀ record ∈ segment (Line.split text),
        (Line.declared? record.declaration.text).map Line.Declared.name = some record.name ∧
          ∃ first last, Extent (Line.split text) record first last) ∧
      (((segment (Line.split text)).flatMap Record.lines).map Line.index).Nodup ∧
      (segment (Line.split text)).Pairwise fun record later => record.stop < later.start := by
  have ordered := Line.split_pairwise text
  refine ⟨(scan_eq _).1, segment_declarations _, fun record member => ⟨?_, extent_of_mem member⟩,
    claimed_once ordered, segment_stop_lt_start ordered⟩
  obtain ⟨-, following, head, -, shape, made⟩ := exists_declaration record member
  have read := Line.shape_spec record.declaration.text
  rw [shape] at read
  rw [read, made]
  rfl

/-- A record with a comment that keeps it open, and another declaration after it. -/
def remarked : Text := "mapkey a x\\\n! y;\\\nmapkey(continued) z\nmapkey b".toList

/-- The first record of the document `remarked`. -/
def remarkedRecord : Record :=
  ⟨['a'], ⟨0, 0, "mapkey a x\\".toList⟩,
    [⟨1, 12, "! y;\\".toList⟩, ⟨2, 18, "mapkey(continued) z".toList⟩], true⟩

/-- The record reaches over the comment to the continuation. -/
theorem remarkedRecord_extent :
    remarkedRecord ∈ segment (Line.split remarked) ∧
      ∃ first last, Extent (Line.split remarked) remarkedRecord first last := by
  have member : remarkedRecord ∈ segment (Line.split remarked) := by decide +kernel
  exact ⟨member, ((segment_grammar remarked).2.2.1 remarkedRecord member).2⟩

end Mapkeys.Record
