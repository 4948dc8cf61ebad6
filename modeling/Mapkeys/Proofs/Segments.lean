import Mapkeys.Record
import Mapkeys.Proofs.Layouts

/-!
# Order on records

A record is a run of consecutive lines of its document, and a line that one record claims starts no
other one, so records follow each other as their declarations do.
-/

namespace Mapkeys.Record

/-! ## Claimed lines -/

theorem claim_begins (isOpen : Bool) (following : List Line) :
    (claim isOpen following).1 <+: following := by
  induction following generalizing isOpen with
  | nil => exact List.prefix_refl []
  | cons line rest ih =>
    unfold claim
    split_ifs
    · exact (List.prefix_cons_inj line).mpr (ih true)
    · exact List.prefix_append [line] rest
    · exact List.nil_prefix

theorem claim_canFollow {isOpen : Bool} {following : List Line} :
    ∀ line ∈ (claim isOpen following).1, canFollow line = true := by
  induction following generalizing isOpen with
  | nil => simp [claim]
  | cons line rest ih =>
    unfold claim
    split_ifs with follows
    · intro claimed member
      rcases List.mem_cons.mp member with rfl | later
      · exact follows
      · exact ih claimed later
    · intro claimed member
      rw [List.mem_singleton.mp member]
      exact follows
    · simp

/-- A line that can follow a declaration is none itself. -/
theorem segment_cons_of_canFollow {line : Line} (follows : canFollow line = true)
    (rest : List Line) : segment (line :: rest) = segment rest := by
  unfold canFollow Line.kind Line.kindOf at follows
  rw [segment]
  cases shape : Line.shape line.text with
  | declaration head => simp [shape, Line.Shape.kind] at follows
  | _ => rfl

theorem segment_append_of_canFollow {claimed : List Line}
    (follow : ∀ line ∈ claimed, canFollow line = true) (rest : List Line) :
    segment (claimed ++ rest) = segment rest := by
  induction claimed with
  | nil => rfl
  | cons line others ih =>
    rw [List.cons_append, segment_cons_of_canFollow (follow line List.mem_cons_self)]
    exact ih fun later member => follow later (List.mem_cons_of_mem line member)

@[simp] theorem lines_ofDeclaration (name : Text) (line : Line) (following : List Line) :
    (ofDeclaration name line following).lines =
      line :: (claim (Line.isEscaped line.text) following).1 := rfl

/-- A record takes lines from the beginning; the records of the lines after its declaration are
    those of the lines after the ones it takes. -/
theorem exists_segment_eq (name : Text) (line : Line) (rest : List Line) :
    ∃ after, line :: rest = (ofDeclaration name line rest).lines ++ after ∧
      segment rest = segment after := by
  obtain ⟨after, split⟩ := claim_begins (Line.isEscaped line.text) rest
  refine ⟨after, ?_, ?_⟩
  · rw [lines_ofDeclaration, List.cons_append, split]
  · rw [← segment_append_of_canFollow claim_canFollow after, split]

/-! ## Segments -/

/-- The lines of a record stand next to each other in the document. -/
theorem lines_consecutive {lines : List Line} :
    ∀ record ∈ segment lines, record.lines <:+: lines := by
  induction lines with
  | nil => simp [segment]
  | cons line rest ih =>
    intro record member
    rw [segment] at member
    cases shape : Line.shape line.text with
    | declaration head =>
      rw [shape] at member
      rcases List.mem_cons.mp member with rfl | later
      · obtain ⟨after, split, -⟩ := exists_segment_eq head.name line rest
        exact ⟨[], after, by rw [List.nil_append, ← split]⟩
      · exact (ih record later).trans (List.suffix_cons line rest).isInfix
    | _ =>
      rw [shape] at member
      exact (ih record member).trans (List.suffix_cons line rest).isInfix

/-- Every line of a record stands before every line of a later record. -/
theorem segment_pairwise {R : Line → Line → Prop} {lines : List Line} (ordered : lines.Pairwise R) :
    (segment lines).Pairwise fun record later =>
      ∀ line ∈ record.lines, ∀ other ∈ later.lines, R line other := by
  induction lines with
  | nil => exact .nil
  | cons line rest ih =>
    have tail := ih (List.pairwise_cons.mp ordered).2
    rw [segment]
    cases shape : Line.shape line.text with
    | declaration head =>
      obtain ⟨after, split, same⟩ := exists_segment_eq head.name line rest
      refine List.pairwise_cons.mpr ⟨fun later member own mine other theirs => ?_, tail⟩
      rw [split] at ordered
      rw [same] at member
      exact (List.pairwise_append.mp ordered).2.2 own mine other
        ((lines_consecutive later member).subset theirs)
    | _ => exact tail

/-! ## Changed lines -/

/-- A change to lines that keeps what segmentation reads of them. -/
structure Keeps (f : Line → Line) : Prop where
  shape : ∀ line, Line.shape (f line).text = Line.shape line.text
  isEscaped : ∀ line, Line.isEscaped (f line).text = Line.isEscaped line.text
  keepsOpen : ∀ line, keepsOpen (f line) = keepsOpen line

/-- The record with its lines changed. -/
def map (f : Line → Line) (record : Record) : Record :=
  ⟨record.name, f record.declaration, record.others.map f, record.terminated⟩

theorem lines_map (f : Line → Line) (record : Record) :
    (record.map f).lines = record.lines.map f := rfl

section

variable {f : Line → Line} (keeps : Keeps f)

include keeps

theorem Keeps.canFollow (line : Line) : canFollow (f line) = canFollow line := by
  unfold Record.canFollow Line.kind Line.kindOf
  rw [keeps.shape]

theorem claim_map (isOpen : Bool) (following : List Line) :
    claim isOpen (following.map f) =
      ((claim isOpen following).1.map f, (claim isOpen following).2) := by
  induction following generalizing isOpen with
  | nil => rfl
  | cons line rest ih =>
    rw [List.map_cons, claim, claim, keeps.canFollow, keeps.keepsOpen, ih]
    split_ifs
    · rfl
    · rfl
    · rfl

/-- Changed lines give the records changed. -/
theorem segment_map (lines : List Line) : segment (lines.map f) = (segment lines).map (map f) := by
  induction lines with
  | nil => rfl
  | cons line rest ih =>
    rw [List.map_cons, segment, segment, keeps.shape, ih]
    cases Line.shape line.text with
    | declaration head =>
      simp only [ofDeclaration, keeps.isEscaped, claim_map keeps]
      rfl
    | _ => rfl

end

/-! ## Places of records -/

theorem lines_eq_append (record : Record) : ∃ init, record.lines = init ++ [record.lastLine] := by
  unfold lines lastLine
  cases last : record.others.getLast? with
  | none =>
    rw [List.getLast?_eq_none_iff.mp last]
    exact ⟨[], rfl⟩
  | some line =>
    obtain ⟨init, others⟩ := List.getLast?_eq_some_iff.mp last
    exact ⟨record.declaration :: init, by rw [others, Option.getD_some, List.cons_append]⟩

theorem lastLine_mem (record : Record) : record.lastLine ∈ record.lines := by
  obtain ⟨init, split⟩ := lines_eq_append record
  simp [split]

theorem declaration_mem (record : Record) : record.declaration ∈ record.lines := List.mem_cons_self

section

variable {lines : List Line} {record : Record} (ordered : lines.Pairwise Line.Before)
  (member : record ∈ segment lines)

include ordered member

theorem lines_pairwise : record.lines.Pairwise Line.Before :=
  ordered.sublist (lines_consecutive record member).sublist

/-- The lines of a record stand between its start and its stop. -/
theorem line_within {line : Line} (own : line ∈ record.lines) :
    record.start ≤ line.start ∧ line.stop ≤ record.stop := by
  have pairwise := lines_pairwise ordered member
  constructor
  · rcases List.mem_cons.mp own with rfl | later
    · exact Nat.le_refl _
    · have before := (List.pairwise_cons.mp pairwise).1 line later
      have bound := before.stop
      unfold Line.stop at bound
      unfold start
      omega
  · obtain ⟨init, split⟩ := lines_eq_append record
    rw [split] at own pairwise
    rcases List.mem_append.mp own with earlier | last
    · have before := (List.pairwise_append.mp pairwise).2.2 line earlier _ List.mem_cons_self
      have bound := before.stop
      unfold stop
      unfold Line.stop at *
      omega
    · rw [List.mem_singleton.mp last]
      exact Nat.le_refl _

/-- A line that a record does not claim stands before or after the record. -/
theorem line_before_or_after {line : Line} (present : line ∈ lines) (free : line ∉ record.lines) :
    Line.Before line record.declaration ∨ Line.Before record.lastLine line := by
  obtain ⟨init, tail, split⟩ := lines_consecutive record member
  rw [← split] at ordered present
  obtain ⟨first, -, second⟩ := List.pairwise_append.mp ordered
  rcases List.mem_append.mp present with upTo | after
  · rcases List.mem_append.mp upTo with before | own
    · exact .inl ((List.pairwise_append.mp first).2.2 line before _ (declaration_mem record))
    · exact absurd own free
  · exact .inr (second _ (List.mem_append_right init (lastLine_mem record)) line after)

theorem line_outside {line : Line} (present : line ∈ lines)
    (free : line.index ∉ record.lines.map Line.index) :
    line.stop < record.start ∨ record.stop < line.start :=
  (line_before_or_after ordered member present fun own => free (List.mem_map_of_mem own)).imp
    Line.Before.stop Line.Before.stop

end

/-- A record ends before the next one starts. -/
theorem segment_stop_lt_start {lines : List Line} (ordered : lines.Pairwise Line.Before) :
    (segment lines).Pairwise fun record later => record.stop < later.start :=
  (segment_pairwise ordered).imp fun {record later} before =>
    (before _ (lastLine_mem record) _ (declaration_mem later)).stop

/-! ## What identifies a record -/

theorem takeWhile_ofNat (n : Nat) (rest : Text) :
    (Text.ofNat n ++ '_' :: rest).takeWhile (· ≠ '_') = Text.ofNat n := by
  rw [List.takeWhile_append_of_pos]
  · simp
  · intro c member
    have other : c ≠ '_' := fun same => Nat.underscore_not_in_toDigits (same ▸ member)
    simpa using other

/-- The number of its first line can be read off what identifies a record. -/
theorem index_of_id {record other : Record} (same : record.id = other.id) :
    record.declaration.index = other.declaration.index := by
  unfold id at same
  simp only [List.append_assoc, List.singleton_append, List.append_cancel_left_eq] at same
  have digits := congrArg (List.takeWhile (· ≠ '_')) same
  rw [takeWhile_ofNat, takeWhile_ofNat] at digits
  have numbers := congrArg (Nat.ofDigitChars 10 · 0) digits
  rwa [Text.ofNat, Text.ofNat, Nat.ofDigitChars_ten_toDigits, Nat.ofDigitChars_ten_toDigits]
    at numbers

theorem segment_ids {lines : List Line} (ordered : lines.Pairwise Line.Before) :
    ((segment lines).map id).Nodup := by
  refine List.pairwise_map.mpr ((segment_pairwise ordered).imp fun {record later} before same => ?_)
  have first := (before _ (declaration_mem record) _ (declaration_mem later)).index
  exact Nat.ne_of_lt first (index_of_id same)

end Mapkeys.Record
