import Mapkeys.Proofs.RelocatedTokens
import Mapkeys.Proofs.Splitting

/-!
# Documents one after the other

A text that ends with a line feed, followed by a text whose first line cannot belong to a record
before it, is read as the two texts by themselves: the second document is only moved by the
characters and the lines of the first one (`parse_append`). A record that is still open at the end
of the first text is closed by the second one as it is by the end of the text.
-/

namespace Mapkeys

open Text

/-! ## Lines -/

namespace Line

theorem number_shift (index start lines chars : Nat) (raws : List Text) :
    number (index + lines) (start + chars) raws =
      (number index start raws).map (Relocation.shift chars lines).line := by
  induction raws generalizing index start with
  | nil => rfl
  | cons raw rest ih =>
    rw [number, number, List.map_cons, ← ih]
    congr 2 <;> omega

/-- The lines of two texts one after the other. -/
theorem split_append {a : Text} (whole : Whole a) (b : Text) :
    split (a ++ b) =
      split a ++ (split b).map (Relocation.shift a.length (split a).length).line := by
  rw [length_split]
  unfold split
  rw [pieces_append whole, number_append, width_pieces whole, number_shift]

end Line

/-! ## Records -/

namespace Record

section

variable {following : List Line} (closes : ∀ line ∈ following.head?, canFollow line = false)

include closes

/-- A line that cannot follow ends a record as the end of the lines does. -/
theorem claim_append (isOpen : Bool) (lines : List Line) :
    claim isOpen (lines ++ following) = claim isOpen lines := by
  induction lines generalizing isOpen with
  | nil =>
    cases following with
    | nil => rfl
    | cons line rest => simp [claim, closes line rfl]
  | cons line rest ih =>
    rw [List.cons_append, claim, claim, ih]

theorem segment_append (lines : List Line) :
    segment (lines ++ following) = segment lines ++ segment following := by
  induction lines with
  | nil => rfl
  | cons line rest ih =>
    rw [List.cons_append, segment, segment, ih]
    cases Line.shape line.text with
    | declaration head =>
      simp only [ofDeclaration, claim_append closes]
      rfl
    | _ => rfl

end

theorem index_lt {text : Text} {record : Record} (member : record ∈ segment (Line.split text)) :
    ∀ line ∈ record.lines, line.index < (Line.split text).length :=
  fun line own => (Line.split_lt line ((lines_consecutive record member).subset own)).1

theorem stop_le_length {text : Text} {record : Record}
    (member : record ∈ segment (Line.split text)) : record.stop ≤ text.length :=
  (Line.split_lt _ ((lines_consecutive record member).subset (lastLine_mem record))).2

theorem lastLine_record (move : Relocation) (record : Record) :
    (move.record record).lastLine = move.line record.lastLine := by
  unfold lastLine Relocation.record
  rw [List.getLast?_map]
  cases record.others.getLast? with
  | none => rfl
  | some line => rfl

end Record

/-! ## Sources -/

theorem slice_append_left {t : Text} {start stop : Nat} (inside : stop ≤ t.length) (after : Text) :
    slice (t ++ after) start stop = slice t start stop := by
  unfold slice
  by_cases fits : start ≤ t.length
  · rw [List.drop_append_of_le_length fits, List.take_append_of_le_length]
    rw [List.length_drop]
    omega
  · rw [show stop - start = 0 by omega, List.take_zero, List.take_zero]

theorem slice_append_right (before t : Text) (start stop : Nat) :
    slice (before ++ t) (start + before.length) (stop + before.length) = slice t start stop := by
  unfold slice
  rw [Nat.add_comm start, ← List.drop_drop, List.drop_left]
  congr 1
  omega

/-! ## Comments outside the records -/

namespace Marker

theorem tokens_append {lines others : List Line} {records more : List Record}
    (before : ∀ line ∈ lines, ∀ record ∈ more, line.index ∉ record.lines.map Line.index)
    (after : ∀ line ∈ others, ∀ record ∈ records, line.index ∉ record.lines.map Line.index) :
    tokens (lines ++ others) (records ++ more) = tokens lines records ++ tokens others more := by
  unfold tokens
  dsimp only
  rw [List.filter_append, List.flatMap_append, List.flatMap_append]
  congr 2
  · refine List.filter_congr fun line member => ?_
    have free : line.index ∉ more.flatMap fun record => record.lines.map Line.index := by
      intro claimed
      obtain ⟨record, present, own⟩ := List.mem_flatMap.mp claimed
      exact before line member record present own
    simp [List.contains_eq_mem, free]
  · refine List.filter_congr fun line member => ?_
    have free : line.index ∉ records.flatMap fun record => record.lines.map Line.index := by
      intro claimed
      obtain ⟨record, present, own⟩ := List.mem_flatMap.mp claimed
      exact after line member record present own
    simp [List.contains_eq_mem, free]

end Marker

/-! ## Documents -/

namespace Document

/-- What moves a document to the end of another one. -/
def following (first : Document) : Relocation :=
  .shift first.text.length first.lines.length

/-- Two documents one after the other. -/
def append (first second : Document) : Document where
  text := first.text ++ second.text
  lines := first.lines ++ second.lines.map first.following.line
  records := first.records ++ second.records.map first.following.record
  definitions := first.definitions ++ second.definitions.map first.following.definition
  tokens := first.tokens ++ second.tokens.map first.following.token

theorem tokens_within_text {text : Text} :
    ∀ token ∈ (parse text).tokens, token.Within 0 text.length := by
  intro token member
  rw [parse_tokens] at member
  rcases List.mem_append.mp ((Token.sort_perm _).subset member) with own | outside
  · obtain ⟨record, present, mine⟩ := List.mem_flatMap.mp own
    exact (Record.tokens_within (Line.split_pairwise text) present token mine).mono (Nat.zero_le _)
      (Record.stop_le_length present)
  · obtain ⟨line, present, -, found⟩ := Marker.mem_tokens outside
    exact (Marker.lineTokens_within line token found).mono (Nat.zero_le _)
      (Line.split_lt line present).2

section

variable {a b : Text} (whole : Line.Whole a)
  (foreign : ∀ line ∈ (parse b).lines.head?, line.kind ≠ .comment ∧ line.kind ≠ .continuation)

include whole

theorem lines_append : (parse (a ++ b)).lines =
    (parse a).lines ++ (parse b).lines.map (parse a).following.line :=
  Line.split_append whole b

include foreign

theorem records_append : (parse (a ++ b)).records =
    (parse a).records ++ (parse b).records.map (parse a).following.record := by
  have closes : ∀ line ∈ ((parse b).lines.map (parse a).following.line).head?,
      Record.canFollow line = false := by
    intro line first
    rw [List.head?_map] at first
    obtain ⟨origin, head, rfl⟩ := Option.map_eq_some_iff.mp first
    have kinds := foreign origin head
    rw [Relocation.keeps_line.canFollow]
    simp [Record.canFollow, kinds]
  calc (parse (a ++ b)).records
      = Record.segment ((parse a).lines ++ (parse b).lines.map (parse a).following.line) := by
        rw [← lines_append whole]
        rfl
    _ = _ := by
        rw [Record.segment_append closes, Relocation.segment_line]
        rfl

theorem definitions_append : (parse (a ++ b)).definitions =
    (parse a).definitions ++ (parse b).definitions.map (parse a).following.definition := by
  have read (text : Text) :
      (parse text).definitions = (parse text).records.map Definition.ofRecord := rfl
  rw [read, read, read, records_append whole foreign, List.map_append, List.map_map, List.map_map]
  refine congrArg _ (List.map_congr_left fun record _ => ?_)
  exact Relocation.ofRecord_record fun _ _ => Relocation.steady_shift _ _ _ _

/-- Comments outside the records stay outside. -/
theorem markers_append :
    Marker.tokens (parse (a ++ b)).lines (parse (a ++ b)).records =
      Marker.tokens (parse a).lines (parse a).records ++
        (Marker.tokens (parse b).lines (parse b).records).map (parse a).following.token := by
  have index (line : Line) : ((parse a).following.line line).index =
      line.index + (parse a).lines.length := rfl
  have indices (record : Record) : ((parse a).following.record record).lines.map Line.index =
      (record.lines.map Line.index).map (· + (parse a).lines.length) := by
    rw [Relocation.lines_record, List.map_map, List.map_map]
    rfl
  rw [lines_append whole, records_append whole foreign, Marker.tokens_append]
  · refine congrArg _ (Relocation.tokens_line ?_ fun _ _ => Relocation.steady_shift _ _ _ _)
    exact fun _ _ same => Nat.add_right_cancel same
  · intro line present record member claimed
    obtain ⟨origin, -, rfl⟩ := List.mem_map.mp member
    rw [indices] at claimed
    obtain ⟨number, -, same⟩ := List.mem_map.mp claimed
    have low := (Line.split_lt line present).1
    have count : (parse a).lines.length = (Line.split a).length := rfl
    omega
  · intro line present record member claimed
    obtain ⟨origin, -, rfl⟩ := List.mem_map.mp present
    obtain ⟨own, mine, same⟩ := List.mem_map.mp claimed
    have low := Record.index_lt member own mine
    have count : (parse a).lines.length = (Line.split a).length := rfl
    rw [index] at same
    omega

theorem unsorted_append : unsorted (a ++ b) =
    ((parse a).records.flatMap Record.tokens ++
        ((parse b).records.flatMap Record.tokens).map (parse a).following.token) ++
      (Marker.tokens (parse a).lines (parse a).records ++
        (Marker.tokens (parse b).lines (parse b).records).map (parse a).following.token) := by
  unfold unsorted
  rw [markers_append whole foreign, records_append whole foreign, List.flatMap_append,
    List.flatMap_map, List.map_flatMap]
  congr 2
  refine List.flatMap_congr fun record _ => ?_
  exact Relocation.tokens_record fun _ _ => Relocation.steady_shift _ _ _ _

theorem tokens_append : (parse (a ++ b)).tokens =
    (parse a).tokens ++ (parse b).tokens.map (parse a).following.token := by
  have strict (text : Text) : (parse text).tokens.Pairwise Token.Precedes :=
    Token.sort_precedes (unsorted_separate text) (unsorted_nonempty text)
  have first : (parse a).tokens.Perm (unsorted a) := Token.sort_perm _
  have second : (parse b).tokens.Perm (unsorted b) := Token.sort_perm _
  rw [parse_tokens (a ++ b)]
  refine Token.sort_eq ?_ ?_
  · refine (first.append (second.map _)).trans ?_
    rw [unsorted_append whole foreign, unsorted, unsorted, List.map_append, List.append_assoc,
      List.append_assoc]
    exact (List.perm_append_comm_assoc _ _ _).append_left _
  · refine List.pairwise_append.mpr ⟨strict a, ?_, ?_⟩
    · exact List.pairwise_map.mpr ((strict b).imp Relocation.precedes_token)
    · intro token own other moved
      obtain ⟨origin, -, rfl⟩ := List.mem_map.mp moved
      have within := tokens_within_text token own
      have start : ((parse a).following.token origin).start = origin.start + a.length := rfl
      have some := within.start_lt
      have fits := within.le_high
      exact .inl (by omega)

end

/-- Two texts one after the other are read as two documents one after the other, the second one
    moved by the characters and the lines of the first. The records keep their sources, and those
    of the second text keep their tokens and what identifies them up to the move. -/
theorem parse_append {a b : Text} (whole : a = [] ∨ a.getLast? = some '\n')
    (foreign : ∀ line ∈ (parse b).lines.head?,
      line.kind ≠ .comment ∧ line.kind ≠ .continuation) :
    parse (a ++ b) = (parse a).append (parse b) ∧
      (∀ record ∈ (parse a).records, record.source (a ++ b) = record.source a) ∧
      ∀ record ∈ (parse b).records,
        ((parse a).following.record record).source (a ++ b) = record.source b ∧
        ((parse a).following.record record).tokens =
          record.tokens.map (parse a).following.token ∧
        ((parse a).following.record record).id = (parse a).following.id record.id := by
  refine ⟨?_, ?_, ?_⟩
  · calc parse (a ++ b)
        = ⟨a ++ b, (parse (a ++ b)).lines, (parse (a ++ b)).records,
            (parse (a ++ b)).definitions, (parse (a ++ b)).tokens⟩ := rfl
      _ = (parse a).append (parse b) := by
        rw [lines_append whole, records_append whole foreign, definitions_append whole foreign,
          tokens_append whole foreign]
        rfl
  · intro record member
    exact slice_append_left (Record.stop_le_length member) b
  · intro record member
    refine ⟨?_, Relocation.tokens_record fun _ _ => Relocation.steady_shift _ _ _ _,
      (Relocation.id_record record).symm⟩
    have stop : ((parse a).following.record record).stop = record.stop + a.length := by
      unfold Record.stop Line.stop
      rw [Record.lastLine_record]
      exact Nat.add_right_comm _ _ _
    have start : ((parse a).following.record record).start = record.start + a.length := rfl
    unfold Record.source
    rw [start, stop]
    exact slice_append_right a b _ _

/-- A record that is open at the end of its text. -/
def unfinished : Text := "mapkey a %b;\\\nmapkey(continued) y\\\n".toList

/-- A record with a comment after it. -/
def noted : Text := "mapkey b @MAPKEY_LABEL x;\n! note".toList

/-- The open record takes nothing of the text that follows, whose record becomes that of the third
    line. -/
theorem unfinished_then_noted :
    (unfinished = [] ∨ unfinished.getLast? = some '\n') ∧
      (∀ line ∈ (parse noted).lines.head?, line.kind ≠ .comment ∧ line.kind ≠ .continuation) ∧
      parse (unfinished ++ noted) = (parse unfinished).append (parse noted) ∧
      (parse (unfinished ++ noted)).records.map (fun record => (record.id, record.terminated)) =
        [("mapkey_0_a".toList, false), ("mapkey_2_b".toList, true)] := by
  have whole : unfinished = [] ∨ unfinished.getLast? = some '\n' := .inr (by decide +kernel)
  have foreign : ∀ line ∈ (parse noted).lines.head?,
      line.kind ≠ .comment ∧ line.kind ≠ .continuation := by decide +kernel
  exact ⟨whole, foreign, (parse_append whole foreign).1, by decide +kernel⟩

end Document
end Mapkeys
