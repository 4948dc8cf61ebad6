import Mapkeys.Proofs.DefinitionTexts
import Mapkeys.Proofs.LinePlaces
import Mapkeys.Proofs.RecordGrammar
import Mapkeys.Proofs.TokenOwners
import Mapkeys.Proofs.TrailingBlanks

/-!
# Sources of records

The source of a record is a document of its own: read by itself, it gives that one record, whatever
ended the record in its document (`parse_source`). Blanks may be lost at the end of its last line,
where one more carriage return is taken for part of a line break.
-/

namespace Mapkeys

open Text

/-! ## The lines of a record by themselves -/

namespace Record

/-- What a record claims it claims again when nothing else follows. -/
theorem claim_claim (isOpen : Bool) (following : List Line) :
    claim isOpen (claim isOpen following).1 = claim isOpen following := by
  induction following generalizing isOpen with
  | nil => rfl
  | cons line rest ih =>
    rw [claim]
    by_cases follows : canFollow line = true
    · by_cases holds : keepsOpen line = true
      · simp only [if_pos follows, if_pos holds]
        rw [claim, if_pos follows, if_pos holds, ih]
      · simp [claim, follows, holds]
    · simp [claim, follows]

theorem segment_lines {document : List Line} {record : Record}
    (member : record ∈ segment document) : segment record.lines = [record] := by
  obtain ⟨-, following, head, -, shape, declared⟩ := exists_declaration record member
  have others : record.others = (claim (Line.isEscaped record.declaration.text) following).1 := by
    conv_lhs => rw [declared]
    rfl
  have none : segment record.others = [] := by
    have follow : ∀ line ∈ record.others, canFollow line = true := by
      rw [others]
      exact claim_canFollow
    simpa [segment] using segment_append_of_canFollow follow []
  rw [lines, segment, shape]
  dsimp only
  rw [none, ofDeclaration, others, claim_claim]
  conv_rhs => rw [declared]
  rfl

/-- No line of a record is blank. -/
theorem text_ne_nil {document : List Line} {record : Record} (member : record ∈ segment document) :
    ∀ line ∈ record.lines, line.text ≠ [] := by
  obtain ⟨-, following, head, -, shape, declared⟩ := exists_declaration record member
  intro line own empty
  rcases List.mem_cons.mp own with rfl | other
  · rw [empty] at shape
    cases shape
  · rw [declared] at other
    have follows : canFollow line = true := claim_canFollow line other
    rw [canFollow, Line.kind, empty] at follows
    cases follows

end Record

/-! ## Beginnings of texts -/

namespace Line

theorem dropReturn_begins (raw : Text) : dropReturn raw <+: raw := by
  unfold dropReturn
  split_ifs
  · exact List.dropLast_prefix raw
  · exact List.prefix_refl raw

theorem trimRight_dropReturn (raw : Text) : trimRight (dropReturn raw) = trimRight raw := by
  unfold dropReturn
  split_ifs with returned
  · obtain ⟨init, rfl⟩ := List.getLast?_eq_some_iff.mp returned
    have blank : trimRight ['\r'] = [] := by decide
    rw [List.dropLast_concat, trimRight_append, if_pos blank]
  · rfl

/-- A text that is cut at the end of a line keeps its lines up to there, but for blanks at the end
    of the last one. -/
theorem split_take {text : Text} {before after : List Line} {last : Line}
    (parts : split text = before ++ last :: after) (some : last.text ≠ []) :
    (split (text.take last.stop)).map tight = (before ++ [last]).map tight := by
  obtain ⟨first, raw, rest, stands, lines, -⟩ := exists_cut parts
  have kept := dropReturn_begins raw
  have taken : text.take last.stop = first ++ dropReturn raw := by
    have short := kept.length_le
    have part : raw.take (dropReturn raw).length = dropReturn raw :=
      (List.prefix_iff_eq_take.mp kept).symm
    rw [stop, stands.start, stands.text, stands.parts, List.take_length_add_append,
      List.take_append_of_le_length short, part]
  have flat : '\n' ∉ dropReturn raw := fun member => stands.flat (kept.subset member)
  rw [stands.text] at some
  rw [taken, split_append stands.whole, lines, split_line some flat, List.map_append,
    List.map_append]
  refine congrArg _ ?_
  have index := stands.index
  rw [lines] at index
  simp only [List.map_cons, List.map_nil, Relocation.shift, Relocation.line, tight,
    trimRight_dropReturn, stands.text, stands.start, index, Nat.zero_add]

end Line

/-! ## Copies of records -/

namespace Record

/-- A record is a record of the text that begins with it, moved by what stands before. -/
theorem exists_home {text : Text} {record : Record} (member : record ∈ segment (Line.split text)) :
    ∃ before after home, text = before ++ after ∧
      record = (Relocation.shift before.length (Line.split before).length).record home ∧
      home.lines <+: Line.split after ∧ home.declaration.index = 0 ∧ home.start = 0 ∧
      segment home.lines = [home] := by
  obtain ⟨earlier, following, head, parts, -, declared⟩ := exists_declaration record member
  obtain ⟨before, raw, rest, stands, lines, later⟩ := Line.exists_cut parts
  obtain ⟨others, whole, -⟩ := exists_segment_eq head.name record.declaration following
  rw [← declared] at whole
  rw [whole] at later
  -- the lines of the record are moved from the start of the text after the cut
  obtain ⟨own, more, split, same, -⟩ := List.map_eq_append_iff.mp later
  have single := segment_lines member
  rw [← same, Relocation.segment_line] at single
  obtain ⟨home, alone, moved⟩ := List.map_eq_singleton_iff.mp single
  have ownLines : home.lines = own := by
    refine (lines_consecutive home (by simp [alone])).eq_of_length ?_
    have length := congrArg List.length same
    rw [← moved, Relocation.lines_record, List.length_map, List.length_map] at length
    exact length.symm
  have numbers : record.declaration.index = home.declaration.index + earlier.length ∧
      record.declaration.start = home.start + before.length := by
    rw [← moved]
    exact ⟨rfl, rfl⟩
  refine ⟨before, raw ++ rest, home, stands.parts, ?_, ⟨more, ?_⟩, ?_, ?_, ?_⟩
  · rw [lines, moved]
  · rw [ownLines, split]
  · have index := stands.index
    rw [lines] at index
    omega
  · have start := stands.start
    omega
  · rw [ownLines, alone]

/-- The source of a record has its lines, but for blanks at the end of the last one. -/
theorem split_source {text : Text} {home : Record} (begins : home.lines <+: Line.split text)
    (start : home.start = 0) (alone : segment home.lines = [home]) :
    (Line.split (home.source text)).map Line.tight = home.lines.map Line.tight := by
  obtain ⟨init, lines⟩ := lines_eq_append home
  obtain ⟨after, parts⟩ := begins
  have member : home ∈ segment home.lines := by simp [alone]
  have source : home.source text = text.take home.lastLine.stop := by
    simp [source, slice, start, stop]
  have cut : Line.split text = init ++ home.lastLine :: after := by
    rw [← parts, lines, List.append_assoc]
    rfl
  rw [source, lines]
  exact Line.split_take cut (text_ne_nil member home.lastLine (lastLine_mem home))

/-- A record that is moved by what stands before its text keeps its source. -/
theorem source_shift (before after : Text) (lines : Nat) (home : Record) :
    ((Relocation.shift before.length lines).record home).source (before ++ after) =
      home.source after := by
  have start : ((Relocation.shift before.length lines).record home).start =
      home.start + before.length := rfl
  have stop : ((Relocation.shift before.length lines).record home).stop =
      home.stop + before.length := by
    unfold stop
    rw [lastLine_record]
    exact Nat.add_right_comm _ _ _
  rw [source, start, stop, slice_append_right]
  rfl

/-- Lines that are those of a record, but for blanks at their ends, give that record, but for the
    blanks. -/
theorem exists_copy {home : Record} (alone : segment home.lines = [home]) {document : List Line}
    (same : document.map Line.tight = home.lines.map Line.tight) :
    ∃ copy, segment document = [copy] ∧ copy.map Line.tight = home.map Line.tight := by
  have tight := segment_map keeps_tight document
  rw [same, segment_map keeps_tight, alone] at tight
  obtain ⟨copy, found, equal⟩ := List.map_eq_singleton_iff.mp tight.symm
  exact ⟨copy, found, equal⟩

theorem id_first {record : Record} (index : record.declaration.index = 0) :
    record.id = "mapkey_0_".toList ++ record.name := by
  have stem : "mapkey_".toList ++ ofNat 0 ++ ['_'] = "mapkey_0_".toList := by decide
  unfold Record.id
  rw [index, stem]

/-- A record at the start of a document of its own. -/
structure Copy (record copy : Record) : Prop where
  name : copy.name = record.name
  terminated : copy.terminated = record.terminated
  length : copy.lines.length = record.lines.length
  id : copy.id = "mapkey_0_".toList ++ record.name
  inside : ∀ token ∈ record.tokens, record.start ≤ token.start ∧ record.start ≤ token.stop
  tokens : copy.tokens = record.tokens.map fun token =>
    { token with
      start := token.start - record.start
      stop := token.stop - record.start
      record := some copy.id }

/-- The tokens that are moved from the start of a document are moved back. -/
theorem copy_shift {home copy : Record} (index : home.declaration.index = 0)
    (start : home.start = 0) (same : copy.map Line.tight = home.map Line.tight)
    (chars lines : Nat) : ((Relocation.shift chars lines).record home).Copy copy := by
  have tokens : copy.tokens = home.tokens := by
    rw [← tokens_tight copy, same, tokens_tight]
  have moved : ((Relocation.shift chars lines).record home).tokens =
      copy.tokens.map (Relocation.shift chars lines).token := by
    rw [tokens]
    exact Relocation.tokens_record fun _ _ => Relocation.steady_shift _ _ _ _
  have place : ((Relocation.shift chars lines).record home).start = chars := by
    have sum : ((Relocation.shift chars lines).record home).start = home.start + chars := rfl
    omega
  have name := congrArg Record.name same
  have terminated := congrArg Record.terminated same
  have own := congrArg Record.lines same
  have identified := congrArg Record.id same
  refine ⟨name, terminated, ?_, ?_, ?_, ?_⟩
  · simpa [lines_map] using congrArg List.length own
  · calc copy.id = home.id := identified
      _ = "mapkey_0_".toList ++ home.name := id_first index
  · intro token own
    rw [moved] at own
    obtain ⟨origin, -, rfl⟩ := List.mem_map.mp own
    rw [place]
    exact ⟨Nat.le_add_left _ _, Nat.le_add_left _ _⟩
  · rw [moved, List.map_map, place]
    conv_lhs => rw [← List.map_id copy.tokens]
    refine List.map_congr_left fun token own => ?_
    have owner := tokens_owner token own
    simp [Relocation.token, Relocation.shift, ← owner]

end Record

/-! ## Documents of one record -/

theorem Marker.tokens_claimed {lines : List Line} {record : Record}
    (claimed : ∀ line ∈ lines, line.index ∈ record.lines.map Line.index) :
    tokens lines [record] = [] := by
  have none : lines.filter (fun line => !(record.lines.map Line.index).contains line.index) = [] := by
    rw [List.filter_eq_nil_iff]
    intro line member
    simpa using claimed line member
  unfold tokens
  simp only [List.flatMap_cons, List.flatMap_nil, List.append_nil, none]

namespace Document

/-- A document that one record takes whole has the tokens of that record. -/
theorem tokens_single {text : Text} {record : Record} (single : (parse text).records = [record])
    (whole : (parse text).lines.map Line.index = record.lines.map Line.index) :
    (parse text).tokens = record.tokens := by
  have claimed : ∀ line ∈ (parse text).lines, line.index ∈ record.lines.map Line.index := by
    intro line member
    rw [← whole]
    exact List.mem_map_of_mem member
  rw [parse_tokens, unsorted, single, Marker.tokens_claimed claimed, List.append_nil,
    List.flatMap_singleton]
  exact Token.sort_sort _

/-- The source of a record is read as that record alone, with the same tokens up to the start of the
    record and what identifies it, so that its definition says the same. -/
theorem parse_source {text : Text} {record : Record} (member : record ∈ (parse text).records) :
    ∃ copy, (parse (record.source text)).records = [copy] ∧ record.Copy copy ∧
      (parse (record.source text)).tokens = copy.tokens ∧
      (parse (record.source text)).definitions.map Definition.gist =
        [(Definition.ofRecord record).gist] := by
  obtain ⟨before, after, home, parts, moved, begins, index, start, alone⟩ :=
    Record.exists_home member
  have source : record.source text = home.source after := by
    rw [moved, parts, Record.source_shift]
  have lines := Record.split_source begins start alone
  rw [← source] at lines
  obtain ⟨copy, single, same⟩ := Record.exists_copy alone lines
  have copied : record.Copy copy := by
    rw [moved]
    exact Record.copy_shift index start same _ _
  refine ⟨copy, single, copied, tokens_single single ?_, ?_⟩
  · have own := congrArg Record.lines same
    rw [Record.lines_map, Record.lines_map, ← lines] at own
    have numbers := congrArg (List.map Line.index) own
    rw [List.map_map, List.map_map] at numbers
    exact numbers.symm
  · have read : (parse (record.source text)).definitions =
        (parse (record.source text)).records.map Definition.ofRecord := rfl
    have gist := Definition.gist_of_tokens copied.tokens (fun _ => rfl) (fun _ => rfl) copied.name
      copied.terminated
    have alone : (parse (record.source text)).records = [copy] := single
    rw [read, alone, List.map_singleton, List.map_singleton, gist]

/-- A record between other lines; its last line ends in two carriage returns and a line feed. -/
def returned : Text :=
  "set x\nmapkey a %b;\\\r\nmapkey(continued) @MAPKEY_LABEL x;\r\r\n! note".toList

/-- The record keeps one of the two carriage returns. -/
def returnedRecord : Record where
  name := "a".toList
  declaration := ⟨1, 6, "mapkey a %b;\\".toList⟩
  others := [⟨2, 21, "mapkey(continued) @MAPKEY_LABEL x;\r".toList⟩]
  terminated := true

/-- The source of the record ends in the carriage return that its own line loses. -/
theorem returnedRecord_source :
    returnedRecord ∈ (parse returned).records ∧
      (returnedRecord.source returned).getLast? = some '\r' ∧
      ∃ copy, (parse (returnedRecord.source returned)).records = [copy] ∧
        returnedRecord.Copy copy ∧
        (parse (returnedRecord.source returned)).tokens = copy.tokens ∧
        (parse (returnedRecord.source returned)).definitions.map Definition.gist =
          [⟨"a".toList, none, some "x".toList, none, ["b".toList], true⟩] := by
  have member : returnedRecord ∈ (parse returned).records := by decide +kernel
  obtain ⟨copy, single, copied, tokens, gist⟩ := parse_source member
  refine ⟨member, by decide +kernel, copy, single, copied, tokens, ?_⟩
  rw [gist]
  decide +kernel

end Document
end Mapkeys
