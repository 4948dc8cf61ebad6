import Mathlib.Data.List.Forall2
import Mapkeys.Proofs.DefinitionTexts
import Mapkeys.Proofs.LinePlaces
import Mapkeys.Proofs.Sessions
import Mapkeys.Proofs.TokenOwners

/-!
# Line ends

A document whose lines end with a carriage return and a line feed is read like the one whose lines
end with a line feed: everything keeps its value, its line and its record, and an offset moves on by
one for every line feed before it (`parse_withReturns`).
-/

namespace Mapkeys

namespace Text

/-! ## Carriage returns -/

/-- The text with a carriage return before every line feed. -/
def withReturns (t : Text) : Text := t.flatMap fun c => if c = '\n' then ['\r', '\n'] else [c]

/-- Where an offset of a text stands once there is a carriage return before every line feed. -/
def beyondReturns (t : Text) (offset : Nat) : Nat := offset + (t.take offset).count '\n'

theorem withReturns_append (a b : Text) : withReturns (a ++ b) = withReturns a ++ withReturns b :=
  List.flatMap_append

theorem withReturns_flat {t : Text} (flat : '\n' ∉ t) : withReturns t = t := by
  induction t with
  | nil => rfl
  | cons c rest ih =>
    obtain ⟨other, others⟩ := not_or.mp (List.mem_cons.not.mp flat)
    have tail := ih others
    unfold withReturns at tail ⊢
    rw [List.flatMap_cons, tail, if_neg (Ne.symm other)]
    rfl

theorem withReturns_break {t : Text} (flat : '\n' ∉ t) (rest : Text) :
    withReturns (t ++ '\n' :: rest) = (t ++ ['\r']) ++ '\n' :: withReturns rest := by
  have feed : withReturns ('\n' :: rest) = '\r' :: '\n' :: withReturns rest := rfl
  rw [withReturns_append, withReturns_flat flat, feed, List.append_assoc]
  rfl

theorem length_withReturns (t : Text) : (withReturns t).length = t.length + t.count '\n' := by
  induction t with
  | nil => rfl
  | cons c rest ih =>
    unfold withReturns at ih ⊢
    rw [List.flatMap_cons, List.length_append, ih, List.count_cons, List.length_cons]
    by_cases feed : c = '\n'
    · simp [feed]
      omega
    · simp [feed]
      omega

theorem beyondReturns_strictMono (t : Text) : StrictMono (beyondReturns t) := by
  intro a b less
  have taken : (t.take a).Sublist (t.take b) := (List.take_prefix_take_left (Nat.le_of_lt less)).sublist
  have fewer := taken.count_le '\n'
  unfold beyondReturns
  omega

/-- A part of a text with carriage returns is that part of the text, with carriage returns. -/
theorem slice_withReturns (t : Text) {start stop : Nat} (order : start ≤ stop) (inside : stop ≤ t.length) :
    slice (withReturns t) (beyondReturns t start) (beyondReturns t stop) =
      withReturns (slice t start stop) := by
  have parts : t = t.take start ++ (slice t start stop ++ t.drop stop) := by
    have rest : slice t start stop ++ t.drop stop = t.drop start := by
      have last : t.drop stop = (t.drop start).drop (stop - start) := by
        rw [List.drop_drop, Nat.add_sub_cancel' order]
      rw [slice, last, List.take_append_drop]
    rw [rest, List.take_append_drop]
  have upTo : t.take stop = t.take start ++ slice t start stop := by
    rw [slice, ← List.take_add, Nat.add_sub_cancel' order]
  have low : (withReturns (t.take start)).length = beyondReturns t start := by
    rw [length_withReturns, List.length_take, Nat.min_eq_left (by omega), beyondReturns]
  have high : (withReturns (t.take start)).length + (withReturns (slice t start stop)).length =
      beyondReturns t stop := by
    rw [← List.length_append, ← withReturns_append, ← upTo, length_withReturns, List.length_take,
      Nat.min_eq_left inside, beyondReturns]
  have whole : withReturns t = withReturns (t.take start) ++
      (withReturns (slice t start stop) ++ withReturns (t.drop stop)) := by
    rw [← withReturns_append, ← withReturns_append, ← parts]
  unfold slice at *
  rw [whole, ← low, ← high, List.drop_left, Nat.add_sub_cancel_left, List.take_left]

end Text

namespace Line

open Text

/-- A carriage return before every line feed moves each line on by the number of lines before it. -/
theorem split_withReturns {text : Text} (plain : '\r' ∉ text) :
    split (withReturns text) =
      (split text).map fun line => ⟨line.index, line.start + line.index, line.text⟩ := by
  induction text using text_induction with
  | last t flat =>
    rw [withReturns_flat flat]
    by_cases empty : t = []
    · subst empty
      rfl
    · rw [split_line empty flat]
      rfl
  | next t rest flat ih =>
    have others : '\r' ∉ rest := by
      simp only [List.mem_append, List.mem_cons, not_or] at plain
      exact plain.2.2
    have line : '\r' ∉ t := fun member => plain (List.mem_append_left _ member)
    have returned : '\n' ∉ t ++ ['\r'] := by simp [flat]
    have text : dropReturn (t ++ ['\r']) = dropReturn t := by
      have kept : t.getLast? ≠ some '\r' := fun last => line (List.mem_of_getLast? last)
      simp [dropReturn, kept]
    rw [withReturns_break flat, split_break returned, split_break flat, ih others, text,
      List.map_cons, List.map_map, List.map_map]
    refine congrArg _ (List.map_congr_left fun later _ => ?_)
    simp only [Function.comp, Relocation.shift, Relocation.line, List.length_append,
      List.length_singleton, Line.mk.injEq, true_and, and_true]
    omega

end Line

/-! ## Documents whose lines are moved -/

namespace Relocation

open Document

section

variable {move : Relocation} {text text' : Text}
  (lines : (parse text').lines = (parse text).lines.map move.line)
  (steady : ∀ line ∈ (parse text).lines, move.Steady line.start line.stop)

include lines in
theorem records_parse : (parse text').records = (parse text).records.map move.record := by
  have segmented (text : Text) : (parse text).records = Record.segment (parse text).lines := rfl
  rw [segmented, segmented, lines, segment_line]

include steady

theorem steadyOn_parse {record : Record} (member : record ∈ (parse text).records) :
    move.SteadyOn record :=
  fun line own => steady line ((Record.lines_consecutive record member).subset own)

include lines

theorem tokens_parse (injective : Function.Injective move.index) :
    (parse text').tokens = (parse text).tokens.map move.token := by
  have own : (parse text').records.flatMap Record.tokens =
      ((parse text).records.flatMap Record.tokens).map move.token := by
    rw [records_parse lines, List.flatMap_map, List.map_flatMap]
    exact List.flatMap_congr fun record member => tokens_record (steadyOn_parse steady member)
  rw [parse_tokens, parse_tokens, unsorted, unsorted, own, records_parse lines, lines,
    tokens_line injective steady, ← List.map_append, sort_token]

end

/-! ## Lines that keep their numbers -/

section

variable {move : Relocation} (keeps : ∀ index, move.index index = index)

include keeps

theorem id_kept (record : Record) : (move.record record).id = record.id := by
  unfold Record.id Relocation.record Relocation.line
  rw [keeps]

theorem token_kept {token : Token} (owner : ∀ id ∈ token.record, ∃ record : Record, id = record.id) :
    move.token token =
      { token with start := move.offset token.start, stop := move.offset token.stop } := by
  have named : token.record.map move.id = token.record := by
    cases owned : token.record with
    | none => rfl
    | some id =>
      obtain ⟨record, rfl⟩ := owner id owned
      rw [Option.map_some, id_record, id_kept keeps]
  rw [Relocation.token, named]

theorem lineAt_line (lines : List Line) (offset : Nat) :
    Fold.lineAt (lines.map move.line) (move.offset offset) = Fold.lineAt lines offset := by
  have upTo (line : Line) : (move.line line).start ≤ move.offset offset ↔ line.start ≤ offset :=
    move.strictMono.le_iff_le
  have index : Line.index ∘ move.line = Line.index := funext fun line => keeps line.index
  unfold Fold.lineAt
  rw [List.takeWhile_map, List.getLast?_map, Option.map_map, index]
  simp only [Function.comp_def, upTo]

theorem regions_token (lines : List Line) (opened : List Nat) (tokens : List Token) :
    Fold.regions (lines.map move.line) opened (tokens.map move.token) =
      Fold.regions lines opened tokens := by
  have line (token : Token) : Fold.lineAt (lines.map move.line) (move.token token).start =
      Fold.lineAt lines token.start := lineAt_line keeps lines token.start
  have kind (token : Token) : (move.token token).kind = token.kind := rfl
  induction tokens generalizing opened with
  | nil => rfl
  | cons token rest ih =>
    rw [List.map_cons]
    unfold Fold.regions
    simp only [kind, line, ih]

theorem folds_records (records : List Record) :
    Fold.records (records.map move.record) = Fold.records records := by
  have first (record : Record) : (move.record record).declaration.index = record.declaration.index :=
    keeps _
  have last (record : Record) : (move.record record).lastLine.index = record.lastLine.index := by
    rw [Record.lastLine_record]
    exact keeps _
  unfold Fold.records
  rw [List.filter_map, List.map_map]
  simp only [Function.comp_def, first, last]

end

end Relocation

/-! ## What keeps its lines -/

/-- A token at other offsets. -/
def Token.placed (place : Nat → Nat) (token : Token) : Token :=
  { token with start := place token.start, stop := place token.stop }

/-- A record whose lines have the same numbers and texts, at other offsets. -/
structure Record.Elsewhere (place : Nat → Nat) (record moved : Record) : Prop where
  id : moved.id = record.id
  name : moved.name = record.name
  lines : moved.lines = record.lines.map fun line => ⟨line.index, place line.start, line.text⟩
  terminated : moved.terminated = record.terminated
  start : moved.start = place record.start
  stop : moved.stop = place record.stop
  tokens : moved.tokens = record.tokens.map (Token.placed place)

/-- A definition that says the same at other offsets. -/
structure Definition.Elsewhere (place : Nat → Nat) (definition moved : Definition) : Prop where
  record : definition.record.Elsewhere place moved.record
  gist : moved.gist = definition.gist

theorem Record.Elsewhere.definition {place : Nat → Nat} {record moved : Record}
    (elsewhere : record.Elsewhere place moved) :
    (Definition.ofRecord record).Elsewhere place (.ofRecord moved) :=
  ⟨elsewhere, Definition.gist_of_tokens elsewhere.tokens (fun _ => rfl) (fun _ => rfl)
    elsewhere.name elsewhere.terminated⟩

namespace Relocation

/-- A record that keeps its numbers is the same elsewhere. -/
theorem elsewhere {move : Relocation} (keeps : ∀ index, move.index index = index) {record : Record}
    (steady : move.SteadyOn record) : record.Elsewhere move.offset (move.record record) where
  id := id_kept keeps record
  name := rfl
  lines := by
    rw [lines_record]
    refine List.map_congr_left fun line _ => ?_
    rw [Relocation.line, keeps]
  terminated := rfl
  start := rfl
  stop := by
    have last := steady _ (Record.lastLine_mem record)
    have length : (move.line record.lastLine).stop = move.offset record.lastLine.stop :=
      (last.add (Nat.le_refl _) (Nat.le_refl _)).symm
    rw [Record.stop, Record.lastLine_record, length]
    rfl
  tokens := by
    rw [tokens_record steady]
    refine List.map_congr_left fun token own => token_kept keeps fun id named => ⟨record, ?_⟩
    rw [Record.tokens_owner token own] at named
    exact (Option.some.inj named).symm

/-- Offsets move beyond the carriage returns, and lines keep their numbers. -/
def returns (text : Text) : Relocation :=
  ⟨Text.beyondReturns text, fun index => index, Text.beyondReturns_strictMono text⟩

end Relocation

namespace Document

open Text

section

variable {text : Text}

theorem offset_returns {line : Line} (member : line ∈ (parse text).lines) {offset : Nat}
    (low : line.start ≤ offset) (high : offset ≤ line.stop) :
    (Relocation.returns text).offset offset = offset + line.index := by
  obtain ⟨before, raw, after, stands⟩ := Line.exists_place line member
  have count := stands.count low high
  unfold Relocation.returns beyondReturns
  dsimp only
  rw [count]

theorem steady_returns {line : Line} (member : line ∈ (parse text).lines) :
    (Relocation.returns text).Steady line.start line.stop := by
  have whole : line.start ≤ line.stop := Nat.le_add_right _ _
  intro offset low high
  rw [offset_returns member low high, offset_returns member (Nat.le_refl _) whole]
  omega

theorem elsewhere_withReturns {record : Record} (member : record ∈ (parse text).records) :
    record.Elsewhere (beyondReturns text) ((Relocation.returns text).record record) :=
  Relocation.elsewhere (fun _ => rfl)
    (Relocation.steadyOn_parse (fun _ => steady_returns) member)

variable (plain : '\r' ∉ text)

include plain

theorem lines_withReturns :
    (parse (withReturns text)).lines = (parse text).lines.map (Relocation.returns text).line := by
  have split : (parse (withReturns text)).lines = _ := Line.split_withReturns plain
  rw [split]
  refine List.map_congr_left fun line member => ?_
  have start := offset_returns member (Nat.le_refl _) (Nat.le_add_right _ _)
  rw [Relocation.line, start]
  rfl

theorem records_withReturns : (parse (withReturns text)).records =
    (parse text).records.map (Relocation.returns text).record :=
  Relocation.records_parse (lines_withReturns plain)

theorem definitions_withReturns : (parse (withReturns text)).definitions =
    (parse text).records.map fun record =>
      Definition.ofRecord ((Relocation.returns text).record record) := by
  have read : (parse (withReturns text)).definitions =
      (parse (withReturns text)).records.map Definition.ofRecord := rfl
  rw [read, records_withReturns plain, List.map_map]
  rfl

theorem tokens_withReturns :
    (parse (withReturns text)).tokens = (parse text).tokens.map (.placed (beyondReturns text)) := by
  have moved := Relocation.tokens_parse (lines_withReturns plain) (fun _ => steady_returns)
    Function.injective_id
  rw [moved]
  refine List.map_congr_left fun token member => Relocation.token_kept (fun _ => rfl) ?_
  intro id named
  rcases List.mem_append.mp ((Token.sort_perm _).subset member) with own | outside
  · obtain ⟨record, -, mine⟩ := List.mem_flatMap.mp own
    rw [Record.tokens_owner token mine] at named
    exact ⟨record, (Option.some.inj named).symm⟩
  · rw [Marker.tokens_owner token outside] at named
    cases named

theorem folds_withReturns : (parse (withReturns text)).folds = (parse text).folds := by
  have moved := Relocation.tokens_parse (lines_withReturns plain) (fun _ => steady_returns)
    Function.injective_id
  unfold folds
  rw [moved, lines_withReturns plain, records_withReturns plain,
    Relocation.regions_token (fun _ => rfl), Relocation.folds_records (fun _ => rfl)]

theorem graph_withReturns (policy : Policy) :
    CallGraph.ofText policy (withReturns text) = CallGraph.ofText policy text := by
  have read : (parse text).definitions = (parse text).records.map Definition.ofRecord := rfl
  unfold CallGraph.ofText CallGraph.ofDefinitions
  rw [definitions_withReturns plain, read, List.map_map, List.map_map]
  refine congrArg _ (List.map_congr_left fun record member => ?_)
  have gist := (elsewhere_withReturns member).definition.gist
  have name := congrArg Gist.name gist
  have calls := congrArg Gist.calledNames gist
  simp only [Definition.gist] at name calls
  simp only [Function.comp, name, calls]

theorem sources_withReturns :
    (parse (withReturns text)).records.map (Record.source (withReturns text)) =
      (parse text).records.map fun record => withReturns (record.source text) := by
  rw [records_withReturns plain, List.map_map]
  refine List.map_congr_left fun record member => ?_
  have elsewhere := elsewhere_withReturns member
  have order := (Record.line_within (Line.split_pairwise text) member (Record.lastLine_mem record)).1
  have whole : record.lastLine.start ≤ record.stop := Nat.le_add_right _ _
  rw [Function.comp, Record.source, elsewhere.start, elsewhere.stop, Record.source,
    slice_withReturns text (by omega) (Record.stop_le_length member)]

end

/-- A text without carriage returns and the same text with one before every line feed are read alike:
    lines, records, definitions and tokens are the same but for their offsets, which move on by one
    for every line feed before them, and so are the sources of the records but for the carriage
    returns. The folds and, under either policy, the call graph with its cycles and violations are
    the same. -/
theorem parse_withReturns {text : Text} (plain : '\r' ∉ text) :
    (parse (withReturns text)).lines = (parse text).lines.map
        (fun line => ⟨line.index, beyondReturns text line.start, line.text⟩) ∧
      List.Forall₂ (Record.Elsewhere (beyondReturns text)) (parse text).records
        (parse (withReturns text)).records ∧
      List.Forall₂ (Definition.Elsewhere (beyondReturns text)) (parse text).definitions
        (parse (withReturns text)).definitions ∧
      (parse (withReturns text)).tokens = (parse text).tokens.map (.placed (beyondReturns text)) ∧
      (parse (withReturns text)).records.map (Record.source (withReturns text)) =
        (parse text).records.map (fun record => withReturns (record.source text)) ∧
      (parse (withReturns text)).folds = (parse text).folds ∧
      ∀ policy : Policy,
        CallGraph.ofText policy (withReturns text) = CallGraph.ofText policy text ∧
        (CallGraph.ofText policy (withReturns text)).cycles =
          (CallGraph.ofText policy text).cycles ∧
        ∀ limit : Int, (CallGraph.ofText policy (withReturns text)).violations limit =
          (CallGraph.ofText policy text).violations limit := by
  refine ⟨lines_withReturns plain, ?_, ?_, tokens_withReturns plain, sources_withReturns plain,
    folds_withReturns plain, fun policy => ?_⟩
  · rw [records_withReturns plain, List.forall₂_map_right_iff, List.forall₂_same]
    exact fun record member => elsewhere_withReturns member
  · have read : (parse text).definitions = (parse text).records.map Definition.ofRecord := rfl
    rw [definitions_withReturns plain, read, List.forall₂_map_right_iff, List.forall₂_map_left_iff,
      List.forall₂_same]
    exact fun record member => (elsewhere_withReturns member).definition
  · rw [graph_withReturns plain]
    exact ⟨rfl, rfl, fun _ => rfl⟩

/-- A label over two lines: its start moves on by one and its stop by two. -/
theorem label_withReturns_region :
    let text := "!region r\nmapkey a @MAPKEY_LABEL x\\\nmapkey(continued) y;%b;\n!endregion".toList
    '\r' ∉ text ∧
      (parse text).tokens.filter (·.kind = .label) =
        [⟨.label, "x y".toList, 33, 55, some "mapkey_1_a".toList⟩] ∧
      (parse (withReturns text)).tokens.filter (·.kind = .label) =
        [⟨.label, "x y".toList, 34, 57, some "mapkey_1_a".toList⟩] := by
  intro text
  have plain : '\r' ∉ text := by decide
  refine ⟨plain, by decide +kernel, ?_⟩
  rw [(parse_withReturns plain).2.2.2.1]
  decide +kernel

end Document

end Mapkeys
