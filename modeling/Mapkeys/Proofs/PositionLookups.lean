import Mapkeys.Proofs.Innermost
import Mapkeys.Proofs.Sessions
import Mapkeys.Proofs.TokenSources

/-!
# Lookups at a position

A cursor touches at most one record, even where the end of a record counts as touched, because a line
break stands between a record and the next line. So what is found at a position belongs together: the
record, the definition that it gives, and the innermost token, which names the record or, if it stands
outside all records, none.
-/

namespace Mapkeys

/-! ## Records at a position -/

namespace Record

/-- A cursor at the position touches the record; just after its last character it still does. -/
def Touches (record : Record) (position : Int) : Prop :=
  record.start ≤ position ∧ position ≤ record.stop

theorem touches_iff {record : Record} {position : Int} :
    Span.touches ⟨record.start, record.stop⟩ position = true ↔ record.Touches position := by
  simp [Span.touches, Touches]

/-- Of records that follow each other a cursor touches at most one. -/
theorem eq_of_touches {records : List Record}
    (apart : records.Pairwise fun record later => record.stop < later.start) {position : Int}
    {i j : Nat} {one other : Record} (first : records[i]? = some one)
    (second : records[j]? = some other) (touched : one.Touches position)
    (touched' : other.Touches position) : i = j := by
  have before {i j : Nat} {one other : Record} (first : records[i]? = some one)
      (second : records[j]? = some other) (touched : one.Touches position)
      (touched' : other.Touches position) : ¬ i < j := by
    intro less
    obtain ⟨inside, rfl⟩ := List.getElem?_eq_some_iff.mp first
    obtain ⟨inside', rfl⟩ := List.getElem?_eq_some_iff.mp second
    have gap := List.pairwise_iff_getElem.mp apart i j inside inside' less
    have low := touched'.1
    have high := touched.2
    omega
  have le := before first second touched touched'
  have ge := before second first touched' touched
  omega

end Record

namespace Document

section

variable {text : Text}

theorem records_apart (text : Text) :
    (parse text).records.Pairwise fun record later => record.stop < later.start :=
  Record.segment_stop_lt_start (Line.split_pairwise text)

theorem recordAt_touches {document : Document} {position : Int} {record : Record}
    (found : document.recordAt position = some record) :
    record ∈ document.records ∧ record.Touches position := by
  unfold recordAt at found
  have touched := List.find?_some found
  exact ⟨List.mem_of_find?_eq_some found, Record.touches_iff.mp touched⟩

theorem recordAt_eq_none_iff {document : Document} {position : Int} :
    document.recordAt position = none ↔ ∀ record ∈ document.records, ¬ record.Touches position := by
  unfold recordAt
  simp [Record.touches_iff]

theorem recordAt_eq_some {position : Int} {record : Record}
    (member : record ∈ (parse text).records) (touched : record.Touches position) :
    (parse text).recordAt position = some record := by
  cases found : (parse text).recordAt position with
  | none => exact absurd touched (recordAt_eq_none_iff.mp found record member)
  | some other =>
    obtain ⟨member', touched'⟩ := recordAt_touches found
    obtain ⟨i, first⟩ := List.mem_iff_getElem?.mp member
    obtain ⟨j, second⟩ := List.mem_iff_getElem?.mp member'
    obtain rfl := Record.eq_of_touches (records_apart text) first second touched touched'
    rw [← second, first]

/-- The definition at a position is that of the record there. -/
theorem definitionAt_eq (text : Text) (position : Int) :
    (parse text).definitionAt position =
      ((parse text).recordAt position).map Definition.ofRecord := by
  have read : (parse text).definitions = (parse text).records.map Definition.ofRecord := rfl
  rw [definitionAt, read, List.find?_map]
  rfl

/-! ## Tokens at a position -/

theorem tokenAt_covers {document : Document} {position : Int} {token : Token}
    (found : document.tokenAt position = some token) :
    token ∈ document.tokens ∧ token.start ≤ position ∧ position < token.stop := by
  obtain ⟨before, after, split, -⟩ := Token.narrowest_first found
  have member : token ∈ document.tokens.filter (·.span.covers position) := by simp [split]
  obtain ⟨present, covers⟩ := List.mem_filter.mp member
  exact ⟨present, Token.covers_iff.mp covers⟩

/-- A token that names no record stands on a line that no record claims. -/
theorem outside_of_unowned {token : Token} (member : token ∈ (parse text).tokens)
    (unowned : token.record = none) {record : Record} (present : record ∈ (parse text).records) :
    token.stop < record.start ∨ record.stop < token.start := by
  rcases List.mem_append.mp ((Token.sort_perm _).subset member) with own | outside
  · obtain ⟨owner, -, mine⟩ := List.mem_flatMap.mp own
    rw [Record.tokens_owner token mine] at unowned
    cases unowned
  · obtain ⟨line, there, free, found⟩ := Marker.mem_tokens outside
    have within := Marker.lineTokens_within line token found
    have low := within.low_le
    have high := within.le_high
    rcases Record.line_outside (Line.split_pairwise text) present there (free record present) with
      before | after
    · exact .inl (by omega)
    · exact .inr (by omega)

/-- The record at a position is the one that the token there names. -/
theorem recordAt_id_of_tokenAt {position : Int} {token : Token}
    (found : (parse text).tokenAt position = some token) :
    ((parse text).recordAt position).map Record.id = token.record := by
  obtain ⟨member, low, high⟩ := tokenAt_covers found
  cases named : token.record with
  | some id =>
    obtain ⟨record, present, same, starts, stops⟩ := exists_owner member named
    have touched : record.Touches position := ⟨by omega, by omega⟩
    rw [recordAt_eq_some present touched, Option.map_some, same]
  | none =>
    have free : (parse text).recordAt position = none := by
      refine recordAt_eq_none_iff.mpr fun record present touched => ?_
      obtain ⟨starts, stops⟩ := touched
      rcases outside_of_unowned member named present with before | after
      · omega
      · omega
    rw [free, Option.map_none]

end

/-! ## The three lookups -/

/-- What is found at a position belongs together: `place` is where the one record that a cursor
    touches stands among the records, if there is one. -/
structure Located (document : Document) (position : Int) (token : Option Token)
    (record : Option Record) (definition : Option Definition) (place : Option Nat) : Prop where
  touched : ∀ k, place = some k ↔ ∃ one, document.records[k]? = some one ∧ one.Touches position
  recordThere : record = place.bind (document.records[·]?)
  definitionThere : definition = place.bind (document.definitions[·]?)
  together : record = none ↔ definition = none
  owner : ∀ found, token = some found → record.map Record.id = found.record

theorem exists_located (text : Text) (position : Int) :
    ∃ place, Located (parse text) position ((parse text).tokenAt position)
      ((parse text).recordAt position) ((parse text).definitionAt position) place := by
  have read : (parse text).definitions = (parse text).records.map Definition.ofRecord := rfl
  have together : (parse text).recordAt position = none ↔
      (parse text).definitionAt position = none := by
    rw [definitionAt_eq, Option.map_eq_none_iff]
  have owner (found : Token) (token : (parse text).tokenAt position = some found) :=
    recordAt_id_of_tokenAt token
  cases found : (parse text).recordAt position with
  | none =>
    refine ⟨none, ?_, rfl, ?_, found ▸ together, found ▸ owner⟩
    · intro k
      constructor
      · simp
      · rintro ⟨one, there, touched⟩
        exact absurd touched (recordAt_eq_none_iff.mp found one (List.mem_of_getElem? there))
    · rw [definitionAt_eq, found]
      rfl
  | some record =>
    obtain ⟨member, touched⟩ := recordAt_touches found
    obtain ⟨place, there⟩ := List.mem_iff_getElem?.mp member
    refine ⟨some place, ?_, there.symm, ?_, found ▸ together, found ▸ owner⟩
    · intro k
      constructor
      · rintro ⟨rfl⟩
        exact ⟨record, there, touched⟩
      · rintro ⟨one, there', touched'⟩
        rw [Record.eq_of_touches (records_apart text) there there' touched touched']
    · rw [definitionAt_eq, found, Option.bind_some, read, List.getElem?_map, there]

end Document

namespace Session

/-- The questions about a position of a text. -/
def lookups (text : Text) (position : Int) : List Query :=
  [.tokenAt text position, .recordAt text position, .definitionAt text position]

theorem lookup_outside_iff {config : Config} {files : FileTree} {text : Text} {position : Int} :
    ∀ query ∈ lookups text position,
      query.answer config files = .error (.outside position text.length) ↔
        position < 0 ∨ text.length < position := by
  have located_iff (answer : Answer) :
      located text position answer = .error (.outside position text.length) ↔
        position < 0 ∨ text.length < position := by
    unfold located
    split_ifs with inside
    · simp only [false_iff]
      omega
    · simp only [true_iff]
      omega
  intro query member
  simp only [lookups, List.mem_cons, List.not_mem_nil, or_false] at member
  rcases member with rfl | rfl | rfl
  · exact located_iff _
  · exact located_iff _
  · exact located_iff _

end Session

namespace Document

/-- No two records of a document have the same id. Whatever a session has been asked before, each of
    the three lookups fails exactly for positions outside the text. At any other position a cursor
    touches at most one record; that one is found, with its definition, and the token that is found
    names it or, if there is none, no record. -/
theorem lookups_agree (text : Text) :
    ((parse text).records.map Record.id).Nodup ∧
      ∀ (config : Config) (asked : List (FileTree × Session.Query)) (files : FileTree)
        (position : Int),
        let answer (query : Session.Query) :=
          ((Session.ask files query).run (Session.after config asked)).1
        (∀ query ∈ Session.lookups text position,
          answer query = .error (.outside position text.length) ↔
            position < 0 ∨ text.length < position) ∧
        (0 ≤ position ∧ position ≤ text.length →
          ∃ token record definition place,
            answer (.tokenAt text position) = .ok (.token token) ∧
            answer (.recordAt text position) = .ok (.record record) ∧
            answer (.definitionAt text position) = .ok (.definition definition) ∧
            Located (parse text) position token record definition place) := by
  refine ⟨Record.segment_ids (Line.split_pairwise text), fun config asked files position => ?_⟩
  dsimp only
  simp only [Session.ask_after]
  refine ⟨Session.lookup_outside_iff, fun inside => ?_⟩
  obtain ⟨place, located⟩ := exists_located text position
  refine ⟨_, _, _, place, ?_, ?_, ?_, located⟩
  · exact if_pos inside
  · exact if_pos inside
  · exact if_pos inside

/-- A comment right before a record. -/
def signed : Text := "! x\nmapkey a".toList

/-- At the keyword the record is found that the keyword names. -/
theorem signed_located :
    let answer (query : Session.Query) :=
      ((Session.ask ⟨[], []⟩ query).run (Session.after Config.default [])).1
    (0 ≤ (5 : Int) ∧ (5 : Int) ≤ signed.length) ∧
      answer (.tokenAt signed 5) =
        .ok (.token (some ⟨.keyword, "mapkey".toList, 4, 10, some "mapkey_1_a".toList⟩)) ∧
      ∃ record, answer (.recordAt signed 5) = .ok (.record (some record)) ∧
        record.id = "mapkey_1_a".toList := by
  intro answer
  have inside : 0 ≤ (5 : Int) ∧ (5 : Int) ≤ signed.length := by decide
  have keyword : answer (.tokenAt signed 5) =
      .ok (.token (some ⟨.keyword, "mapkey".toList, 4, 10, some "mapkey_1_a".toList⟩)) := by
    decide +kernel
  obtain ⟨token, record, definition, place, first, second, -, located⟩ :=
    ((lookups_agree signed).2 Config.default [] ⟨[], []⟩ 5).2 inside
  have same := keyword.symm.trans first
  rw [Except.ok.injEq, Session.Answer.token.injEq] at same
  obtain ⟨found, rfl, named⟩ := Option.map_eq_some_iff.mp (located.owner _ same.symm)
  exact ⟨inside, keyword, found, second, named⟩

end Document
end Mapkeys
