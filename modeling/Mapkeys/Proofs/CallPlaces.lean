import Mapkeys.Proofs.Semicolons

/-!
# Where calls stand

A definition calls what stands between a percent sign and a semicolon in the bodies of its record, if
that is a name: every such place counts, once, in the order of the document
(`calledNames_exact_in_order`). The semicolon ends a statement as well.
-/

namespace Mapkeys

open Text Token

namespace Text

/-- A call is reported exactly where a name stands between a percent sign and a semicolon. -/
theorem mem_calls {column : Nat} {t : Text} {call : Nat × Text} :
    call ∈ calls column t ↔ ∃ before rest, t = before ++ '%' :: (call.2 ++ ';' :: rest) ∧
      call.1 = column + before.length + 1 ∧ call.2 ≠ [] ∧ ∀ c ∈ call.2, isCallChar c = true := by
  refine ⟨calls_spelled call, ?_⟩
  rintro ⟨before, rest, spelled, place, some, letters⟩
  induction before generalizing column t with
  | nil =>
    -- the name is as long as it can be, since the semicolon is no letter of it
    have name : (call.2 ++ ';' :: rest).takeWhile isCallChar = call.2 := by
      have stops : isCallChar ';' = false := by decide
      rw [List.takeWhile_append_of_pos letters, List.takeWhile_cons_of_neg (by simp [stops]),
        List.append_nil]
    have here : call = (column + 1, call.2) := Prod.ext place rfl
    rw [spelled, List.nil_append, calls, name, List.drop_left, if_pos ⟨rfl, some, rfl⟩, here]
    exact List.mem_cons_self
  | cons d others ih =>
    have later : call ∈ calls (column + 1) (others ++ '%' :: (call.2 ++ ';' :: rest)) := by
      refine ih rfl ?_
      rw [place, List.length_cons]
      omega
    rw [spelled, List.cons_append, calls]
    split_ifs
    · exact List.mem_cons_of_mem _ later
    · exact later

theorem eq_between {t : Text} {first last : Nat} {c d : Char} (begins : t[first]? = some c)
    (ends : t[last]? = some d) (order : first < last) :
    t = t.take first ++ c :: (slice t (first + 1) last ++ d :: t.drop (last + 1)) := by
  obtain ⟨inside, here⟩ := List.getElem?_eq_some_iff.mp begins
  obtain ⟨inside', there⟩ := List.getElem?_eq_some_iff.mp ends
  have from_last : t.drop last = d :: t.drop (last + 1) := by
    rw [List.drop_eq_getElem_cons inside', there]
  have from_first : t.drop (first + 1) = slice t (first + 1) last ++ t.drop last := by
    have whole := List.take_append_drop (last - (first + 1)) (t.drop (first + 1))
    rw [List.drop_drop, Nat.add_sub_cancel' (by omega)] at whole
    exact whole.symm
  conv_lhs => rw [← List.take_append_drop first t, List.drop_eq_getElem_cons inside, here,
    from_first, from_last]

theorem slice_between (before name rest : Text) (c : Char) :
    slice (before ++ c :: (name ++ rest)) (before.length + 1) (before.length + 1 + name.length) =
      name := by
  have split : before ++ c :: (name ++ rest) = (before ++ [c]) ++ (name ++ rest) := by simp
  have length : before.length + 1 = (before ++ [c]).length := by simp
  rw [split, length, slice, List.drop_left, Nat.add_sub_cancel_left, List.take_left]

/-- A call reaches from one column to another exactly if these are the columns of a percent sign and a
    semicolon with a name between them. -/
theorem exists_calls_iff {t : Text} {first last : Nat} :
    (∃ call ∈ calls 0 t, call.1 = first + 1 ∧ call.1 + call.2.length = last) ↔
      t[first]? = some '%' ∧ t[last]? = some ';' ∧ first + 1 < last ∧
        ∀ c ∈ slice t (first + 1) last, isCallChar c = true := by
  constructor
  · rintro ⟨⟨column, name⟩, found, start, rfl⟩
    obtain ⟨before, rest, rfl, place, some, letters⟩ := mem_calls.mp found
    dsimp only at start place some letters ⊢
    obtain rfl : first = before.length := by omega
    have positive := List.length_pos_iff.mpr some
    refine ⟨by simp, ?_, by omega, ?_⟩
    · rw [List.getElem?_append_right (by omega), show column + name.length - before.length =
        name.length + 1 by omega]
      simp
    · rw [start, slice_between]
      exact letters
  · rintro ⟨begins, ends, order, letters⟩
    have inside := (List.getElem?_eq_some_iff.mp ends).1
    have length : (slice t (first + 1) last).length = last - (first + 1) := by
      rw [slice, List.length_take, List.length_drop]
      omega
    refine ⟨(first + 1, slice t (first + 1) last), mem_calls.mpr ?_, rfl, by dsimp only; omega⟩
    refine ⟨t.take first, t.drop (last + 1), eq_between begins ends (by omega), ?_, ?_, letters⟩
    · rw [List.length_take, Nat.min_eq_left (by omega)]
      omega
    · exact List.length_pos_iff.mp (by dsimp only; omega)

end Text

/-! ## Calls of a line -/

namespace Layout

/-- The calls among the tokens of a line. -/
theorem exists_call_iff {layout : Layout} {id : Text} {percent semicolon : Nat} :
    (∃ token ∈ layout.callTokens id, token.start = percent + 1 ∧ token.stop = semicolon) ↔
      layout.holdsStatements = true ∧ ∃ first last, percent = layout.body.start + first ∧
        semicolon = layout.body.start + last ∧
        ∃ call ∈ calls 0 layout.body.text, call.1 = first + 1 ∧ call.1 + call.2.length = last := by
  unfold callTokens
  split_ifs with holds
  · constructor
    · rintro ⟨token, member, start, stop⟩
      obtain ⟨⟨column, name⟩, found, rfl⟩ := List.mem_map.mp member
      have bounds := calls_bounds _ found
      simp only [ofPiece_start, ofPiece_stop] at start stop bounds
      refine ⟨holds, column - 1, column + name.length, by omega, by omega, _, found, ?_, rfl⟩
      dsimp only
      omega
    · rintro ⟨-, first, last, rfl, rfl, call, found, start, stop⟩
      refine ⟨_, List.mem_map_of_mem found, ?_, ?_⟩
      · simp only [ofPiece_start]
        omega
      · simp only [ofPiece_stop]
        omega
  · simp [holds]

end Layout

/-! ## Calls of a document -/

/-- A name between a percent sign and a semicolon in the body of a line that holds statements. -/
structure Record.Calls (text : Text) (record : Record) (line : Line) (percent semicolon : Nat) :
    Prop where
  own : line ∈ record.lines
  holds : (Layout.ofLine line).holdsStatements = true
  low : (Layout.ofLine line).body.start ≤ percent
  high : semicolon < (Layout.ofLine line).body.stop
  begins : text[percent]? = some '%'
  ends : text[semicolon]? = some ';'
  order : percent + 1 < semicolon
  letters : ∀ c ∈ slice text (percent + 1) semicolon,
    isBlank c = false ∧ c ≠ ';' ∧ c ≠ '%' ∧ c ≠ '\\'

namespace Line

variable {text : Text} {line : Line} (present : line ∈ split text)

include present

/-- The body of a line reads as the document does there. -/
theorem body_reads {column : Nat} {c : Char}
    (inside : column < (Layout.ofLine line).body.text.length) :
    (Layout.ofLine line).body.text[column]? = some c ↔
      text[(Layout.ofLine line).body.start + column]? = some c := by
  have shown := @Piece.PartOf.shows_iff _ _ (body_partOf present)
    ((Layout.ofLine line).body.start + column) c
  rw [Piece.shows_text] at shown
  constructor
  · intro reads
    exact (shown.mp ⟨column, rfl, reads⟩).1
  · intro reads
    obtain ⟨place, same, there⟩ := shown.mpr ⟨reads, by omega, by unfold Piece.stop; omega⟩
    rwa [show column = place by omega]

end Line

namespace Record

section

variable {text : Text} {record : Record} (member : record ∈ (Document.parse text).records)

include member

/-- The calls among the tokens of a record. -/
theorem exists_call_iff {percent semicolon : Nat} :
    (∃ token ∈ record.layouts.flatMap (Layout.callTokens record.id),
        token.start = percent + 1 ∧ token.stop = semicolon) ↔
      ∃ line, record.Calls text line percent semicolon := by
  have present {line : Line} (own : line ∈ record.lines) := mem_split member own
  constructor
  · rintro ⟨token, found, places⟩
    obtain ⟨layout, mine, called⟩ := List.mem_flatMap.mp found
    obtain ⟨line, own, rfl⟩ := List.mem_map.mp mine
    obtain ⟨holds, first, last, rfl, rfl, call⟩ := Layout.exists_call_iff.mp ⟨token, called, places⟩
    obtain ⟨begins, ends, order, letters⟩ := exists_calls_iff.mp call
    have inside := (List.getElem?_eq_some_iff.mp ends).1
    have part := Line.body_partOf (present own)
    refine ⟨line, own, holds, by omega, by unfold Piece.stop; omega,
      (Line.body_reads (present own) (by omega)).mp begins,
      (Line.body_reads (present own) inside).mp ends, by omega, fun c letter => ?_⟩
    rw [Nat.add_assoc, part.slice_inner (by omega) (by omega)] at letter
    exact isCallChar_iff.mp (letters c letter)
  · rintro ⟨line, calls⟩
    have part := Line.body_partOf (present calls.own)
    have high := calls.high
    have order := calls.order
    obtain ⟨first, rfl⟩ := Nat.exists_eq_add_of_le calls.low
    obtain ⟨last, rfl⟩ : ∃ last, semicolon = (Layout.ofLine line).body.start + last :=
      Nat.exists_eq_add_of_le (by omega)
    unfold Piece.stop at high
    have call : ∃ call ∈ Text.calls 0 (Layout.ofLine line).body.text,
        call.1 = first + 1 ∧ call.1 + call.2.length = last := by
      refine exists_calls_iff.mpr ⟨(Line.body_reads (present calls.own) (by omega)).mpr calls.begins,
        (Line.body_reads (present calls.own) (by omega)).mpr calls.ends, by omega, fun c letter => ?_⟩
      rw [← part.slice_inner (by omega) (by omega), ← Nat.add_assoc] at letter
      exact isCallChar_iff.mpr (calls.letters c letter)
    obtain ⟨token, called, places⟩ :=
      Layout.exists_call_iff.mpr ⟨calls.holds, first, last, rfl, rfl, call⟩
    exact ⟨token, List.mem_flatMap.mpr ⟨_, List.mem_map_of_mem calls.own, called⟩, places⟩

/-- A call among the tokens of a record reads as the document does there. -/
theorem call_slice {token : Token}
    (found : token ∈ record.layouts.flatMap (Layout.callTokens record.id)) :
    slice text token.start token.stop = token.value := by
  obtain ⟨layout, mine, called⟩ := List.mem_flatMap.mp found
  obtain ⟨line, own, rfl⟩ := List.mem_map.mp mine
  have present := mem_split member own
  exact ((Layout.callTokens_quote token called).mono (Line.body_partOf present)).slice_eq

theorem callTokens_start_lt :
    (record.layouts.flatMap (Layout.callTokens record.id)).Pairwise
      fun token later => token.start < later.start := by
  have ordered := Line.split_pairwise text
  refine ((callTokens_precedes ordered member record.id).and
    (callTokens_apart ordered member record.id)).imp_of_mem ?_
  rintro token later found found' ⟨before, apart⟩
  obtain ⟨layout, -, called⟩ := List.mem_flatMap.mp found
  obtain ⟨layout', -, called'⟩ := List.mem_flatMap.mp found'
  have some := (Layout.callTokens_within token called).start_lt
  have some' := (Layout.callTokens_within later called').start_lt
  unfold Precedes at before
  unfold Apart at apart
  omega

/-- The semicolon after a called name ends a statement. -/
theorem Calls.terminator {line : Line} {percent semicolon : Nat}
    (calls : record.Calls text line percent semicolon) :
    ∃ token ∈ (Document.parse text).tokens, token.kind = .terminator ∧ token.start = semicolon := by
  obtain ⟨token, found, -, stop⟩ := (exists_call_iff member).mpr ⟨line, calls⟩
  obtain ⟨layout, mine, called⟩ := List.mem_flatMap.mp found
  obtain ⟨holder, own, rfl⟩ := List.mem_map.mp mine
  obtain ⟨before, name, rest, spelled⟩ := Layout.calls_of_mem called
  have start := spelled.start
  have length := spelled.stop
  refine Document.exists_terminator_iff.mpr ⟨record, member, exists_terminator_iff.mpr ?_⟩
  exact ⟨holder, own, spelled.holds, _, spelled.terminator, by omega⟩

omit member in
/-- Of two calls the one that begins first ends before the other one begins. -/
theorem Calls.lt_of_lt {line line' : Line} {percent semicolon percent' semicolon' : Nat}
    (calls : record.Calls text line percent semicolon)
    (calls' : record.Calls text line' percent' semicolon') (before : percent < percent') :
    semicolon < percent' := by
  by_contra inside
  have order := calls.order
  rcases Nat.lt_or_eq_of_le (Nat.le_of_not_lt inside) with within | same
  · -- a percent sign would stand in the first name
    have there : '%' ∈ slice text (percent + 1) semicolon := by
      refine List.mem_of_getElem? (i := percent' - (percent + 1)) ?_
      rw [slice, List.getElem?_take_of_lt (by omega), List.getElem?_drop,
        Nat.add_sub_cancel' (by omega)]
      exact calls'.begins
    exact absurd rfl (calls.letters _ there).2.2.1
  · have both := calls'.begins
    rw [same, calls.ends] at both
    cases both

end

/-- Where the calls of a record stand: the percent sign and the semicolon of each. -/
def callPlaces (record : Record) : List (Nat × Nat) :=
  (record.layouts.flatMap (Layout.callTokens record.id)).map fun token => (token.start - 1, token.stop)

theorem call_start {record : Record} {token : Token}
    (found : token ∈ record.layouts.flatMap (Layout.callTokens record.id)) :
    token.start - 1 + 1 = token.start := by
  obtain ⟨layout, -, called⟩ := List.mem_flatMap.mp found
  obtain ⟨before, name, rest, calls⟩ := Layout.calls_of_mem called
  have start := calls.start
  omega

section

variable {text : Text} {record : Record} (member : record ∈ (Document.parse text).records)

include member

theorem mem_callPlaces {percent semicolon : Nat} :
    (percent, semicolon) ∈ record.callPlaces ↔
      ∃ line, record.Calls text line percent semicolon := by
  rw [← exists_call_iff member, callPlaces, List.mem_map]
  refine exists_congr fun token => and_congr_right fun found => ?_
  have start := call_start found
  rw [Prod.mk.injEq]
  omega

theorem callPlaces_pairwise : record.callPlaces.Pairwise fun place later => place.2 < later.1 := by
  refine List.pairwise_map.mpr ((callTokens_start_lt member).imp_of_mem ?_)
  intro token later found found' before
  obtain ⟨line, calls⟩ := (mem_callPlaces member).mp (List.mem_map_of_mem found)
  obtain ⟨line', calls'⟩ := (mem_callPlaces member).mp (List.mem_map_of_mem found')
  have start := call_start found
  have start' := call_start found'
  exact calls.lt_of_lt calls' (by omega)

/-- The called names stand in the document where the calls do. -/
theorem calledNames_eq_slices : (Definition.ofRecord record).calledNames =
    record.callPlaces.map fun place => slice text (place.1 + 1) place.2 := by
  have tokens : (Definition.ofRecord record).callTokens =
      record.layouts.flatMap (Layout.callTokens record.id) :=
    filter_calls (Line.split_pairwise text) member
  rw [Definition.calledNames, tokens, callPlaces, List.map_map]
  refine List.map_congr_left fun token found => ?_
  rw [Function.comp_apply, call_start found, call_slice member found]

end

end Record

namespace Document

/-- A definition calls, in the order of the document and each once, the names that stand between a
    percent sign and a semicolon in the bodies of its record; each such semicolon ends a statement. -/
theorem calledNames_exact_in_order (text : Text) :
    (parse text).definitions.map Definition.record = (parse text).records ∧
    ∀ definition ∈ (parse text).definitions, ∃ places : List (Nat × Nat),
      definition.calledNames = places.map (fun place => slice text (place.1 + 1) place.2) ∧
      places.Pairwise (fun place later => place.2 < later.1) ∧
      ∀ percent semicolon,
        ((percent, semicolon) ∈ places ↔
          ∃ line, definition.record.Calls text line percent semicolon) ∧
        ((percent, semicolon) ∈ places →
          ∃ token ∈ (parse text).tokens, token.kind = .terminator ∧ token.start = semicolon) := by
  constructor
  · simp [parse, Definition.ofRecord, Function.comp_def]
  · intro definition defined
    obtain ⟨record, member, rfl⟩ := List.mem_map.mp defined
    refine ⟨record.callPlaces, Record.calledNames_eq_slices member,
      Record.callPlaces_pairwise member, fun percent semicolon => ?_⟩
    refine ⟨Record.mem_callPlaces member, fun placed => ?_⟩
    obtain ⟨line, calls⟩ := (Record.mem_callPlaces member).mp placed
    exact calls.terminator member

/-- A record with percent signs that call nothing: before a blank, before a backslash, before another
    percent sign and in a remark. -/
def percents : Text :=
  "mapkey a %b %c; %\\; %%d;\\\nmapkey(continued) !%x;\\\nmapkey(continued) %c;".toList

/-- The record calls three times, at last on its third line, where the semicolon ends a statement. -/
theorem percents_calls :
    ∃ definition ∈ (parse percents).definitions,
      definition.calledNames = ["c".toList, "d".toList, "c".toList] ∧
      ∃ places : List (Nat × Nat), (68, 70) ∈ places ∧
        definition.calledNames = places.map (fun place => slice percents (place.1 + 1) place.2) ∧
        ∃ token ∈ (parse percents).tokens, token.kind = .terminator ∧ token.start = 70 := by
  obtain ⟨definition, member, called, line, own, holds, low, high⟩ :
      ∃ definition ∈ (parse percents).definitions,
        definition.calledNames = ["c".toList, "d".toList, "c".toList] ∧
        ∃ line ∈ definition.record.lines, (Layout.ofLine line).holdsStatements = true ∧
          (Layout.ofLine line).body.start ≤ 68 ∧ 70 < (Layout.ofLine line).body.stop := by
    decide +kernel
  have name : slice percents (68 + 1) 70 = ['c'] := by decide
  have calls : definition.record.Calls percents line 68 70 := by
    refine ⟨own, holds, low, high, rfl, rfl, by decide, fun c letter => ?_⟩
    rw [name, List.mem_singleton] at letter
    subst letter
    decide
  obtain ⟨places, names, -, placed⟩ := (calledNames_exact_in_order percents).2 definition member
  have there := (placed 68 70).1.mpr ⟨line, calls⟩
  exact ⟨definition, member, called, places, there, names, (placed 68 70).2 there⟩

end Document
end Mapkeys
