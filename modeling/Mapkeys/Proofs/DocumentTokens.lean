import Mapkeys.Document
import Mapkeys.Proofs.TokenPlaces

/-!
# Tokens of a document

All tokens of a document are listed in strict order, and those of one kind never overlap. Tokens of
different lines, records and comments outside the records stand apart; inside a record, only the
contents of tags reach over several lines.
-/

namespace Mapkeys

open Token

/-! ## Tokens of records -/

theorem flatMap_pairwise {R : Token → Token → Prop} (of_apart : ∀ a b, Apart a b → R a b)
    {lines : List Line} (ordered : lines.Pairwise Line.Before) {tokens : Line → List Token}
    (within : ∀ line, ∀ token ∈ tokens line, token.Within line.start line.stop)
    (pairwise : ∀ line, (tokens line).Pairwise R) : (lines.flatMap tokens).Pairwise R := by
  refine List.pairwise_flatMap.mpr ⟨fun line _ => pairwise line, ordered.imp fun {line later} before => ?_⟩
  intro a first b second
  exact of_apart a b ((within line a first).apart (within later b second) (Nat.le_of_lt before.stop))

theorem separate_of_kinds {kinds others : List TokenKind} (disjoint : ∀ kind ∈ kinds, kind ∉ others)
    {a b : Token} (first : a.kind ∈ kinds) (second : b.kind ∈ others) : Separate a b :=
  separate_of_kind_ne fun same => disjoint a.kind first (same ▸ second)

namespace Record

section

variable {lines : List Line} {record : Record} (ordered : lines.Pairwise Line.Before)
  (member : record ∈ segment lines)

include ordered member

/-- The tokens of a record stand inside the record. -/
theorem tokens_within : ∀ token ∈ record.tokens, token.Within record.start record.stop := by
  intro token present
  have unsorted := (sort_perm _).subset present
  rcases List.mem_append.mp unsorted with others | call
  · rcases List.mem_append.mp others with own | tag
    · obtain ⟨layout, mine, found⟩ := List.mem_flatMap.mp own
      obtain ⟨line, here, rfl⟩ := List.mem_map.mp mine
      have inside := line_within ordered member here
      exact (Layout.lineTokens_within (Layout.ofLine_ordered line) token found).mono inside.1 inside.2
    · obtain ⟨reading, mine, found⟩ := List.mem_flatMap.mp tag
      exact TagReading.tokens_within (tagReading_within ordered member reading mine) token found
  · obtain ⟨layout, mine, found⟩ := List.mem_flatMap.mp call
    have inside := body_within ordered member mine
    exact (Layout.callTokens_within token found).mono inside.1 inside.2

/-- Tokens that each line gives by itself are apart in the whole record if they are on each line. -/
theorem layoutTokens_apart {tokens : Layout → List Token}
    (within : ∀ line, ∀ token ∈ tokens (Layout.ofLine line), token.Within line.start line.stop)
    (apart : ∀ line, (tokens (Layout.ofLine line)).Pairwise Apart) :
    (record.layouts.flatMap tokens).Pairwise Apart := by
  unfold layouts
  rw [List.flatMap_map]
  exact flatMap_pairwise (fun _ _ apart => apart) (lines_pairwise ordered member) within apart

theorem lineTokens_apart (id : Text) :
    (record.layouts.flatMap (Layout.lineTokens id)).Pairwise Apart := by
  refine layoutTokens_apart ordered member ?_ ?_
  · intro line
    exact Layout.lineTokens_within (Layout.ofLine_ordered line)
  · intro line
    exact Layout.lineTokens_apart (Layout.ofLine_ordered line)

theorem callTokens_apart (id : Text) :
    (record.layouts.flatMap (Layout.callTokens id)).Pairwise Apart := by
  refine layoutTokens_apart ordered member ?_ ?_
  · intro line token found
    have parts := Layout.ofLine_ordered line
    exact (Layout.callTokens_within token found).mono parts.body_start parts.body_stop
  · intro line
    exact Layout.callTokens_apart

theorem tagTokens_separate (id : Text) :
    (record.tagReadings.flatMap (TagReading.tokens id)).Pairwise Separate := by
  refine List.pairwise_flatMap.mpr ⟨fun reading _ => TagReading.tokens_separate, ?_⟩
  refine (tagReadings_pairwise ordered member).imp_of_mem fun {reading later} _ present before => ?_
  exact before.separate (tagReading_within ordered member later present)

/-- Tokens of a record that overlap are of different kinds. -/
theorem tokens_separate : record.tokens.Pairwise Separate := by
  refine ((sort_perm _).pairwise_iff Separate.symm).mpr ?_
  have own := (lineTokens_apart ordered member record.id).imp Apart.separate
  have tags := tagTokens_separate ordered member record.id
  have calls := (callTokens_apart ordered member record.id).imp Apart.separate
  refine List.pairwise_append.mpr ⟨List.pairwise_append.mpr ⟨own, tags, ?_⟩, calls, ?_⟩
  · intro a own b tag
    obtain ⟨layout, -, first⟩ := List.mem_flatMap.mp own
    obtain ⟨reading, -, second⟩ := List.mem_flatMap.mp tag
    exact separate_of_kinds (by decide) (Layout.lineTokens_kind a first)
      (TagReading.tokens_kind b second)
  · intro a others b call
    obtain ⟨layout, -, second⟩ := List.mem_flatMap.mp call
    rcases List.mem_append.mp others with own | tag
    · obtain ⟨other, -, first⟩ := List.mem_flatMap.mp own
      exact separate_of_kinds (by decide) (Layout.lineTokens_kind a first)
        (Layout.callTokens_kind b second)
    · obtain ⟨reading, -, first⟩ := List.mem_flatMap.mp tag
      exact separate_of_kinds (by decide) (TagReading.tokens_kind a first)
        (Layout.callTokens_kind b second)

end

end Record

/-! ## Tokens outside the records -/

namespace Marker

theorem mem_tokens {lines : List Line} {records : List Record} {token : Token}
    (member : token ∈ tokens lines records) :
    ∃ line ∈ lines, (∀ record ∈ records, line.index ∉ record.lines.map Line.index) ∧
      token ∈ lineTokens line := by
  obtain ⟨line, kept, found⟩ := List.mem_flatMap.mp member
  obtain ⟨present, free⟩ := List.mem_filter.mp kept
  refine ⟨line, present, fun record own claimed => ?_, found⟩
  simp only [Bool.not_eq_true', List.contains_eq_mem, decide_eq_false_iff_not] at free
  exact free (List.mem_flatMap.mpr ⟨record, own, claimed⟩)

theorem tokens_separate {lines : List Line} (ordered : lines.Pairwise Line.Before)
    (records : List Record) : (tokens lines records).Pairwise Separate :=
  flatMap_pairwise (fun _ _ => Apart.separate) (ordered.sublist List.filter_sublist)
    lineTokens_within lineTokens_separate

end Marker

/-! ## Tokens of the document -/

namespace Document

/-- The tokens of a document before they are sorted. -/
def unsorted (text : Text) : List Token :=
  (parse text).records.flatMap Record.tokens ++ Marker.tokens (parse text).lines (parse text).records

theorem parse_tokens (text : Text) : (parse text).tokens = sort (unsorted text) := rfl

/-- The tokens of a record and those of a comment outside it stand apart. -/
theorem record_marker_apart {text : Text} {record : Record} {a b : Token}
    (member : record ∈ (parse text).records) (own : a ∈ record.tokens)
    (outside : b ∈ Marker.tokens (parse text).lines (parse text).records) : Apart a b := by
  have ordered := Line.split_pairwise text
  obtain ⟨line, present, free, found⟩ := Marker.mem_tokens outside
  have inside := Record.tokens_within ordered member a own
  have beside := Marker.lineTokens_within line b found
  rcases Record.line_outside ordered member present (free record member) with before | after
  · exact (beside.apart inside (Nat.le_of_lt before)).symm
  · exact inside.apart beside (Nat.le_of_lt after)

theorem unsorted_separate (text : Text) : (unsorted text).Pairwise Separate := by
  have ordered := Line.split_pairwise text
  refine List.pairwise_append.mpr ⟨?_, Marker.tokens_separate ordered _, ?_⟩
  · refine List.pairwise_flatMap.mpr
      ⟨fun record member => Record.tokens_separate ordered member, ?_⟩
    refine (Record.segment_stop_lt_start ordered).imp_of_mem fun {record later} first second before => ?_
    intro a own b other
    exact Apart.separate ((Record.tokens_within ordered first a own).apart
      (Record.tokens_within ordered second b other) (Nat.le_of_lt before))
  · intro a own b outside
    obtain ⟨record, member, mine⟩ := List.mem_flatMap.mp own
    exact Apart.separate (record_marker_apart member mine outside)

theorem unsorted_nonempty (text : Text) :
    ∀ token ∈ unsorted text, token.start < token.stop := by
  intro token member
  rcases List.mem_append.mp member with own | outside
  · obtain ⟨record, present, mine⟩ := List.mem_flatMap.mp own
    exact (Record.tokens_within (Line.split_pairwise text) present token mine).start_lt
  · obtain ⟨line, -, -, found⟩ := Marker.mem_tokens outside
    exact (Marker.lineTokens_within line token found).start_lt

/-- The tokens of a document are those of its records and of the comments outside them, listed in
    the strict order of start, stop and kind; two different ones of one kind never overlap. -/
theorem tokens_strict_and_apart (text : Text) :
    (parse text).tokens.Perm ((parse text).records.flatMap Record.tokens ++
        Marker.tokens (parse text).lines (parse text).records) ∧
      (parse text).tokens.Pairwise Precedes ∧
      ∀ a ∈ (parse text).tokens, ∀ b ∈ (parse text).tokens,
        a ≠ b → a.kind = b.kind → a.stop ≤ b.start ∨ b.stop ≤ a.start := by
  rw [parse_tokens]
  have separate : (sort (unsorted text)).Pairwise Separate :=
    ((sort_perm _).pairwise_iff Separate.symm).mpr (unsorted_separate text)
  refine ⟨sort_perm _, sort_precedes (unsorted_separate text) (unsorted_nonempty text), ?_⟩
  exact fun a first b second differ => separate.forall first second differ

/-- A record with three label tags. -/
def labelled : Text := "mapkey a @MAPKEY_LABEL x @MAPKEY_LABEL y; @MAPKEY_LABEL z;".toList

/-- The second tag is part of the content of the first one, so two labels are left. -/
theorem labelled_labels_apart :
    ⟨.label, "x @MAPKEY_LABEL y".toList, 23, 40, some "mapkey_0_a".toList⟩ ∈
        (parse labelled).tokens ∧
      ⟨.label, ['z'], 56, 57, some "mapkey_0_a".toList⟩ ∈ (parse labelled).tokens ∧
      (40 ≤ 56 ∨ 57 ≤ 23) := by
  have first : ⟨.label, "x @MAPKEY_LABEL y".toList, 23, 40, some "mapkey_0_a".toList⟩ ∈
      (parse labelled).tokens := by decide +kernel
  have second : ⟨.label, ['z'], 56, 57, some "mapkey_0_a".toList⟩ ∈ (parse labelled).tokens := by
    decide +kernel
  exact ⟨first, second,
    (tokens_strict_and_apart labelled).2.2 _ first _ second (by decide +kernel) rfl⟩

end Document
end Mapkeys
