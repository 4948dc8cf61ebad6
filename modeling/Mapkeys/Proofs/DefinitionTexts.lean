import Mapkeys.Definition
import Mapkeys.Proofs.DocumentTokens

/-!
# What a definition says

The names that a definition calls and its texts, read off the layouts of its record: the calls line
after line, and for each tag the content of the first place where it introduces anything. Which tags
stand inside the contents of others plays no part, as a first content has none before it.
-/

namespace Mapkeys

open Text Token

/-! ## The gist of a definition -/

/-- What a definition says, wherever its record stands. -/
structure Gist where
  name : Text
  description : Option Text
  label : Option Text
  system : Option Text
  calledNames : List Text
  terminated : Bool
  deriving Repr, DecidableEq

/-- What a definition says. -/
def Definition.gist (definition : Definition) : Gist :=
  ⟨definition.name, definition.description?, definition.label?, definition.system?,
    definition.calledNames, definition.record.terminated⟩

theorem Definition.gist_congr {record other : Record} (name : other.name = record.name)
    (texts : ∀ tag : Tag, (first? tag.contentKind other.tokens).map Token.value =
      (first? tag.contentKind record.tokens).map Token.value)
    (calls : (ofRecord other).calledNames = (ofRecord record).calledNames)
    (terminated : other.terminated = record.terminated) :
    (ofRecord other).gist = (ofRecord record).gist := by
  have description : (ofRecord other).description? = (ofRecord record).description? :=
    texts .description
  have label : (ofRecord other).label? = (ofRecord record).label? := texts .label
  have system : (ofRecord other).system? = (ofRecord record).system? := texts .system
  have same : (ofRecord other).name = (ofRecord record).name := name
  have ends : (ofRecord other).record.terminated = (ofRecord record).record.terminated := terminated
  rw [gist, gist, same, description, label, system, calls, ends]

/-- Tokens of the same kinds with the same values say the same. -/
theorem Definition.gist_of_tokens {record other : Record} {move : Token → Token}
    (tokens : other.tokens = record.tokens.map move) (kind : ∀ token, (move token).kind = token.kind)
    (value : ∀ token, (move token).value = token.value) (name : other.name = record.name)
    (terminated : other.terminated = record.terminated) :
    (ofRecord other).gist = (ofRecord record).gist := by
  have values : Token.value ∘ move = Token.value := funext value
  refine gist_congr name (fun tag => ?_) ?_ terminated
  · unfold first?
    rw [tokens, List.find?_map, Option.map_map, values]
    simp only [Function.comp_def, kind]
  · unfold calledNames ofRecord
    dsimp only
    rw [tokens, List.filter_map, List.map_map, values]
    simp only [Function.comp_def, kind]

/-! ## Tokens of one kind -/

theorem filter_eq_nil_of_kinds {tokens : List Token} {kinds : List TokenKind} {kind : TokenKind}
    (of_kinds : ∀ token ∈ tokens, token.kind ∈ kinds) (foreign : kind ∉ kinds) :
    tokens.filter (·.kind = kind) = [] := by
  refine List.filter_eq_nil_iff.mpr fun token present same => ?_
  rw [decide_eq_true_eq] at same
  exact foreign (same ▸ of_kinds token present)

theorem filter_flatMap_eq_nil {α : Type} {parts : List α} {tokens : α → List Token}
    {kinds : List TokenKind} {kind : TokenKind}
    (of_kinds : ∀ part ∈ parts, ∀ token ∈ tokens part, token.kind ∈ kinds)
    (foreign : kind ∉ kinds) : (parts.flatMap tokens).filter (·.kind = kind) = [] := by
  refine filter_eq_nil_of_kinds (fun token present => ?_) foreign
  obtain ⟨part, own, found⟩ := List.mem_flatMap.mp present
  exact of_kinds part own token found

/-! ## Called names -/

/-- The names called in a text. -/
def Text.calledNames (t : Text) : List Text := (calls 0 t).map Prod.snd

/-- The names called on a line. -/
def Layout.calledNames (layout : Layout) : List Text :=
  if layout.holdsStatements then Text.calledNames layout.body.text else []

theorem Layout.callTokens_value (id : Text) (layout : Layout) :
    (layout.callTokens id).map Token.value = layout.calledNames := by
  unfold callTokens calledNames
  split_ifs
  · rw [List.map_map]
    rfl
  · rfl

theorem Layout.callTokens_precedes (id : Text) (layout : Layout) :
    (layout.callTokens id).Pairwise Precedes := by
  unfold callTokens
  split_ifs
  · refine List.pairwise_map.mpr ((calls_pairwise 0 _).imp_of_mem fun {call later} first _ before => ?_)
    have bounds := calls_bounds call first
    refine .inl ?_
    simp only [ofPiece_start]
    omega
  · exact .nil

/-! ## Contents of tags -/

namespace TagReading

/-- The token for what a tag introduces. -/
def contentTokens (record : Text) (reading : TagReading) : List Token :=
  reading.content.toList.map fun content =>
    ⟨reading.tag.contentKind, content.value, content.start, content.stop, some record⟩

/-- What a reading says for a tag. -/
def text? (tag : Tag) (reading : TagReading) : Option Text :=
  if reading.tag = tag then reading.content.map Statement.value else none

theorem tokens_eq (record : Text) (reading : TagReading) :
    reading.tokens record =
      .ofPiece .tag reading.tag.marker reading.offset (some record) ::
        reading.contentTokens record := by
  unfold tokens contentTokens
  cases reading.content with
  | none => rfl
  | some content => rfl

theorem filter_tokens (record : Text) (tag : Tag) (reading : TagReading) :
    (reading.tokens record).filter (·.kind = tag.contentKind) =
      if reading.tag = tag then reading.contentTokens record else [] := by
  have marker := Tag.contentKind_ne_tag tag
  rw [tokens_eq, List.filter_cons_of_neg (by simp [marker.symm])]
  unfold contentTokens
  split_ifs with same
  · rw [List.filter_eq_self]
    intro token member
    obtain ⟨content, -, rfl⟩ := List.mem_map.mp member
    simp [same]
  · rw [List.filter_eq_nil_iff]
    intro token member
    obtain ⟨content, -, rfl⟩ := List.mem_map.mp member
    simpa using fun kinds => same (Tag.contentKind_injective kinds)

theorem head_contentTokens (record : Text) (tag : Tag) (reading : TagReading) :
    ((if reading.tag = tag then reading.contentTokens record else []).head?).map Token.value =
      reading.text? tag := by
  unfold contentTokens text?
  split_ifs
  · cases reading.content with
    | none => rfl
    | some content => rfl
  · rfl

end TagReading

/-- Until a tag has introduced something, none of its places is passed over. -/
theorem TagPlace.findSome_read {layouts : List Layout} {covered : Tag → Nat} {tag : Tag}
    (places : List TagPlace) (none : covered tag = 0) :
    (read layouts covered places).findSome? (TagReading.text? tag) =
      places.findSome? fun place => (place.reading layouts).text? tag := by
  induction places generalizing covered with
  | nil => rfl
  | cons place rest ih =>
    rw [read_cons, List.findSome?_cons]
    by_cases inside : place.offset < covered place.tag
    · have other : place.tag ≠ tag := by
        rintro rfl
        omega
      have silent : (place.reading layouts).text? tag = .none := if_neg other
      rw [if_pos inside, silent]
      exact ih none
    · rw [if_neg inside, List.findSome?_cons]
      cases said : (place.reading layouts).text? tag with
      | some text => rfl
      | none =>
        refine ih ?_
        unfold TagReading.text? at said
        unfold cover
        cases content : (place.reading layouts).content with
        | none => exact none
        | some statement =>
          by_cases same : (place.reading layouts).tag = tag
          · simp [same, content] at said
          · simpa [Ne.symm same] using none

namespace Record

section

variable {lines : List Line} {record : Record} (ordered : lines.Pairwise Line.Before)
  (member : record ∈ segment lines)

include ordered member

theorem callTokens_precedes (id : Text) :
    (record.layouts.flatMap (Layout.callTokens id)).Pairwise Precedes := by
  refine List.pairwise_flatMap.mpr ⟨fun layout _ => layout.callTokens_precedes id, ?_⟩
  refine (layouts_inLine ordered member).imp fun {layout later} before a first b second => ?_
  have inside := Layout.callTokens_within a first
  have beyond := Layout.callTokens_within b second
  have some := inside.start_lt
  have stop := inside.le_high
  have start := beyond.low_le
  exact .inl (by omega)

theorem filter_calls : record.tokens.filter (·.kind = .nestedCall) =
    record.layouts.flatMap (Layout.callTokens record.id) := by
  refine filter_sort ?_ (callTokens_precedes ordered member record.id)
  have own : (record.layouts.flatMap (Layout.lineTokens record.id)).filter
      (·.kind = .nestedCall) = [] :=
    filter_flatMap_eq_nil (fun _ _ => Layout.lineTokens_kind) (by decide)
  have tags : (record.tagReadings.flatMap (TagReading.tokens record.id)).filter
      (·.kind = .nestedCall) = [] :=
    filter_flatMap_eq_nil (fun _ _ => TagReading.tokens_kind) (by decide)
  rw [List.filter_append, List.filter_append, own, tags, List.nil_append, List.nil_append]
  refine List.filter_eq_self.mpr fun token present => ?_
  obtain ⟨layout, -, found⟩ := List.mem_flatMap.mp present
  simpa using Layout.callTokens_kind token found

/-- The names that a definition calls, line after line. -/
theorem calledNames_ofRecord :
    (Definition.ofRecord record).calledNames = record.layouts.flatMap Layout.calledNames := by
  unfold Definition.calledNames Definition.ofRecord
  dsimp only
  rw [filter_calls ordered member, List.map_flatMap]
  exact List.flatMap_congr fun layout _ => Layout.callTokens_value record.id layout

theorem contentTokens_precedes (id : Text) (tag : Tag) :
    (record.tagReadings.flatMap fun reading =>
      if reading.tag = tag then reading.contentTokens id else []).Pairwise Precedes := by
  refine List.pairwise_flatMap.mpr ⟨fun reading _ => ?_, ?_⟩
  · unfold TagReading.contentTokens
    split_ifs
    · cases reading.content with
      | none => exact .nil
      | some content => exact List.pairwise_singleton _ _
    · exact .nil
  · refine (tagReadings_pairwise ordered member).imp_of_mem
      fun {reading later} first second before a here b there => ?_
    unfold TagReading.contentTokens at here there
    split_ifs at here there with own other
    · obtain ⟨content, found, rfl⟩ := List.mem_map.mp here
      obtain ⟨content', found', rfl⟩ := List.mem_map.mp there
      rw [Option.mem_toList] at found found'
      -- the first content ends before the tag of the second one
      have ends := before.content (own.trans other.symm) content found
      have some := ((tagReading_within ordered member reading first).content content found).start_lt
      have begins :=
        ((tagReading_within ordered member later second).content content' found').low_le
      exact .inl (by dsimp only; omega)
    · simp at there
    · simp at here
    · simp at here

theorem filter_contents (tag : Tag) : record.tokens.filter (·.kind = tag.contentKind) =
    record.tagReadings.flatMap fun reading =>
      if reading.tag = tag then reading.contentTokens record.id else [] := by
  refine filter_sort ?_ (contentTokens_precedes ordered member record.id tag)
  have own : (record.layouts.flatMap (Layout.lineTokens record.id)).filter
      (·.kind = tag.contentKind) = [] :=
    filter_flatMap_eq_nil (fun _ _ => Layout.lineTokens_kind) (by cases tag <;> decide)
  have calls : (record.layouts.flatMap (Layout.callTokens record.id)).filter
      (·.kind = tag.contentKind) = [] :=
    filter_flatMap_eq_nil (fun _ _ => Layout.callTokens_kind) (by cases tag <;> decide)
  rw [List.filter_append, List.filter_append, own, calls, List.nil_append, List.append_nil,
    List.filter_flatMap]
  exact List.flatMap_congr fun reading _ => TagReading.filter_tokens record.id tag reading

/-- The text for a tag is what its first place with a content introduces. -/
theorem text_ofRecord (tag : Tag) :
    (first? tag.contentKind record.tokens).map Token.value =
      (TagPlace.all 0 record.layouts).findSome? fun place =>
        (place.reading record.layouts).text? tag := by
  have first : record.tagReadings.findSome? (TagReading.text? tag) =
      (TagPlace.all 0 record.layouts).findSome? fun place =>
        (place.reading record.layouts).text? tag :=
    TagPlace.findSome_read _ rfl
  have head : Option.map Token.value ∘ (fun reading : TagReading =>
      (if reading.tag = tag then reading.contentTokens record.id else []).head?) =
      TagReading.text? tag :=
    funext (TagReading.head_contentTokens record.id tag)
  unfold first?
  rw [← first, ← List.head?_filter, filter_contents ordered member, List.head?_flatMap,
    List.map_findSome?, head]

end

end Record
end Mapkeys
