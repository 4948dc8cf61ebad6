import Mapkeys.Proofs.LineParts
import Mapkeys.Proofs.RecordSources
import Mapkeys.Proofs.TokenNesting

/-!
# Sources of tokens

A token that is not the content of a tag reads as the document does where it stands. The tokens that
name a record are its own, and among these are one keyword and one name.
-/

namespace Mapkeys

open Text Token

/-! ## Quotations -/

namespace Token

/-- A token that stands in a piece of the document as it is. -/
structure Quotes (whole : Piece) (token : Token) : Prop where
  stop : token.stop = token.start + token.value.length
  part : Piece.PartOf ⟨token.start, token.value⟩ whole

theorem quotes_ofPiece {whole : Piece} {kind : TokenKind} {value : Text} {start : Nat}
    {record : Option Text} (part : Piece.PartOf ⟨start, value⟩ whole) :
    (ofPiece kind value start record).Quotes whole :=
  ⟨rfl, part⟩

theorem Quotes.mono {token : Token} {part whole : Piece} (quotes : token.Quotes part)
    (inside : part.PartOf whole) : token.Quotes whole :=
  ⟨quotes.stop, quotes.part.trans inside⟩

theorem Quotes.slice_eq {token : Token} {text : Text} (quotes : token.Quotes ⟨0, text⟩) :
    slice text token.start token.stop = token.value := by
  rw [quotes.stop]
  exact quotes.part.slice_eq

end Token

namespace Layout

variable {line : Line} {layout : Layout} {id : Text}

theorem headTokens_quote (parts : PartsOf line layout) :
    ∀ token ∈ layout.headTokens id, token.Quotes line.piece := by
  have marker := parts.marker
  have name := parts.name
  intro token member
  unfold headTokens at member
  cases head : layout.head with
  | declaration keyword title =>
    simp only [head, List.mem_cons, List.not_mem_nil, or_false] at member
    rcases member with rfl | rfl
    · exact quotes_ofPiece (marker keyword (by simp [marker?, head]))
    · exact quotes_ofPiece (name title (by simp [name?, head]))
  | continuation mark isRemark =>
    simp only [head, List.mem_singleton] at member
    subst member
    exact quotes_ofPiece (marker mark (by simp [marker?, head]))
  | _ => simp [head] at member

theorem escapeTokens_quote (parts : PartsOf line layout) :
    ∀ token ∈ layout.escapeTokens id, token.Quotes line.piece := by
  intro token member
  unfold escapeTokens at member
  cases escape : layout.escapeAt with
  | none => simp [escape] at member
  | some offset =>
    simp only [escape, List.mem_singleton] at member
    subst member
    exact quotes_ofPiece (parts.escape offset escape)

theorem bodyTokens_quote : ∀ token ∈ layout.bodyTokens id, token.Quotes layout.body := by
  intro token member
  unfold bodyTokens at member
  split_ifs at member
  · simp at member
  · rw [List.mem_singleton.mp member]
    exact quotes_ofPiece ⟨0, rfl, List.prefix_refl _⟩
  · obtain ⟨column, found, rfl⟩ := List.mem_map.mp member
    obtain ⟨before, rest, spelled, start, -⟩ := mem_terminators.mp found
    rw [start, Nat.zero_add]
    exact quotes_ofPiece (Piece.partOf_of_eq spelled)

theorem lineTokens_quote (parts : PartsOf line layout) :
    ∀ token ∈ layout.lineTokens id, token.Quotes line.piece := by
  intro token member
  rcases List.mem_append.mp member with outer | inner
  · rcases List.mem_append.mp outer with head | escape
    · exact headTokens_quote parts token head
    · exact escapeTokens_quote parts token escape
  · exact (bodyTokens_quote token inner).mono parts.body

theorem callTokens_quote : ∀ token ∈ layout.callTokens id, token.Quotes layout.body := by
  intro token member
  unfold callTokens at member
  split_ifs at member
  · obtain ⟨⟨column, name⟩, found, rfl⟩ := List.mem_map.mp member
    obtain ⟨before, rest, spelled, start, -⟩ := calls_spelled _ found
    have spelled' : layout.body.text = (before ++ ['%']) ++ (name ++ ';' :: rest) := by
      rw [spelled, List.append_assoc, List.singleton_append]
    have start' : column = (before ++ ['%']).length := by
      rw [List.length_append, List.length_singleton]
      dsimp only at start
      omega
    rw [start']
    exact quotes_ofPiece (Piece.partOf_of_eq spelled')
  · simp at member

end Layout

/-! ## Tokens of the lines -/

namespace Record

theorem markerToken_quotes {layouts : List Layout} {place : TagPlace}
    (present : place ∈ TagPlace.all 0 layouts) (id : Text) :
    ∃ layout ∈ layouts, (markerToken id place).Quotes layout.body := by
  obtain ⟨layout, before, rest, stands⟩ := TagPlace.stands_of_mem present
  refine ⟨layout, List.mem_of_getElem? stands.there, ?_⟩
  rw [markerToken, stands.offset, ← stands.column]
  exact quotes_ofPiece (Piece.partOf_of_eq stands.spelled)

/-- The tokens of a record that are not contents of tags stand on its lines as they are. -/
theorem tokens_quote {record : Record} :
    ∀ token ∈ record.tokens, token.kind ∉ [TokenKind.description, .label, .systemInstruction] →
      ∃ line ∈ record.lines, token.Quotes line.piece := by
  have bodies : ∀ layout ∈ record.layouts,
      ∃ line ∈ record.lines, layout.body.PartOf line.piece := by
    intro layout own
    obtain ⟨line, here, rfl⟩ := List.mem_map.mp own
    exact ⟨line, here, (Layout.ofLine_parts line).body⟩
  intro token member plain
  cases given_of_mem member with
  | line line own found =>
    exact ⟨line, own, Layout.lineTokens_quote (Layout.ofLine_parts line) token found⟩
  | marker place present =>
    obtain ⟨layout, own, quotes⟩ := markerToken_quotes present record.id
    obtain ⟨line, here, part⟩ := bodies layout own
    exact ⟨line, here, quotes.mono part⟩
  | content place content present found => exact absurd (Tag.contentKind_mem place.tag) plain
  | call layout own called =>
    obtain ⟨line, here, part⟩ := bodies layout own
    exact ⟨line, here, (Layout.callTokens_quote token called).mono part⟩

end Record

namespace Marker

/-- What is left of a line from a column on, without the blanks at its end, is part of the line. -/
theorem trimRight_partOf (line : Line) (column : Nat) :
    Piece.PartOf ⟨line.start + column, trimRight (line.text.drop column)⟩ line.piece :=
  ⟨column, rfl, trimRight_begins _⟩

theorem titleTokens_quote {kind : TokenKind} {word : Text} {line : Line} :
    ∀ token ∈ titleTokens kind word line, token.Quotes line.piece := by
  intro token member
  unfold titleTokens titled? at member
  cases remark : Line.remarked? line.text with
  | none => simp [remark] at member
  | some mark =>
    simp only [remark] at member
    split at member
    · rename_i column title found
      split_ifs at found
      cases found
      rw [List.mem_singleton.mp member]
      exact quotes_ofPiece (trimRight_partOf line _)
    · simp at member

theorem lineTokens_quote {line : Line} : ∀ token ∈ lineTokens line, token.Quotes line.piece := by
  intro token member
  unfold lineTokens at member
  split at member
  · rcases List.mem_cons.mp member with rfl | titled
    · exact quotes_ofPiece (trimRight_partOf line _)
    · rcases List.mem_append.mp titled with begins | ends
      · exact titleTokens_quote token begins
      · exact titleTokens_quote token ends
  · simp at member

end Marker

/-- A line is part of its text. -/
theorem Line.piece_partOf {text : Text} {line : Line} (member : line ∈ split text) :
    line.piece.PartOf ⟨0, text⟩ := by
  obtain ⟨before, raw, after, stands⟩ := exists_place line member
  refine ⟨line.start, (Nat.zero_add _).symm, ?_⟩
  change line.text <+: text.drop line.start
  rw [stands.text, stands.drop_start]
  exact (dropReturn_begins raw).trans (List.prefix_append raw after)

/-! ## The keyword and the name of a record -/

namespace Layout

theorem filter_lineTokens {layout : Layout} {id : Text} {kind : TokenKind}
    (heading : kind ∈ [TokenKind.keyword, .name]) :
    (layout.lineTokens id).filter (·.kind = kind) =
      (layout.headTokens id).filter (·.kind = kind) := by
  have escape : (layout.escapeTokens id).filter (·.kind = kind) = [] :=
    filter_eq_nil_of_kinds escapeTokens_kind (by grind)
  have body : (layout.bodyTokens id).filter (·.kind = kind) = [] :=
    filter_eq_nil_of_kinds bodyTokens_kind (by grind)
  rw [lineTokens, List.filter_append, List.filter_append, escape, body, List.append_nil,
    List.append_nil]

theorem headTokens_of_canFollow {line : Line} {id : Text} (follows : Record.canFollow line = true) :
    ∀ token ∈ (ofLine line).headTokens id, token.kind ∈ [TokenKind.continuationMarker] := by
  intro token member
  unfold Record.canFollow Line.kind Line.kindOf at follows
  unfold ofLine at member
  cases shape : Line.shape line.text with
  | comment column => simp [shape, headTokens] at member
  | continuation column =>
    simp only [shape, headTokens, withBody_head, List.mem_singleton] at member
    simp [member]
  | blank => simp [shape, headTokens] at member
  | other => simp [shape, headTokens] at member
  | declaration head => simp [shape, Line.Shape.kind] at follows

theorem headTokens_of_declaration {line : Line} {head : Line.Declared}
    (shape : Line.shape line.text = .declaration head) (id : Text) :
    ∃ keyword name, (ofLine line).headTokens id = [keyword, name] ∧
      keyword.kind = .keyword ∧ name.kind = .name ∧ name.value = head.name := by
  unfold ofLine headTokens
  simp only [shape, withBody_head]
  exact ⟨_, _, rfl, rfl, rfl, rfl⟩

end Layout

namespace Record

section

variable {lines : List Line} {record : Record} (member : record ∈ segment lines)

include member

/-- The declaration alone gives the keyword and the name. -/
theorem filter_heading {kind : TokenKind} (heading : kind ∈ [TokenKind.keyword, .name]) :
    (record.layouts.flatMap (Layout.lineTokens record.id) ++
        record.tagReadings.flatMap (TagReading.tokens record.id) ++
        record.layouts.flatMap (Layout.callTokens record.id)).filter (·.kind = kind) =
      ((Layout.ofLine record.declaration).headTokens record.id).filter (·.kind = kind) := by
  obtain ⟨-, following, head, -, shape, declared⟩ := exists_declaration record member
  have tags : (record.tagReadings.flatMap (TagReading.tokens record.id)).filter
      (·.kind = kind) = [] :=
    filter_flatMap_eq_nil (fun _ _ => TagReading.tokens_kind) (by grind)
  have calls : (record.layouts.flatMap (Layout.callTokens record.id)).filter (·.kind = kind) = [] :=
    filter_flatMap_eq_nil (fun _ _ => Layout.callTokens_kind) (by grind)
  -- the lines after the declaration are comments and continuations
  have others : ((record.others.map Layout.ofLine).flatMap fun layout =>
      (layout.headTokens record.id).filter (·.kind = kind)) = [] := by
    rw [List.flatMap_eq_nil_iff]
    intro layout own
    obtain ⟨line, later, rfl⟩ := List.mem_map.mp own
    rw [declared] at later
    exact filter_eq_nil_of_kinds (Layout.headTokens_of_canFollow (claim_canFollow line later))
      (by grind)
  rw [List.filter_append, List.filter_append, tags, calls, List.append_nil, List.append_nil,
    List.filter_flatMap]
  simp only [Layout.filter_lineTokens heading]
  rw [layouts, Record.lines, List.map_cons, List.flatMap_cons, others, List.append_nil]

/-- A record has one keyword and one name, the name it declares. -/
theorem exists_heading : ∃ keyword name,
    record.tokens.filter (·.kind = .keyword) = [keyword] ∧
      record.tokens.filter (·.kind = .name) = [name] ∧ name.value = record.name := by
  obtain ⟨-, following, head, -, shape, declared⟩ := exists_declaration record member
  have named : record.name = head.name := by
    rw [declared]
    rfl
  obtain ⟨keyword, name, tokens, first, second, value⟩ :=
    Layout.headTokens_of_declaration shape record.id
  refine ⟨keyword, name, ?_, ?_, value.trans named.symm⟩
  · refine filter_sort ((filter_heading member (by simp)).trans ?_) (List.pairwise_singleton _ _)
    simp [tokens, first, second]
  · refine filter_sort ((filter_heading member (by simp)).trans ?_) (List.pairwise_singleton _ _)
    simp [tokens, first, second]

end

theorem filter_owned {records : List Record} (distinct : (records.map id).Nodup) {record : Record}
    (member : record ∈ records) :
    (records.flatMap tokens).filter (·.record = some record.id) = record.tokens := by
  have own : ∀ other : Record, other.id = record.id →
      other.tokens.filter (·.record = some record.id) = other.tokens := by
    intro other same
    refine List.filter_eq_self.mpr fun token found => ?_
    simp [tokens_owner token found, same]
  have foreign : ∀ other : Record, other.id ≠ record.id →
      other.tokens.filter (·.record = some record.id) = [] := by
    intro other differs
    refine List.filter_eq_nil_iff.mpr fun token found => ?_
    simp [tokens_owner token found, differs]
  induction records with
  | nil => simp at member
  | cons first rest ih =>
    obtain ⟨fresh, distinct'⟩ := List.nodup_cons.mp distinct
    rw [List.flatMap_cons, List.filter_append]
    rcases List.mem_cons.mp member with rfl | later
    · have none : (rest.flatMap tokens).filter (·.record = some record.id) = [] := by
        rw [List.filter_flatMap, List.flatMap_eq_nil_iff]
        intro other present
        exact foreign other fun same => fresh (same ▸ List.mem_map_of_mem present)
      rw [own record rfl, none, List.append_nil]
    · have differs : first.id ≠ record.id := fun same => fresh (same ▸ List.mem_map_of_mem later)
      rw [foreign first differs, List.nil_append]
      exact ih distinct' later

end Record

/-! ## Tokens of the document -/

namespace Document

/-- The tokens that name a record are its own, in its order. -/
theorem filter_tokens {text : Text} {record : Record} (member : record ∈ (parse text).records) :
    (parse text).tokens.filter (·.record = some record.id) = record.tokens := by
  have outside : (Marker.tokens (parse text).lines (parse text).records).filter
      (·.record = some record.id) = [] := by
    refine List.filter_eq_nil_iff.mpr fun token found => ?_
    simp [Marker.tokens_owner token found]
  have owned := Record.filter_owned (Record.segment_ids (Line.split_pairwise text)) member
  have perm := (sort_perm (unsorted text)).filter (·.record = some record.id)
  rw [unsorted, List.filter_append, outside, List.append_nil] at perm
  -- the same tokens, and only one order in which they can be listed
  have strict := sort_precedes (unsorted_separate text) (unsorted_nonempty text)
  exact (eq_of_precedes (perm.trans (.of_eq owned)).symm (sort_pairwise _) (strict.filter _)).symm

/-- A token that is not the content of a tag stands in the document as it is. -/
theorem tokens_quote {text : Text} :
    ∀ token ∈ (parse text).tokens,
      token.kind ∉ [TokenKind.description, .label, .systemInstruction] →
        token.Quotes ⟨0, text⟩ := by
  intro token member plain
  rcases List.mem_append.mp ((sort_perm _).subset member) with own | outside
  · obtain ⟨record, present, mine⟩ := List.mem_flatMap.mp own
    obtain ⟨line, here, quotes⟩ := Record.tokens_quote token mine plain
    have there : line ∈ Line.split text := (Record.lines_consecutive record present).subset here
    exact quotes.mono (Line.piece_partOf there)
  · obtain ⟨line, present, -, found⟩ := Marker.mem_tokens outside
    exact (Marker.lineTokens_quote token found).mono (Line.piece_partOf present)

/-- A token that names a record stands inside it. -/
theorem exists_owner {text id : Text} {token : Token} (member : token ∈ (parse text).tokens)
    (named : token.record = some id) :
    ∃ record ∈ (parse text).records, record.id = id ∧
      record.start ≤ token.start ∧ token.stop ≤ record.stop := by
  rcases List.mem_append.mp ((sort_perm _).subset member) with own | outside
  · obtain ⟨record, present, mine⟩ := List.mem_flatMap.mp own
    have within := Record.tokens_within (Line.split_pairwise text) present token mine
    rw [Record.tokens_owner token mine, Option.some.injEq] at named
    exact ⟨record, present, named, within.low_le, within.le_high⟩
  · rw [Marker.tokens_owner token outside] at named
    cases named

/-- Tokens address the document: each covers at least one character of it, reads as the document
    does there unless it is the content of a tag, and stands inside the record it names. The tokens
    that name a record are its own; one of them is its keyword, and one is the name that the record
    and its definition have. -/
theorem tokens_address_source (text : Text) :
    (∀ token ∈ (parse text).tokens,
      token.start < token.stop ∧ token.stop ≤ text.length ∧
      (token.kind ∉ [TokenKind.description, .label, .systemInstruction] →
        slice text token.start token.stop = token.value) ∧
      ∀ id, token.record = some id → ∃ record ∈ (parse text).records, record.id = id ∧
        record.start ≤ token.start ∧ token.stop ≤ record.stop) ∧
    ∀ record ∈ (parse text).records,
      (parse text).tokens.filter (·.record = some record.id) = record.tokens ∧
      ∃ keyword name, record.tokens.filter (·.kind = .keyword) = [keyword] ∧
        record.tokens.filter (·.kind = .name) = [name] ∧ name.value = record.name ∧
        ∃ definition ∈ (parse text).definitions, definition.record = record ∧
          definition.name = name.value ∧ definition.nameToken = some name := by
  constructor
  · intro token member
    have within := tokens_within_text token member
    refine ⟨within.start_lt, within.le_high, ?_, ?_⟩
    · intro plain
      exact (tokens_quote token member plain).slice_eq
    · intro id named
      exact exists_owner member named
  · intro record member
    obtain ⟨keyword, name, one, other, value⟩ := Record.exists_heading member
    refine ⟨filter_tokens member, keyword, name, one, other, value, Definition.ofRecord record,
      List.mem_map_of_mem member, rfl, value.symm, ?_⟩
    rw [Definition.ofRecord, first?, ← List.head?_filter, other]
    rfl

/-- A region after which a record begins; an escape follows the name of the record. -/
def escapedName : Text := "! Region A \r\nMapkey b\\ \n mapkey(continued) @SYSTEM x %c;".toList

/-- The title of the region and the name of the record stand in the text, without the blank, the
    carriage return and the escape after them. -/
theorem escapedName_addressed :
    ⟨.regionStart, "Region A".toList, 2, 10, none⟩ ∈ (parse escapedName).tokens ∧
      slice escapedName 2 10 = "Region A".toList ∧
      ⟨.name, ['b'], 20, 21, some "mapkey_1_b".toList⟩ ∈ (parse escapedName).tokens ∧
      slice escapedName 20 21 = ['b'] ∧
      ∃ record ∈ (parse escapedName).records, record.id = "mapkey_1_b".toList ∧
        record.start ≤ 20 ∧ 21 ≤ record.stop ∧
        ∃ keyword name, record.tokens.filter (·.kind = .keyword) = [keyword] ∧
          record.tokens.filter (·.kind = .name) = [name] ∧ name.value = record.name := by
  have title : ⟨.regionStart, "Region A".toList, 2, 10, none⟩ ∈ (parse escapedName).tokens := by
    decide +kernel
  have name : ⟨.name, ['b'], 20, 21, some "mapkey_1_b".toList⟩ ∈ (parse escapedName).tokens := by
    decide +kernel
  obtain ⟨-, -, title_reads, -⟩ := (tokens_address_source escapedName).1 _ title
  obtain ⟨-, -, name_reads, owned⟩ := (tokens_address_source escapedName).1 _ name
  obtain ⟨record, member, identified, begins, ends⟩ := owned _ rfl
  obtain ⟨-, keyword, only, one, other, value, -⟩ :=
    (tokens_address_source escapedName).2 record member
  exact ⟨title, title_reads (by decide), name, name_reads (by decide), record, member, identified,
    begins, ends, keyword, only, one, other, value⟩

end Document
end Mapkeys
