import Mapkeys.Proofs.Relocation

/-!
# Tokens elsewhere

A record whose lines stand elsewhere has the same tokens elsewhere, and so have the definition that
it gives and the comments outside the records.
-/

namespace Mapkeys.Relocation

open Text Token

variable {move : Relocation}

/-! ## Order -/

theorem le_token (a b : Token) : (move.token a).le (move.token b) = a.le b := by
  have starts := @offset_lt_iff move a.start b.start
  have stops := @offset_lt_iff move a.stop b.stop
  have same_start := @offset_inj move a.start b.start
  have same_stop := @offset_inj move a.stop b.stop
  rw [Bool.eq_iff_iff, le_iff, le_iff]
  simp only [Relocation.token, starts, stops, same_start, same_stop]

theorem precedes_token {a b : Token} (before : Precedes a b) :
    Precedes (move.token a) (move.token b) := by
  rcases before with starts | ⟨starts, stops | ⟨stops, kinds⟩⟩
  · exact .inl (offset_lt_iff.mpr starts)
  · exact .inr ⟨offset_inj.mpr starts, .inl (offset_lt_iff.mpr stops)⟩
  · exact .inr ⟨offset_inj.mpr starts, .inr ⟨offset_inj.mpr stops, kinds⟩⟩

theorem sort_token (tokens : List Token) :
    sort (tokens.map move.token) = (sort tokens).map move.token :=
  sortBy_map le_token tokens

/-! ## Tokens of a line -/

theorem token_ofPiece {low high start : Nat} {value : Text} (steady : move.Steady low high)
    (above : low ≤ start) (below : start + value.length ≤ high) (kind : TokenKind)
    (record : Option Text) :
    move.token (ofPiece kind value start record) =
      ofPiece kind value (move.offset start) (record.map move.id) := by
  simp only [Relocation.token, ofPiece, steady.add above below]

section

variable {line : Line} {layout : Layout} (steady : move.Steady line.start line.stop)
  (ordered : Layout.Ordered line layout) (id : Text)

include steady ordered

theorem headTokens_layout :
    (move.layout layout).headTokens (move.id id) = (layout.headTokens id).map move.token := by
  have body : layout.body.start ≤ layout.body.stop := Nat.le_add_right _ _
  have inside : layout.body.start ≤ line.stop := Nat.le_trans body ordered.body_stop
  have marker := ordered.marker
  have name := ordered.name
  obtain ⟨head, piece, escapeAt⟩ := layout
  cases head with
  | declaration keyword title =>
    obtain ⟨low, -, high⟩ := marker keyword rfl
    obtain ⟨low', -, high'⟩ := name title rfl
    simp only [Layout.headTokens, Relocation.layout, Relocation.head, List.map_cons, List.map_nil]
    rw [token_ofPiece steady low (Nat.le_trans high inside),
      token_ofPiece steady low' (Nat.le_trans high' inside)]
    rfl
  | continuation mark isRemark =>
    obtain ⟨low, -, high⟩ := marker mark rfl
    simp only [Layout.headTokens, Relocation.layout, Relocation.head, List.map_cons, List.map_nil]
    rw [token_ofPiece steady low (Nat.le_trans high inside)]
    rfl
  | _ => rfl

theorem escapeTokens_layout :
    (move.layout layout).escapeTokens (move.id id) = (layout.escapeTokens id).map move.token := by
  have body : layout.body.start ≤ layout.body.stop := Nat.le_add_right _ _
  have starts := ordered.body_start
  unfold Layout.escapeTokens Relocation.layout
  cases escape : layout.escapeAt with
  | none => rfl
  | some offset =>
    obtain ⟨low, high⟩ := ordered.escape offset escape
    simp only [Option.map_some, List.map_cons, List.map_nil]
    rw [token_ofPiece steady (by omega) (by rw [List.length_singleton]; omega)]
    rfl

end

section

variable {layout : Layout} (steady : move.Steady layout.body.start layout.body.stop) (id : Text)

include steady

theorem bodyTokens_layout :
    (move.layout layout).bodyTokens (move.id id) = (layout.bodyTokens id).map move.token := by
  have remark : (move.layout layout).isRemark = layout.isRemark := by
    obtain ⟨head, body, escapeAt⟩ := layout
    cases head <;> rfl
  have text : (move.layout layout).body.text = layout.body.text := rfl
  unfold Layout.bodyTokens
  rw [remark, text]
  split_ifs
  · rfl
  · rw [List.map_singleton, token_ofPiece steady (Nat.le_refl _) (Nat.le_refl _)]
    rfl
  · rw [List.map_map]
    refine List.map_congr_left fun column found => ?_
    have bounds := terminators_bounds column found
    have offset : move.offset (layout.body.start + column) =
        move.offset layout.body.start + column :=
      steady.add (Nat.le_refl _) (by unfold Piece.stop; omega)
    rw [Function.comp, token_ofPiece steady (Nat.le_add_right _ _)
      (by rw [List.length_singleton]; unfold Piece.stop; omega), offset]
    rfl

theorem callTokens_layout :
    (move.layout layout).callTokens (move.id id) = (layout.callTokens id).map move.token := by
  have text : (move.layout layout).body.text = layout.body.text := rfl
  unfold Layout.callTokens
  rw [holdsStatements_layout, text]
  split_ifs
  · rw [List.map_map]
    refine List.map_congr_left fun call found => ?_
    have bounds := calls_bounds call found
    have offset : move.offset (layout.body.start + call.1) =
        move.offset layout.body.start + call.1 :=
      steady.add (Nat.le_refl _) (by unfold Piece.stop; omega)
    rw [Function.comp, token_ofPiece steady (Nat.le_add_right _ _) (by unfold Piece.stop; omega),
      offset]
    rfl
  · rfl

end

theorem lineTokens_layout {line : Line} (steady : move.Steady line.start line.stop) (id : Text) :
    (move.layout (Layout.ofLine line)).lineTokens (move.id id) =
      ((Layout.ofLine line).lineTokens id).map move.token := by
  have ordered := Layout.ofLine_ordered line
  unfold Layout.lineTokens
  rw [headTokens_layout steady ordered, escapeTokens_layout steady ordered,
    bodyTokens_layout (steady.mono ordered.body_start ordered.body_stop), List.map_append,
    List.map_append]

/-! ## Tokens of a tag -/

theorem tokens_reading {low high : Nat} {reading : TagReading} (steady : move.Steady low high)
    (above : low ≤ reading.offset) (below : reading.offset + reading.tag.marker.length ≤ high)
    (id : Text) :
    (move.reading reading).tokens (move.id id) = (reading.tokens id).map move.token := by
  unfold TagReading.tokens
  rw [List.map_cons, token_ofPiece steady above below]
  cases content : reading.content with
  | none => simp only [Relocation.reading, content, Option.map_none, Option.map_some, List.map_nil]
  | some statement =>
    simp only [Relocation.reading, content, Option.map_some, List.map_cons, List.map_nil]
    rfl

/-! ## Records -/

section

variable {record : Record} (steady : move.SteadyOn record)

include steady

theorem layoutTokens_record {tokens : Text → Layout → List Token}
    (moved : ∀ line ∈ record.lines, tokens (move.id record.id) (move.layout (Layout.ofLine line)) =
      (tokens record.id (Layout.ofLine line)).map move.token) :
    (move.record record).layouts.flatMap (tokens (move.record record).id) =
      (record.layouts.flatMap (tokens record.id)).map move.token := by
  rw [layouts_record steady, ← id_record, List.flatMap_map, List.map_flatMap]
  refine List.flatMap_congr fun layout own => ?_
  obtain ⟨line, mine, rfl⟩ := List.mem_map.mp own
  exact moved line mine

theorem tagTokens_record :
    (move.record record).tagReadings.flatMap (TagReading.tokens (move.record record).id) =
      (record.tagReadings.flatMap (TagReading.tokens record.id)).map move.token := by
  rw [tagReadings_record steady, ← id_record, List.flatMap_map, List.map_flatMap]
  refine List.flatMap_congr fun reading found => ?_
  obtain ⟨place, present, rfl⟩ := List.mem_map.mp ((TagPlace.read_sublist _ _ _).subset found)
  obtain ⟨k, layout, -, at_k, on⟩ := TagPlace.exists_on place present
  have bounds := on.bounds
  exact tokens_reading (steady_body steady (List.mem_of_getElem? at_k)) bounds.1 bounds.2 _

/-- A record that is moved has its tokens moved. -/
theorem tokens_record : (move.record record).tokens = record.tokens.map move.token := by
  have own := layoutTokens_record steady fun line mine => lineTokens_layout (steady line mine) _
  have calls := layoutTokens_record steady fun line mine =>
    callTokens_layout (steady_body steady (List.mem_map_of_mem mine)) record.id
  unfold Record.tokens
  dsimp only
  rw [own, calls, tagTokens_record steady, ← List.map_append, ← List.map_append, sort_token]

theorem ofRecord_record :
    Definition.ofRecord (move.record record) = move.definition (Definition.ofRecord record) := by
  have first (kind : TokenKind) :
      first? kind (record.tokens.map move.token) = (first? kind record.tokens).map move.token := by
    unfold first?
    rw [List.find?_map]
    rfl
  have calls : (record.tokens.map move.token).filter (·.kind = .nestedCall) =
      (record.tokens.filter (·.kind = .nestedCall)).map move.token := by
    rw [List.filter_map]
    rfl
  unfold Definition.ofRecord Relocation.definition
  simp only [tokens_record steady, first, calls]

end

/-! ## Comments outside the records -/

theorem titleTokens_line {line : Line} {word : Text} (nonempty : word ≠ []) (kind : TokenKind)
    (steady : move.Steady line.start line.stop) :
    Marker.titleTokens kind word (move.line line) =
      (Marker.titleTokens kind word line).map move.token := by
  have text : (move.line line).text = line.text := rfl
  unfold Marker.titleTokens
  rw [text]
  cases found : Marker.titled? word line.text with
  | none => rfl
  | some title =>
    obtain ⟨column, rest⟩ := title
    obtain ⟨-, fits⟩ := Marker.titled_bounds nonempty found
    have offset : move.offset (line.start + column) = move.offset line.start + column :=
      steady.add (Nat.le_refl _) (by unfold Line.stop; omega)
    simp only [List.map_cons, List.map_nil]
    rw [token_ofPiece steady (Nat.le_add_right _ _) (by unfold Line.stop; omega), offset]
    rfl

theorem lineTokens_line {line : Line} (steady : move.Steady line.start line.stop) :
    Marker.lineTokens (move.line line) = (Marker.lineTokens line).map move.token := by
  have text : (move.line line).text = line.text := rfl
  have read := Line.shape_spec line.text
  unfold Marker.lineTokens
  rw [text]
  cases shape : Line.shape line.text with
  | comment column =>
    rw [shape] at read
    have inside := Line.remarked_bounds read
    have kept := trimRight_length_le (line.text.drop column)
    rw [List.length_drop] at kept
    have offset : move.offset (line.start + column) = move.offset line.start + column :=
      steady.add (Nat.le_refl _) (by unfold Line.stop; omega)
    simp only [List.map_cons, List.map_append]
    rw [token_ofPiece steady (Nat.le_add_right _ _) (by unfold Line.stop; omega), offset,
      titleTokens_line Marker.regionWord_ne_nil _ steady,
      titleTokens_line Marker.endRegionWord_ne_nil _ steady]
    rfl
  | _ => rfl

/-- Where lines keep different numbers, the same comments stay outside the records. -/
theorem tokens_line {lines : List Line} {records : List Record}
    (injective : Function.Injective move.index)
    (steady : ∀ line ∈ lines, move.Steady line.start line.stop) :
    Marker.tokens (lines.map move.line) (records.map move.record) =
      (Marker.tokens lines records).map move.token := by
  have claimed : (records.map move.record).flatMap (fun record => record.lines.map Line.index) =
      (records.flatMap fun record => record.lines.map Line.index).map move.index := by
    rw [List.flatMap_map, List.map_flatMap]
    refine List.flatMap_congr fun record _ => ?_
    rw [lines_record, List.map_map, List.map_map]
    rfl
  unfold Marker.tokens
  dsimp only
  rw [claimed]
  generalize records.flatMap (fun record => record.lines.map Line.index) = numbers
  have outside : (lines.map move.line).filter (fun line =>
        !(numbers.map move.index).contains line.index) =
      (lines.filter fun line => !numbers.contains line.index).map move.line := by
    have index (line : Line) : (move.line line).index = move.index line.index := rfl
    simp only [List.filter_map, Function.comp_def, index, List.contains_eq_mem,
      List.mem_map_of_injective injective]
  rw [outside, List.flatMap_map, List.map_flatMap]
  refine List.flatMap_congr fun line kept => ?_
  exact lineTokens_line (steady line (List.mem_of_mem_filter kept))

end Mapkeys.Relocation
