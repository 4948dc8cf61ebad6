import Mapkeys.Token.Marker
import Mapkeys.Proofs.TagReadings
import Mapkeys.Proofs.TokenOrder

/-!
# Places of tokens

Where the tokens of a line, of a tag and of a comment outside the records stand. The tokens that a
line has by itself never overlap, whatever their kinds: head, body and escape follow each other.
-/

namespace Mapkeys

open Text Token

namespace Layout

variable {line : Line} {layout : Layout} {record : Text}

/-! ## Tokens of a line -/

theorem headTokens_within (ordered : Ordered line layout) :
    ∀ token ∈ layout.headTokens record, token.Within line.start layout.body.start := by
  have marker := ordered.marker
  have name := ordered.name
  intro token member
  unfold headTokens at member
  cases head : layout.head with
  | declaration keyword title =>
    simp only [head, List.mem_cons, List.not_mem_nil, or_false] at member
    rcases member with rfl | rfl
    · obtain ⟨low, some, high⟩ := marker keyword (by simp [marker?, head])
      exact ⟨low, some, high⟩
    · obtain ⟨low, some, high⟩ := name title (by simp [name?, head])
      exact ⟨low, some, high⟩
  | continuation mark isRemark =>
    simp only [head, List.mem_singleton] at member
    subst member
    obtain ⟨low, some, high⟩ := marker mark (by simp [marker?, head])
    exact ⟨low, some, high⟩
  | _ => simp [head] at member

theorem headTokens_apart (ordered : Ordered line layout) :
    (layout.headTokens record).Pairwise Apart := by
  have name_after := ordered.name_after
  unfold headTokens
  cases head : layout.head with
  | declaration keyword title =>
    refine List.pairwise_pair.mpr (.inl ?_)
    exact name_after keyword (by simp [marker?, head]) title (by simp [name?, head])
  | continuation mark isRemark => exact List.pairwise_singleton _ _
  | _ => exact .nil

theorem escapeTokens_within (ordered : Ordered line layout) :
    ∀ token ∈ layout.escapeTokens record, token.Within layout.body.stop line.stop := by
  intro token member
  unfold escapeTokens at member
  cases escape : layout.escapeAt with
  | none => simp [escape] at member
  | some offset =>
    simp only [escape, List.mem_singleton] at member
    subst member
    obtain ⟨low, high⟩ := ordered.escape offset escape
    exact ⟨low, Nat.lt_succ_self _, high⟩

theorem escapeTokens_apart : (layout.escapeTokens record).Pairwise Apart := by
  unfold escapeTokens
  cases layout.escapeAt with
  | none => exact .nil
  | some offset => exact List.pairwise_singleton _ _

theorem bodyTokens_within :
    ∀ token ∈ layout.bodyTokens record, token.Within layout.body.start layout.body.stop := by
  intro token member
  unfold bodyTokens at member
  split_ifs at member with remark empty
  · simp at member
  · rw [List.mem_singleton.mp member]
    have some := List.length_pos_iff.mpr empty
    exact ⟨Nat.le_refl _, Nat.lt_add_of_pos_right some, Nat.le_refl _⟩
  · obtain ⟨column, found, rfl⟩ := List.mem_map.mp member
    have bounds := terminators_bounds column found
    refine ⟨Nat.le_add_right _ _, Nat.lt_succ_self _, ?_⟩
    simp only [ofPiece_stop, Piece.stop, List.length_singleton]
    omega

theorem bodyTokens_apart : (layout.bodyTokens record).Pairwise Apart := by
  unfold bodyTokens
  split_ifs
  · exact .nil
  · exact List.pairwise_singleton _ _
  · refine List.pairwise_map.mpr ((terminators_pairwise 0 false _).imp fun {column later} before => ?_)
    refine .inl ?_
    simp only [ofPiece_start, ofPiece_stop, List.length_singleton]
    omega

theorem lineTokens_within (ordered : Ordered line layout) :
    ∀ token ∈ layout.lineTokens record, token.Within line.start line.stop := by
  have body_start := ordered.body_start
  have body_stop := ordered.body_stop
  have body : layout.body.start ≤ layout.body.stop := Nat.le_add_right _ _
  intro token member
  rcases List.mem_append.mp member with outer | inner
  · rcases List.mem_append.mp outer with head | escape
    · exact (headTokens_within ordered token head).mono (Nat.le_refl _) (by omega)
    · exact (escapeTokens_within ordered token escape).mono (by omega) (Nat.le_refl _)
  · exact (bodyTokens_within token inner).mono body_start body_stop

theorem lineTokens_apart (ordered : Ordered line layout) :
    (layout.lineTokens record).Pairwise Apart := by
  have body : layout.body.start ≤ layout.body.stop := Nat.le_add_right _ _
  refine List.pairwise_append.mpr ⟨List.pairwise_append.mpr
    ⟨headTokens_apart ordered, escapeTokens_apart, ?_⟩, bodyTokens_apart, ?_⟩
  · intro a head b escape
    exact (headTokens_within ordered a head).apart (escapeTokens_within ordered b escape) body
  · intro a outer b inner
    have within := bodyTokens_within b inner
    rcases List.mem_append.mp outer with head | escape
    · exact (headTokens_within ordered a head).apart within (Nat.le_refl _)
    · exact (within.apart (escapeTokens_within ordered a escape) (Nat.le_refl _)).symm

theorem callTokens_within :
    ∀ token ∈ layout.callTokens record, token.Within layout.body.start layout.body.stop := by
  intro token member
  unfold callTokens at member
  split_ifs at member
  · obtain ⟨⟨column, name⟩, found, rfl⟩ := List.mem_map.mp member
    have bounds := calls_bounds _ found
    refine ⟨Nat.le_add_right _ _, Nat.lt_add_of_pos_right bounds.2.1, ?_⟩
    simp only [ofPiece_stop, Piece.stop]
    dsimp only at bounds
    omega
  · simp at member

theorem callTokens_apart : (layout.callTokens record).Pairwise Apart := by
  unfold callTokens
  split_ifs
  · refine List.pairwise_map.mpr ((calls_pairwise 0 _).imp fun {call later} before => ?_)
    refine .inl ?_
    simp only [ofPiece_start, ofPiece_stop]
    omega
  · exact .nil

/-! ## Kinds of the tokens of a line -/

theorem headTokens_kind :
    ∀ token ∈ layout.headTokens record, token.kind ∈ [.keyword, .name, .continuationMarker] := by
  intro token member
  unfold headTokens at member
  split at member
  · simp only [List.mem_cons, List.not_mem_nil, or_false] at member
    rcases member with rfl | rfl <;> simp
  · rw [List.mem_singleton.mp member]
    simp
  · simp at member

theorem escapeTokens_kind :
    ∀ token ∈ layout.escapeTokens record, token.kind ∈ [TokenKind.continuationMarker] := by
  intro token member
  unfold escapeTokens at member
  split at member
  · rw [List.mem_singleton.mp member]
    simp
  · simp at member

theorem bodyTokens_kind :
    ∀ token ∈ layout.bodyTokens record, token.kind ∈ [TokenKind.comment, .terminator] := by
  intro token member
  unfold bodyTokens at member
  split_ifs at member
  · simp at member
  · rw [List.mem_singleton.mp member]
    simp
  · obtain ⟨column, -, rfl⟩ := List.mem_map.mp member
    simp

theorem lineTokens_kind :
    ∀ token ∈ layout.lineTokens record,
      token.kind ∈ [.keyword, .name, .continuationMarker, .comment, .terminator] := by
  intro token member
  rcases List.mem_append.mp member with outer | inner
  · rcases List.mem_append.mp outer with head | escape
    · have kind := headTokens_kind token head
      grind
    · have kind := escapeTokens_kind token escape
      grind
  · have kind := bodyTokens_kind token inner
    grind

theorem callTokens_kind :
    ∀ token ∈ layout.callTokens record, token.kind ∈ [TokenKind.nestedCall] := by
  intro token member
  unfold callTokens at member
  split_ifs at member
  · obtain ⟨call, -, rfl⟩ := List.mem_map.mp member
    simp
  · simp at member

end Layout

/-! ## Tokens of a tag -/

theorem Tag.contentKind_injective {a b : Tag} (same : a.contentKind = b.contentKind) : a = b := by
  cases a <;> cases b <;> first | rfl | cases same

theorem Tag.contentKind_mem (tag : Tag) :
    tag.contentKind ∈ [TokenKind.description, .label, .systemInstruction] := by
  cases tag <;> decide

theorem Tag.contentKind_ne_tag (tag : Tag) : tag.contentKind ≠ .tag := by
  cases tag <;> decide

namespace TagReading

variable {reading : TagReading} {record : Text}

/-- A token of a tag is the one for its marker or the one for its content. -/
theorem mem_tokens {token : Token} (member : token ∈ reading.tokens record) :
    token = .ofPiece .tag reading.tag.marker reading.offset (some record) ∨
      ∃ content ∈ reading.content,
        token = ⟨reading.tag.contentKind, content.value, content.start, content.stop, some record⟩ := by
  unfold tokens at member
  rcases List.mem_cons.mp member with marker | rest
  · exact .inl marker
  · cases found : reading.content with
    | none => simp [found] at rest
    | some content =>
      simp only [found, List.mem_singleton] at rest
      exact .inr ⟨content, rfl, rest⟩

theorem tokens_kind :
    ∀ token ∈ reading.tokens record,
      token.kind ∈ [.tag, .description, .label, .systemInstruction] := by
  intro token member
  rcases mem_tokens member with rfl | ⟨content, -, rfl⟩
  · exact List.mem_cons_self
  · exact List.mem_cons_of_mem _ (Tag.contentKind_mem reading.tag)

theorem tokens_within {low high : Nat} (within : reading.Within low high) :
    ∀ token ∈ reading.tokens record, token.Within low high := by
  have positive : 0 < reading.tag.marker.length := by
    cases reading.tag <;> decide
  intro token member
  rcases mem_tokens member with rfl | ⟨content, found, rfl⟩
  · exact ⟨within.low_le, Nat.lt_add_of_pos_right positive, within.le_high⟩
  · have inside := within.content content found
    have low_le := within.low_le
    have after := inside.low_le
    exact ⟨by dsimp only; omega, inside.start_lt, inside.le_high⟩

theorem tokens_separate : (reading.tokens record).Pairwise Separate := by
  unfold tokens
  cases reading.content with
  | none => exact List.pairwise_singleton _ _
  | some content =>
    exact List.pairwise_pair.mpr (separate_of_kind_ne (Tag.contentKind_ne_tag reading.tag).symm)

/-- The tokens of two tags that follow each other are separate. -/
theorem Before.separate {low high : Nat} {later : TagReading} (before : reading.Before later)
    (within : later.Within low high) :
    ∀ a ∈ reading.tokens record, ∀ b ∈ later.tokens record, Separate a b := by
  intro a first b second same
  rcases mem_tokens first with rfl | ⟨content, found, rfl⟩
  · rcases mem_tokens second with rfl | ⟨other, -, rfl⟩
    · exact .inl before.marker
    · exact absurd same.symm (Tag.contentKind_ne_tag later.tag)
  · rcases mem_tokens second with rfl | ⟨other, present, rfl⟩
    · exact absurd same (Tag.contentKind_ne_tag reading.tag)
    · have stop := before.content (Tag.contentKind_injective same) content found
      have start := (within.content other present).low_le
      exact .inl (by dsimp only; omega)

end TagReading

/-! ## Tokens of a comment outside the records -/

namespace Marker

theorem titled_bounds {word t title : Text} {column : Nat} (nonempty : word ≠ [])
    (found : titled? word t = some (column, title)) :
    0 < title.length ∧ column + title.length ≤ t.length := by
  unfold titled? at found
  cases remark : Line.remarked? t with
  | none => simp [remark] at found
  | some mark =>
    have inside := Line.remarked_bounds remark
    have blanks := afterBlanks_le (show mark + 1 ≤ t.length by omega)
    simp only [remark] at found
    split_ifs at found with begins
    cases found
    have kept := trimRight_length_le (t.drop (Layout.afterBlanks t (mark + 1)))
    rw [List.length_drop] at kept
    refine ⟨List.length_pos_iff.mpr ?_, by omega⟩
    rw [drop_afterBlanks] at begins ⊢
    refine trimRight_trimLeft_ne_nil fun empty => nonempty ?_
    rw [empty] at begins
    have length := startsLike_length (Bool.and_eq_true_iff.mp begins).1
    exact List.length_eq_zero_iff.mp (Nat.le_zero.mp length)

theorem titleTokens_within {kind : TokenKind} {word : Text} {line : Line} (nonempty : word ≠ []) :
    ∀ token ∈ titleTokens kind word line,
      token.kind = kind ∧ token.Within line.start line.stop := by
  intro token member
  unfold titleTokens at member
  cases found : titled? word line.text with
  | none => simp [found] at member
  | some title =>
    obtain ⟨column, rest⟩ := title
    obtain ⟨positive, fits⟩ := titled_bounds nonempty found
    simp only [found, List.mem_singleton] at member
    subst member
    refine ⟨rfl, Nat.le_add_right _ _, Nat.lt_add_of_pos_right positive, ?_⟩
    rw [ofPiece_stop, Line.stop]
    omega

theorem titleTokens_separate (kind : TokenKind) (word : Text) (line : Line) :
    (titleTokens kind word line).Pairwise Separate := by
  unfold titleTokens
  cases titled? word line.text with
  | none => exact .nil
  | some title => exact List.pairwise_singleton _ _

theorem comment_within {line : Line} {column : Nat} (found : Line.remarked? line.text = some column) :
    (ofPiece .comment (trimRight (line.text.drop column)) (line.start + column) none).Within
      line.start line.stop := by
  have kept := trimRight_length_le (line.text.drop column)
  have inside := Line.remarked_bounds found
  have head := Line.remarked_head found
  rw [List.length_drop] at kept
  -- the exclamation mark is not trimmed
  have positive : 0 < (trimRight (line.text.drop column)).length := by
    obtain ⟨rest, split⟩ := List.head?_eq_some_iff.mp head
    rw [split, trimRight_cons (by decide)]
    exact Nat.succ_pos _
  refine ⟨Nat.le_add_right _ _, Nat.lt_add_of_pos_right positive, ?_⟩
  rw [ofPiece_stop, Line.stop]
  omega

theorem regionWord_ne_nil : regionWord ≠ [] := by decide

theorem endRegionWord_ne_nil : endRegionWord ≠ [] := by decide

theorem lineTokens_within (line : Line) :
    ∀ token ∈ lineTokens line, token.Within line.start line.stop := by
  have read := Line.shape_spec line.text
  intro token member
  unfold lineTokens at member
  cases shape : Line.shape line.text with
  | comment column =>
    simp only [shape, List.mem_cons, List.mem_append] at member read
    rcases member with rfl | begins | ends
    · exact comment_within read
    · exact (titleTokens_within regionWord_ne_nil token begins).2
    · exact (titleTokens_within endRegionWord_ne_nil token ends).2
  | _ => simp [shape] at member

theorem lineTokens_separate (line : Line) : (lineTokens line).Pairwise Separate := by
  unfold lineTokens
  cases Line.shape line.text with
  | comment column =>
    refine List.pairwise_cons.mpr ⟨fun token member => separate_of_kind_ne ?_,
      List.pairwise_append.mpr ⟨titleTokens_separate _ _ line, titleTokens_separate _ _ line,
        fun a begins b ends => separate_of_kind_ne ?_⟩⟩
    · rcases List.mem_append.mp member with begins | ends
      · rw [(titleTokens_within regionWord_ne_nil token begins).1]
        simp
      · rw [(titleTokens_within endRegionWord_ne_nil token ends).1]
        simp
    · rw [(titleTokens_within regionWord_ne_nil a begins).1,
        (titleTokens_within endRegionWord_ne_nil b ends).1]
      decide
  | _ => exact .nil

end Marker
end Mapkeys
