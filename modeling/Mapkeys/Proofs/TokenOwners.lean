import Mapkeys.Document
import Mapkeys.Proofs.TokenPlaces

/-!
# Owners of tokens

Every token of a record names the record, and tokens outside the records name none.
-/

namespace Mapkeys

open Token

namespace Layout

variable {layout : Layout} {id : Text}

theorem lineTokens_record : ∀ token ∈ layout.lineTokens id, token.record = some id := by
  intro token member
  rcases List.mem_append.mp member with outer | inner
  · rcases List.mem_append.mp outer with head | escape
    · unfold headTokens at head
      split at head
      · simp only [List.mem_cons, List.not_mem_nil, or_false] at head
        rcases head with rfl | rfl <;> rfl
      · rw [List.mem_singleton.mp head]
        rfl
      · simp at head
    · unfold escapeTokens at escape
      split at escape
      · rw [List.mem_singleton.mp escape]
        rfl
      · simp at escape
  · unfold bodyTokens at inner
    split_ifs at inner
    · simp at inner
    · rw [List.mem_singleton.mp inner]
      rfl
    · obtain ⟨column, -, rfl⟩ := List.mem_map.mp inner
      rfl

theorem callTokens_record : ∀ token ∈ layout.callTokens id, token.record = some id := by
  intro token member
  unfold callTokens at member
  split_ifs at member
  · obtain ⟨call, -, rfl⟩ := List.mem_map.mp member
    rfl
  · simp at member

end Layout

theorem TagReading.tokens_record {reading : TagReading} {id : Text} :
    ∀ token ∈ reading.tokens id, token.record = some id := by
  intro token member
  rcases mem_tokens member with rfl | ⟨content, -, rfl⟩
  · rfl
  · rfl

theorem Record.tokens_owner {record : Record} :
    ∀ token ∈ record.tokens, token.record = some record.id := by
  intro token member
  rcases List.mem_append.mp ((sort_perm _).subset member) with others | call
  · rcases List.mem_append.mp others with own | tag
    · obtain ⟨layout, -, found⟩ := List.mem_flatMap.mp own
      exact Layout.lineTokens_record token found
    · obtain ⟨reading, -, found⟩ := List.mem_flatMap.mp tag
      exact TagReading.tokens_record token found
  · obtain ⟨layout, -, found⟩ := List.mem_flatMap.mp call
    exact Layout.callTokens_record token found

namespace Marker

theorem lineTokens_owner {line : Line} : ∀ token ∈ lineTokens line, token.record = none := by
  have title {kind : TokenKind} {word : Text} :
      ∀ token ∈ titleTokens kind word line, token.record = none := by
    intro token member
    unfold titleTokens at member
    split at member
    · rw [List.mem_singleton.mp member]
      rfl
    · simp at member
  intro token member
  unfold lineTokens at member
  split at member
  · rcases List.mem_cons.mp member with rfl | titled
    · rfl
    · rcases List.mem_append.mp titled with begins | ends
      · exact title token begins
      · exact title token ends
  · simp at member

theorem tokens_owner {lines : List Line} {records : List Record} :
    ∀ token ∈ tokens lines records, token.record = none := by
  intro token member
  obtain ⟨line, -, found⟩ := List.mem_flatMap.mp member
  exact lineTokens_owner token found

end Marker
end Mapkeys
