import Mapkeys.Session
import Mapkeys.Proofs.TokenNesting

/-!
# The innermost token

Tokens that cover one offset lie inside each other, so the narrowest of them lies inside all the
others. Asked for the token at an offset, a session answers with that one.
-/

namespace Mapkeys

namespace Token

/-- A token is the first of the least width. -/
def FirstNarrowest (tokens : List Token) (token : Token) : Prop :=
  ∃ before after, tokens = before ++ token :: after ∧
    (∀ other ∈ before, token.width < other.width) ∧ ∀ other ∈ after, token.width ≤ other.width

theorem FirstNarrowest.width_le {tokens : List Token} {token : Token}
    (first : FirstNarrowest tokens token) : ∀ other ∈ tokens, token.width ≤ other.width := by
  obtain ⟨before, after, rfl, wider, others⟩ := first
  intro other member
  rcases List.mem_append.mp member with earlier | later
  · exact Nat.le_of_lt (wider other earlier)
  · rcases List.mem_cons.mp later with rfl | further
    · exact Nat.le_refl _
    · exact others other further

theorem foldl_narrower (token : Token) (rest : List Token) :
    FirstNarrowest (token :: rest) (rest.foldl narrower token) := by
  induction rest generalizing token with
  | nil => exact ⟨[], [], rfl, by simp, by simp⟩
  | cons next rest ih =>
    rw [List.foldl_cons]
    by_cases narrows : next.width < token.width
    · rw [narrower, if_pos narrows]
      have least := (ih next).width_le next List.mem_cons_self
      obtain ⟨before, after, split, wider, others⟩ := ih next
      refine ⟨token :: before, after, by rw [split, List.cons_append], ?_, others⟩
      intro other member
      rcases List.mem_cons.mp member with rfl | earlier
      · exact Nat.lt_of_le_of_lt least narrows
      · exact wider other earlier
    · rw [narrower, if_neg narrows]
      obtain ⟨before, after, split, wider, others⟩ := ih token
      generalize rest.foldl narrower token = least at split wider others ⊢
      -- the token that was skipped stands behind the first one
      cases before with
      | nil =>
        obtain ⟨rfl, rfl⟩ := List.cons.inj split
        refine ⟨[], next :: rest, rfl, by simp, ?_⟩
        intro other member
        rcases List.mem_cons.mp member with rfl | later
        · omega
        · exact others other later
      | cons first before =>
        obtain ⟨rfl, rfl⟩ := List.cons.inj split
        refine ⟨token :: next :: before, after, rfl, ?_, others⟩
        have less := wider token List.mem_cons_self
        intro other member
        rcases List.mem_cons.mp member with rfl | later
        · exact less
        · rcases List.mem_cons.mp later with rfl | further
          · omega
          · exact wider other (List.mem_cons_of_mem token further)

theorem narrowest_eq_none_iff {tokens : List Token} : narrowest? tokens = none ↔ tokens = [] := by
  cases tokens with
  | nil => simp [narrowest?]
  | cons token rest => simp [narrowest?]

theorem narrowest_first {tokens : List Token} {token : Token} (found : narrowest? tokens = some token) :
    FirstNarrowest tokens token := by
  cases tokens with
  | nil => simp [narrowest?] at found
  | cons first rest =>
    simp only [narrowest?, Option.some.injEq] at found
    rw [← found]
    exact foldl_narrower first rest

theorem covers_iff {token : Token} {position : Int} :
    token.span.covers position = true ↔ token.start ≤ position ∧ position < token.stop := by
  unfold Span.covers
  rw [Bool.and_eq_true, decide_eq_true_iff, decide_eq_true_iff]
  exact Iff.rfl

theorem span_eq_iff {a b : Token} : a.span = b.span ↔ a.start = b.start ∧ a.stop = b.stop := by
  rw [span, span, Span.mk.injEq]
  omega

/-- Of nested tokens in order that cover one offset, the narrowest lies inside every other one, and
    among those in its place it has the first name. -/
theorem narrowest_inside {tokens : List Token} {position : Int} {token : Token}
    (sorted : tokens.Pairwise Precedes) (nested : ∀ a ∈ tokens, ∀ b ∈ tokens, Nested a b)
    (covering : ∀ a ∈ tokens, a.span.covers position = true) (found : narrowest? tokens = some token) :
    token ∈ tokens ∧ ∀ other ∈ tokens, Inside token other ∧
      (other.span = token.span → other ≠ token → token.kind.title < other.kind.title) := by
  have first := narrowest_first found
  have least := first.width_le
  obtain ⟨before, after, rfl, wider, -⟩ := first
  have own : token ∈ before ++ token :: after := by simp
  refine ⟨own, fun other member => ?_⟩
  have narrower := least other member
  have cover := covers_iff.mp (covering token own)
  have cover' := covers_iff.mp (covering other member)
  constructor
  · rcases nested token own other member with apart | inside | outside
    · unfold Apart at apart
      omega
    · exact inside
    · -- a token inside the narrowest one has its place
      unfold Inside width at *
      omega
  · intro place differs
    obtain ⟨start, stop⟩ := span_eq_iff.mp place
    rcases List.mem_append.mp member with earlier | later
    · have less := wider other earlier
      unfold width at less
      omega
    · rcases List.mem_cons.mp later with rfl | further
      · exact absurd rfl differs
      · have order := (List.pairwise_append.mp sorted).2.1
        rcases (List.pairwise_cons.mp order).1 other further with less | ⟨-, less | ⟨-, kind⟩⟩
        · omega
        · omega
        · exact kind

end Token

namespace Session

/-- A new session looks the position up in the document of the text. -/
theorem ask_tokenAt (files : FileTree) (config : Config) {text : Text} {position : Int}
    (inside : 0 ≤ position ∧ position ≤ text.length) :
    ((ask files (.tokenAt text position)).run (start config)).1 =
      .ok (.token ((Document.parse text).tokenAt position)) := by
  simp only [ask, locate, if_pos inside]
  rfl

end Session

namespace Document

open Token

theorem tokenAt_eq_none_iff {document : Document} {position : Int} :
    document.tokenAt position = none ↔
      ∀ token ∈ document.tokens, token.span.covers position = false := by
  unfold tokenAt
  rw [narrowest_eq_none_iff, List.filter_eq_nil_iff]
  simp

/-- Two tokens of a document stand apart or one lies inside the other. So the token at an offset is
    the innermost of those that cover the offset, and there is none only if no token covers it. -/
theorem tokenAt_innermost (text : Text) :
    (∀ a ∈ (parse text).tokens, ∀ b ∈ (parse text).tokens,
        Apart a b ∨ Inside a b ∨ Inside b a) ∧
      ∀ (files : FileTree) (config : Config) (position : Int),
        0 ≤ position ∧ position ≤ text.length →
        ∃ found, ((Session.ask files (.tokenAt text position)).run (Session.start config)).1 =
            .ok (.token found) ∧
          (found = none ↔ ∀ token ∈ (parse text).tokens, token.span.covers position = false) ∧
          ∀ token, found = some token →
            token ∈ (parse text).tokens ∧ token.span.covers position = true ∧
            ∀ other ∈ (parse text).tokens, other.span.covers position = true →
              Inside token other ∧
                (other.span = token.span → other ≠ token → token.kind.title < other.kind.title) := by
  refine ⟨tokens_nested text, fun files config position inside => ?_⟩
  refine ⟨_, Session.ask_tokenAt files config inside, tokenAt_eq_none_iff, fun token found => ?_⟩
  have sorted : (parse text).tokens.Pairwise Precedes :=
    sort_precedes (unsorted_separate text) (unsorted_nonempty text)
  have nested := tokens_nested text
  have covering : ∀ token ∈ (parse text).tokens.filter (·.span.covers position),
      token ∈ (parse text).tokens ∧ token.span.covers position = true :=
    fun _ member => List.mem_filter.mp member
  obtain ⟨own, inner⟩ := narrowest_inside (sorted.sublist List.filter_sublist)
    (fun a first b second => nested a (covering a first).1 b (covering b second).1)
    (fun a member => (covering a member).2) found
  refine ⟨(covering token own).1, (covering token own).2, fun other present covers => ?_⟩
  exact inner other (List.mem_filter.mpr ⟨present, covers⟩)

/-- A tag in a called name, both inside the content of another tag. -/
def calledTag : Text := "mapkey a @MAPKEY_LABEL %@SYSTEMx;".toList

/-- The tag is the innermost of the three tokens at its offset. -/
theorem calledTag_innermost :
    (0 ≤ (24 : Int) ∧ (24 : Int) ≤ calledTag.length) ∧
      ((Session.ask ⟨[], []⟩ (.tokenAt calledTag 24)).run (Session.start Config.default)).1 =
        .ok (.token (some ⟨.tag, "@SYSTEM".toList, 24, 31, some "mapkey_0_a".toList⟩)) ∧
      ∀ other ∈ (parse calledTag).tokens, other.span.covers 24 = true →
        other.start ≤ 24 ∧ 31 ≤ other.stop := by
  have inside : 0 ≤ (24 : Int) ∧ (24 : Int) ≤ calledTag.length := by decide
  have answer : ((Session.ask ⟨[], []⟩ (.tokenAt calledTag 24)).run (Session.start Config.default)).1 =
      .ok (.token (some ⟨.tag, "@SYSTEM".toList, 24, 31, some "mapkey_0_a".toList⟩)) := by
    decide +kernel
  refine ⟨inside, answer, fun other present covers => ?_⟩
  obtain ⟨found, same, -, inner⟩ :=
    (tokenAt_innermost calledTag).2 ⟨[], []⟩ Config.default 24 inside
  rw [answer, Except.ok.injEq, Session.Answer.token.injEq] at same
  exact ((inner _ same.symm).2.2 other present covers).1

end Document
end Mapkeys
