import Mapkeys.Proofs.Sorting
import Mapkeys.Token

/-!
# Order on tokens

Sorting keeps the tokens and lists them by start, stop and kind. Where tokens of one kind never
overlap and none is empty, no two of them are level.
-/

namespace Mapkeys

/-! ## Kinds -/

namespace TokenKind

theorem rank_injective {a b : TokenKind} (same : a.rank = b.rank) : a = b := by
  cases a <;> cases b <;> first | rfl | simp [rank] at same

/-- Ranks are places in the order of the names. -/
theorem title_lt_iff (a b : TokenKind) : a.title < b.title ↔ a.rank < b.rank := by
  cases a <;> cases b <;> decide

end TokenKind

/-! ## Tokens -/

namespace Token

@[simp] theorem ofPiece_kind (kind : TokenKind) (value : Text) (start : Nat) (record : Option Text) :
    (ofPiece kind value start record).kind = kind := rfl

@[simp] theorem ofPiece_start (kind : TokenKind) (value : Text) (start : Nat) (record : Option Text) :
    (ofPiece kind value start record).start = start := rfl

@[simp] theorem ofPiece_stop (kind : TokenKind) (value : Text) (start : Nat) (record : Option Text) :
    (ofPiece kind value start record).stop = start + value.length := rfl

theorem le_iff (a b : Token) :
    a.le b = true ↔ a.start < b.start ∨ a.start = b.start ∧
      (a.stop < b.stop ∨ a.stop = b.stop ∧ a.kind.rank ≤ b.kind.rank) := by
  unfold le
  split_ifs with starts stops
  · rw [decide_eq_true_iff]
    omega
  · rw [decide_eq_true_iff]
    omega
  · rw [decide_eq_true_iff]
    omega

theorem le_total (a b : Token) : a.le b = true ∨ b.le a = true := by
  rw [le_iff, le_iff]
  omega

theorem le_trans (a b c : Token) (first : a.le b = true) (second : b.le c = true) :
    a.le c = true := by
  rw [le_iff] at *
  omega

theorem sort_perm (tokens : List Token) : (sort tokens).Perm tokens := sortBy_perm le tokens

theorem sort_pairwise (tokens : List Token) : (sort tokens).Pairwise fun a b => a.le b = true :=
  sortBy_pairwise le_total le_trans tokens

theorem sort_sort (tokens : List Token) : sort (sort tokens) = sort tokens :=
  sortBy_eq_self (sort_pairwise tokens)

/-- The strict order of start, stop and name of the kind. -/
def Precedes (a b : Token) : Prop :=
  a.start < b.start ∨ a.start = b.start ∧
    (a.stop < b.stop ∨ a.stop = b.stop ∧ a.kind.title < b.kind.title)

/-- One token ends no later than the other one starts. -/
def Apart (a b : Token) : Prop := a.stop ≤ b.start ∨ b.stop ≤ a.start

theorem Apart.symm {a b : Token} (apart : Apart a b) : Apart b a := Or.symm apart

/-- Tokens of one kind are apart. -/
def Separate (a b : Token) : Prop := a.kind = b.kind → Apart a b

theorem Separate.symm {a b : Token} (separate : Separate a b) : Separate b a :=
  fun same => (separate same.symm).symm

instance : Std.Symm Separate := ⟨fun _ _ => Separate.symm⟩

theorem Apart.separate {a b : Token} (apart : Apart a b) : Separate a b := fun _ => apart

theorem separate_of_kind_ne {a b : Token} (differ : a.kind ≠ b.kind) : Separate a b :=
  fun same => absurd same differ

/-- A token lies between two offsets and covers at least one. -/
structure Within (low high : Nat) (token : Token) : Prop where
  low_le : low ≤ token.start
  start_lt : token.start < token.stop
  le_high : token.stop ≤ high

theorem Within.mono {low high low' high' : Nat} {token : Token} (within : Within low high token)
    (low_le : low' ≤ low) (le_high : high ≤ high') : Within low' high' token :=
  ⟨Nat.le_trans low_le within.low_le, within.start_lt, Nat.le_trans within.le_high le_high⟩

theorem Within.apart {low middle middle' high : Nat} {a b : Token} (first : Within low middle a)
    (second : Within middle' high b) (le : middle ≤ middle') : Apart a b :=
  .inl (Nat.le_trans first.le_high (Nat.le_trans le second.low_le))

theorem precedes_of_le {a b : Token} (before : a.le b = true) (separate : Separate a b)
    (some : b.start < b.stop) : Precedes a b := by
  rcases (le_iff a b).mp before with starts | ⟨starts, stops | ⟨stops, level⟩⟩
  · exact .inl starts
  · exact .inr ⟨starts, .inl stops⟩
  · refine .inr ⟨starts, .inr ⟨stops, (TokenKind.title_lt_iff _ _).mpr ?_⟩⟩
    refine Nat.lt_of_le_of_ne level fun same => ?_
    -- two tokens of one kind in one place would overlap
    rcases separate (TokenKind.rank_injective same) with apart | apart
    · omega
    · omega

/-- Tokens that are separate and not empty are listed in strict order. -/
theorem sort_precedes {tokens : List Token} (separate : tokens.Pairwise Separate)
    (some : ∀ token ∈ tokens, token.start < token.stop) : (sort tokens).Pairwise Precedes := by
  have kept : (sort tokens).Pairwise Separate :=
    ((sort_perm tokens).pairwise_iff Separate.symm).mpr separate
  refine ((sort_pairwise tokens).and kept).imp_of_mem fun {a b} _ second both => ?_
  exact precedes_of_le both.1 both.2 (some b ((sort_perm tokens).subset second))

theorem Precedes.le {a b : Token} (before : Precedes a b) : a.le b = true := by
  unfold Precedes at before
  rw [TokenKind.title_lt_iff] at before
  rw [le_iff]
  omega

theorem Precedes.not_le {a b : Token} (before : Precedes a b) : ¬ b.le a = true := by
  unfold Precedes at before
  rw [TokenKind.title_lt_iff] at before
  rw [le_iff]
  omega

/-- Tokens can be listed in strict order in one way only. -/
theorem eq_of_precedes {sorted listed : List Token} (same : sorted.Perm listed)
    (inOrder : sorted.Pairwise fun a b => a.le b = true) (strict : listed.Pairwise Precedes) :
    sorted = listed := by
  refine same.eq_of_pairwise ?_ inOrder (strict.imp Precedes.le)
  intro a b first second before after
  by_contra differ
  let Ordered : Token → Token → Prop := fun a b => Precedes a b ∨ Precedes b a
  have symmetric : Std.Symm Ordered := ⟨fun _ _ => Or.symm⟩
  have either : listed.Pairwise Ordered := strict.imp Or.inl
  rcases either.forall (same.subset first) second differ with less | greater
  · exact less.not_le after
  · exact greater.not_le before

theorem sort_eq {tokens listed : List Token} (perm : listed.Perm tokens)
    (strict : listed.Pairwise Precedes) : sort tokens = listed :=
  eq_of_precedes ((sort_perm tokens).trans perm.symm) (sort_pairwise tokens) strict

/-- Tokens that are picked out keep their own order. -/
theorem filter_sort {tokens listed : List Token} {keep : Token → Bool}
    (own : tokens.filter keep = listed) (strict : listed.Pairwise Precedes) :
    (sort tokens).filter keep = listed := by
  refine eq_of_precedes ?_ ((sort_pairwise tokens).filter _) strict
  rw [← own]
  exact (sort_perm tokens).filter _

end Token
end Mapkeys
