import Mapkeys.Proofs.Splitting
import Mapkeys.Text.Break

/-!
# Written lines

Lines that are written with a line feed after each of them are read back as they are, at the line
feeds (`pieces_written`) and at any line breaks (`brokenLines_written`), as long as none of them has
a break of its own. If each line tells what it stands for and where it ends, even the breaks in the
lines do no harm (`written_inj`). A number is read back from its digits (`ofNat_inj`).
-/

namespace Mapkeys.Text

/-- The lines, with a line feed after each of them. -/
def written (lines : List Text) : Text := lines.flatMap (· ++ ['\n'])

@[simp] theorem written_nil : written [] = [] := rfl

@[simp] theorem written_cons (line : Text) (rest : List Text) :
    written (line :: rest) = line ++ '\n' :: written rest := by
  simp [written]

@[simp] theorem written_append (lines others : List Text) :
    written (lines ++ others) = written lines ++ written others :=
  List.flatMap_append

theorem joinLines_feed {lines : List Text} (some : lines ≠ []) :
    joinLines lines ++ ['\n'] = written lines := by
  unfold joinLines
  induction lines with
  | nil => exact absurd rfl some
  | cons line rest ih =>
    cases rest with
    | nil => simp [join]
    | cons next others =>
      rw [written_cons, ← ih (by simp)]
      simp [join]

/-! ## Reading at line breaks -/

/-- Whether a text has no line break. -/
def Unbroken (t : Text) : Prop := ∀ c ∈ t, isBreak c = false

instance (t : Text) : Decidable (Unbroken t) :=
  decidable_of_iff (t.all (fun c => !isBreak c) = true) (by simp [Unbroken])

theorem Unbroken.flat {t : Text} (unbroken : Unbroken t) : '\n' ∉ t := by
  intro member
  have feed : isBreak '\n' = true := by decide
  rw [unbroken '\n' member] at feed
  cases feed

theorem Unbroken.append {a b : Text} (first : Unbroken a) (second : Unbroken b) :
    Unbroken (a ++ b) :=
  List.forall_mem_append.mpr ⟨first, second⟩

theorem pieces_written {lines : List Text} (flat : ∀ line ∈ lines, '\n' ∉ line) :
    Line.pieces (written lines) = lines := by
  induction lines with
  | nil => rfl
  | cons line rest ih =>
    obtain ⟨own, others⟩ := List.forall_mem_cons.mp flat
    rw [written_cons, Line.pieces_break own, ih others]

theorem brokenLines_cons {c : Char} (unbroken : isBreak c = false) (rest : Text) :
    brokenLines (c :: rest) =
      match brokenLines rest with
      | [] => [[c]]
      | first :: others => (c :: first) :: others := by
  have other : c ≠ '\r' := by
    rintro rfl
    revert unbroken
    decide
  rw [brokenLines]
  · exact if_neg (by simp [unbroken])
  · rintro others rfl
    exact absurd rfl other

theorem brokenLines_break {line : Text} (unbroken : Unbroken line) (rest : Text) :
    brokenLines (line ++ '\n' :: rest) = line :: brokenLines rest := by
  induction line with
  | nil => rfl
  | cons c letters ih =>
    obtain ⟨own, others⟩ := List.forall_mem_cons.mp unbroken
    rw [List.cons_append, brokenLines_cons own, ih others]

theorem brokenLines_written {lines : List Text} (unbroken : ∀ line ∈ lines, Unbroken line) :
    brokenLines (written lines) = lines := by
  induction lines with
  | nil => rfl
  | cons line rest ih =>
    obtain ⟨own, others⟩ := List.forall_mem_cons.mp unbroken
    rw [written_cons, brokenLines_break own, ih others]

/-- No piece between line breaks has one. -/
theorem unbroken_of_mem_brokenLines {t : Text} : ∀ line ∈ brokenLines t, Unbroken line := by
  fun_induction brokenLines t with
  | case1 => simp
  | case2 rest ih => exact List.forall_mem_cons.mpr ⟨by simp [Unbroken], ih⟩
  | case3 c rest _ broken ih => exact List.forall_mem_cons.mpr ⟨by simp [Unbroken], ih⟩
  | case4 c rest _ unbroken none ih =>
    simpa [Unbroken] using unbroken
  | case5 c rest _ unbroken first others parts ih =>
    rw [parts] at ih
    obtain ⟨own, later⟩ := List.forall_mem_cons.mp ih
    have first : Unbroken (c :: first) := List.forall_mem_cons.mpr ⟨by simpa using unbroken, own⟩
    exact List.forall_mem_cons.mpr ⟨first, later⟩

theorem mem_join {separator : Text} {parts : List Text} {c : Char}
    (member : c ∈ join separator parts) : c ∈ separator ∨ ∃ part ∈ parts, c ∈ part := by
  fun_induction join separator parts with
  | case1 => simp at member
  | case2 part => exact .inr ⟨part, by simp, member⟩
  | case3 part rest _ ih =>
    simp only [List.mem_append] at member
    rcases member with (own | between) | later
    · exact .inr ⟨part, by simp, own⟩
    · exact .inl between
    · rcases ih later with between | ⟨other, present, own⟩
      · exact .inl between
      · exact .inr ⟨other, List.mem_cons_of_mem part present, own⟩

/-! ## Reading line by line -/

/-- Lines that each tell what they stand for and where they end can be read one after the other, up
    to a character that no line begins with. -/
theorem written_inj {α β : Type} {write write' : α → Text} {read : α → β} {stop : Char}
    (tells : ∀ a b rest rest', write a ++ rest = write' b ++ rest' → read a = read b ∧ rest = rest')
    (starts : ∀ a rest, (write a ++ rest).head? ≠ some stop)
    (starts' : ∀ a rest, (write' a ++ rest).head? ≠ some stop)
    {items others : List α} {rest rest' : Text}
    (same : written (items.map write) ++ stop :: rest =
      written (others.map write') ++ stop :: rest') :
    items.map read = others.map read ∧ rest = rest' := by
  induction items generalizing others with
  | nil =>
    cases others with
    | nil => simpa using same
    | cons other more =>
      simp only [List.map_nil, List.map_cons, written_nil, written_cons, List.nil_append,
        List.append_assoc] at same
      exact absurd (congrArg List.head? same).symm (starts' other _)
  | cons item more ih =>
    cases others with
    | nil =>
      simp only [List.map_nil, List.map_cons, written_nil, written_cons, List.nil_append,
        List.append_assoc] at same
      exact absurd (congrArg List.head? same) (starts item _)
    | cons other later =>
      simp only [List.map_cons, written_cons, List.append_assoc] at same
      obtain ⟨own, same⟩ := tells _ _ _ _ same
      obtain ⟨others, after⟩ := ih (List.cons.inj same).2
      exact ⟨by rw [List.map_cons, List.map_cons, own, others], after⟩

/-! ## Numbers -/

theorem digit_of_mem_ofNat {n : Nat} : ∀ c ∈ ofNat n, c.isDigit = true :=
  fun _ member => Nat.isDigit_of_mem_toDigits (by decide) (by decide) member

theorem ofNat_inj {m n : Nat} (same : ofNat m = ofNat n) : m = n := by
  have numbers := congrArg (Nat.ofDigitChars 10 · 0) same
  rwa [ofNat, ofNat, Nat.ofDigitChars_ten_toDigits, Nat.ofDigitChars_ten_toDigits] at numbers

end Mapkeys.Text
