import Mapkeys.Record
import Mapkeys.Proofs.Flow

/-!
# Lines as they are usually written

A keyword, a space and a name, or the continuation marker, and after them a space and some words.
The words are the body of such a line, without the backslash that escapes it.
-/

namespace Mapkeys

open Text

namespace Text

/-- Whether a text ends in a backslash. -/
def endsEscaped (t : Text) : Bool := t.getLast? = some '\\'

/-- A text without the backslash at its end. -/
def withoutEscape (t : Text) : Text := if endsEscaped t then trimRight t.dropLast else t

theorem trimRight_escape (t : Text) : trimRight (t ++ ['\\']) = t ++ ['\\'] := by
  have backslash : trimRight ['\\'] = ['\\'] := by decide
  rw [trimRight_append, backslash, if_neg (by simp)]

/-- A text that is visible at both ends. -/
structure Solid (t : Text) : Prop where
  some : t ≠ []
  visible : ∀ c ∈ t.head?, isBlank c = false
  tight : trimRight t = t

theorem Solid.escape {t : Text} (solid : Solid t) : Solid (t ++ ['\\']) where
  some := by simp
  visible := by
    obtain ⟨c, rest, rfl⟩ := List.exists_cons_of_ne_nil solid.some
    exact solid.visible
  tight := trimRight_escape t

theorem endsEscaped_escape (t : Text) : endsEscaped (t ++ ['\\']) = true := by simp [endsEscaped]

theorem withoutEscape_escape {t : Text} (tight : trimRight t = t) :
    withoutEscape (t ++ ['\\']) = t := by
  rw [withoutEscape, endsEscaped_escape, if_pos rfl, List.dropLast_concat, tight]

theorem solid_join {words : List Text} (some : words ≠ []) (all : ∀ word ∈ words, IsWord word) :
    Solid (join [' '] words) where
  some empty := some ((join_eq_nil_iff fun word member => (all word member).some).mp empty)
  visible := by
    obtain ⟨word, rest, rfl⟩ := List.exists_cons_of_ne_nil some
    have own := all word List.mem_cons_self
    rw [join_begins own.some]
    exact fun c head => own.visible c (List.mem_of_mem_head? head)
  tight := trimRight_join all

end Text

namespace Line

/-! ## Shapes -/

theorem keyword_begins (t : Text) : (keyword ++ t).head? = some 'm' := rfl

theorem allBlank_keyword (t : Text) : allBlank (keyword ++ t) = false := rfl

/-- A declaration is read up to the end of its word. -/
theorem declared_plain {word after : Text} (some : word ≠ [])
    (all : ∀ c ∈ word, isNameChar c = true) (stops : ∀ c ∈ after.head?, isNameChar c = false) :
    declared? (keyword ++ ' ' :: (word ++ after)) =
      .some ⟨0, keyword.length + 1, nameOf word after⟩ := by
  have column : indent (keyword ++ ' ' :: (word ++ after)) = 0 :=
    indent_eq_zero (visible_head (keyword_begins _) (by decide))
  have starts := startsLike_append keyword (' ' :: (word ++ after)) (by decide)
  have gap : indent (' ' :: (word ++ after)) = 1 := by
    refine indent_space fun c head => ?_
    obtain ⟨d, letters, rfl⟩ := List.exists_cons_of_ne_nil some
    cases head
    have visible := all c List.mem_cons_self
    simp only [isNameChar, Bool.and_eq_true, Bool.not_eq_true'] at visible
    exact visible.1
  have name : (word ++ after).takeWhile isNameChar = word := by
    rw [List.takeWhile_append_of_pos all]
    cases after with
    | nil => simp
    | cons c rest => simp [stops c rfl]
  have from_name : (keyword ++ ' ' :: (word ++ after)).drop (keyword.length + 1) = word ++ after := by
    rw [← List.drop_drop, List.drop_left]
    rfl
  unfold declared?
  dsimp only
  rw [column, List.drop_zero, if_pos starts, List.drop_left, gap, Nat.zero_add, from_name, name,
    if_neg (by simp [some]), ← List.drop_drop, from_name, List.drop_left]

theorem shape_declared {t : Text} {head : Declared} (visible : allBlank t = false)
    (found : declared? t = some head) : shape t = .declaration head := by
  unfold shape
  simp only [visible, found, Bool.false_eq_true, if_false]

theorem marker_begins (t : Text) : (continuationMarker ++ t).head? = some 'm' := rfl

theorem shape_continued (t : Text) : shape (continuationMarker ++ t) = .continuation 0 := by
  have column : indent (continuationMarker ++ t) = 0 :=
    indent_eq_zero (visible_head (marker_begins _) (by decide))
  have starts := startsLike_append continuationMarker t (by decide)
  -- the keyword of the marker is followed by a bracket and not by a blank
  have bracket : ((continuationMarker ++ t).drop keyword.length).head? = some '(' := rfl
  have gap : indent ((continuationMarker ++ t).drop keyword.length) = 0 :=
    indent_eq_zero (visible_head bracket (by decide))
  have declaration : declared? (continuationMarker ++ t) = none := by
    unfold declared?
    simp [column, gap]
  have continuation : continued? (continuationMarker ++ t) = some 0 := by
    unfold continued?
    simp [column, starts]
  have visible : allBlank (continuationMarker ++ t) = false := rfl
  unfold shape
  simp only [visible, declaration, continuation, Bool.false_eq_true, if_false]

end Line

/-! ## Layouts -/

namespace Layout

theorem afterBlanks_visible {before rest : Text} (visible : ∀ c ∈ rest.head?, isBlank c = false) :
    afterBlanks (before ++ rest) before.length = before.length := by
  rw [afterBlanks, List.drop_left, indent_eq_zero visible]
  rfl

theorem afterBlanks_space {before rest : Text} (visible : ∀ c ∈ rest.head?, isBlank c = false) :
    afterBlanks (before ++ ' ' :: rest) before.length = before.length + 1 := by
  rw [afterBlanks, List.drop_left, indent_space visible]

theorem withBody_plain {line : Line} {before rest : Text} (text : line.text = before ++ rest)
    (solid : Solid rest) (head : LineHead) :
    (withBody line head before.length).body.text = withoutEscape rest ∧
      (withBody line head before.length).isEscaped = endsEscaped rest := by
  have content : trimRight line.text = before ++ rest := by
    rw [text, trimRight_append, solid.tight, if_neg solid.some]
  have last : (before ++ rest).getLast? = rest.getLast? :=
    List.getLast?_append_of_ne_nil _ solid.some
  have inside : before.length < (before ++ rest).length := by
    have positive := List.length_pos_iff.mpr solid.some
    rw [List.length_append]
    omega
  unfold withBody withoutEscape endsEscaped
  dsimp only
  rw [content, last]
  by_cases escaped : rest.getLast? = some '\\'
  · rw [if_pos ⟨escaped, inside⟩, List.dropLast_append_of_ne_nil solid.some,
      if_pos (by simp [escaped])]
    exact ⟨drop_trimRight_append before rest.dropLast, by simp [isEscaped, escaped]⟩
  · rw [if_neg (fun both => escaped both.1), if_neg (by simp [escaped])]
    exact ⟨List.drop_left, by simp [isEscaped, escaped]⟩

end Layout

theorem Line.isEscaped_plain {line : Line} {before rest : Text} (text : line.text = before ++ rest)
    (solid : Solid rest) : Line.isEscaped line.text = endsEscaped rest := by
  have last : (before ++ rest).getLast? = rest.getLast? :=
    List.getLast?_append_of_ne_nil _ solid.some
  unfold isEscaped endsWith endsEscaped
  rw [text, trimRight_append, solid.tight, if_neg solid.some, Bool.eq_iff_iff,
    List.isSuffixOf_iff_suffix, decide_eq_true_eq, ← last]
  exact List.singleton_suffix_iff_getLast?_eq_some

/-- A line that holds statements, its body and whether it is escaped. -/
structure Carries (line : Line) (body : Text) (isEscaped : Bool) : Prop where
  holds : (Layout.ofLine line).holdsStatements = true
  body : (Layout.ofLine line).body.text = body
  escape : (Layout.ofLine line).isEscaped = isEscaped
  ends : Line.isEscaped line.text = isEscaped

/-- A declaration whose body begins at a visible character. -/
theorem carries_of_declaration {line : Line} {head : Line.Declared} {before rest : Text}
    (shape : Line.shape line.text = .declaration head)
    (column : Layout.afterBlanks line.text (head.nameColumn + head.name.length) = before.length)
    (split : line.text = before ++ rest) (solid : Solid rest) :
    Carries line (withoutEscape rest) (endsEscaped rest) := by
  have layout : Layout.ofLine line = Layout.withBody line
      (.declaration (Layout.pieceAt line head.keywordColumn Line.keyword.length)
        ⟨line.start + head.nameColumn, head.name⟩) before.length := by
    unfold Layout.ofLine
    rw [shape]
    dsimp only
    rw [column]
  obtain ⟨body, escaped⟩ := Layout.withBody_plain split solid
    (.declaration (Layout.pieceAt line head.keywordColumn Line.keyword.length)
      ⟨line.start + head.nameColumn, head.name⟩)
  refine ⟨?_, by rw [layout, body], by rw [layout, escaped], Line.isEscaped_plain split solid⟩
  simp [layout, Layout.holdsStatements, Layout.kind, Layout.isRemark, LineKind.carriesStatements]

/-- The layout of a continuation with something after its marker; that is a remark if it begins with
    an exclamation mark. -/
theorem Layout.ofLine_continued {line : Line} {rest : Text}
    (text : line.text = Line.continuationMarker ++ ' ' :: rest) (solid : Solid rest) :
    Layout.ofLine line = Layout.withBody line
      (.continuation (Layout.pieceAt line 0 Line.continuationMarker.length) (rest.head? = some '!'))
        (Line.continuationMarker ++ [' ']).length := by
  have shape : Line.shape line.text = .continuation 0 := by rw [text, Line.shape_continued]
  have column : Layout.afterBlanks line.text (0 + Line.continuationMarker.length) =
      (Line.continuationMarker ++ [' ']).length := by
    rw [text, Nat.zero_add, Layout.afterBlanks_space solid.visible, List.length_append]
    rfl
  have body : line.text.drop (Line.continuationMarker ++ [' ']).length = rest := by
    have split : line.text = (Line.continuationMarker ++ [' ']) ++ rest := by simp [text]
    rw [split, List.drop_left]
  unfold Layout.ofLine
  rw [shape]
  dsimp only
  rw [column, body]

/-- A continuation with something after its marker that is no comment. -/
theorem carries_continuation {line : Line} {rest : Text}
    (text : line.text = Line.continuationMarker ++ ' ' :: rest) (solid : Solid rest)
    (plain : rest.head? ≠ some '!') :
    line.kind = .continuation ∧ Carries line (withoutEscape rest) (endsEscaped rest) := by
  have shape : Line.shape line.text = .continuation 0 := by rw [text, Line.shape_continued]
  have split : line.text = (Line.continuationMarker ++ [' ']) ++ rest := by simp [text]
  have layout := Layout.ofLine_continued text solid
  rw [decide_eq_false plain] at layout
  obtain ⟨body, escaped⟩ := Layout.withBody_plain split solid
    (.continuation (Layout.pieceAt line 0 Line.continuationMarker.length) false)
  refine ⟨by rw [Line.kind, Line.kindOf, shape]; rfl, ?_, by rw [layout, body],
    by rw [layout, escaped], Line.isEscaped_plain split solid⟩
  simp [layout, Layout.holdsStatements, Layout.kind, Layout.isRemark, LineKind.carriesStatements]

/-- A name that can be declared. -/
structure IsName (name : Text) : Prop where
  some : name ≠ []
  all : ∀ c ∈ name, Line.isNameChar c = true

section

variable {line : Line} {name : Text} (named : IsName name)

include named

/-- A declaration with something after its name. -/
theorem carries_declaration {rest : Text}
    (text : line.text = Line.keyword ++ ' ' :: (name ++ ' ' :: rest)) (solid : Solid rest) :
    Line.shape line.text = .declaration ⟨0, Line.keyword.length + 1, name⟩ ∧
      Carries line (withoutEscape rest) (endsEscaped rest) := by
  have after : allBlank (' ' :: rest) = false := by
    obtain ⟨c, others, rfl⟩ := List.exists_cons_of_ne_nil solid.some
    simp [allBlank, solid.visible c rfl]
  have own : Line.nameOf name (' ' :: rest) = name := by
    unfold Line.nameOf
    rw [if_neg (by simp [after])]
  have shape : Line.shape line.text = .declaration ⟨0, Line.keyword.length + 1, name⟩ := by
    refine Line.shape_declared (text ▸ Line.allBlank_keyword _) ?_
    rw [text, Line.declared_plain named.some named.all (by simp; decide), own]
  have length : Line.keyword.length + 1 + name.length = (Line.keyword ++ ' ' :: name).length := by
    rw [List.length_append, List.length_cons]
    omega
  have spelled : line.text = (Line.keyword ++ ' ' :: name) ++ ' ' :: rest := by simp [text]
  have split : line.text = (Line.keyword ++ ' ' :: name ++ [' ']) ++ rest := by simp [text]
  refine ⟨shape, carries_of_declaration shape ?_ split solid⟩
  rw [length, spelled, Layout.afterBlanks_space solid.visible]
  simp only [List.length_append, List.length_cons, List.length_nil]

/-- A declaration that is escaped right after its name. -/
theorem carries_name (text : line.text = Line.keyword ++ ' ' :: (name ++ ['\\'])) :
    Line.shape line.text = .declaration ⟨0, Line.keyword.length + 1, name⟩ ∧
      Carries line [] true := by
  have own : Line.nameOf (name ++ ['\\']) [] = name := by
    have positive := List.length_pos_iff.mpr named.some
    simp [Line.nameOf, allBlank, positive]
  have all : ∀ c ∈ name ++ ['\\'], Line.isNameChar c = true := by
    intro c member
    rcases List.mem_append.mp member with inner | last
    · exact named.all c inner
    · rw [List.mem_singleton.mp last]
      decide
  have shape : Line.shape line.text = .declaration ⟨0, Line.keyword.length + 1, name⟩ := by
    refine Line.shape_declared (text ▸ Line.allBlank_keyword _) ?_
    have found := Line.declared_plain (by simp) all (show ∀ c ∈ ([] : Text).head?, _ by simp)
    rw [List.append_nil] at found
    rw [text, found, own]
  have length : Line.keyword.length + 1 + name.length = (Line.keyword ++ ' ' :: name).length := by
    rw [List.length_append, List.length_cons]
    omega
  have split : line.text = (Line.keyword ++ ' ' :: name) ++ ['\\'] := by simp [text]
  have solid : Solid ['\\'] := ⟨by simp, visible_head rfl (by decide), by decide⟩
  refine ⟨shape, carries_of_declaration shape ?_ split solid⟩
  rw [length, split, Layout.afterBlanks_visible solid.visible]

end

end Mapkeys
