import Mapkeys.Document
import Mapkeys.Proofs.FlowingLayouts
import Mapkeys.Proofs.FoldedTexts

/-!
# Folded records

Wherever a record is folded between its words, it gives one definition, and all foldings give
definitions that say the same (`folded_meaning`).
-/

namespace Mapkeys.Folding

open Text

/-! ## Lines that go on -/

/-- Lines whose bodies have the given texts, each going on to the next one, and whether the last
    one would go on. -/
structure Reads (lines : List Line) (bodies : List Text) (isOpen : Bool) : Prop where
  flowing : Layout.Flowing (lines.map Layout.ofLine)
  bodies : Layout.bodies (lines.map Layout.ofLine) = bodies
  last : lines.getLast?.map (fun line => (Layout.ofLine line).isEscaped) = some isOpen

namespace Reads

variable {line : Line} {lines : List Line} {bodies : List Text} {isOpen : Bool}

theorem single {body : Text} (carries : Carries line body isOpen) : Reads [line] [body] isOpen where
  flowing := ⟨by simpa using carries.holds, by simp⟩
  bodies := by simp [Layout.bodies, carries.body]
  last := by simp [carries.escape]

theorem ne_nil (reads : Reads lines bodies isOpen) : lines ≠ [] := by
  rintro rfl
  have last := reads.last
  simp at last

theorem cons {body : Text} (reads : Reads lines bodies isOpen) (carries : Carries line body true) :
    Reads (line :: lines) (body :: bodies) isOpen where
  flowing := by
    constructor
    · intro layout member
      rcases List.mem_cons.mp member with rfl | later
      · exact carries.holds
      · exact reads.flowing.holds layout later
    · intro layout member
      rw [List.map_cons, List.dropLast_cons_of_ne_nil (by simp [reads.ne_nil])] at member
      rcases List.mem_cons.mp member with rfl | later
      · exact carries.escape
      · exact reads.flowing.goes_on layout later
  bodies := by
    rw [List.map_cons, ← reads.bodies, ← carries.body]
    rfl
  last := by rw [List.getLast?_cons_of_ne_nil reads.ne_nil, reads.last]

theorem tail (reads : Reads (line :: lines) bodies isOpen) (some : lines ≠ []) :
    Reads lines bodies.tail isOpen where
  flowing := reads.flowing.tail
  bodies := by rw [← reads.bodies]; rfl
  last := by rw [← reads.last, List.getLast?_cons_of_ne_nil some]

/-- A record claims continuations that go on, and the one after them. -/
theorem claim (reads : Reads lines bodies isOpen)
    (kinds : ∀ line ∈ lines, line.kind = .continuation) (isEscaped : Bool) :
    Record.claim isEscaped lines = (lines, isOpen) := by
  induction lines generalizing bodies isEscaped with
  | nil => exact absurd rfl reads.ne_nil
  | cons line rest ih =>
    have own := kinds line List.mem_cons_self
    have follows : Record.canFollow line = true := by simp [Record.canFollow, own]
    have keeps : Record.keepsOpen line = (Layout.ofLine line).isEscaped := by
      simp [Record.keepsOpen, own]
    rw [Record.claim, if_pos follows, keeps]
    by_cases final : rest = []
    · subst final
      have last : (Layout.ofLine line).isEscaped = isOpen := by simpa using reads.last
      rw [last]
      cases isOpen with
      | true => rfl
      | false => rfl
    · have goes_on : (Layout.ofLine line).isEscaped = true := by
        refine reads.flowing.goes_on _ ?_
        rw [List.map_cons, List.dropLast_cons_of_ne_nil (by simp [final])]
        exact List.mem_cons_self
      rw [if_pos goes_on,
        ih (reads.tail final) fun next member => kinds next (List.mem_cons_of_mem line member)]

end Reads

/-! ## Lines of a sheet -/

section

variable {K : Prop} {line : Line} {head : Text} {words : List Text}
  (read : ∀ rest, Solid rest → rest.head? = (join [' '] words).head? →
    line.text = head ++ ' ' :: rest → K ∧ Carries line (withoutEscape rest) (endsEscaped rest))
  (some : words ≠ []) (all : ∀ word ∈ words, IsWord word)

include read some all

theorem carries_last (text : line.text = head ++ spread words) :
    K ∧ Carries line (join [' '] (strip words)) (lastEscaped words) := by
  rw [join_strip all, ← endsEscaped_join all]
  refine read _ (solid_join some all) rfl ?_
  rw [text, spread_eq some]

theorem carries_inner (text : line.text = head ++ spread words ++ ['\\']) :
    K ∧ Carries line (join [' '] words) true := by
  have solid := solid_join some all
  have carries := read (join [' '] words ++ ['\\']) solid.escape
    (List.head?_append_of_ne_nil _ solid.some) (by simp [text, spread_eq some])
  rwa [withoutEscape_escape solid.tight, endsEscaped_escape] at carries

end

theorem lastEscaped_append {rest : List Text} (some : rest ≠ []) (words : List Text) :
    lastEscaped (words ++ rest) = lastEscaped rest := by
  unfold lastEscaped
  rw [List.getLast?_append_of_ne_nil _ some]

/-- Words that can be written after a continuation marker. -/
def CanContinue (words : List Text) : Prop :=
  (∀ word ∈ words, IsWord word) ∧ ∃ word rest, words = word :: rest ∧ word.head? ≠ some '!'

theorem CanContinue.ne_nil {words : List Text} (can : CanContinue words) : words ≠ [] := by
  obtain ⟨-, word, rest, rfl, -⟩ := can
  simp

theorem CanContinue.carries {words : List Text} (can : CanContinue words) (line : Line) (rest : Text)
    (solid : Solid rest) (head : rest.head? = (join [' '] words).head?)
    (text : line.text = Line.continuationMarker ++ ' ' :: rest) :
    line.kind = .continuation ∧ Carries line (withoutEscape rest) (endsEscaped rest) := by
  obtain ⟨all, word, others, rfl, plain⟩ := can
  refine carries_continuation text solid ?_
  rwa [head, join_begins (all word List.mem_cons_self).some]

/-- The lines that follow the first one. -/
theorem reads_continued {lines : List Line} {here : List Text} {later : List (List Text)}
    (texts : lines.map Line.text = sheet Line.continuationMarker here later)
    (can : ∀ words ∈ here :: later, CanContinue words) :
    (∀ line ∈ lines, line.kind = .continuation) ∧
      Reads lines ((closing here later).map (join [' '])) (lastEscaped (here ++ later.flatten)) := by
  induction later generalizing here lines with
  | nil =>
    have own := can here List.mem_cons_self
    obtain ⟨line, rfl, text⟩ := List.map_eq_singleton_iff.mp texts
    obtain ⟨kind, carries⟩ := carries_last (own.carries line) own.ne_nil own.1 text
    rw [List.flatten_nil, List.append_nil]
    exact ⟨by simpa using kind, Reads.single carries⟩
  | cons next rest ih =>
    have own := can here List.mem_cons_self
    have others := fun words member => can words (List.mem_cons_of_mem here member)
    have some := (others next List.mem_cons_self).ne_nil
    obtain ⟨line, more, rfl, text, following⟩ := List.map_eq_cons_iff.mp texts
    obtain ⟨kind, carries⟩ := carries_inner (own.carries line) own.ne_nil own.1 text
    obtain ⟨kinds, reads⟩ := ih following others
    rw [List.flatten_cons, lastEscaped_append (by simp [some])]
    exact ⟨List.forall_mem_cons.mpr ⟨kind, kinds⟩, reads.cons carries⟩

/-- The lines of a record that is folded in any way. -/
theorem reads_sheet {name : Text} (named : IsName name) {lines : List Line} {here : List Text}
    {later : List (List Text)}
    (texts : lines.map Line.text = sheet (Line.keyword ++ ' ' :: name) here later)
    (some : later = [] → here ≠ []) (all : ∀ word ∈ here, IsWord word)
    (can : ∀ words ∈ later, CanContinue words) :
    ∃ declaration others, lines = declaration :: others ∧
      Line.shape declaration.text = .declaration ⟨0, Line.keyword.length + 1, name⟩ ∧
      Line.isEscaped declaration.text = (Layout.ofLine declaration).isEscaped ∧
      (∀ line ∈ others, line.kind = .continuation) ∧
      Reads lines ((closing here later).map (join [' '])) (lastEscaped (here ++ later.flatten)) := by
  have read (line : Line) (rest : Text) (solid : Solid rest)
      (_ : rest.head? = (join [' '] here).head?)
      (text : line.text = Line.keyword ++ ' ' :: name ++ ' ' :: rest) :
      Line.shape line.text = .declaration ⟨0, Line.keyword.length + 1, name⟩ ∧
        Carries line (withoutEscape rest) (endsEscaped rest) :=
    carries_declaration named (by simpa using text) solid
  cases later with
  | nil =>
    obtain ⟨line, rfl, text⟩ := List.map_eq_singleton_iff.mp texts
    obtain ⟨shape, carries⟩ := carries_last (read line) (some rfl) all text
    rw [List.flatten_nil, List.append_nil]
    exact ⟨line, [], rfl, shape, carries.ends.trans carries.escape.symm, by simp,
      Reads.single carries⟩
  | cons next rest =>
    obtain ⟨line, more, rfl, text, following⟩ := List.map_eq_cons_iff.mp texts
    obtain ⟨kinds, reads⟩ := reads_continued following can
    have next_some := (can next List.mem_cons_self).ne_nil
    rw [List.flatten_cons, lastEscaped_append (by simp [next_some])]
    -- the name can be followed by its escape at once
    have first : Line.shape line.text = .declaration ⟨0, Line.keyword.length + 1, name⟩ ∧
        Carries line (join [' '] here) true := by
      by_cases alone : here = []
      · subst alone
        exact carries_name named (by simpa [spread] using text)
      · exact carries_inner (read line) alone all text
    obtain ⟨shape, carries⟩ := first
    exact ⟨line, more, rfl, shape, carries.ends.trans carries.escape.symm, kinds,
      reads.cons carries⟩

/-! ## The record -/

/-- A declaration and the continuations that go on after it are one record. -/
theorem Reads.segment {declaration : Line} {others : List Line} {bodies : List Text} {isOpen : Bool}
    {head : Line.Declared} (reads : Reads (declaration :: others) bodies isOpen)
    (shape : Line.shape declaration.text = .declaration head)
    (escaped : Line.isEscaped declaration.text = (Layout.ofLine declaration).isEscaped)
    (kinds : ∀ line ∈ others, line.kind = .continuation) :
    Record.segment (declaration :: others) = [⟨head.name, declaration, others, !isOpen⟩] := by
  have none : Record.segment others = [] := by
    have follow : ∀ line ∈ others, Record.canFollow line = true := by
      intro line member
      simp [Record.canFollow, kinds line member]
    have skipped := Record.segment_append_of_canFollow follow []
    rwa [List.append_nil] at skipped
  have claimed : Record.claim (Line.isEscaped declaration.text) others = (others, isOpen) := by
    by_cases alone : others = []
    · subst alone
      have last : (Layout.ofLine declaration).isEscaped = isOpen := by simpa using reads.last
      rw [escaped, last]
      rfl
    · exact (reads.tail alone).claim kinds _
  rw [Record.segment, shape]
  simp only [Record.ofDeclaration, claimed, none]

section

variable {name : Text} {words : List (Bool × Text)} (named : IsName name) (some : words ≠ [])
  (all : ∀ word ∈ words, IsWord word.2)
  (plain : ∀ word ∈ words, word.1 = true → word.2.head? ≠ .some '!')

include all

theorem lineWords_isWord :
    ∀ line ∈ (lineWords words).1 :: (lineWords words).2, ∀ word ∈ line, IsWord word := by
  intro line present word own
  have member : word ∈ words.map Prod.snd := by
    rw [← lineWords_flatten, ← List.flatten_cons]
    exact List.mem_flatten.mpr ⟨line, present, own⟩
  obtain ⟨origin, there, rfl⟩ := List.mem_map.mp member
  exact all origin there

include plain in
theorem lineWords_canContinue : ∀ line ∈ (lineWords words).2, CanContinue line := by
  intro line later
  refine ⟨lineWords_isWord all line (List.mem_cons_of_mem _ later), ?_⟩
  obtain ⟨word, rest, spelled, present⟩ := lineWords_later line later
  exact ⟨word, rest, spelled, plain _ present rfl⟩

include named

theorem lines_folded : (Line.split (folded name words)).map Line.text =
    sheet (Line.keyword ++ ' ' :: name) (lineWords words).1 (lineWords words).2 := by
  have visible : ∀ c ∈ name, isBlank c = false := by
    intro c member
    have char := named.all c member
    simp only [Line.isNameChar, Bool.and_eq_true, Bool.not_eq_true'] at char
    exact char.1
  have flat {t : Text} (visible : ∀ c ∈ t, isBlank c = false) : '\n' ∉ t := by
    intro member
    exact absurd (visible _ member) (by decide)
  have keyword : '\n' ∉ Line.keyword := by decide
  have spelled : ∀ tail : Text, "mapkey ".toList ++ name ++ tail =
      (Line.keyword ++ ' ' :: name) ++ tail := by
    have start : "mapkey ".toList = Line.keyword ++ [' '] := by decide
    simp [start]
  have tight : trimRight (Line.keyword ++ ' ' :: name) = Line.keyword ++ ' ' :: name := by
    have split : Line.keyword ++ ' ' :: name = (Line.keyword ++ [' ']) ++ name := by simp
    rw [split, trimRight_append, trimRight_visible visible, if_neg named.some]
  have pieces := @pieces_folded words (Line.keyword ++ ' ' :: name) (by simp)
    (by simp [keyword, flat visible]) fun word member => flat (all word member).visible
  unfold Line.split folded
  rw [Line.number_text, spelled, pieces]
  refine (List.map_congr_left fun line member => ?_).trans (List.map_id _)
  exact Line.dropReturn_tight (sheet_tight tight (lineWords_isWord all) line member)

include some plain

/-- A record that is folded in any way is the only one of its text, and its words are read one
    after the other. -/
theorem record_folded : ∃ record, Record.segment (Line.split (folded name words)) = [record] ∧
    record.name = name ∧ record.terminated = !lastEscaped (words.map Prod.snd) ∧
    Layout.Flowing record.layouts ∧
    Alike (Layout.bodies record.layouts) (strip (words.map Prod.snd)) := by
  have flatten := lineWords_flatten words
  have good := lineWords_isWord all
  have can := lineWords_canContinue all plain
  have first : (lineWords words).2 = [] → (lineWords words).1 ≠ [] := by
    intro none empty
    rw [none, empty] at flatten
    exact some (List.map_eq_nil_iff.mp flatten.symm)
  obtain ⟨declaration, others, lines, shape, escaped, kinds, reads⟩ :=
    reads_sheet named (lines_folded named all) first (good _ List.mem_cons_self) can
  have alike := alike_joins (closing_words good)
  rw [closing_flatten fun line later => (can line later).ne_nil, flatten, ← reads.bodies] at alike
  rw [lines, flatten] at reads
  rw [lines] at alike ⊢
  exact ⟨_, reads.segment shape escaped kinds, rfl, rfl, reads.flowing, alike⟩

/-- What a folded record says depends on its words only. -/
theorem definition_folded : ∃ record,
    (Document.parse (folded name words)).definitions = [Definition.ofRecord record] ∧
      record.name = name ∧ record.terminated = !lastEscaped (words.map Prod.snd) ∧
      (∀ tag : Tag, (Token.first? tag.contentKind record.tokens).map Token.value =
        (tag.contents (strip (words.map Prod.snd))).findSome? Statement.said) ∧
      (Definition.ofRecord record).calledNames =
        (strip (words.map Prod.snd)).flatMap Text.calledNames := by
  obtain ⟨record, only, called, terminated, flowing, alike⟩ := record_folded named some all plain
  have ordered := Line.split_pairwise (folded name words)
  have own : record ∈ Record.segment (Line.split (folded name words)) := by simp [only]
  refine ⟨record, ?_, called, terminated, ?_, ?_⟩
  · unfold Document.parse
    simp [only]
  · intro tag
    rw [Record.text_ofRecord ordered own, text_flow flowing, alike.contents]
  · rw [Record.calledNames_ofRecord ordered own, ← alike.calls, Layout.bodies, List.flatMap_map]
    refine List.flatMap_congr fun layout member => ?_
    rw [Layout.calledNames, if_pos (flowing.holds layout member)]

end

/-- Folding does not change what a record says. A record on one line and the same record folded
    before any of its words each give one definition, and the two agree. No fold stands before a
    word that begins with an exclamation mark, as the rest of its line would be a comment. -/
theorem folded_meaning {name : Text} {words : List (Bool × Text)} (name_some : name ≠ [])
    (name_plain : ∀ c ∈ name, isBlank c = false ∧ c ≠ ';') (words_some : words ≠ [])
    (words_plain : ∀ word ∈ words, word.2 ≠ [] ∧ ∀ c ∈ word.2, isBlank c = false)
    (no_remark : ∀ word ∈ words, word.1 = true → word.2.head? ≠ some '!') :
    ∃ straight bent,
      (Document.parse (oneLine name (words.map Prod.snd))).definitions = [straight] ∧
      (Document.parse (folded name words)).definitions = [bent] ∧
      straight.name = name ∧ bent.name = straight.name ∧
      bent.description? = straight.description? ∧ bent.label? = straight.label? ∧
      bent.system? = straight.system? ∧ bent.calledNames = straight.calledNames ∧
      bent.record.terminated = straight.record.terminated := by
  have named : IsName name := by
    refine ⟨name_some, fun c member => ?_⟩
    simp [Line.isNameChar, name_plain c member]
  have all : ∀ word ∈ words, IsWord word.2 :=
    fun word member => ⟨(words_plain word member).1, (words_plain word member).2⟩
  have all' : ∀ word ∈ words.map (fun word => (false, word.2)), IsWord word.2 := by
    intro word member
    obtain ⟨origin, present, rfl⟩ := List.mem_map.mp member
    exact all origin present
  have unfolded : (words.map fun word => (false, word.2)).map Prod.snd = words.map Prod.snd := by
    rw [List.map_map]
    rfl
  obtain ⟨bent, only, called, ended, texts, calls⟩ :=
    definition_folded named words_some all no_remark
  obtain ⟨straight, only', called', ended', texts', calls'⟩ :=
    definition_folded named (by simpa using words_some) all' (by simp)
  rw [unfolded] at ended' texts' calls'
  rw [← oneLine_eq] at only'
  have same (tag : Tag) := (texts tag).trans (texts' tag).symm
  exact ⟨.ofRecord straight, .ofRecord bent, only', only, called', called.trans called'.symm,
    same .description, same .label, same .system, calls.trans calls'.symm,
    ended.trans ended'.symm⟩

/-- Words with backslashes before folds, before a semicolon and at the end. -/
def creased : List (Bool × Text) :=
  [(true, "@MAPKEY_LABEL".toList), (false, "x\\;".toList), (true, "y\\".toList), (true, ";".toList),
    (false, "%b;".toList), (true, "\\".toList)]

/-- Here the folded record says the same as that on one line. -/
theorem creased_meaning :
    (Document.parse (folded "a\\".toList creased)).definitions.map
        (fun bent => (bent.name, bent.label?, bent.calledNames, bent.record.terminated)) =
        [("a\\".toList, some "x; y\\".toList, ["b".toList], false)] ∧
      ∃ straight bent,
        (Document.parse (oneLine "a\\".toList (creased.map Prod.snd))).definitions = [straight] ∧
        (Document.parse (folded "a\\".toList creased)).definitions = [bent] ∧
        bent.name = straight.name ∧ bent.label? = straight.label? ∧
        bent.calledNames = straight.calledNames ∧
        bent.record.terminated = straight.record.terminated := by
  have letters : "a\\".toList.all (fun c => !isBlank c && c != ';') = true := by decide
  have words : creased.all (fun word => word.2 != [] && word.2.all fun c => !isBlank c) = true := by
    decide
  obtain ⟨straight, bent, only, only', -, names, -, labels, -, calls, ends⟩ :=
    @folded_meaning "a\\".toList creased (by decide)
      (fun c member => by simpa using List.all_eq_true.mp letters c member) (by decide)
      (fun word member => by simpa using List.all_eq_true.mp words word member) (by decide)
  refine ⟨by decide +kernel, ?_⟩
  exact ⟨straight, bent, only, only', names, labels, calls, ends⟩

end Mapkeys.Folding
