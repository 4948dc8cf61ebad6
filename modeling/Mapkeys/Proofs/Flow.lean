import Mapkeys.Proofs.DefinitionTexts
import Mapkeys.Proofs.StatementExtent

/-!
# Statements without their lines

What the bodies of lines say that go on to the next one: the statements that begin in them (`flow`),
the contents of their tags and the names they call. It does not matter where the lines are broken,
as a body of several words says what one body for each word says (`alike_joins`).
-/

namespace Mapkeys

namespace Text

/-! ## Texts with a space between them -/

/-- Two texts with a space between them, if neither is empty. -/
def spaced (a b : Text) : Text :=
  if a = [] then b else if b = [] then a else a ++ ' ' :: b

@[simp] theorem spaced_nil_left (b : Text) : spaced [] b = b := rfl

@[simp] theorem spaced_nil_right (a : Text) : spaced a [] = a := by
  by_cases empty : a = [] <;> simp [spaced, empty]

theorem spaced_assoc (a b c : Text) : spaced (spaced a b) c = spaced a (spaced b c) := by
  by_cases first : a = []
  · simp [first]
  · by_cases second : b = []
    · simp [second]
    · by_cases third : c = []
      · simp [third]
      · simp [spaced, first, second, third]

/-- A space between two texts is kept unless one of them is blank. -/
theorem trim_append_space {a b : Text} (right : trimRight a = a) (left : trimLeft b = b) :
    trim (a ++ ' ' :: b) = spaced (trim a) (trim b) := by
  have space : isBlank ' ' = true := by decide
  have second : trim b = trimRight b := by rw [trim_eq, left]
  by_cases empty : a = []
  · have start : trimLeft (' ' :: b) = b := by
      rw [trimLeft, List.dropWhile_cons_of_pos space]
      exact left
    rw [empty, List.nil_append, trim_eq, start, second]
    rfl
  · have some := trimLeft_ne_nil right empty
    have first : trimRight (trimLeft a) = trimLeft a := by rw [← trim_eq, trim, right]
    have start : trimLeft (a ++ ' ' :: b) = trimLeft a ++ ' ' :: b := by
      rw [trimLeft, List.dropWhile_append, ← trimLeft, if_neg (by rwa [List.isEmpty_iff])]
    rw [second, trim_eq, trim_eq, start, first, trimRight_append_space, first]
    by_cases blank : trimRight b = []
    · simp [blank]
    · simp [blank, spaced, some]

/-! ## Terminators -/

theorem terminators_append_space (a b : Text) :
    terminators 0 false (a ++ ' ' :: b) =
      terminators 0 false a ++ (terminators 0 false b).map (· + (a.length + 1)) := by
  have space (column : Nat) (escaped : Bool) :
      terminators column escaped (' ' :: b) = terminators (column + 1) false b := by
    simp [terminators]
  rw [terminators_append, space, ← terminators_add]
  rfl

theorem terminator_append_space_of_some {a : Text} {place : Nat} (found : terminator? a = some place)
    (b : Text) : terminator? (a ++ ' ' :: b) = some place := by
  unfold terminator? at *
  rw [terminators_append_space, List.head?_append, found]
  rfl

theorem terminator_append_space_of_none {a : Text} (none : terminator? a = none) (b : Text) :
    terminator? (a ++ ' ' :: b) = (terminator? b).map (· + (a.length + 1)) := by
  unfold terminator? at *
  rw [terminators_append_space, List.head?_append, none, List.head?_map]
  rfl

end Text

/-! ## Statements -/

namespace Statement

open Text

/-- What a statement says that begins at a column of the first one of the bodies. -/
def flow (column : Nat) : List Text → Text
  | [] => []
  | body :: rest =>
    match terminator? (body.drop column) with
    | some length => trim ((body.drop column).take length)
    | none => spaced (trim (body.drop column)) (flow 0 rest)

section

variable {column : Nat} {body : Text} {rest : List Text}

theorem flow_terminated {length : Nat} (ends : terminator? (body.drop column) = some length) :
    flow column (body :: rest) = trim ((body.drop column).take length) := by
  rw [flow, ends]

theorem flow_goes_on (goes_on : terminator? (body.drop column) = none) :
    flow column (body :: rest) = spaced (trim (body.drop column)) (flow 0 rest) := by
  rw [flow, goes_on]

end

theorem flow_congr {rest rest' : List Text} (same : flow 0 rest = flow 0 rest') (column : Nat)
    (body : Text) : flow column (body :: rest) = flow column (body :: rest') := by
  rw [flow, flow, same]

theorem flow_beyond (a b : Text) (column : Nat) (rest : List Text) :
    flow (a.length + 1 + column) ((a ++ ' ' :: b) :: rest) = flow column (b :: rest) := by
  have drop : (a ++ ' ' :: b).drop (a.length + 1 + column) = b.drop column := by
    rw [Nat.add_assoc, ← List.drop_drop, List.drop_left, Nat.add_comm 1, List.drop_succ_cons]
  rw [flow, flow, drop]

/-- A body can be cut in two at a space. -/
theorem flow_cut {a b : Text} (right : trimRight a = a) (left : trimLeft b = b) {column : Nat}
    (inside : column ≤ a.length) (rest : List Text) :
    flow column ((a ++ ' ' :: b) :: rest) = flow column (a :: b :: rest) := by
  have tight := trimRight_drop right column
  have drop : (a ++ ' ' :: b).drop column = a.drop column ++ ' ' :: b :=
    List.drop_append_of_le_length inside
  cases ends : terminator? (a.drop column) with
  | some length =>
    have before := terminator_lt ends
    rw [flow_terminated ends, flow_terminated (drop ▸ terminator_append_space_of_some ends b), drop,
      List.take_append_of_le_length (Nat.le_of_lt before)]
  | none =>
    -- the second part is read afresh, as a space and no backslash stands before it
    have later := terminator_append_space_of_none ends b
    rw [flow_goes_on ends]
    cases ends' : terminator? b with
    | some length =>
      rw [ends', Option.map_some, ← drop] at later
      have taken : (a.drop column ++ ' ' :: b).take (length + ((a.drop column).length + 1)) =
          a.drop column ++ ' ' :: b.take length := by
        rw [Nat.add_comm, List.take_append, List.take_of_length_le (by omega)]
        congr 1
        rw [show (a.drop column).length + 1 + length - (a.drop column).length = length + 1 by omega]
        rfl
      have second : flow 0 (b :: rest) = trim (b.take length) :=
        flow_terminated (by simpa using ends')
      rw [flow_terminated later, drop, taken, second,
        trim_append_space tight (trimLeft_take left length)]
    | none =>
      rw [ends', Option.map_none, ← drop] at later
      have second : flow 0 (b :: rest) = spaced (trim b) (flow 0 rest) :=
        flow_goes_on (by simpa using ends')
      rw [flow_goes_on later, drop, second, trim_append_space tight left, spaced_assoc]

end Statement

/-! ## Tags and calls -/

namespace Tag

open Text

theorem marker_begins_append_space (tag : Tag) (t rest : Text) :
    tag.marker <+: t ++ ' ' :: rest ↔ tag.marker <+: t := by
  have plain : ' ' ∉ tag.marker := by cases tag <;> decide
  have split : t ++ ' ' :: rest = (t ++ [' ']) ++ rest := by simp
  rw [split]
  constructor
  · intro begins
    rcases List.prefix_or_prefix_of_prefix begins (List.prefix_append _ _) with inside | beyond
    · rcases List.prefix_concat_iff.mp inside with whole | before
      · exact absurd (by simp [whole]) plain
      · exact before
    · exact absurd (beyond.subset (by simp)) plain
  · intro begins
    exact (begins.trans (List.prefix_append _ _)).trans (List.prefix_append _ _)

theorem at_append_space (t rest : Text) : at? (t ++ ' ' :: rest) = at? t := by
  have same : (fun tag : Tag => beginsWith (t ++ ' ' :: rest) tag.marker) =
      fun tag => beginsWith t tag.marker := by
    funext tag
    unfold beginsWith
    rw [Bool.eq_iff_iff, List.isPrefixOf_iff_prefix, List.isPrefixOf_iff_prefix]
    exact marker_begins_append_space tag t rest
  unfold at?
  rw [same]

theorem scan_cut (column : Nat) (a b : Text) :
    scan column (a ++ ' ' :: b) = scan column a ++ scan (column + (a.length + 1)) b := by
  induction a generalizing column with
  | nil =>
    have here : at? (' ' :: b) = none := at_eq_none (by decide) b
    simp [scan, here]
  | cons c rest ih =>
    have here : at? (c :: (rest ++ ' ' :: b)) = at? (c :: rest) := at_append_space (c :: rest) b
    have next : column + 1 + (rest.length + 1) = column + ((c :: rest).length + 1) := by
      rw [List.length_cons]
      omega
    rw [List.cons_append, scan, scan, here, ih, next]
    cases at? (c :: rest) with
    | none => rfl
    | some tag => rfl

theorem scan_add (column shift : Nat) (t : Text) :
    scan (column + shift) t = (scan column t).map fun found => (found.1 + shift, found.2) := by
  induction t generalizing column with
  | nil => rfl
  | cons c rest ih =>
    rw [scan, scan, Nat.add_right_comm, ih]
    cases at? (c :: rest) with
    | none => rfl
    | some tag => rfl

/-- What the places of a tag in the bodies introduce, one after the other. -/
def contents (tag : Tag) : List Text → List Text
  | [] => []
  | body :: rest =>
    ((scan 0 body).filter (·.2 = tag)).map
        (fun found => Statement.flow (found.1 + tag.marker.length) (body :: rest))
      ++ contents tag rest

theorem contents_cut {a b : Text} (right : trimRight a = a) (left : trimLeft b = b) (tag : Tag)
    (rest : List Text) :
    contents tag ((a ++ ' ' :: b) :: rest) = contents tag (a :: b :: rest) := by
  rw [contents, contents, contents, scan_cut, scan_add, List.filter_append, List.map_append,
    List.append_assoc, List.filter_map, List.map_map]
  congr 1
  · refine List.map_congr_left fun found member => ?_
    obtain ⟨present, same⟩ := List.mem_filter.mp member
    rw [decide_eq_true_eq] at same
    have bounds := scan_bounds found present
    rw [same] at bounds
    exact Statement.flow_cut right left (by omega) rest
  · congr 1
    refine List.map_congr_left fun found _ => ?_
    rw [Function.comp, ← Statement.flow_beyond a b]
    congr 1
    omega

end Tag

namespace Text

theorem calls_snd (column : Nat) (t : Text) : (calls column t).map Prod.snd = calledNames t := by
  suffices same : ∀ column other,
      (calls column t).map Prod.snd = (calls other t).map Prod.snd from same column 0
  induction t with
  | nil => exact fun _ _ => rfl
  | cons c rest ih =>
    intro column other
    rw [calls, calls]
    split_ifs
    · rw [List.map_cons, List.map_cons, ih _ (other + 1)]
    · exact ih _ _

theorem takeWhile_append_space {p : Char → Bool} (stops : p ' ' = false) (a b : Text) :
    (a ++ ' ' :: b).takeWhile p = a.takeWhile p := by
  rw [List.takeWhile_append]
  split_ifs with whole
  · rw [List.takeWhile_cons_of_neg (by simp [stops]), List.append_nil]
    exact ((List.takeWhile_prefix p).eq_of_length whole).symm
  · rfl

theorem calledNames_cut (a b : Text) :
    calledNames (a ++ ' ' :: b) = calledNames a ++ calledNames b := by
  suffices cut : ∀ column, (calls column (a ++ ' ' :: b)).map Prod.snd =
      (calls column a).map Prod.snd ++ calledNames b from cut 0
  induction a with
  | nil =>
    intro column
    simp [calls, calls_snd]
  | cons c rest ih =>
    intro column
    have name := takeWhile_append_space (show isCallChar ' ' = false by decide) rest b
    have fits : (rest.takeWhile isCallChar).length ≤ rest.length :=
      (List.takeWhile_prefix isCallChar).length_le
    have after : ((rest ++ ' ' :: b).drop (rest.takeWhile isCallChar).length).head? = some ';' ↔
        (rest.drop (rest.takeWhile isCallChar).length).head? = some ';' := by
      rw [List.drop_append_of_le_length fits]
      cases rest.drop (rest.takeWhile isCallChar).length with
      | nil => simp
      | cons d others => simp
    rw [List.cons_append, calls, calls, name]
    simp only [after]
    split_ifs
    · rw [List.map_cons, List.map_cons, ih, List.cons_append]
    · exact ih _

end Text

/-! ## Bodies that say the same -/

/-- Bodies that give the same statements, contents and calls. -/
structure Alike (bodies others : List Text) : Prop where
  flow : Statement.flow 0 bodies = Statement.flow 0 others
  contents : ∀ tag : Tag, tag.contents bodies = tag.contents others
  calls : bodies.flatMap Text.calledNames = others.flatMap Text.calledNames

namespace Alike

open Text

theorem refl (bodies : List Text) : Alike bodies bodies := ⟨rfl, fun _ => rfl, rfl⟩

theorem trans {a b c : List Text} (first : Alike a b) (second : Alike b c) : Alike a c :=
  ⟨first.flow.trans second.flow, fun tag => (first.contents tag).trans (second.contents tag),
    first.calls.trans second.calls⟩

theorem cons {bodies others : List Text} (same : Alike bodies others) (body : Text) :
    Alike (body :: bodies) (body :: others) where
  flow := Statement.flow_congr same.flow 0 body
  contents tag := by
    rw [Tag.contents, Tag.contents, same.contents tag]
    congr 2
    funext found
    exact Statement.flow_congr same.flow _ body
  calls := by rw [List.flatMap_cons, List.flatMap_cons, same.calls]

theorem append_left {bodies others : List Text} (same : Alike bodies others) (before : List Text) :
    Alike (before ++ bodies) (before ++ others) := by
  induction before with
  | nil => exact same
  | cons body rest ih => exact ih.cons body

theorem empty (rest : List Text) : Alike ([] :: rest) rest := ⟨rfl, fun _ => rfl, rfl⟩

theorem cut {a b : Text} (right : trimRight a = a) (left : trimLeft b = b) (rest : List Text) :
    Alike ((a ++ ' ' :: b) :: rest) (a :: b :: rest) where
  flow := Statement.flow_cut right left (Nat.zero_le _) rest
  contents tag := Tag.contents_cut right left tag rest
  calls := by
    rw [List.flatMap_cons, List.flatMap_cons, List.flatMap_cons, calledNames_cut, List.append_assoc]

end Alike

/-! ## Words -/

/-- Some text without blanks. -/
structure IsWord (word : Text) : Prop where
  some : word ≠ []
  visible : ∀ c ∈ word, Text.isBlank c = false

namespace Text

theorem join_cons {words : List Text} (some : words ≠ []) (word : Text) :
    join [' '] (word :: words) = word ++ ' ' :: join [' '] words := by
  obtain ⟨next, rest, rfl⟩ := List.exists_cons_of_ne_nil some
  simp [join]

theorem join_eq_nil_iff {words : List Text} (nonempty : ∀ word ∈ words, word ≠ []) :
    join [' '] words = [] ↔ words = [] := by
  cases words with
  | nil => simp [join]
  | cons word rest =>
    have some := nonempty word List.mem_cons_self
    cases rest with
    | nil => simp [join, some]
    | cons next others => simp [join, some]

theorem join_begins {word : Text} (some : word ≠ []) (words : List Text) :
    (join [' '] (word :: words)).head? = word.head? := by
  obtain ⟨c, letters, rfl⟩ := List.exists_cons_of_ne_nil some
  cases words with
  | nil => rfl
  | cons next others => simp [join]

theorem trimLeft_join {words : List Text} (all : ∀ word ∈ words, IsWord word) :
    trimLeft (join [' '] words) = join [' '] words := by
  cases words with
  | nil => rfl
  | cons word rest =>
    have own := all word List.mem_cons_self
    have head := join_begins own.some rest
    obtain ⟨c, letters, rfl⟩ := List.exists_cons_of_ne_nil own.some
    obtain ⟨others, spelled⟩ := List.head?_eq_some_iff.mp head
    have visible := own.visible c List.mem_cons_self
    rw [spelled, trimLeft, List.dropWhile_cons_of_neg (by simp [visible])]

theorem trimRight_join {words : List Text} (all : ∀ word ∈ words, IsWord word) :
    trimRight (join [' '] words) = join [' '] words := by
  induction words with
  | nil => rfl
  | cons word rest ih =>
    obtain ⟨own, others⟩ := List.forall_mem_cons.mp all
    by_cases last : rest = []
    · subst last
      exact trimRight_visible own.visible
    · have tail := ih others
      have some : join [' '] rest ≠ [] :=
        fun empty => last ((join_eq_nil_iff fun next member => (others next member).some).mp empty)
      have split : join [' '] (word :: rest) = (word ++ [' ']) ++ join [' '] rest := by
        rw [join_cons last]
        simp
      rw [split, trimRight_append, tail, if_neg some]

end Text

/-- A body of words says what one body for each word says. -/
theorem alike_join {words : List Text} (all : ∀ word ∈ words, IsWord word) (rest : List Text) :
    Alike (Text.join [' '] words :: rest) (words ++ rest) := by
  induction words with
  | nil => exact Alike.empty rest
  | cons word more ih =>
    obtain ⟨own, others⟩ := List.forall_mem_cons.mp all
    by_cases last : more = []
    · subst last
      exact Alike.refl _
    · rw [Text.join_cons last]
      refine (Alike.cut (Text.trimRight_visible own.visible) (Text.trimLeft_join others) rest).trans ?_
      exact (ih others).cons word

/-- Where the lines are broken does not matter. -/
theorem alike_joins {groups : List (List Text)}
    (all : ∀ words ∈ groups, ∀ word ∈ words, IsWord word) :
    Alike (groups.map (Text.join [' '])) groups.flatten := by
  induction groups with
  | nil => exact Alike.refl []
  | cons words rest ih =>
    rw [List.map_cons, List.flatten_cons]
    refine (alike_join (all words List.mem_cons_self) _).trans ?_
    exact (ih fun group member => all group (List.mem_cons_of_mem words member)).append_left words

end Mapkeys
