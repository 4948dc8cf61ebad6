import Mapkeys.Diagram.Dot
import Mapkeys.Proofs.GraphViews
import Mapkeys.Proofs.WrittenLines

/-!
# Reading DOT back

Between quotes every text is closed: it takes a reader to the quote behind it and no further
(`closed_escape`). So the lines of a diagram can be read from the left, each part up to its own
end, and no name can pass for something else. Diagrams that are drawn alike show the same names and
the same calls (`render_determines_diagram`).
-/

namespace Mapkeys.Diagram.Dot

open Text

/-! ## Texts between quotes -/

/-- What stands before the first quote, and what follows it. A backslash takes the character after
    it along, so that a quote there is none. -/
def untilQuote : Text → Option (Text × Text)
  | [] => none
  | '"' :: rest => some ([], rest)
  | '\\' :: taken :: rest =>
    (untilQuote rest).map fun read => ('\\' :: taken :: read.1, read.2)
  | c :: rest => (untilQuote rest).map fun read => (c :: read.1, read.2)

/-- The text that stands between quotes in an escaped form. -/
def unescape : Text → Text
  | [] => []
  | [c] => [c]
  | c :: d :: rest => if c = '\\' then d :: unescape rest else c :: unescape (d :: rest)

theorem unescape_cons {c : Char} (plain : c ≠ '\\') (rest : Text) :
    unescape (c :: rest) = c :: unescape rest := by
  cases rest with
  | nil => rfl
  | cons d others => rw [unescape, if_neg plain]

theorem unescape_escape (t : Text) : unescape (escape t) = t := by
  unfold escape
  induction t with
  | nil => rfl
  | cons c rest ih =>
    rw [List.flatMap_cons, escapeChar]
    split_ifs with special
    · simp [unescape, ih]
    · rw [List.singleton_append, unescape_cons (not_or.mp special).1, ih]

/-- Whether a text between quotes can be read without an end in it. -/
def Closed (t : Text) : Prop :=
  ∀ rest, untilQuote (t ++ rest) = (untilQuote rest).map fun read => (t ++ read.1, read.2)

theorem closed_nil : Closed [] := by
  intro rest
  simp

theorem Closed.append {a b : Text} (first : Closed a) (second : Closed b) : Closed (a ++ b) := by
  intro rest
  rw [List.append_assoc, first, second, Option.map_map]
  simp [Function.comp_def]

theorem closed_char {c : Char} (plain : c ≠ '\\' ∧ c ≠ '"') : Closed [c] := by
  intro rest
  rw [List.singleton_append, untilQuote]
  · rfl
  · exact plain.2
  · rintro taken others rfl
    exact absurd rfl plain.1

theorem closed_taken (c : Char) : Closed ['\\', c] := by
  intro rest
  rfl

/-- Whether a text has neither backslashes nor quotes. -/
def Plain (t : Text) : Prop := ∀ c ∈ t, c ≠ '\\' ∧ c ≠ '"'

instance (t : Text) : Decidable (Plain t) :=
  decidable_of_iff (t.all (fun c => c != '\\' && c != '"') = true) (by simp [Plain])

theorem closed_of_plain {t : Text} (plain : Plain t) : Closed t := by
  induction t with
  | nil => exact closed_nil
  | cons c rest ih =>
    obtain ⟨own, others⟩ := List.forall_mem_cons.mp plain
    exact (closed_char own).append (ih others)

theorem closed_escape (t : Text) : Closed (escape t) := by
  unfold escape
  induction t with
  | nil => exact closed_nil
  | cons c rest ih =>
    refine Closed.append ?_ ih
    unfold escapeChar
    split_ifs with special
    · exact closed_taken c
    · exact closed_char (not_or.mp special)

theorem Closed.untilQuote {t : Text} (closed : Closed t) (rest : Text) :
    untilQuote (t ++ '"' :: rest) = some (t, rest) := by
  rw [closed, Dot.untilQuote]
  simp

/-- A text in quotes ends where it does, whatever follows. -/
theorem quote_inj {a b rest rest' : Text} (first : Closed a) (second : Closed b)
    (same : quote a ++ rest = quote b ++ rest') : a = b ∧ rest = rest' := by
  simp only [quote, List.cons_append, List.append_assoc, List.nil_append, List.cons.injEq,
    true_and] at same
  have read := congrArg untilQuote same
  rw [first.untilQuote, second.untilQuote] at read
  simpa using read

theorem escape_inj {a b : Text} (same : escape a = escape b) : a = b := by
  have read := congrArg unescape same
  rwa [unescape_escape, unescape_escape] at read

/-! ## Lines of nodes -/

theorem plain_ofNat (n : Nat) : Plain (ofNat n) := by
  intro c member
  have digit := digit_of_mem_ofNat c member
  constructor
  all_goals
    rintro rfl
    revert digit
    decide

theorem plain_ofInt (n : Int) : Plain (ofInt n) := by
  cases n with
  | ofNat n => exact plain_ofNat n
  | negSucc n => exact List.forall_mem_cons.mpr ⟨by decide, plain_ofNat (n + 1)⟩

theorem closed_remark (limit : Int) (node : Node) : Closed (remark limit node) := by
  have depth : Closed ("\\n[DEPTH ".toList ++ ofNat (node.depth + 1) ++ " > ".toList ++
      ofInt limit ++ [']']) := by
    have opening : Closed "\\n[DEPTH ".toList :=
      (closed_taken 'n').append (closed_of_plain (t := "[DEPTH ".toList) (by decide))
    have number := opening.append (closed_of_plain (plain_ofNat (node.depth + 1)))
    have bound := (number.append (closed_of_plain (t := " > ".toList) (by decide))).append
      (closed_of_plain (plain_ofInt limit))
    exact bound.append (closed_of_plain (by decide))
  have undefined : Closed "\\n[UNDEFINED]".toList :=
    (closed_taken 'n').append (closed_of_plain (t := "[UNDEFINED]".toList) (by decide))
  unfold remark
  cases node.status with
  | defined => exact closed_nil
  | dangling => exact undefined
  | cyclic => exact closed_nil
  | violation => exact depth

theorem closed_styleOf (status : Status) : Closed (styleOf status).toList := by
  refine closed_of_plain ?_
  cases status <;> decide

theorem closed_color (status : Status) : Closed status.color.toList := by
  refine closed_of_plain ?_
  cases status <;> decide

theorem color_inj {a b : Status} (same : a.color.toList = b.color.toList) : a = b := by
  revert same
  cases a <;> cases b <;> decide

theorem shapeOf_inj {a b : Status} {rest rest' : Text}
    (same : (shapeOf a).toList ++ rest = (shapeOf b).toList ++ rest') : rest = rest' := by
  have first := congrArg List.head? same
  revert same first
  cases a <;> cases b <;> simp [shapeOf]

/-- The line of a node tells the name and the status of the node. -/
theorem nodeLine_inj {limit limit' : Int} {node other : Node} {rest rest' : Text}
    (same : nodeLine limit node ++ rest = nodeLine limit' other ++ rest') :
    (node.name, node.status) = (other.name, other.status) ∧ rest = rest' := by
  unfold nodeLine at same
  simp only [List.append_assoc] at same
  replace same := List.append_cancel_left same
  obtain ⟨name, same⟩ := quote_inj (closed_escape _) (closed_escape _) same
  replace same := List.append_cancel_left same
  obtain ⟨-, same⟩ := quote_inj ((closed_escape _).append (closed_remark limit node))
    ((closed_escape _).append (closed_remark limit' other)) same
  replace same := shapeOf_inj (List.append_cancel_left same)
  replace same := List.append_cancel_left same
  obtain ⟨-, same⟩ := quote_inj (closed_styleOf _) (closed_styleOf _) same
  replace same := List.append_cancel_left same
  obtain ⟨color, same⟩ := quote_inj (closed_color _) (closed_color _) same
  exact ⟨by rw [escape_inj name, color_inj color], List.append_cancel_left same⟩

/-! ## Lines of edges -/

/-- What the line of an edge says about the number of calls. -/
def countNote (count : Nat) : Text :=
  if 1 < count then ", label=".toList ++ quote ('x' :: ofNat count) else []

/-- What the line of an edge says about its style. -/
def styleNote (kind : EdgeKind) : Text := if kind = .dangling then ", style=dashed".toList else []

theorem join_edgeAttributes (edge : Edge) :
    join [',', ' '] (edgeAttributes edge) =
      "color=".toList ++ (quote edge.kind.color.toList ++ (countNote edge.count ++
        styleNote edge.kind)) := by
  unfold edgeAttributes countNote styleNote
  split_ifs
  all_goals simp [join]

theorem closed_edgeColor (kind : EdgeKind) : Closed kind.color.toList := by
  refine closed_of_plain ?_
  cases kind <;> decide

theorem edgeColor_inj {a b : EdgeKind} (same : a.color.toList = b.color.toList) : a = b := by
  revert same
  cases a <;> cases b <;> decide

theorem label_ne_styleNote (kind : EdgeKind) (rest rest' : Text) :
    ", label=".toList ++ rest ≠ styleNote kind ++ ("];".toList ++ rest') := by
  cases kind <;> simp [styleNote]

theorem countNote_inj {kind : EdgeKind} {count count' : Nat} {rest rest' : Text}
    (same : countNote count ++ (styleNote kind ++ ("];".toList ++ rest)) =
      countNote count' ++ (styleNote kind ++ ("];".toList ++ rest'))) :
    max 1 count = max 1 count' ∧ rest = rest' := by
  have closed (n : Nat) : Closed ('x' :: ofNat n) :=
    closed_of_plain (List.forall_mem_cons.mpr ⟨by decide, plain_ofNat n⟩)
  unfold countNote at same
  by_cases many : 1 < count
  · by_cases many' : 1 < count'
    · rw [if_pos many, if_pos many', List.append_assoc, List.append_assoc] at same
      obtain ⟨label, same⟩ := quote_inj (closed _) (closed _) (List.append_cancel_left same)
      replace same := List.append_cancel_left (List.append_cancel_left same)
      exact ⟨by rw [ofNat_inj (List.cons.inj label).2], same⟩
    · rw [if_pos many, if_neg many', List.append_assoc, List.nil_append] at same
      exact absurd same (label_ne_styleNote _ _ _)
  · by_cases many' : 1 < count'
    · rw [if_neg many, if_pos many', List.append_assoc, List.nil_append] at same
      exact absurd same.symm (label_ne_styleNote _ _ _)
    · rw [if_neg many, if_neg many', List.nil_append, List.nil_append] at same
      replace same := List.append_cancel_left (List.append_cancel_left same)
      exact ⟨by omega, same⟩

/-- The edge that a line shows: without a number of calls there is one. -/
def drawn (edge : Edge) : Edge := { edge with count := max 1 edge.count }

theorem edgeLine_inj {edge other : Edge} {rest rest' : Text}
    (same : edgeLine edge ++ rest = edgeLine other ++ rest') :
    drawn edge = drawn other ∧ rest = rest' := by
  unfold edgeLine at same
  simp only [join_edgeAttributes, List.append_assoc] at same
  replace same := List.append_cancel_left same
  obtain ⟨caller, same⟩ := quote_inj (closed_escape _) (closed_escape _) same
  replace same := List.append_cancel_left same
  obtain ⟨callee, same⟩ := quote_inj (closed_escape _) (closed_escape _) same
  replace same := List.append_cancel_left (List.append_cancel_left same)
  obtain ⟨color, same⟩ := quote_inj (closed_edgeColor _) (closed_edgeColor _) same
  have kind := edgeColor_inj color
  rw [kind] at same
  obtain ⟨count, same⟩ := countNote_inj same
  refine ⟨?_, same⟩
  unfold drawn
  rw [escape_inj caller, escape_inj callee, kind, count]

/-! ## Diagrams -/

theorem header_inj {title title' rest rest' : Text}
    (same : written (header title) ++ rest = written (header title') ++ rest') :
    title = title' ∧ rest = rest' := by
  unfold header at same
  simp only [written_cons, List.append_assoc, List.cons_append] at same
  replace same := (List.cons.inj (List.append_cancel_left same)).2
  obtain ⟨name, same⟩ := quote_inj (closed_escape _) (closed_escape _) (List.append_cancel_left same)
  exact ⟨escape_inj name, by simpa using same⟩

theorem render_eq (title : Text) (diagram : Diagram) :
    render title diagram = written (header title) ++
      (written (diagram.nodes.map (nodeLine diagram.limit)) ++ '\n' ::
        (written (diagram.edges.map edgeLine) ++ '\x7d' :: ['\n'])) := by
  have some : lines title diagram ≠ [] := by simp [lines]
  rw [render, joinLines_feed some, lines]
  simp

theorem nodeLine_starts (limit : Int) (node : Node) (rest : Text) :
    (nodeLine limit node ++ rest).head? ≠ some '\n' := by
  unfold nodeLine
  simp only [List.append_assoc]
  simp

theorem edgeLine_starts (edge : Edge) (rest : Text) :
    (edgeLine edge ++ rest).head? ≠ some '\x7d' := by
  unfold edgeLine
  simp only [List.append_assoc]
  simp

theorem render_inj {title title' : Text} {diagram other : Diagram}
    (same : render title diagram = render title' other) :
    title = title' ∧
      diagram.nodes.map (fun node => (node.name, node.status)) =
        other.nodes.map (fun node => (node.name, node.status)) ∧
      diagram.edges.map drawn = other.edges.map drawn := by
  rw [render_eq, render_eq] at same
  obtain ⟨titles, same⟩ := header_inj same
  obtain ⟨nodes, same⟩ := written_inj (fun _ _ _ _ => nodeLine_inj)
    (nodeLine_starts diagram.limit) (nodeLine_starts other.limit) same
  obtain ⟨edges, -⟩ := written_inj (fun _ _ _ _ => edgeLine_inj) edgeLine_starts edgeLine_starts same
  exact ⟨titles, nodes, edges⟩

/-- In the diagram of a graph every edge stands for at least one call. -/
theorem map_drawn (graph : CallGraph) (cycles : List (List Text)) (violations : List Violation)
    (limit : Int) :
    (ofGraph graph cycles violations limit).edges.map drawn =
      (ofGraph graph cycles violations limit).edges := by
  refine (List.map_congr_left fun edge member => ?_).trans (List.map_id _)
  have called := ((ofGraph_shows graph cycles violations limit).count edge member).2
  rw [drawn, max_eq_right called, id]

/-- Diagrams of graphs that are drawn alike have the same title, the same names with the same status
    and the same edges, in the same order, whatever characters the names have: a name in quotes is
    read up to the first quote that no backslash takes, and then it is the name that was written. -/
theorem render_determines_diagram (title title' : Text) (graph graph' : CallGraph)
    (cycles cycles' : List (List Text)) (violations violations' : List Violation)
    (limit limit' : Int) :
    (render title (ofGraph graph cycles violations limit) =
        render title' (ofGraph graph' cycles' violations' limit') →
      title = title' ∧
        (ofGraph graph cycles violations limit).nodes.map (fun node => (node.name, node.status)) =
          (ofGraph graph' cycles' violations' limit').nodes.map
            (fun node => (node.name, node.status)) ∧
        (ofGraph graph cycles violations limit).edges =
          (ofGraph graph' cycles' violations' limit').edges) ∧
      ∀ name rest : Text,
        untilQuote (escape name ++ '"' :: rest) = some (escape name, rest) ∧
          unescape (escape name) = name := by
  constructor
  · intro same
    obtain ⟨titles, nodes, edges⟩ := render_inj same
    rw [map_drawn, map_drawn] at edges
    exact ⟨titles, nodes, edges⟩
  · intro name rest
    exact ⟨(closed_escape name).untilQuote rest, unescape_escape name⟩

/-- A name that looks like an edge of its own, and ends in a backslash. -/
def disguised : CallGraph :=
  ⟨.first, [⟨"a\" -> \"b\\".toList, ["a\" -> \"b\\".toList, "c\n".toList, "c\n".toList]⟩]⟩

theorem disguised_same_names :
    render [] (ofGraph disguised [] [] 5) =
        render [] (ofGraph { disguised with policy := .all } [[]] [] 7) ∧
      (ofGraph disguised [] [] 5).nodes.map (fun node => (node.name, node.status)) =
        (ofGraph { disguised with policy := .all } [[]] [] 7).nodes.map
          (fun node => (node.name, node.status)) := by
  have same : render [] (ofGraph disguised [] [] 5) =
      render [] (ofGraph { disguised with policy := .all } [[]] [] 7) := by decide +kernel
  exact ⟨same, ((render_determines_diagram _ _ _ _ _ _ _ _ _ _).1 same).2.1⟩

end Mapkeys.Diagram.Dot
