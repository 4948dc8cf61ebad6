import Mapkeys.Diagram.Mermaid
import Mapkeys.Proofs.GraphViews
import Mapkeys.Proofs.Segments
import Mapkeys.Proofs.WrittenLines

/-!
# Flowcharts

The flowchart of a graph is well formed whatever characters the names have. Every name that a line
asks for has an identifier, no two names share one, no label breaks a line or closes its quotes, and
every edge joins the identifiers of its own two names (`render_wellFormed`).
-/

namespace Mapkeys.Diagram.Mermaid

open Text

/-! ## Diagrams that can be drawn -/

/-- Each name has one node, and the ends of each edge are among the nodes. -/
structure Coherent (diagram : Diagram) : Prop where
  nodup : (diagram.nodes.map Node.name).Nodup
  caller : ∀ edge ∈ diagram.edges, edge.caller ∈ diagram.nodes.map Node.name
  callee : ∀ edge ∈ diagram.edges, edge.callee ∈ diagram.nodes.map Node.name

theorem ofGraph_coherent (graph : CallGraph) (cycles : List (List Text))
    (violations : List Violation) (limit : Int) :
    Coherent (ofGraph graph cycles violations limit) := by
  have shows := ofGraph_shows graph cycles violations limit
  have calls : ∀ edge ∈ (ofGraph graph cycles violations limit).edges,
      graph.Calls edge.caller edge.callee := by
    intro edge member
    rw [← CallGraph.mem_edges, ← shows.edges]
    exact List.mem_map_of_mem (f := fun edge : Edge => (edge.caller, edge.callee)) member
  refine ⟨?_, ?_, ?_⟩
  all_goals rw [shows.nodes]
  · exact graph.nodup_vertices
  · intro edge member
    exact CallGraph.mem_vertices_of_defined graph _ (CallGraph.defined_of_calls (calls edge member))
  · intro edge member
    exact CallGraph.mem_vertices_of_called (calls edge member)

/-! ## Identifiers -/

/-- The form of identifiers: a number, and a word of ASCII letters, digits and underscores. -/
def IsIdentifier (t : Text) : Prop :=
  ∃ digits word, t = 'n' :: (digits ++ '_' :: word) ∧ digits ≠ [] ∧
    (∀ c ∈ digits, c.isDigit = true) ∧ ∀ c ∈ word, c.isAlphanum = true ∨ c = '_'

theorem identifierChar_word (c : Char) :
    (identifierChar c).isAlphanum = true ∨ identifierChar c = '_' := by
  unfold identifierChar
  split_ifs with word
  · simpa using word
  · exact .inr rfl

theorem identifier_eq (place : Nat) (name : Text) :
    identifier place name = 'n' :: (ofNat place ++ '_' :: name.map identifierChar) := by
  simp [identifier]

theorem identifier_isIdentifier (place : Nat) (name : Text) :
    IsIdentifier (identifier place name) := by
  refine ⟨ofNat place, name.map identifierChar, identifier_eq place name, ?_, ?_, ?_⟩
  · exact Nat.toDigits_ne_nil
  · exact digit_of_mem_ofNat
  · intro c member
    obtain ⟨d, -, rfl⟩ := List.mem_map.mp member
    exact identifierChar_word d

/-- The place of a name can be read off its identifier. -/
theorem place_of_identifier {place place' : Nat} {name name' : Text}
    (same : identifier place name = identifier place' name') : place = place' := by
  rw [identifier_eq, identifier_eq] at same
  have digits := congrArg (List.takeWhile (· ≠ '_')) (List.cons.inj same).2
  rw [Record.takeWhile_ofNat, Record.takeWhile_ofNat] at digits
  exact ofNat_inj digits

theorem mem_identifiers {nodes : List Node} {i : Nat} {node : Node}
    (there : nodes[i]? = some node) (place : Nat) :
    (node.name, identifier (place + i) node.name) ∈ identifiers place nodes := by
  induction nodes generalizing place i with
  | nil => simp at there
  | cons first rest ih =>
    cases i with
    | zero =>
      obtain rfl : first = node := by simpa using there
      exact List.mem_cons_self
    | succ i =>
      have later := ih (by simpa using there) (place + 1)
      rw [Nat.add_assoc, Nat.add_comm 1] at later
      exact List.mem_cons_of_mem _ later

theorem map_fst_identifiers (place : Nat) (nodes : List Node) :
    (identifiers place nodes).map Prod.fst = nodes.map Node.name := by
  induction nodes generalizing place with
  | nil => rfl
  | cons first rest ih => rw [identifiers, List.map_cons, ih, List.map_cons]

/-- Where each name has one node, its last identifier is that of its place. -/
theorem identifier?_eq {diagram : Diagram} (coherent : Coherent diagram) {i : Nat} {node : Node}
    (there : diagram.nodes[i]? = some node) :
    identifier? diagram node.name = some (identifier i node.name) := by
  have distinct : ((identifiers 0 diagram.nodes).reverse.map Prod.fst).Nodup := by
    rw [List.map_reverse, map_fst_identifiers, List.nodup_reverse]
    exact coherent.nodup
  have member := mem_identifiers there 0
  rw [Nat.zero_add] at member
  exact (lookup_iff_mem distinct _ _).mpr (List.mem_reverse.mpr member)

theorem identifierOf_eq {diagram : Diagram} (coherent : Coherent diagram) {i : Nat} {node : Node}
    (there : diagram.nodes[i]? = some node) :
    identifierOf diagram node.name = identifier i node.name := by
  rw [identifierOf, identifier?_eq coherent there, Option.getD_some]

theorem exists_place {diagram : Diagram} {name : Text}
    (known : name ∈ diagram.nodes.map Node.name) :
    ∃ (i : Nat) (node : Node), diagram.nodes[i]? = some node ∧ node.name = name := by
  obtain ⟨node, member, named⟩ := List.mem_map.mp known
  obtain ⟨i, there⟩ := List.mem_iff_getElem?.mp member
  exact ⟨i, node, there, named⟩

theorem nodup_identifiers {diagram : Diagram} (coherent : Coherent diagram) :
    (diagram.nodes.map fun node => identifierOf diagram node.name).Nodup := by
  rw [List.nodup_iff_getElem?_ne_getElem?]
  intro i j less inside same
  rw [List.length_map] at inside
  rw [List.getElem?_map, List.getElem?_map, List.getElem?_eq_getElem (by omega),
    List.getElem?_eq_getElem inside, Option.map_some, Option.map_some, Option.some_inj,
    identifierOf_eq coherent (List.getElem?_eq_getElem _),
    identifierOf_eq coherent (List.getElem?_eq_getElem _)] at same
  exact Nat.ne_of_lt less (place_of_identifier same)

/-! ## Labels -/

/-- A label has no quotes. -/
theorem quote_not_mem_escape (t : Text) : '"' ∉ escape t := by
  intro member
  obtain ⟨c, -, own⟩ := List.mem_flatMap.mp member
  unfold escapeChar at own
  split_ifs at own with quoted
  · revert own
    decide
  · exact quoted (List.mem_singleton.mp own).symm

theorem unbroken_escape (t : Text) : Unbroken (escape t) := by
  intro d member
  obtain ⟨c, present, own⟩ := List.mem_flatMap.mp member
  have unbroken : isBreak c = false := by
    rcases mem_join present with between | ⟨piece, part, within⟩
    · obtain rfl := List.mem_singleton.mp between
      rfl
    · exact unbroken_of_mem_brokenLines piece part c within
  unfold escapeChar at own
  split_ifs at own with quoted
  · have plain : Unbroken "#quot;".toList := by decide
    exact plain d own
  · rwa [List.mem_singleton.mp own]

/-! ## Lines -/

theorem toNat_of_isAlphanum {c : Char} (letter : c.isAlphanum = true) :
    48 ≤ c.toNat ∧ c.toNat ≤ 122 := by
  rcases Bool.or_eq_true_iff.mp letter with alpha | digit
  · rcases Bool.or_eq_true_iff.mp alpha with upper | lower
    · have range : 65 ≤ c.toNat ∧ c.toNat ≤ 90 := of_decide_eq_true upper
      omega
    · have range : 97 ≤ c.toNat ∧ c.toNat ≤ 122 :=
        (Bool.and_eq_true_iff.mp lower).imp of_decide_eq_true of_decide_eq_true
      omega
  · have range : 48 ≤ c.toNat ∧ c.toNat ≤ 57 :=
      (Bool.and_eq_true_iff.mp digit).imp of_decide_eq_true of_decide_eq_true
    omega

theorem unbroken_of_word {t : Text} (word : ∀ c ∈ t, c.isAlphanum = true ∨ c = '_') :
    Unbroken t := by
  intro c member
  rcases word c member with letter | rfl
  · have range := toNat_of_isAlphanum letter
    simp only [isBreak, inRanges, Bool.and_eq_false_iff, Bool.or_eq_false_iff,
      decide_eq_false_iff_not]
    omega
  · rfl

theorem unbroken_ofNat (n : Nat) : Unbroken (ofNat n) :=
  unbroken_of_word fun c member => .inl (by simp [Char.isAlphanum, digit_of_mem_ofNat c member])

theorem unbroken_identifier (place : Nat) (name : Text) : Unbroken (identifier place name) := by
  have word : Unbroken (name.map identifierChar) := by
    refine unbroken_of_word fun c member => ?_
    obtain ⟨d, -, rfl⟩ := List.mem_map.mp member
    exact identifierChar_word d
  have start : Unbroken ('n' :: ofNat place ++ ['_']) :=
    (Unbroken.append (a := ['n']) (by decide) (unbroken_ofNat place)).append (by decide)
  exact start.append word

theorem render_eq (title : Text) (diagram : Diagram) :
    render title diagram = written (lines title diagram) := by
  have some : lines title diagram ≠ [] := by simp [lines, header]
  rw [render, joinLines_feed some]

section

variable {diagram : Diagram} (coherent : Coherent diagram)

include coherent

theorem unbroken_identifierOf {name : Text} (known : name ∈ diagram.nodes.map Node.name) :
    Unbroken (identifierOf diagram name) := by
  obtain ⟨i, node, there, rfl⟩ := exists_place known
  rw [identifierOf_eq coherent there]
  exact unbroken_identifier i node.name

theorem unbroken_nodeLine {node : Node} (member : node ∈ diagram.nodes) :
    Unbroken (nodeLine diagram node) := by
  have known := unbroken_identifierOf coherent (List.mem_map_of_mem (f := Node.name) member)
  have remark : Unbroken (if node.status = .dangling then "<br/>UNDEFINED".toList else []) := by
    split_ifs <;> decide
  have status : Unbroken node.status.label.toList := by
    cases node.status <;> decide
  unfold nodeLine
  exact (((((Unbroken.append (by decide) known).append (by decide)).append
    (unbroken_escape node.name)).append remark).append (by decide)).append status

theorem unbroken_edgeLine {edge : Edge} (member : edge ∈ diagram.edges) :
    Unbroken (edgeLine diagram edge) := by
  have caller := unbroken_identifierOf coherent (coherent.caller edge member)
  have callee := unbroken_identifierOf coherent (coherent.callee edge member)
  have arrow : Unbroken (if edge.kind = .dangling then "-.->" else "-->").toList := by
    split_ifs <;> decide
  have label : Unbroken
      (if 1 < edge.count then "|\"x".toList ++ ofNat edge.count ++ "\"|".toList else []) := by
    split_ifs
    · exact (Unbroken.append (by decide) (unbroken_ofNat edge.count)).append (by decide)
    · decide
  unfold edgeLine
  exact (((((Unbroken.append (by decide) caller).append (by decide)).append arrow).append
    label).append (by decide)).append callee

theorem unbroken_lines (title : Text) : ∀ line ∈ lines title diagram, Unbroken line := by
  have heading : ∀ line ∈ header title, Unbroken line := by
    have titled : Unbroken ("title: \"".toList ++ escape title ++ ['"']) :=
      (Unbroken.append (by decide) (unbroken_escape title)).append (by decide)
    simp only [header, List.forall_mem_cons]
    exact ⟨by decide, titled, by decide, by decide, by simp⟩
  have colours : ∀ line ∈ classes, Unbroken line := by decide +kernel
  intro line member
  simp only [lines, List.mem_append, List.mem_map, List.mem_singleton] at member
  rcases member with ((((own | ⟨node, own, rfl⟩) | rfl) | ⟨edge, own, rfl⟩) | rfl) | own
  · exact heading line own
  · exact unbroken_nodeLine coherent own
  · decide
  · exact unbroken_edgeLine coherent own
  · decide
  · exact colours line own

theorem pieces_render (title : Text) : Line.pieces (render title diagram) = lines title diagram := by
  rw [render_eq]
  exact pieces_written fun line member => (unbroken_lines coherent title line member).flat

theorem brokenLines_render (title : Text) :
    brokenLines (render title diagram) = lines title diagram := by
  rw [render_eq]
  exact brokenLines_written (unbroken_lines coherent title)

end

theorem length_lines (title : Text) (diagram : Diagram) :
    (lines title diagram).length = 10 + diagram.nodes.length + diagram.edges.length := by
  simp only [lines, header, classes, List.length_append, List.length_map, List.length_cons,
    List.length_nil]
  omega

theorem getElem_between (before : List Text) {items : List Text} (after : List Text) {i : Nat}
    {line : Text} (there : items[i]? = some line) :
    (before ++ (items ++ after))[before.length + i]? = some line := by
  have inside := (List.getElem?_eq_some_iff.mp there).1
  rw [List.getElem?_append_right (by omega), Nat.add_sub_cancel_left,
    List.getElem?_append_left inside, there]

theorem lines_node {diagram : Diagram} {i : Nat} {node : Node}
    (there : diagram.nodes[i]? = some node) (title : Text) :
    (lines title diagram)[4 + i]? = some (nodeLine diagram node) := by
  have own : (diagram.nodes.map (nodeLine diagram))[i]? = some (nodeLine diagram node) := by
    rw [List.getElem?_map, there, Option.map_some]
  have found := getElem_between (header title)
    ([[]] ++ diagram.edges.map (edgeLine diagram) ++ [[]] ++ classes) own
  have length : (header title).length = 4 := rfl
  rw [length] at found
  simpa only [lines, List.append_assoc] using found

theorem lines_edge {diagram : Diagram} {k : Nat} {edge : Edge}
    (there : diagram.edges[k]? = some edge) (title : Text) :
    (lines title diagram)[5 + diagram.nodes.length + k]? = some (edgeLine diagram edge) := by
  have own : (diagram.edges.map (edgeLine diagram))[k]? = some (edgeLine diagram edge) := by
    rw [List.getElem?_map, there, Option.map_some]
  have found := getElem_between (header title ++ diagram.nodes.map (nodeLine diagram) ++ [[]])
    ([[]] ++ classes) own
  have length : (header title ++ diagram.nodes.map (nodeLine diagram) ++ [[]]).length =
      5 + diagram.nodes.length := by
    simp only [header, List.length_append, List.length_map, List.length_cons, List.length_nil]
    omega
  rw [length] at found
  simpa only [lines, List.append_assoc] using found

/-! ## Flowcharts -/

/-- The line of a node: an identifier, a label in quotes and the name of its status. The label is the
    name of the node, with a remark if it is undefined. -/
def ShowsNode (line identifier : Text) (node : Node) : Prop :=
  ∃ label, line = "    ".toList ++ identifier ++ "[\"".toList ++ label ++ "\"]:::".toList ++
      node.status.label.toList ∧ '"' ∉ label ∧
    label = if node.status = .dangling then escape node.name ++ "<br/>UNDEFINED".toList
      else escape node.name

/-- The line of an edge: two identifiers and between them an arrow, with a label in quotes or none. -/
def JoinsNodes (line source target : Text) : Prop :=
  ∃ arrow label, line = "    ".toList ++ source ++ " ".toList ++ arrow ++ label ++ " ".toList ++
      target ∧ arrow ∈ ["-->".toList, "-.->".toList] ∧
    (label = [] ∨ ∃ count, label = "|\"".toList ++ count ++ "\"|".toList ∧ '"' ∉ count)

/-- What makes a flowchart well formed. Every name that is looked up is found, each node has an
    identifier of its own, and there is one line for each node and each edge: line breaks of any kind
    and line feeds cut the text into the same lines, each ends in a line feed, and no label closes its
    quotes. -/
structure WellFormed (title : Text) (diagram : Diagram) : Prop where
  known : ∀ name, name ∈ diagram.nodes.map Node.name ∨
      (∃ edge ∈ diagram.edges, name = edge.caller ∨ name = edge.callee) →
    (identifier? diagram name).isSome = true
  lines : Line.pieces (render title diagram) = brokenLines (render title diagram)
  feeds : render title diagram = written (brokenLines (render title diagram))
  length : (brokenLines (render title diagram)).length =
    10 + diagram.nodes.length + diagram.edges.length
  identifier : ∀ node ∈ diagram.nodes, IsIdentifier (identifierOf diagram node.name)
  distinct : (diagram.nodes.map fun node => identifierOf diagram node.name).Nodup
  titled : (brokenLines (render title diagram))[1]? =
    some ("title: \"".toList ++ escape title ++ ['"']) ∧ '"' ∉ escape title
  node : ∀ (i : Nat) (node : Node), diagram.nodes[i]? = some node →
    ∃ line, (brokenLines (render title diagram))[4 + i]? = some line ∧
      ShowsNode line (identifierOf diagram node.name) node
  edge : ∀ (k : Nat) (edge : Edge), diagram.edges[k]? = some edge →
    ∃ line, (brokenLines (render title diagram))[5 + diagram.nodes.length + k]? = some line ∧
      ∃ source ∈ diagram.nodes, ∃ target ∈ diagram.nodes,
        source.name = edge.caller ∧ target.name = edge.callee ∧
        JoinsNodes line (identifierOf diagram source.name) (identifierOf diagram target.name)

theorem nodeLine_shows (diagram : Diagram) (node : Node) :
    ShowsNode (nodeLine diagram node) (identifierOf diagram node.name) node := by
  have quoted := quote_not_mem_escape node.name
  refine ⟨_, ?_, ?_, rfl⟩
  · unfold nodeLine
    split_ifs
    · simp only [List.append_assoc]
    · simp only [List.append_assoc, List.append_nil]
  · split_ifs
    · rw [List.mem_append, not_or]
      exact ⟨quoted, by decide⟩
    · exact quoted

theorem edgeLine_joins (diagram : Diagram) (edge : Edge) :
    JoinsNodes (edgeLine diagram edge) (identifierOf diagram edge.caller)
      (identifierOf diagram edge.callee) := by
  refine ⟨_, _, rfl, ?_, ?_⟩
  · split_ifs <;> decide
  · split_ifs
    · refine .inr ⟨'x' :: ofNat edge.count, by simp, ?_⟩
      intro member
      rcases List.mem_cons.mp member with same | digit
      · revert same
        decide
      · have wrong := digit_of_mem_ofNat _ digit
        revert wrong
        decide
    · exact .inl rfl

theorem Coherent.wellFormed {diagram : Diagram} (coherent : Coherent diagram) (title : Text) :
    WellFormed title diagram where
  known name asked := by
    have known : name ∈ diagram.nodes.map Node.name := by
      rcases asked with own | ⟨edge, member, rfl | rfl⟩
      · exact own
      · exact coherent.caller edge member
      · exact coherent.callee edge member
    obtain ⟨i, node, there, rfl⟩ := exists_place known
    rw [identifier?_eq coherent there, Option.isSome_some]
  lines := by rw [pieces_render coherent, brokenLines_render coherent]
  feeds := by rw [brokenLines_render coherent, render_eq]
  length := by rw [brokenLines_render coherent, length_lines]
  identifier node member := by
    obtain ⟨i, there⟩ := List.mem_iff_getElem?.mp member
    rw [identifierOf_eq coherent there]
    exact identifier_isIdentifier i node.name
  distinct := nodup_identifiers coherent
  titled := by
    rw [brokenLines_render coherent]
    exact ⟨rfl, quote_not_mem_escape title⟩
  node i node there := by
    rw [brokenLines_render coherent]
    exact ⟨_, lines_node there title, nodeLine_shows diagram node⟩
  edge k edge there := by
    have member := List.mem_of_getElem? there
    obtain ⟨source, first, caller⟩ := List.mem_map.mp (coherent.caller edge member)
    obtain ⟨target, second, callee⟩ := List.mem_map.mp (coherent.callee edge member)
    rw [brokenLines_render coherent]
    refine ⟨_, lines_edge there title, source, first, target, second, caller, callee, ?_⟩
    rw [caller, callee]
    exact edgeLine_joins diagram edge

/-- The flowchart of every graph is well formed, whatever its names and its title are. -/
theorem render_wellFormed (graph : CallGraph) (cycles : List (List Text))
    (violations : List Violation) (limit : Int) (title : Text) :
    WellFormed title (ofGraph graph cycles violations limit) :=
  (ofGraph_coherent graph cycles violations limit).wellFormed title

end Mapkeys.Diagram.Mermaid
