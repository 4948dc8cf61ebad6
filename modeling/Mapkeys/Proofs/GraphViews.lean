import Mapkeys.Diagram
import Mapkeys.Proofs.SharedNames
import Mathlib.Algebra.BigOperators.Group.List.Lemmas
import Mathlib.Algebra.GroupWithZero.Nat

/-!
# Views of a call graph

The names, vertices, edges and callers of a graph are read off its entries; here they are also put
together one at a time, in the order in which the entries bring them (`Network`). Both ways give the
same lists, and a diagram shows all of them: no name and no call is lost or shown twice.
-/

namespace Mapkeys

variable {α β ι : Type} [DecidableEq α]

/-! ## First places -/

/-- The list holds those items that are kept, each once and in the order of their first places. -/
structure FirstPlaces (items : List α) (keep : α → Prop) (list : List α) : Prop where
  mem : ∀ a, a ∈ list ↔ a ∈ items ∧ keep a
  order : list.Pairwise fun a b => items.idxOf a < items.idxOf b

theorem distinct_filter (keep : α → Bool) (items : List α) :
    distinct (items.filter keep) = (distinct items).filter keep := by
  induction items with
  | nil => rfl
  | cons first rest ih =>
    by_cases kept : keep first = true
    · rw [List.filter_cons_of_pos kept, distinct, distinct, List.filter_cons_of_pos kept, ih,
        List.filter_comm]
    · rw [List.filter_cons_of_neg kept, distinct, List.filter_cons_of_neg kept, ih,
        List.filter_filter]
      apply List.filter_congr
      intro a _
      by_cases same : a = first
      · simp [same, kept]
      · simp [same]

theorem distinct_order (items : List α) :
    (distinct items).Pairwise fun a b => items.idxOf a < items.idxOf b := by
  induction items with
  | nil => exact .nil
  | cons first rest ih =>
    have differs : ∀ a ∈ (distinct rest).filter (· ≠ first), first ≠ a := by
      intro a later same
      simp [same] at later
    rw [distinct, List.pairwise_cons]
    constructor
    · intro a later
      rw [List.idxOf_cons_self, List.idxOf_cons_ne _ (differs a later)]
      exact Nat.succ_pos _
    · -- behind the first item every place is one further
      refine (ih.filter _).imp_of_mem fun {a b} one two less => ?_
      rw [List.idxOf_cons_ne _ (differs a one), List.idxOf_cons_ne _ (differs b two)]
      exact Nat.succ_lt_succ less

theorem firstPlaces_distinct_filter (items : List α) (keep : α → Bool) :
    FirstPlaces items (fun a => keep a = true) (distinct (items.filter keep)) where
  mem a := by rw [mem_distinct, List.mem_filter]
  order := by
    rw [distinct_filter]
    exact (distinct_order items).filter _

theorem firstPlaces_distinct (items : List α) :
    FirstPlaces items (fun _ => True) (distinct items) where
  mem a := by rw [mem_distinct, and_true]
  order := distinct_order items

/-! ## One element after the other -/

/-- Puts an element at the end of a list unless the list has it. -/
def enlist (list : List α) (a : α) : List α := if list.contains a then list else list ++ [a]

theorem foldl_enlist (items list : List α) :
    items.foldl enlist list = list ++ (distinct items).filter fun a => decide (a ∉ list) := by
  induction items generalizing list with
  | nil => simp [distinct]
  | cons first rest ih =>
    rw [List.foldl_cons, ih, enlist, distinct]
    by_cases old : first ∈ list
    · rw [if_pos (by simpa using old), List.filter_cons_of_neg (by simpa using old),
        List.filter_filter]
      congr 1
      apply List.filter_congr
      intro a _
      by_cases same : a = first
      · simp [same, old]
      · simp [same]
    · rw [if_neg (by simpa using old), List.filter_cons_of_pos (by simpa using old),
        List.filter_filter, List.append_assoc, List.singleton_append]
      congr 2
      apply List.filter_congr
      intro a _
      simp

theorem foldl_enlist_nil (items : List α) : items.foldl enlist [] = distinct items := by
  simp [foldl_enlist]

theorem distinct_append (items others : List α) :
    distinct (items ++ others) =
      distinct items ++ (distinct others).filter fun a => decide (a ∉ items) := by
  rw [← foldl_enlist_nil, List.foldl_append, foldl_enlist_nil, foldl_enlist]
  congr 1
  apply List.filter_congr
  intro a _
  simp [mem_distinct]

theorem distinct_map {f : α → β} [DecidableEq β] (injective : Function.Injective f)
    (items : List α) : distinct (items.map f) = (distinct items).map f := by
  induction items with
  | nil => rfl
  | cons first rest ih =>
    rw [List.map_cons, distinct, distinct, ih, List.map_cons, List.filter_map]
    congr 2
    apply List.filter_congr
    intro a _
    simp [injective.eq_iff]

/-- Every item counts under exactly one of the distinct ones. -/
theorem sum_count_distinct [BEq α] [LawfulBEq α] (items : List α) :
    ((distinct items).map fun a => items.count a).sum = items.length := by
  have perm : (distinct items).Perm items.dedup :=
    (List.perm_ext_iff_of_nodup (nodup_distinct items) items.nodup_dedup).mpr fun a => by
      rw [mem_distinct, List.mem_dedup]
  obtain rfl : ‹BEq α› = instBEqOfDecidableEq := lawful_beq_subsingleton _ _
  rw [(perm.map _).sum_eq, List.sum_map_count_dedup_eq_length]

/-! ## Tables -/

/-- Changes what a table holds for a key, or puts a new row at its end if it has none. -/
def upsert (key : α) (fresh : β) (change : β → β) (table : List (α × β)) : List (α × β) :=
  if table.any (·.1 = key) then
    table.map fun row => if row.1 = key then (row.1, change row.2) else row
  else table ++ [(key, fresh)]

theorem upsert_map {keys : List α} {before after : α → β} {key : α} {fresh : β} {change : β → β}
    (first : key ∉ keys → after key = fresh) (again : key ∈ keys → after key = change (before key))
    (others : ∀ other, other ≠ key → after other = before other) :
    upsert key fresh change (keys.map fun k => (k, before k)) =
      (enlist keys key).map fun k => (k, after k) := by
  unfold upsert enlist
  by_cases old : key ∈ keys
  · rw [if_pos (by simpa using old), if_pos (by simpa using old), List.map_map]
    apply List.map_congr_left
    intro k _
    by_cases same : k = key
    · subst same
      simp [again old]
    · simp [same, others k same]
  · rw [if_neg (by simpa using old), if_neg (by simpa using old), List.map_append]
    congr 1
    · apply List.map_congr_left
      intro k member
      rw [others k fun same => old (same ▸ member)]
    · simp [first old]

/-- A table into which items are put one after the other has a row for each key, in the order of
    the first places, and holds what `value` says if `value` follows each step. -/
theorem foldl_upsert {key : ι → α} {fresh : ι → β} {change : ι → β → β} (value : List ι → α → β)
    (first : ∀ items item, key item ∉ items.map key → value (items ++ [item]) (key item) = fresh item)
    (again : ∀ items item, key item ∈ items.map key →
      value (items ++ [item]) (key item) = change item (value items (key item)))
    (others : ∀ items item k, k ≠ key item → value (items ++ [item]) k = value items k)
    (items : List ι) :
    items.foldl (fun table item => upsert (key item) (fresh item) (change item) table) [] =
      (distinct (items.map key)).map fun k => (k, value items k) := by
  induction items using List.reverseRecOn with
  | nil => rfl
  | append_singleton items item ih =>
    have keys : distinct ((items ++ [item]).map key) = enlist (distinct (items.map key)) (key item) := by
      rw [← foldl_enlist_nil, List.map_append, List.foldl_append, foldl_enlist_nil]
      rfl
    rw [List.foldl_append, ih, keys]
    refine upsert_map ?_ ?_ (others items item)
    · intro new
      exact first items item (by rwa [mem_distinct] at new)
    · intro old
      exact again items item (by rwa [mem_distinct] at old)

/-! ## Networks -/

/-- A call graph that is put together one name and one call at a time: the calls of each defined name,
    the names with whether they are defined, and the links from callers to callees, all in the order
    in which they come. -/
structure Network where
  calls : List (Text × List Text)
  nodes : List (Text × Bool)
  links : List (Text × Text)
  deriving Repr, DecidableEq

namespace Network

/-- The calls of a name after one more definition of it. -/
def extended (policy : Policy) (entry : Entry) (calls : List Text) : List Text :=
  match policy with
  | .first => calls
  | .all => calls ++ entry.calls

/-- The calls of the names that entries define. -/
def resolved (policy : Policy) (entries : List Entry) : List (Text × List Text) :=
  entries.foldl (fun table entry => upsert entry.name entry.calls (extended policy entry) table) []

/-- Puts in a name that is not there yet. -/
def put (defined : Bool) (nodes : List (Text × Bool)) (name : Text) : List (Text × Bool) :=
  upsert name defined id nodes

/-- First the defined names, then every called name that is not there yet, then the links. -/
def ofGraph (graph : CallGraph) : Network :=
  let calls := resolved graph.policy graph.entries
  let defined := (calls.map Prod.fst).foldl (put true) []
  { calls
    nodes := (graph.entries.flatMap Entry.calls).foldl (put false) defined
    links := (calls.flatMap fun row => row.2.map (row.1, ·)).foldl enlist [] }

/-- The links, those of each name together. -/
def edges (network : Network) : List (Text × Text) :=
  network.nodes.flatMap fun node => network.links.filter (·.1 = node.1)

/-- The callers of a name, by when they were linked to it. -/
def predecessors (network : Network) (name : Text) : List Text :=
  (network.links.filter (·.2 = name)).map Prod.fst

end Network

namespace CallGraph

/-! ### Calls -/

section

variable {policy : Policy} {entries : List Entry} {entry : Entry} {name : Text}

theorem sharing_eq_nil (fresh : name ∉ entries.map Entry.name) :
    entries.filter (·.name = name) = [] := by
  refine List.filter_eq_nil_iff.mpr fun other member => ?_
  have differs : other.name ≠ name := fun same => fresh (same ▸ List.mem_map_of_mem member)
  simpa using differs

theorem calls_concat_first (fresh : entry.name ∉ entries.map Entry.name) :
    calls ⟨policy, entries ++ [entry]⟩ entry.name = entry.calls := by
  unfold calls owners
  cases policy with
  | first => simp [sharing_eq_nil fresh]
  | all => simp [sharing_eq_nil fresh]

theorem calls_concat_again (old : entry.name ∈ entries.map Entry.name) :
    calls ⟨policy, entries ++ [entry]⟩ entry.name =
      Network.extended policy entry (calls ⟨policy, entries⟩ entry.name) := by
  unfold calls owners Network.extended
  cases policy with
  | first =>
    obtain ⟨other, member, named⟩ := List.mem_map.mp old
    have nonempty : entries.filter (·.name = entry.name) ≠ [] :=
      List.ne_nil_of_mem (List.mem_filter.mpr ⟨member, by simpa using named⟩)
    have enough := List.length_pos_iff.mpr nonempty
    simp only [List.filter_append]
    rw [List.take_append_of_le_length enough]
  | all => simp

theorem calls_concat_other (differs : name ≠ entry.name) :
    calls ⟨policy, entries ++ [entry]⟩ name = calls ⟨policy, entries⟩ name := by
  have alone : [entry].filter (·.name = name) = [] := by simp [differs.symm]
  unfold calls owners
  simp only [List.filter_append, alone, List.append_nil]

end

theorem resolved_eq (graph : CallGraph) :
    Network.resolved graph.policy graph.entries = graph.names.map fun name => (name, graph.calls name) :=
  foldl_upsert (fun entries name => calls ⟨graph.policy, entries⟩ name)
    (fun _ _ => calls_concat_first) (fun _ _ => calls_concat_again)
    (fun _ _ _ => calls_concat_other) graph.entries

/-! ### Vertices -/

theorem vertices_eq_foldl (graph : CallGraph) :
    graph.vertices = (graph.entries.flatMap Entry.calls).foldl enlist graph.names := by
  rw [foldl_enlist, vertices, dangling, distinct_filter]
  congr 1
  apply List.filter_congr
  intro name _
  simp [mem_names]

theorem foldl_put (flag : Text → Bool) {defined : Bool} {items : List Text} (known : List Text)
    (agrees : ∀ name ∈ items, name ∉ known → flag name = defined) :
    items.foldl (Network.put defined) (known.map fun name => (name, flag name)) =
      (items.foldl enlist known).map fun name => (name, flag name) := by
  induction items generalizing known with
  | nil => rfl
  | cons name rest ih =>
    have step : Network.put defined (known.map fun name => (name, flag name)) name =
        (enlist known name).map fun name => (name, flag name) :=
      upsert_map (agrees name List.mem_cons_self) (fun _ => rfl) fun _ _ => rfl
    rw [List.foldl_cons, List.foldl_cons, step]
    refine ih _ fun other member new => agrees other (List.mem_cons_of_mem _ member) fun old => new ?_
    unfold enlist
    split_ifs
    · exact old
    · exact List.mem_append_left _ old

theorem nodes_ofGraph (graph : CallGraph) :
    (Network.ofGraph graph).nodes = graph.vertices.map fun name => (name, graph.isDefined name) := by
  have names : (Network.resolved graph.policy graph.entries).map Prod.fst = graph.names := by
    rw [resolved_eq, List.map_map]
    exact List.map_id _
  have defined : graph.names.foldl (Network.put true) [] =
      (graph.names.foldl enlist []).map fun name => (name, graph.isDefined name) :=
    foldl_put graph.isDefined [] fun name member _ => (mem_names graph name).mp member
  rw [foldl_enlist_nil, distinct_eq_self graph.nodup_names] at defined
  unfold Network.ofGraph
  dsimp only
  rw [names, defined, vertices_eq_foldl]
  exact foldl_put graph.isDefined graph.names fun name _ absent => by
    simpa [mem_names] using absent

/-! ### Edges -/

/-- Names that are called by different names are linked apart. -/
theorem distinct_links {names : List Text} (nodup : names.Nodup) (calls : Text → List Text) :
    distinct (names.flatMap fun name => (calls name).map (name, ·)) =
      names.flatMap fun name => (distinct (calls name)).map (name, ·) := by
  induction names with
  | nil => rfl
  | cons name rest ih =>
    obtain ⟨fresh, nodup'⟩ := List.nodup_cons.mp nodup
    rw [List.flatMap_cons, distinct_append, distinct_map (Prod.mk_right_injective name), ih nodup',
      List.flatMap_cons, List.filter_eq_self.mpr]
    intro link member
    obtain ⟨other, later, own⟩ := List.mem_flatMap.mp member
    obtain ⟨callee, -, rfl⟩ := List.mem_map.mp own
    have differs : other ≠ name := fun same => fresh (same ▸ later)
    simp [differs.symm]

theorem links_ofGraph (graph : CallGraph) : (Network.ofGraph graph).links = graph.edges := by
  unfold Network.ofGraph
  dsimp only
  rw [foldl_enlist_nil, resolved_eq, List.flatMap_map]
  exact distinct_links graph.nodup_names graph.calls

theorem filter_caller {names : List Text} (nodup : names.Nodup) (callees : Text → List Text)
    (name : Text) :
    (names.flatMap fun caller => (callees caller).map (caller, ·)).filter (·.1 = name) =
      if name ∈ names then (callees name).map (name, ·) else [] := by
  induction names with
  | nil => rfl
  | cons caller rest ih =>
    obtain ⟨fresh, nodup'⟩ := List.nodup_cons.mp nodup
    rw [List.flatMap_cons, List.filter_append, ih nodup', List.filter_map]
    by_cases same : caller = name
    · subst same
      simp [Function.comp_def, fresh]
    · simp [Function.comp_def, same, Ne.symm same]

theorem filter_edges_caller (graph : CallGraph) (name : Text) :
    graph.edges.filter (·.1 = name) = (graph.callees name).map (name, ·) := by
  rw [edges, filter_caller graph.nodup_names]
  split_ifs with defined
  · rfl
  · rw [callees, calls_eq_nil_of_not_mem_names graph name defined]
    rfl

theorem edges_ofGraph (graph : CallGraph) : (Network.ofGraph graph).edges = graph.edges := by
  have silent : graph.dangling.flatMap (fun name => (graph.callees name).map (name, ·)) = [] := by
    refine List.flatMap_eq_nil_iff.mpr fun name member => ?_
    rw [callees, calls_eq_nil graph name ((mem_dangling graph name).mp member).2]
    rfl
  rw [Network.edges, nodes_ofGraph, links_ofGraph, List.flatMap_map]
  simp only [filter_edges_caller]
  rw [vertices, List.flatMap_append, silent, List.append_nil, edges]

theorem filter_callee {callees : List Text} (nodup : callees.Nodup) (caller name : Text) :
    ((callees.map (caller, ·)).filter (·.2 = name)).map Prod.fst =
      if name ∈ callees then [caller] else [] := by
  induction callees with
  | nil => rfl
  | cons callee rest ih =>
    obtain ⟨fresh, nodup'⟩ := List.nodup_cons.mp nodup
    rw [List.map_cons, List.filter_cons]
    by_cases same : callee = name
    · subst same
      simp [ih nodup', fresh]
    · simp [ih nodup', same, Ne.symm same]

theorem predecessors_ofGraph (graph : CallGraph) (name : Text) :
    (Network.ofGraph graph).predecessors name = graph.callers name := by
  rw [Network.predecessors, links_ofGraph, edges, callers, List.filter_flatMap, List.map_flatMap]
  have linked (caller : Text) := filter_callee (nodup_distinct (graph.calls caller)) caller name
  simp only [mem_distinct] at linked
  induction graph.names with
  | nil => rfl
  | cons caller rest ih =>
    rw [List.flatMap_cons, ih, callees, linked, List.filter_cons]
    by_cases called : name ∈ graph.calls caller
    · simp [called]
    · simp [called]

/-! ### The views together -/

/-- What the lists of a graph hold and in which order, and what is put together name by name and call
    by call. -/
structure Views (graph : CallGraph) : Prop where
  names : FirstPlaces (graph.entries.map Entry.name) (fun _ => True) graph.names
  dangling : FirstPlaces (graph.entries.flatMap Entry.calls)
    (fun name => ∀ entry ∈ graph.entries, entry.name ≠ name) graph.dangling
  vertices : (Network.ofGraph graph).nodes =
    graph.names.map (·, true) ++ graph.dangling.map (·, false)
  vertices_nodup : graph.vertices.Nodup
  callees : ∀ name, FirstPlaces (graph.calls name) (fun _ => True) (graph.callees name)
  edges : (Network.ofGraph graph).edges =
    graph.names.flatMap fun name => (graph.callees name).map (name, ·)
  edges_nodup : graph.edges.Nodup
  callers : ∀ name, graph.callers name = graph.names.filter fun caller => (caller, name) ∈ graph.edges

theorem views (graph : CallGraph) : Views graph where
  names := firstPlaces_distinct _
  dangling := by
    obtain ⟨mem, order⟩ := firstPlaces_distinct_filter (graph.entries.flatMap Entry.calls)
      fun name => !graph.isDefined name
    refine ⟨fun name => ?_, order⟩
    rw [CallGraph.dangling, mem]
    simp [isDefined]
  vertices := by
    rw [nodes_ofGraph, CallGraph.vertices, List.map_append]
    congr 1
    · refine List.map_congr_left fun name member => ?_
      rw [(mem_names graph name).mp member]
    · refine List.map_congr_left fun name member => ?_
      rw [((mem_dangling graph name).mp member).2]
  vertices_nodup := nodup_vertices graph
  callees name := firstPlaces_distinct _
  edges := edges_ofGraph graph
  edges_nodup := by
    rw [← links_ofGraph, Network.ofGraph, foldl_enlist_nil]
    exact nodup_distinct _
  callers name := by
    unfold CallGraph.callers
    apply List.filter_congr
    intro caller _
    simp [mem_edges, Calls]

end CallGraph

namespace Network

/-- A network that holds the calls, vertices, edges and callers of a graph as the graph lists them. -/
structure Holds (network : Network) (graph : CallGraph) : Prop where
  calls : network.calls = graph.names.map fun name => (name, graph.calls name)
  vertices : network.nodes.map Prod.fst = graph.vertices
  dangling : (network.nodes.filter (!·.2)).map Prod.fst = graph.dangling
  edges : network.edges = graph.edges
  callers : ∀ name, network.predecessors name = graph.callers name

theorem ofGraph_holds (graph : CallGraph) : (ofGraph graph).Holds graph where
  calls := CallGraph.resolved_eq graph
  vertices := by
    rw [CallGraph.nodes_ofGraph, List.map_map]
    exact List.map_id _
  dangling := by
    have defined : graph.names.filter (!graph.isDefined ·) = [] := by
      refine List.filter_eq_nil_iff.mpr fun name member => ?_
      simp [(CallGraph.mem_names graph name).mp member]
    have undefined : graph.dangling.filter (!graph.isDefined ·) = graph.dangling := by
      refine List.filter_eq_self.mpr fun name member => ?_
      simp [((CallGraph.mem_dangling graph name).mp member).2]
    rw [CallGraph.nodes_ofGraph, List.filter_map, List.map_map, CallGraph.vertices]
    simp only [Function.comp_def, List.filter_append, defined, undefined, List.nil_append, List.map_id']
  edges := CallGraph.edges_ofGraph graph
  callers := CallGraph.predecessors_ofGraph graph

end Network

/-! ## Diagrams -/

namespace Diagram

/-- The names of a list with how often each is met, counted one after the other. -/
def tally (names : List Text) : List (Text × Nat) :=
  names.foldl (fun counts name => upsert name 1 (· + 1) counts) []

theorem tally_eq (names : List Text) :
    tally names = (distinct names).map fun name => (name, names.count name) := by
  rw [tally, foldl_upsert (fun names name => names.count name), List.map_id']
  · simp [List.count_eq_zero]
  · simp
  · intro items item name differs
    simp [List.count_append, differs.symm]

/-- A diagram that shows every name and every call of a graph. -/
structure Shows (diagram : Diagram) (graph : CallGraph) : Prop where
  nodes : diagram.nodes.map Node.name = graph.vertices
  edges : diagram.edges.map (fun edge => (edge.caller, edge.callee)) = graph.edges
  count : ∀ edge ∈ diagram.edges,
    edge.count = (graph.calls edge.caller).count edge.callee ∧ 1 ≤ edge.count
  tallied : diagram.edges.map (fun edge => (edge.caller, edge.callee, edge.count)) =
    graph.names.flatMap fun caller => (tally (graph.calls caller)).map (caller, ·)
  total : (diagram.edges.map Edge.count).sum =
    (graph.names.map fun name => (graph.calls name).length).sum

theorem ofGraph_shows (graph : CallGraph) (cycles : List (List Text)) (violations : List Violation)
    (limit : Int) : (ofGraph graph cycles violations limit).Shows graph where
  nodes := by
    simp only [ofGraph, build, List.map_map, Function.comp_def, List.map_id']
  edges := by
    simp only [ofGraph, build, edgesFrom, CallGraph.edges, CallGraph.callees, List.map_flatMap,
      List.map_map, Function.comp_def]
  count := by
    intro edge member
    obtain ⟨caller, -, own⟩ := List.mem_flatMap.mp member
    obtain ⟨callee, called, rfl⟩ := List.mem_map.mp own
    rw [mem_distinct] at called
    exact ⟨rfl, List.count_pos_iff.mpr called⟩
  tallied := by
    simp only [ofGraph, build, edgesFrom, tally_eq, List.map_flatMap, List.map_map,
      Function.comp_def]
  total := by
    simp only [ofGraph, build, edgesFrom, List.map_flatMap, List.map_map, Function.comp_def]
    induction graph.names with
    | nil => rfl
    | cons name rest ih =>
      rw [List.flatMap_cons, List.sum_append, ih, sum_count_distinct, List.map_cons, List.sum_cons]

end Diagram

namespace CallGraph

/-- The lists that a graph gives are consistent: the defined names in the order of their first
    definitions, the dangling ones in the order of their first calls, for each defined name its
    callees in the order of its first calls of them, and for each name its callers. Putting the graph
    together one name and one call at a time gives the same lists, and so does a diagram, which counts
    every call of a defined name. -/
theorem views_consistent (graph : CallGraph) :
    Views graph ∧ (Network.ofGraph graph).Holds graph ∧
      ∀ (cycles : List (List Text)) (violations : List Violation) (limit : Int),
        (Diagram.ofGraph graph cycles violations limit).Shows graph :=
  ⟨graph.views, Network.ofGraph_holds graph, Diagram.ofGraph_shows graph⟩

end CallGraph
end Mapkeys
