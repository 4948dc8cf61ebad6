import Mapkeys.Proofs.Depth
import Mapkeys.Proofs.Search

/-!
# Shared names

What a policy makes of names that several definitions share. If the first definition counts, the
later ones might as well be missing; if all count, they might as well be one. Either way the graph
defines the same names and makes the same calls (`Agree`), and all other questions about a graph are
answered by these: the tables of depths and the fuel of the search also depend on the vertices, but
what they give does not.
-/

namespace Mapkeys

theorem distinct_eq_self {α : Type} [DecidableEq α] {items : List α} (nodup : items.Nodup) :
    distinct items = items := by
  induction items with
  | nil => rfl
  | cons a rest ih =>
    obtain ⟨fresh, others⟩ := List.nodup_cons.mp nodup
    rw [distinct, ih others, List.filter_eq_self.mpr]
    intro b member
    exact decide_eq_true fun same => fresh (same ▸ member)

/-! ## One definition for each name -/

namespace Entry

/-- The entries without those whose name is one of the given ones or that of an earlier entry. -/
def unshadowed (seen : List Text) : List Entry → List Entry
  | [] => []
  | entry :: rest =>
    if seen.contains entry.name then unshadowed seen rest
    else entry :: unshadowed (entry.name :: seen) rest

/-- The entries without those whose name an earlier entry has. -/
def firsts (entries : List Entry) : List Entry := unshadowed [] entries

/-- The entries with all those that share a name merged into the first of them. -/
def merged (entries : List Entry) : List Entry :=
  (firsts entries).map fun first =>
    ⟨first.name, (entries.filter (·.name = first.name)).flatMap Entry.calls⟩

theorem unshadowed_cons (seen : List Text) (entry : Entry) (rest : List Entry) :
    unshadowed seen (entry :: rest) =
      if entry.name ∈ seen then unshadowed seen rest
      else entry :: unshadowed (entry.name :: seen) rest := by
  simp [unshadowed]

theorem map_name_unshadowed (seen : List Text) (entries : List Entry) :
    (unshadowed seen entries).map name =
      (distinct (entries.map name)).filter fun name => decide (name ∉ seen) := by
  induction entries generalizing seen with
  | nil => rfl
  | cons entry rest ih =>
    rw [unshadowed_cons, List.map_cons, distinct]
    split_ifs with shadowed
    · rw [ih, List.filter_cons_of_neg (by simpa using shadowed), List.filter_filter]
      apply List.filter_congr
      intro other _
      have apart : other ∉ seen → other ≠ entry.name := fun fresh same => fresh (same ▸ shadowed)
      by_cases fresh : other ∈ seen
      · simp [fresh]
      · simp [fresh, apart fresh]
    · rw [List.map_cons, ih, List.filter_cons_of_pos (by simpa using shadowed), List.filter_filter]
      simp [Bool.and_comm]

theorem filter_unshadowed (seen : List Text) (entries : List Entry) (name : Text) :
    (unshadowed seen entries).filter (·.name = name) =
      if name ∈ seen then [] else (entries.filter (·.name = name)).take 1 := by
  induction entries generalizing seen with
  | nil => simp [unshadowed]
  | cons entry rest ih =>
    rw [unshadowed_cons]
    by_cases named : entry.name = name
    · subst named
      split_ifs with shadowed
      · rw [ih, if_pos shadowed]
      · simp [ih]
    · split_ifs with shadowed before before
      · rw [ih, if_pos before]
      · rw [ih, if_neg before, List.filter_cons_of_neg (by simpa using named)]
      · rw [List.filter_cons_of_neg (by simpa using named), ih,
          if_pos (List.mem_cons_of_mem _ before)]
      · rw [List.filter_cons_of_neg (by simpa using named), ih,
          if_neg (by simpa [Ne.symm named] using before),
          List.filter_cons_of_neg (by simpa using named)]

theorem map_name_firsts (entries : List Entry) :
    (firsts entries).map name = distinct (entries.map name) := by
  simp [firsts, map_name_unshadowed]

theorem map_name_merged (entries : List Entry) :
    (merged entries).map name = distinct (entries.map name) := by
  rw [merged, List.map_map, ← map_name_firsts]
  rfl

theorem filter_firsts (entries : List Entry) (name : Text) :
    (firsts entries).filter (·.name = name) = (entries.filter (·.name = name)).take 1 := by
  simp [firsts, filter_unshadowed]

theorem firsts_subset (entries : List Entry) : ∀ entry ∈ firsts entries, entry ∈ entries := by
  intro entry member
  have named : entry ∈ (firsts entries).filter (·.name = entry.name) :=
    List.mem_filter.mpr ⟨member, by simp⟩
  rw [filter_firsts] at named
  exact (List.mem_filter.mp (List.mem_of_mem_take named)).1

/-- Every call of an entry is made by the one that it is merged into. -/
theorem called_merged (entries : List Entry) (name : Text) :
    (∃ entry ∈ merged entries, name ∈ entry.calls) ↔ ∃ entry ∈ entries, name ∈ entry.calls := by
  constructor
  · rintro ⟨entry, member, called⟩
    obtain ⟨first, -, rfl⟩ := List.mem_map.mp member
    obtain ⟨origin, sharing, made⟩ := List.mem_flatMap.mp called
    exact ⟨origin, (List.mem_filter.mp sharing).1, made⟩
  · rintro ⟨entry, member, called⟩
    have listed : entry.name ∈ (firsts entries).map Entry.name := by
      rw [map_name_firsts, mem_distinct]
      exact List.mem_map_of_mem member
    obtain ⟨first, kept, named⟩ := List.mem_map.mp listed
    refine ⟨_, List.mem_map_of_mem kept, List.mem_flatMap.mpr ⟨entry, ?_, called⟩⟩
    exact List.mem_filter.mpr ⟨member, by simp [named]⟩

end Entry

/-! ## Graphs with the same names and calls -/

namespace CallGraph

/-- Two graphs that define the same names in the same order and make the same calls. -/
structure Agree (graph other : CallGraph) : Prop where
  names : other.names = graph.names
  calls : ∀ name, other.calls name = graph.calls name

section

variable {graph other : CallGraph} (agree : Agree graph other)

include agree

theorem Agree.symm : Agree other graph := ⟨agree.names.symm, fun name => (agree.calls name).symm⟩

theorem Agree.edges : other.edges = graph.edges := by
  simp only [CallGraph.edges, callees, agree.names, agree.calls]

theorem Agree.callers (name : Text) : other.callers name = graph.callers name := by
  simp only [CallGraph.callers, agree.names, agree.calls]

theorem Agree.transitiveCalls (name : Text) :
    other.transitiveCalls name = graph.transitiveCalls name := by
  simp only [CallGraph.transitiveCalls, callCount, agree.names, funext agree.calls]

/-! ### Depths -/

theorem Agree.descents (walk : List Text) : other.descents walk = graph.descents walk := by
  have reaches : other.Reaches = graph.Reaches := by
    unfold Reaches
    rw [agree.edges]
  induction walk with
  | nil => rfl
  | cons a rest ih =>
    cases rest with
    | nil => rfl
    | cons b rest =>
      simp only [CallGraph.descents, ih, stepDown, reaches]

theorem Agree.isDepth_iff (name : Text) (depth : Nat) :
    other.IsDepth name depth ↔ graph.IsDepth name depth := by
  simp only [IsDepth, IsWalk, agree.edges, agree.descents]

/-- Layers of the two graphs say the same, though their components are those of different vertices. -/
theorem Agree.depth_eq {layers others : Layers} (measures : layers.Measures graph)
    (measures' : others.Measures other) (name : Text) : others.depth name = layers.depth name :=
  ((agree.isDepth_iff name _).mp (measures'.isDepth name)).unique (measures.isDepth name)

theorem Agree.depth (name : Text) : other.depth name = graph.depth name :=
  agree.depth_eq (Layers.measures_ofGraph graph) (Layers.measures_ofGraph other) name

theorem Agree.layers {condensed condensed' : Condensation} (condenses : condensed.Condenses graph)
    (sorted : condensed.IsTopological) (condenses' : condensed'.Condenses other)
    (sorted' : condensed'.IsTopological) :
    ∃ layers layers', Layers.ofCondensation? condensed = some layers ∧
      Layers.ofCondensation? condensed' = some layers' ∧
        ∀ name, layers'.depth name = layers.depth name := by
  obtain ⟨layers, pass, measures⟩ := Layers.exists_measures condenses sorted
  obtain ⟨layers', pass', measures'⟩ := Layers.exists_measures condenses' sorted'
  exact ⟨layers, layers', pass, pass', agree.depth_eq measures measures'⟩

/-! ### Cycles -/

theorem Agree.next {before after : List Text × Walk} (next : Walk.Next other before after) :
    Walk.Next graph before after := by
  cases next with
  | pass idle finished => exact .pass idle finished
  | @setOut root roots walk idle unfinished =>
    have same : walk.setOut other root = walk.setOut graph root := by
      simp only [Walk.setOut, agree.calls]
    rw [same]
    exact .setOut idle unfinished
  | @step roots walk busy =>
    have same : walk.step other = walk.step graph := by
      simp only [Walk.step, Walk.goOn, agree.calls]
    rw [same]
    exact .step busy

theorem Agree.cycles : other.cycles = graph.cycles := by
  obtain ⟨last, idle⟩ := Walk.stage_full other
  have stage : Walk.Stage graph ([], Walk.full other) := by
    unfold Walk.Stage at *
    rw [← agree.names]
    exact Relation.ReflTransGen.mono (fun _ _ => agree.next) _ _ last
  rw [CallGraph.cycles, Walk.eq_full stage idle, CallGraph.cycles]

end

/-! ## The policies -/

theorem mem_vertices (graph : CallGraph) (name : Text) :
    name ∈ graph.vertices ↔
      graph.isDefined name = true ∨ ∃ entry ∈ graph.entries, name ∈ entry.calls := by
  rw [vertices, List.mem_append, mem_names, mem_dangling]
  by_cases defined : graph.isDefined name = true
  · simp [defined]
  · simp [defined]

/-- If the first definition of a name counts, the later ones may be left out. -/
theorem agree_firsts (entries : List Entry) :
    Agree ⟨.first, entries⟩ ⟨.first, Entry.firsts entries⟩ where
  names := by
    simp only [names, Entry.map_name_firsts]
    exact distinct_eq_self (nodup_distinct _)
  calls := by
    intro name
    simp only [calls, owners, Entry.filter_firsts, List.take_take, Nat.min_self]

/-- If all definitions of a name count, they may be merged. -/
theorem agree_merged (entries : List Entry) :
    Agree ⟨.all, entries⟩ ⟨.all, Entry.merged entries⟩ where
  names := by
    simp only [names, Entry.map_name_merged]
    exact distinct_eq_self (nodup_distinct _)
  calls := by
    intro name
    simp only [calls, owners, Entry.merged, List.filter_map, Function.comp_def, Entry.filter_firsts]
    cases sharing : entries.filter (·.name = name) with
    | nil => rfl
    | cons first rest =>
      have member : first ∈ entries.filter (·.name = name) := by simp [sharing]
      have named : first.name = name := by simpa using (List.mem_filter.mp member).2
      simp [named, sharing]

/-- Two graphs that answer every question about names, calls, depths and cycles alike. The depths are
    the same whichever condensation of each graph, with its own vertices, the pass is given. -/
structure SameAnswers (graph other : CallGraph) : Prop where
  names : other.names = graph.names
  calls : ∀ name, other.calls name = graph.calls name
  edges : other.edges = graph.edges
  callers : ∀ name, other.callers name = graph.callers name
  transitiveCalls : ∀ name, other.transitiveCalls name = graph.transitiveCalls name
  depth : ∀ name, other.depth name = graph.depth name
  layers : ∀ condensed condensed' : Condensation,
    condensed.Condenses graph → condensed.IsTopological →
    condensed'.Condenses other → condensed'.IsTopological →
    ∃ layers layers', Layers.ofCondensation? condensed = some layers ∧
      Layers.ofCondensation? condensed' = some layers' ∧
        ∀ name, layers'.depth name = layers.depth name
  cycles : other.cycles = graph.cycles

theorem Agree.sameAnswers {graph other : CallGraph} (agree : Agree graph other) :
    SameAnswers graph other :=
  ⟨agree.names, agree.calls, agree.edges, agree.callers, agree.transitiveCalls, agree.depth,
    fun _ _ => agree.layers, agree.cycles⟩

/-- A vertex that a graph has beyond one with the same names and calls is an undefined name without
    edges. -/
theorem Agree.extra_vertex {graph other : CallGraph} (agree : Agree graph other) {name : Text}
    (missing : name ∉ other.vertices) :
    graph.isDefined name = false ∧
      ∀ neighbour, (name, neighbour) ∉ graph.edges ∧ (neighbour, name) ∉ graph.edges := by
  have undefined : graph.isDefined name ≠ true := by
    intro defined
    rw [← mem_names, ← agree.names] at defined
    exact missing (List.mem_append_left _ defined)
  refine ⟨by simpa using undefined, fun neighbour => ⟨fun edge => ?_, fun edge => ?_⟩⟩
  · exact undefined (defined_of_calls ((mem_edges graph _ _).mp edge))
  · rw [← agree.edges] at edge
    exact missing (mem_vertices_of_called ((mem_edges other _ _).mp edge))

/-- Where the first definition of a name counts, the graph answers as if the later ones were left
    out; it may have vertices that only they call, which are undefined names without edges. Where
    all definitions count, it answers as if they were merged into the first one, and has the same
    vertices. -/
theorem policies_resolve_names (entries : List Entry) :
    (let graph : CallGraph := ⟨.first, entries⟩
      let alone : CallGraph := ⟨.first, Entry.firsts entries⟩
      SameAnswers graph alone ∧ (∀ name ∈ alone.vertices, name ∈ graph.vertices) ∧
        ∀ name ∈ graph.vertices, name ∉ alone.vertices →
          graph.isDefined name = false ∧
            ∀ other, (name, other) ∉ graph.edges ∧ (other, name) ∉ graph.edges) ∧
    let graph : CallGraph := ⟨.all, entries⟩
    let merged : CallGraph := ⟨.all, Entry.merged entries⟩
    SameAnswers graph merged ∧ ∀ name, name ∈ merged.vertices ↔ name ∈ graph.vertices := by
  have firsts := agree_firsts entries
  have merged := agree_merged entries
  refine ⟨⟨firsts.sameAnswers, ?_, fun name _ => firsts.extra_vertex⟩, merged.sameAnswers, ?_⟩
  · intro name vertex
    rw [mem_vertices, ← mem_names, firsts.names, mem_names] at vertex
    rw [mem_vertices]
    refine vertex.imp_right ?_
    rintro ⟨entry, member, called⟩
    exact ⟨entry, Entry.firsts_subset entries entry member, called⟩
  · intro name
    rw [mem_vertices, mem_vertices, ← mem_names, ← mem_names, merged.names]
    exact or_congr_right (Entry.called_merged entries name)

/-- Two definitions of a name that call different names. -/
def contested : List Entry := [⟨['a'], [['b']]⟩, ⟨['b'], [['a']]⟩, ⟨['a'], [['c']]⟩]

/-- The name that only the second definition calls is a vertex without edges if the first counts,
    and one layer down if both do. If the first counts, it is a component of its own that the graph
    without the second definition does not have, and all depths are the same without it. -/
theorem contested_vertex :
    let graph : CallGraph := ⟨.first, contested⟩
    let alone : CallGraph := ⟨.first, Entry.firsts contested⟩
    let parts : Condensation := ⟨[(['a'], 0), (['b'], 0), (['c'], 1)], [], [0, 1]⟩
    let fewer : Condensation := ⟨[(['a'], 0), (['b'], 0)], [], [0]⟩
    let all : CallGraph := ⟨.all, contested⟩
    let merged : CallGraph := ⟨.all, [⟨['a'], [['b'], ['c']]⟩, ⟨['b'], [['a']]⟩]⟩
    alone.entries = [⟨['a'], [['b']]⟩, ⟨['b'], [['a']]⟩] ∧ ['c'] ∈ graph.vertices ∧
      ['c'] ∉ alone.vertices ∧ graph.isDefined ['c'] = false ∧ (['a'], ['c']) ∉ graph.edges ∧
      (∃ layers layers', Layers.ofCondensation? parts = some layers ∧
        Layers.ofCondensation? fewer = some layers' ∧
          ∀ name, layers'.depth name = layers.depth name) ∧
      merged.depth ['b'] = all.depth ['b'] ∧ all.depth ['b'] = 1 := by
  intro graph alone parts fewer all merged
  have vertex : ['c'] ∈ graph.vertices := by decide
  have missing : ['c'] ∉ alone.vertices := by decide
  have combined : merged = ⟨.all, Entry.merged contested⟩ := by decide
  obtain ⟨⟨answers, -, extra⟩, same, -⟩ := policies_resolve_names contested
  obtain ⟨undefined, apart⟩ := extra ['c'] vertex missing
  refine ⟨by decide, vertex, missing, undefined, (apart ['a']).2, ?_, ?_, by decide⟩
  · exact answers.layers parts fewer ⟨by decide, by decide, by decide, by decide⟩
      ⟨by decide, by decide⟩ ⟨by decide, by decide, by decide, by decide⟩ ⟨by decide, by decide⟩
  · rw [combined]
    exact same.depth ['b']

end CallGraph
end Mapkeys
