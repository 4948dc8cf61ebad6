import Mapkeys.Proofs.Reachability

/-!
# Transitive calls

The names that a name calls, directly or through others, are those at the end of a walk of at least
one step. A name is one of its own exactly if it is on a cycle. Whoever knows the other names that a
name reaches has to add the name itself if it or one of them calls it (`withReturn`).
-/

namespace Mapkeys.CallGraph

/-! ## Walks of at least one step -/

/-- A walk of at least one step from one name to another. -/
structure Leads (graph : CallGraph) (first last : Text) (walk : List Text) : Prop where
  long : 2 ≤ walk.length
  isWalk : graph.IsWalk walk
  starts : walk.head? = some first
  ends : walk.getLast? = some last

theorem exists_leads_iff (graph : CallGraph) (first last : Text) :
    (∃ walk, graph.Leads first last walk) ↔ Relation.TransGen graph.Calls first last := by
  rw [transGen_iff_chain]
  constructor
  · rintro ⟨walk, long, isWalk, starts, ends⟩
    match walk, long with
    | start :: next :: rest, _ =>
      obtain rfl : start = first := Option.some.inj starts
      rw [List.getLast?_cons_cons] at ends
      exact ⟨next :: rest, ends, (isWalk_iff graph _).mp isWalk⟩
  · rintro ⟨rest, ends, chain⟩
    match rest, ends with
    | next :: others, ends =>
      refine ⟨first :: next :: others, by simp, (isWalk_iff graph _).mpr chain, rfl, ?_⟩
      rw [List.getLast?_cons_cons, ends]

/-! ## Cycles -/

/-- Some walk without repetitions has the same start and the same end. -/
theorem exists_nodup_walk {graph : CallGraph} {name : Text} {rest : List Text}
    (chain : (name :: rest).IsChain graph.Calls) :
    ∃ short, (name :: short).IsChain graph.Calls ∧ (name :: short).Nodup ∧
      (name :: short).getLast? = (name :: rest).getLast? := by
  induction rest generalizing name with
  | nil => exact ⟨[], chain, by simp, rfl⟩
  | cons next rest ih =>
    obtain ⟨short, shortChain, distinct, ends⟩ := ih chain.tail
    have longer : (name :: next :: short).IsChain graph.Calls := shortChain.cons_cons chain.rel
    rw [List.getLast?_cons_cons, ← ends]
    by_cases again : name ∈ next :: short
    · -- cut out the loop from the name back to itself
      obtain ⟨before, after, split⟩ := List.append_of_mem again
      rw [split, ← List.cons_append] at longer
      rw [split] at distinct
      refine ⟨after, longer.right_of_append, distinct.sublist (List.sublist_append_right _ _), ?_⟩
      rw [split, List.getLast?_append_of_ne_nil _ (by simp)]
    · exact ⟨next :: short, longer, List.nodup_cons.mpr ⟨again, distinct⟩, List.getLast?_cons_cons⟩

/-- A name that leads back to itself does so without passing any name twice. -/
theorem exists_simple_cycle {graph : CallGraph} {name : Text}
    (circle : Relation.TransGen graph.Calls name name) :
    ∃ cycle, graph.ClosedWalk cycle ∧ cycle.dropLast.Nodup ∧ name ∈ cycle := by
  obtain ⟨rest, ends, chain⟩ := (transGen_iff_chain name name).mp circle
  match rest, ends with
  | next :: others, ends =>
    obtain ⟨short, shortChain, distinct, same⟩ := exists_nodup_walk chain.tail
    rw [ends] at same
    -- the short walk passes the name only at its end
    obtain ⟨init, split⟩ := List.getLast?_eq_some_iff.mp same
    rw [split] at distinct
    have away : name ∉ init := fun member => (List.nodup_append.mp distinct).2.2 name member name
      List.mem_cons_self rfl
    have init_nodup : init.Nodup := (List.nodup_append.mp distinct).1
    refine ⟨name :: next :: short, (closedWalk_iff graph _).mpr ⟨name, next :: short, rfl, same,
      shortChain.cons_cons chain.rel⟩, ?_, List.mem_cons_self⟩
    rw [split, ← List.cons_append, List.dropLast_concat]
    exact List.nodup_cons.mpr ⟨away, init_nodup⟩

theorem mem_own_transitiveCalls_iff (graph : CallGraph) (name : Text) :
    name ∈ graph.transitiveCalls name ↔
      ∃ cycle, graph.ClosedWalk cycle ∧ cycle.dropLast.Nodup ∧ name ∈ cycle := by
  rw [mem_transitiveCalls_iff]
  constructor
  · exact exists_simple_cycle
  · rintro ⟨cycle, closed, -, member⟩
    exact ((closedWalk_iff graph cycle).mp closed).transGen member

theorem transitiveCalls_eq_nil {graph : CallGraph} {name : Text}
    (undefined : graph.isDefined name = false) : graph.transitiveCalls name = [] := by
  rw [List.eq_nil_iff_forall_not_mem]
  intro other member
  obtain ⟨next, call, -⟩ := Relation.TransGen.head'_iff.mp
    ((mem_transitiveCalls_iff graph name other).mp member)
  have defined := defined_of_calls call
  simp [undefined] at defined

/-! ## The way back -/

/-- The names that a name reaches besides itself, and the name as well if it or one of them calls
    it. -/
def withReturn (graph : CallGraph) (name : Text) (others : List Text) : List Text :=
  if graph.edges.contains (name, name) || others.any fun other => graph.edges.contains (other, name)
  then name :: others else others

theorem transGen_self_iff {graph : CallGraph} {name : Text} :
    Relation.TransGen graph.Calls name name ↔
      graph.Calls name name ∨
        ∃ other, (other ≠ name ∧ graph.Reaches name other) ∧ graph.Calls other name := by
  rw [Reaches, edges_eq_calls, Relation.TransGen.tail'_iff]
  constructor
  · rintro ⟨other, path, call⟩
    by_cases same : other = name
    · exact .inl (same ▸ call)
    · exact .inr ⟨other, ⟨same, path⟩, call⟩
  · rintro (call | ⟨other, ⟨-, path⟩, call⟩)
    · exact ⟨name, .refl, call⟩
    · exact ⟨other, path, call⟩

/-- The other names that a name reaches, completed by the way back, are its transitive calls. -/
theorem mem_withReturn_iff {graph : CallGraph} {name : Text} {others : List Text}
    (reached : ∀ other, other ∈ others ↔ other ≠ name ∧ graph.Reaches name other) (other : Text) :
    other ∈ graph.withReturn name others ↔ other ∈ graph.transitiveCalls name := by
  have returns : (graph.edges.contains (name, name) ||
      others.any fun other => graph.edges.contains (other, name)) = true ↔
        Relation.TransGen graph.Calls name name := by
    simp only [Bool.or_eq_true, List.contains_iff_mem, List.any_eq_true, mem_edges, reached]
    exact transGen_self_iff.symm
  rw [withReturn, mem_transitiveCalls_iff]
  by_cases same : other = name
  · subst same
    have absent : other ∉ others := fun member => ((reached other).mp member).1 rfl
    split_ifs with back
    · simpa using returns.mp back
    · simpa [absent] using fun circle => back (returns.mpr circle)
  · have elsewhere : other ∈ others ↔ Relation.TransGen graph.Calls name other := by
      rw [reached, Reaches, edges_eq_calls, Relation.reflTransGen_iff_eq_or_transGen]
      simp [same]
    split_ifs with back
    · simpa [same] using elsewhere
    · exact elsewhere

/-! ## Reachability -/

/-- The transitive calls of a name are the names at the end of a walk of at least one step from it,
    each listed once. A name is among its own exactly if it is on a cycle, and a name that is not
    defined has none. They are the other names that it reaches, and the name itself if it or one of
    those calls it. -/
theorem transitiveCalls_iff_walk (graph : CallGraph) (name : Text) :
    (∀ other, other ∈ graph.transitiveCalls name ↔ ∃ walk, graph.Leads name other walk) ∧
      (name ∈ graph.transitiveCalls name ↔
        ∃ cycle, graph.ClosedWalk cycle ∧ cycle.dropLast.Nodup ∧ name ∈ cycle) ∧
      (graph.transitiveCalls name).Nodup ∧
      (graph.isDefined name = false → graph.transitiveCalls name = []) ∧
      ∀ others, (∀ other, other ∈ others ↔ other ≠ name ∧ graph.Reaches name other) →
        ∀ other, other ∈ graph.withReturn name others ↔ other ∈ graph.transitiveCalls name := by
  refine ⟨fun other => ?_, mem_own_transitiveCalls_iff graph name, nodup_follow List.nodup_nil,
    transitiveCalls_eq_nil, fun others => mem_withReturn_iff⟩
  rw [mem_transitiveCalls_iff, exists_leads_iff]

/-- Two names that call each other, one of them also an undefined name. -/
def pair : CallGraph := ⟨.first, [⟨['a'], [['b']]⟩, ⟨['b'], [['a'], ['c']]⟩]⟩

/-- From the other two names that the first one reaches, the way back gives all three; the undefined
    name has no transitive calls. -/
theorem pair_transitiveCalls :
    (∀ other, other ∈ pair.withReturn ['a'] [['b'], ['c']] ↔ other ∈ pair.transitiveCalls ['a']) ∧
      pair.isDefined ['c'] = false ∧ pair.transitiveCalls ['c'] = [] ∧
      pair.withReturn ['a'] [['b'], ['c']] = [['a'], ['b'], ['c']] := by
  have undefined : pair.isDefined ['c'] = false := by decide
  have reached (other : Text) :
      other ∈ [['b'], ['c']] ↔ other ≠ ['a'] ∧ pair.Reaches ['a'] other := by
    have listed : pair.transitiveCalls ['a'] = [['c'], ['a'], ['b']] := by decide
    rw [reaches_iff, listed]
    simp only [List.mem_cons, List.not_mem_nil, or_false]
    constructor
    · rintro (rfl | rfl)
      · decide
      · decide
    · rintro ⟨different, same | found | same | found⟩
      · exact absurd same.symm different
      · exact .inr found
      · exact absurd same different
      · exact .inl found
  exact ⟨(transitiveCalls_iff_walk pair ['a']).2.2.2.2 _ reached, undefined,
    (transitiveCalls_iff_walk pair ['c']).2.2.2.1 undefined, by decide⟩

end Mapkeys.CallGraph
