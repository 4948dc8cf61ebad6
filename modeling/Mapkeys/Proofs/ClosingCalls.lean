import Mapkeys.Proofs.Search

/-!
# Closing calls

The call that closes a reported cycle is its last step. The names are finished in an order in which
every other call leads to a name finished earlier (`Settled`), so no circular chain of calls is
left once the closing calls are taken away; and every reported cycle is itself such a chain.
-/

namespace Mapkeys

/-- One of the cycles ends with the call of one name to another. -/
def Closes (cycles : List (List Text)) (caller callee : Text) : Prop :=
  ∃ cycle ∈ cycles, [caller, callee] <:+ cycle

theorem Closes.mono {before after : List (List Text)} {caller callee : Text}
    (subset : ∀ cycle ∈ before, cycle ∈ after) (closes : Closes before caller callee) :
    Closes after caller callee := by
  obtain ⟨cycle, member, ends⟩ := closes
  exact ⟨cycle, subset cycle member, ends⟩

namespace Walk.Trail

/-! ## The cycle that a call closes -/

theorem report_subset (cycles : List (List Text)) (cycle : List Text) :
    ∀ other ∈ cycles, other ∈ if cycle ∈ cycles then cycles else cycles ++ [cycle] := by
  intro other member
  split_ifs
  · exact member
  · exact List.mem_append_left _ member

theorem mem_report (cycles : List (List Text)) (cycle : List Text) :
    cycle ∈ if cycle ∈ cycles then cycles else cycles ++ [cycle] := by
  split_ifs with old
  · exact old
  · simp

theorem of_mem_report {cycles : List (List Text)} {cycle other : List Text}
    (member : other ∈ if cycle ∈ cycles then cycles else cycles ++ [cycle]) :
    other ∈ cycles ∨ other = cycle := by
  split_ifs at member
  · exact .inl member
  · simpa using member

section
variable {name callee : Text} {calls rest : List Text} {outer inner beyond : List (Text × List Text)}

theorem close_last (split : (name, calls) :: outer = inner ++ (callee, rest) :: beyond) :
    (callee :: (inner.map Prod.fst).reverse).getLast? = some name := by
  have last := congrArg List.getLast? (path_split split)
  rw [List.getLast?_reverse, List.map_cons, List.head?_cons,
    List.getLast?_append_of_ne_nil _ (by simp)] at last
  exact last.symm

theorem close_suffix (split : (name, calls) :: outer = inner ++ (callee, rest) :: beyond) :
    [name, callee] <:+ callee :: (inner.map Prod.fst).reverse ++ [callee] := by
  obtain ⟨before, path⟩ := List.getLast?_eq_some_iff.mp (close_last split)
  rw [path, List.append_assoc]
  exact List.suffix_append before _

/-- A relation that links the path and the closing call links the cycle. -/
theorem close_chain {related : Text → Text → Prop}
    (split : (name, calls) :: outer = inner ++ (callee, rest) :: beyond)
    (path : (((name, calls) :: outer).map Prod.fst).reverse.IsChain related)
    (last : related name callee) :
    (callee :: (inner.map Prod.fst).reverse ++ [callee]).IsChain related := by
  rw [path_split split] at path
  apply path.right_of_append.append (.singleton _)
  intro x isLast y isHead
  rw [close_last split, Option.mem_some_iff] at isLast
  rw [List.head?_cons, Option.mem_some_iff] at isHead
  rw [← isLast, ← isHead]
  exact last

end

theorem Sound.path_isChain {graph : CallGraph} {roots : List Text} {trail : Trail}
    (sound : Sound graph roots trail) : trail.names.reverse.IsChain graph.Calls := by
  rw [List.isChain_reverse, names, List.isChain_map]
  exact sound.called

/-- What holds of every cycle that a call closes holds of every reported cycle. -/
theorem Met.reported {graph : CallGraph} (holds : List Text → Prop)
    (closed : ∀ {roots name callee left outer done cycles inner rest beyond},
      Met graph roots ⟨(name, callee :: left) :: outer, done, cycles⟩ →
        (name, callee :: left) :: outer = inner ++ (callee, rest) :: beyond →
          holds (callee :: (inner.map Prod.fst).reverse ++ [callee]))
    {roots : List Text} {trail : Trail} (met : Met graph roots trail) :
    ∀ cycle ∈ trail.cycles, holds cycle := by
  induction met with
  | start => simp
  | pass _ _ ih => exact ih
  | setOut _ _ ih => exact ih
  | move earlier moved ih =>
    cases moved with
    | goBack => exact ih
    | pass => exact ih
    | goOn => exact ih
    | close split reported =>
      intro cycle member
      subst reported
      rcases of_mem_report member with old | rfl
      · exact ih cycle old
      · exact closed earlier split

/-- A relation that links every path, and every name to the names on its path that it calls, links
    every reported cycle. -/
theorem Met.circular {graph : CallGraph} {related : Text → Text → Prop}
    (path : ∀ {roots trail}, Met graph roots trail → trail.names.reverse.IsChain related)
    (back : ∀ {roots name callee left outer done cycles},
      Met graph roots ⟨(name, callee :: left) :: outer, done, cycles⟩ →
        callee ∈ name :: outer.map Prod.fst → related name callee)
    {roots : List Text} {trail : Trail} (met : Met graph roots trail) :
    ∀ cycle ∈ trail.cycles, CallGraph.Circular related cycle := by
  apply met.reported (CallGraph.Circular related)
  intro roots name callee left outer done cycles inner rest beyond earlier split
  have on : callee ∈ name :: outer.map Prod.fst := by
    rw [← List.map_cons (f := Prod.fst) (a := (name, callee :: left)), split]
    simp
  exact ⟨callee, (inner.map Prod.fst).reverse ++ [callee], rfl, by simp,
    close_chain split (path earlier) (back earlier on)⟩

/-- Every reported cycle is a circular chain of calls. -/
theorem Met.circular_calls {graph : CallGraph} {roots : List Text} {trail : Trail}
    (met : Met graph roots trail) :
    ∀ cycle ∈ trail.cycles, CallGraph.Circular graph.Calls cycle :=
  met.circular (fun earlier => earlier.sound.path_isChain)
    fun earlier _ => earlier.sound.left _ List.mem_cons_self _ List.mem_cons_self

/-! ## The order of finishing -/

/-- Every call of a finished name closes a cycle or leads to a name that was finished earlier. -/
def Settled (graph : CallGraph) (cycles : List (List Text)) : List Text → Prop
  | [] => True
  | name :: earlier =>
    (∀ callee, graph.Calls name callee → Closes cycles name callee ∨ callee ∈ earlier) ∧
      Settled graph cycles earlier

/-- Every call of a name on the stack is left, closes a cycle, or leads to a visited name; the
    names further in count as visited. -/
def Underway (graph : CallGraph) (cycles : List (List Text)) :
    (visited : List Text) → List (Text × List Text) → Prop
  | _, [] => True
  | visited, (name, left) :: outer =>
    (∀ callee, graph.Calls name callee →
        callee ∈ left ∨ Closes cycles name callee ∨ callee ∈ visited) ∧
      Underway graph cycles (name :: visited) outer

section
variable {graph : CallGraph} {before after : List (List Text)}

theorem Settled.mono (subset : ∀ cycle ∈ before, cycle ∈ after) {done : List Text}
    (settled : Settled graph before done) : Settled graph after done := by
  induction done with
  | nil => trivial
  | cons name earlier ih =>
    refine ⟨fun callee call => ?_, ih settled.2⟩
    exact (settled.1 callee call).imp_left (Closes.mono subset)

theorem Underway.mono (subset : ∀ cycle ∈ before, cycle ∈ after)
    {frames : List (Text × List Text)} {visited more : List Text}
    (grown : ∀ name ∈ visited, name ∈ more) (underway : Underway graph before visited frames) :
    Underway graph after more frames := by
  induction frames generalizing visited more with
  | nil => trivial
  | cons frame outer ih =>
    refine ⟨fun callee call => ?_, ih (by simpa using fun a h => .inr (grown a h)) underway.2⟩
    exact (underway.1 callee call).imp_right (Or.imp (Closes.mono subset) (grown callee))

/-- A call that is taken off the innermost frame has to be accounted for. -/
theorem Underway.take {cycles : List (List Text)} {visited : List Text} {name callee : Text}
    {left : List Text} {outer : List (Text × List Text)}
    (underway : Underway graph cycles visited ((name, callee :: left) :: outer))
    (taken : Closes cycles name callee ∨ callee ∈ visited) :
    Underway graph cycles visited ((name, left) :: outer) := by
  refine ⟨fun other call => ?_, underway.2⟩
  rcases underway.1 other call with pending | accounted
  · rcases List.mem_cons.mp pending with rfl | pending
    · exact .inr taken
    · exact .inl pending
  · exact .inr accounted

/-- Along calls that close no cycle one only comes to finished names. -/
theorem Settled.closed {cycles : List (List Text)} {done : List Text}
    (settled : Settled graph cycles done) {a b : Text} (inside : a ∈ done)
    (path : Relation.ReflTransGen (fun a b => graph.Calls a b ∧ ¬ Closes cycles a b) a b) :
    b ∈ done := by
  induction path with
  | refl => exact inside
  | @tail b c _ step ih =>
    clear inside
    induction done with
    | nil => simp at ih
    | cons name earlier deeper =>
      rcases List.mem_cons.mp ih with rfl | later
      · rcases settled.1 c step.1 with closes | member
        · exact absurd closes step.2
        · exact List.mem_cons_of_mem _ member
      · exact List.mem_cons_of_mem _ (deeper settled.2 later)

/-- No circular chain of such calls goes through a finished name. -/
theorem Settled.acyclic {cycles : List (List Text)} {done : List Text}
    (settled : Settled graph cycles done) {name : Text} (inside : name ∈ done) :
    ¬ Relation.TransGen (fun a b => graph.Calls a b ∧ ¬ Closes cycles a b) name name := by
  induction done with
  | nil => simp at inside
  | cons last earlier ih =>
    intro circle
    by_cases old : name ∈ earlier
    · exact ih settled.2 old circle
    · obtain rfl : name = last := (List.mem_cons.mp inside).resolve_right old
      obtain ⟨next, step, back⟩ := Relation.TransGen.head'_iff.mp circle
      have early : next ∈ earlier := (settled.1 next step.1).resolve_left step.2
      exact old (settled.2.closed early back)

end

theorem Met.settled {graph : CallGraph} {roots : List Text} {trail : Trail}
    (met : Met graph roots trail) :
    Settled graph trail.cycles trail.done ∧
      Underway graph trail.cycles trail.done trail.frames := by
  induction met with
  | start => exact ⟨trivial, trivial⟩
  | pass _ _ ih => exact ih
  | setOut _ _ ih => exact ⟨ih.1, fun _ call => .inl call, trivial⟩
  | move _ moved ih =>
    obtain ⟨settled, underway⟩ := ih
    cases moved with
    | goBack =>
      refine ⟨⟨fun callee call => ?_, settled⟩, underway.2⟩
      simpa using underway.1 callee call
    | @close name callee left outer done cycles inner rest beyond cycles' split reported =>
      subst reported
      have subset := report_subset cycles (callee :: (inner.map Prod.fst).reverse ++ [callee])
      have closes := mem_report cycles (callee :: (inner.map Prod.fst).reverse ++ [callee])
      exact ⟨settled.mono subset,
        (underway.mono subset fun _ h => h).take (.inl ⟨_, closes, close_suffix split⟩)⟩
    | pass finished off => exact ⟨settled, underway.take (.inr finished)⟩
    | @goOn name callee left outer done cycles unfinished off =>
      have visited : callee ∈ callee :: done := List.mem_cons_self
      have wider := underway.mono (fun _ h => h) fun _ h => List.mem_cons_of_mem callee h
      exact ⟨settled, fun _ call => .inl call, wider.take (.inr visited)⟩

end Walk.Trail

namespace CallGraph

/-! ## Every circular chain takes a closing call -/

theorem acyclic_without_closing (graph : CallGraph) (name : Text) :
    ¬ Relation.TransGen (fun a b => graph.Calls a b ∧ ¬ Closes graph.cycles a b) name name := by
  obtain ⟨met, finished⟩ := Walk.full_met graph
  intro circle
  obtain ⟨next, step, _⟩ := Relation.TransGen.head'_iff.mp circle
  have defined := (mem_names graph name).mpr (defined_of_calls step.1)
  exact met.settled.1.acyclic (finished name defined) circle

theorem exists_closing (graph : CallGraph) (walk : List Text) (closed : graph.ClosedWalk walk) :
    ∃ a b, [a, b] <:+: walk ∧ Closes graph.cycles a b := by
  obtain ⟨start, rest, rfl, last, chain⟩ := (closedWalk_iff graph walk).mp closed
  by_contra none
  push Not at none
  apply acyclic_without_closing graph start
  rw [transGen_iff_chain]
  refine ⟨rest, last, List.isChain_iff_forall_rel_of_append_cons_cons.mpr ?_⟩
  intro a b before after split
  have step := List.isChain_iff_forall_rel_of_append_cons_cons.mp chain split
  exact ⟨step, none a b ⟨before, after, by rw [split]; simp⟩⟩

/-- Every circular chain of calls takes a call that closes a reported cycle: without these calls the
    graph has no circular chain, and no cycle is reported exactly if no name reaches itself. -/
theorem closedWalk_has_closing_call (graph : CallGraph) :
    (∀ walk, graph.ClosedWalk walk → ∃ a b, [a, b] <:+: walk ∧ Closes graph.cycles a b) ∧
      (∀ name, ¬ Relation.TransGen
        (fun a b => (a, b) ∈ graph.edges ∧ ¬ Closes graph.cycles a b) name name) ∧
      (graph.cycles = [] ↔ ∀ name, name ∉ graph.transitiveCalls name) := by
  refine ⟨exists_closing graph, ?_, ?_⟩
  · simpa only [mem_edges] using acyclic_without_closing graph
  · constructor
    · intro empty name circle
      rw [mem_transitiveCalls_iff] at circle
      apply acyclic_without_closing graph name
      exact Relation.TransGen.mono (fun a b call => ⟨call, by simp [empty, Closes]⟩) _ _ circle
    · intro acyclic
      rw [List.eq_nil_iff_forall_not_mem]
      intro cycle member
      obtain ⟨start, rest, rfl, last, chain⟩ := (Walk.full_met graph).1.circular_calls cycle member
      apply acyclic start
      rw [mem_transitiveCalls_iff, transGen_iff_chain]
      exact ⟨rest, last, chain⟩

/-- Two names that call each other, and a third one on a second way round. -/
def detour : CallGraph :=
  ⟨.first, [⟨['a'], [['b'], ['c']]⟩, ⟨['b'], [['a']]⟩, ⟨['c'], [['b']]⟩]⟩

/-- The second way round is not reported, but takes the closing call of the first one. -/
theorem detour_has_closing_call :
    detour.cycles = [[['a'], ['b'], ['a']]] ∧ detour.ClosedWalk [['a'], ['c'], ['b'], ['a']] ∧
      ∃ a b, [a, b] <:+: [['a'], ['c'], ['b'], ['a']] ∧ Closes detour.cycles a b := by
  have closed : detour.ClosedWalk [['a'], ['c'], ['b'], ['a']] :=
    ⟨by decide, by unfold IsWalk; decide, by decide⟩
  exact ⟨by decide, closed, (closedWalk_has_closing_call detour).1 _ closed⟩

end CallGraph
end Mapkeys
