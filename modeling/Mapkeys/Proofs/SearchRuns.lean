import Mapkeys.Proofs.SearchTree

/-!
# Runs of the search

A run is what the search goes through from its start, one state after the other. In all of its states
the path, the positions and the pending calls fit together (`Aligned`). Every step uses up one of the
roots, calls and ways back that are left, so no run is longer than these allow and every run can be
carried on to the end; and a name is put on the path only if it has not been visited, so its calls are
listed once (`search_expands_once`).
-/

namespace Mapkeys.Walk

/-! ## The parts of a walk -/

/-- The path, the positions and the pending calls have one entry for each name of the path. The names
    are distinct and unfinished, each stands where the positions say, and each is called by the one
    before it. -/
structure Aligned (graph : CallGraph) (walk : Walk) : Prop where
  positions : walk.positions.length = walk.path.length
  pending : walk.pending.length = walk.path.length
  distinct : walk.path.Nodup
  placed : ∀ name position,
    walk.positions.lookup name = some position ↔ walk.path[position]? = some name
  unfinished : ∀ name ∈ walk.path, name ∉ walk.done
  called : walk.path.IsChain fun caller callee => (caller, callee) ∈ graph.edges

namespace Trail

theorem positionsOf_eq (frames : List (Text × List Text)) :
    positionsOf frames = (frames.map Prod.fst).reverse.zipIdx.reverse := by
  induction frames with
  | nil => rfl
  | cons frame outer ih =>
    rw [positionsOf, ih, List.map_cons, List.reverse_cons, List.zipIdx_append, List.reverse_append]
    simp

/-- A name has the position at which it stands on the path. -/
theorem lookup_positionsOf {frames : List (Text × List Text)}
    (distinct : (frames.map Prod.fst).Nodup) (name : Text) (position : Nat) :
    (positionsOf frames).lookup name = some position ↔
      (frames.map Prod.fst).reverse[position]? = some name := by
  have keys : (positionsOf frames).map Prod.fst = frames.map Prod.fst := by
    rw [positionsOf_eq, List.map_reverse, List.zipIdx_map_fst, List.reverse_reverse]
  rw [lookup_iff_mem (by rw [keys]; exact distinct), positionsOf_eq, List.mem_reverse,
    List.mem_zipIdx_iff_getElem?]

theorem Sound.aligned {graph : CallGraph} {roots : List Text} {trail : Trail}
    (sound : Sound graph roots trail) : Aligned graph trail.walk where
  positions := by simp [walk, names, positionsOf_eq]
  pending := by simp [walk, names]
  distinct := List.nodup_reverse.mpr sound.distinct
  placed := lookup_positionsOf sound.distinct
  unfinished := fun name on => sound.unfinished name (List.mem_reverse.mp on)
  called := sound.path_isChain.imp fun caller callee call => (graph.mem_edges caller callee).mpr call

end Trail

theorem stage_aligned {graph : CallGraph} {state : List Text × Walk} (stage : Stage graph state) :
    Aligned graph state.2 := by
  obtain ⟨trail, same, met⟩ := Trail.stage_met stage
  rw [same]
  exact met.sound.aligned

/-! ## The steps that are left -/

namespace Trail

theorem remaining_start (graph : CallGraph) : remaining graph ⟨[], [], []⟩ = stepLimit graph := by
  simp [remaining, names, unvisitedSteps, stepsOf, stepLimit]

theorem Met.length_le {graph : CallGraph} {roots : List Text} {trail : Trail}
    (met : Met graph roots trail) {states : List (List Text × Walk)}
    (steps : ((roots, trail.walk) :: states).IsChain (Next graph)) :
    states.length ≤ roots.length + remaining graph trail := by
  induction states generalizing roots trail with
  | nil => exact Nat.zero_le _
  | cons state rest ih =>
    obtain ⟨after, same, later, used⟩ := met.next steps.rel
    have short := ih later (by rw [← same]; exact steps.tail)
    rw [List.length_cons]
    omega

end Trail

/-! ## Expansions -/

/-- The names whose calls are put on the stack on the way through the given states. -/
def expansions : List (List Text × Walk) → List Text
  | before :: after :: rest => (expanded? before after).toList ++ expansions (after :: rest)
  | _ => []

/-- The names that are visited between two walks, each once. -/
structure VisitedOnce (before after : Walk) (names : List Text) : Prop where
  distinct : names.Nodup
  fresh : ∀ name ∈ names, ¬ Visited before name
  visited : ∀ name, Visited after name ↔ Visited before name ∨ name ∈ names

theorem VisitedOnce.cons {before middle after : Walk} {names : List Text} {expanded : Option Text}
    (fresh : ∀ name ∈ expanded, ¬ Visited before name)
    (visited : ∀ name, Visited middle name ↔ Visited before name ∨ name ∈ expanded)
    (rest : VisitedOnce middle after names) :
    VisitedOnce before after (expanded.toList ++ names) where
  distinct := by
    refine List.nodup_append.mpr ⟨?_, rest.distinct, ?_⟩
    · cases expanded <;> simp
    · rintro name first _ later rfl
      exact rest.fresh name later ((visited name).mpr (.inr (Option.mem_toList.mp first)))
  fresh := by
    intro name member
    rcases List.mem_append.mp member with first | later
    · exact fresh name (Option.mem_toList.mp first)
    · exact fun old => rest.fresh name later ((visited name).mpr (.inl old))
  visited := by
    intro name
    rw [rest.visited, visited, List.mem_append, Option.mem_toList, Option.mem_def, or_assoc]

/-- On any way through the search the names that are expanded are those that become visited. -/
theorem expansions_visitedOnce {graph : CallGraph} {before last : List Text × Walk}
    {states : List (List Text × Walk)} (stage : Stage graph before)
    (steps : (before :: states).IsChain (Next graph))
    (ends : (before :: states).getLast? = some last) :
    VisitedOnce before.2 last.2 (expansions (before :: states)) := by
  induction states generalizing before with
  | nil =>
    obtain rfl : before = last := by simpa using ends
    exact ⟨List.nodup_nil, by simp [expansions], by simp [expansions]⟩
  | cons after rest ih =>
    obtain ⟨pushed, visited⟩ := next_expands stage steps.rel
    rw [List.getLast?_cons_cons] at ends
    exact (ih (stage.tail steps.rel) steps.tail ends).cons (fun name grown => (pushed name grown).2)
      visited

/-! ## Runs -/

/-- The search goes on from each of its states to its end. -/
theorem stage_ends {graph : CallGraph} {state : List Text × Walk} (stage : Stage graph state) :
    Relation.ReflTransGen (Next graph) state ([], full graph) := by
  obtain ⟨last, idle⟩ := stage_full graph
  rcases stage_total stage last with forwards | backwards
  · exact forwards
  · rw [idle_last idle backwards]

/-- The states that the search goes through one after the other, from its start. -/
structure IsRun (graph : CallGraph) (states : List (List Text × Walk)) : Prop where
  starts : states.head? = some (graph.names, Walk.empty)
  steps : states.IsChain (Next graph)

section

variable {graph : CallGraph} {states : List (List Text × Walk)} (run : IsRun graph states)

include run

theorem IsRun.eq_cons : ∃ rest, states = (graph.names, Walk.empty) :: rest :=
  List.head?_eq_some_iff.mp run.starts

theorem IsRun.stage : ∀ state ∈ states, Stage graph state := by
  obtain ⟨rest, rfl⟩ := run.eq_cons
  exact run.steps.induction _ _ (fun _ _ next stage => stage.tail next) fun _ => .refl

theorem IsRun.length_le : states.length ≤ graph.names.length + stepLimit graph + 1 := by
  obtain ⟨rest, rfl⟩ := run.eq_cons
  have short := Trail.Met.length_le .start run.steps
  rw [Trail.remaining_start] at short
  exact Nat.succ_le_succ short

/-- Every run can be carried on to the end of the search. -/
theorem IsRun.exists_end :
    ∃ rest, IsRun graph (states ++ rest) ∧ (states ++ rest).getLast? = some ([], full graph) := by
  have nonempty : states ≠ [] := by
    obtain ⟨rest, rfl⟩ := run.eq_cons
    exact List.cons_ne_nil _ _
  have split := List.dropLast_append_getLast nonempty
  have onward := stage_ends (run.stage _ (List.getLast_mem nonempty))
  obtain ⟨rest, steps, ends⟩ := List.exists_isChain_cons_of_relationReflTransGen onward
  refine ⟨rest, ⟨?_, ?_⟩, ?_⟩
  · rw [List.head?_append, run.starts]
    rfl
  · have whole := run.steps
    rw [← split] at whole ⊢
    exact whole.append_overlap steps (List.cons_ne_nil _ _)
  · rw [← split, List.append_assoc, List.singleton_append,
      List.getLast?_append_of_ne_nil _ (List.cons_ne_nil _ _),
      List.getLast?_eq_some_getLast (List.cons_ne_nil _ _), ends]

theorem IsRun.visitedOnce {last : List Text × Walk} (ends : states.getLast? = some last) :
    (expansions states).Nodup ∧ ∀ name, name ∈ expansions states ↔ Visited last.2 name := by
  obtain ⟨rest, rfl⟩ := run.eq_cons
  have once := expansions_visitedOnce .refl run.steps ends
  refine ⟨once.distinct, fun name => ?_⟩
  rw [once.visited]
  simp [Visited, Walk.empty]

end

/-- In every state that the search goes through the path, the positions and the pending calls fit
    together. The search ends: no run is longer than the roots, calls and ways back allow, every run
    can be carried on to the state that `full` gives, and no step leads out of that one. No name has its
    calls put on the stack twice; at the end those that were expanded are the finished names, and every
    defined name is one of them. -/
theorem search_expands_once (graph : CallGraph) :
    (∀ states, IsRun graph states →
      (∀ state ∈ states, Aligned graph state.2) ∧
      (states.IsChain fun before after => ∀ name ∈ expanded? before after,
        after.2.pending.head? = some (graph.calls name)) ∧
      (expansions states).Nodup ∧
      states.length ≤ graph.names.length + stepLimit graph + 1 ∧
      ∃ rest, IsRun graph (states ++ rest) ∧ (states ++ rest).getLast? = some ([], full graph)) ∧
    (∀ state, ¬ Next graph ([], full graph) state) ∧
    (∀ states, IsRun graph states → states.getLast? = some ([], full graph) →
      ∀ name, name ∈ expansions states ↔ name ∈ (full graph).done) ∧
    ∀ name ∈ graph.names, name ∈ (full graph).done := by
  obtain ⟨last, idle⟩ := stage_full graph
  refine ⟨fun states run => ⟨fun state member => stage_aligned (run.stage state member), ?_, ?_,
    run.length_le, run.exists_end⟩, ?_, ?_, (full_met graph).2⟩
  · refine run.steps.imp_of_mem_imp fun before after member _ next name grown => ?_
    exact ((next_expands (run.stage before member) next).1 name grown).1
  · obtain ⟨rest, rfl⟩ := run.eq_cons
    exact (run.visitedOnce (List.getLast?_eq_some_getLast (List.cons_ne_nil _ _))).1
  · intro state next
    cases next with
    | step busy => exact busy idle
  · intro states run ends name
    rw [(run.visitedOnce ends).2]
    have path : (full graph).path = [] := by
      have aligned := (stage_aligned last).pending
      rw [idle] at aligned
      exact List.eq_nil_of_length_eq_zero aligned.symm
    simp [Visited, path]

/-- Two names that call each other, one of them the empty one, with a repeated call, a call to itself
    and a dangling one. -/
def tangle : CallGraph := ⟨.first, [⟨[], [['b'], ['b'], []]⟩, ⟨['b'], [[], ['c']]⟩]⟩

/-- The search sets out from the empty name and goes on to the other one. -/
def tangleStates : List (List Text × Walk) :=
  [(tangle.names, Walk.empty), ([['b']], Walk.empty.setOut tangle []),
    ([['b']], (Walk.empty.setOut tangle []).step tangle)]

/-- Carried on to its end the search has expanded three names, each once. -/
theorem tangle_expands_once :
    IsRun tangle tangleStates ∧ expansions tangleStates = [[], ['b']] ∧
      (∀ state ∈ tangleStates, Aligned tangle state.2) ∧
      ∃ rest, IsRun tangle (tangleStates ++ rest) ∧
        (tangleStates ++ rest).getLast? = some ([], full tangle) ∧
        (expansions (tangleStates ++ rest)).Nodup ∧
        ∀ name, name ∈ expansions (tangleStates ++ rest) ↔ name ∈ [[], ['b'], ['c']] := by
  have run : IsRun tangle tangleStates :=
    ⟨rfl, .cons_cons (.setOut rfl (by decide)) (.cons_cons (.step (by decide)) (.singleton _))⟩
  have finished : (full tangle).done = [[], ['b'], ['c']] := by decide
  obtain ⟨runs, -, expanded, -⟩ := search_expands_once tangle
  obtain ⟨aligned, -, -, -, rest, whole, ends⟩ := runs tangleStates run
  refine ⟨run, by decide, aligned, rest, whole, ends, (runs _ whole).2.2.1, fun name => ?_⟩
  rw [expanded _ whole ends, finished]

end Mapkeys.Walk
