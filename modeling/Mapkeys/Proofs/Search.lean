import Mapkeys.CallGraph.Cycle
import Mapkeys.Proofs.Reachability
import Mathlib.Data.List.Flatten
import Mathlib.Tactic.Common

/-!
# The search for cycles, step by step

The search as a transition system on the roots that are left and the walk. The path, the positions
and the pending calls of a walk are three views of one stack of frames (`Trail`); what a step does
to that stack is said once (`Move`), and what holds in every state follows from what the moves keep
(`Met.sound`). A measure on the names not yet visited shows that the fuel of every walk suffices, so
the search ends with no root and no call left (`stage_full`).
-/

namespace Mapkeys.Walk

/-- One step of the search: it passes a finished root, sets out from one that is not, or takes a
    step of the walk. -/
inductive Next (graph : CallGraph) : List Text × Walk → List Text × Walk → Prop
  | pass {root : Text} {roots : List Text} {walk : Walk} (idle : walk.pending = [])
      (finished : root ∈ walk.done) : Next graph (root :: roots, walk) (roots, walk)
  | setOut {root : Text} {roots : List Text} {walk : Walk} (idle : walk.pending = [])
      (unfinished : root ∉ walk.done) :
      Next graph (root :: roots, walk) (roots, walk.setOut graph root)
  | step {roots : List Text} {walk : Walk} (busy : walk.pending ≠ []) :
      Next graph (roots, walk) (roots, walk.step graph)

/-- A state that the search goes through. -/
def Stage (graph : CallGraph) (state : List Text × Walk) : Prop :=
  Relation.ReflTransGen (Next graph) (graph.names, Walk.empty) state

theorem next_unique (graph : CallGraph) : Relator.RightUnique (Next graph) := by
  intro state first second one two
  cases one with
  | pass idle finished =>
    cases two with
    | pass => rfl
    | setOut _ unfinished => exact absurd finished unfinished
    | step busy => exact absurd idle busy
  | setOut idle unfinished =>
    cases two with
    | pass _ finished => exact absurd finished unfinished
    | setOut => rfl
    | step busy => exact absurd idle busy
  | step busy =>
    cases two with
    | pass idle => exact absurd idle busy
    | setOut idle => exact absurd idle busy
    | step => rfl

/-- Of two states of the search one comes first. -/
theorem stage_total {graph : CallGraph} {first second : List Text × Walk} (one : Stage graph first)
    (two : Stage graph second) :
    Relation.ReflTransGen (Next graph) first second ∨
      Relation.ReflTransGen (Next graph) second first :=
  Relation.ReflTransGen.total_of_right_unique (next_unique graph) one two

/-! ## The stack of frames -/

/-- The state of a walk: the names of its path, innermost first, each with the calls that are left
    for it, the finished names, and the cycles closed so far. -/
structure Trail where
  frames : List (Text × List Text)
  done : List Text
  cycles : List (List Text)

namespace Trail

/-- The names of the path, innermost first. -/
def names (trail : Trail) : List Text := trail.frames.map Prod.fst

/-- The position of each name of the path. -/
def positionsOf : List (Text × List Text) → List (Text × Nat)
  | [] => []
  | frame :: outer => (frame.1, outer.length) :: positionsOf outer

/-- The walk that a trail stands for. -/
def walk (trail : Trail) : Walk where
  path := trail.names.reverse
  positions := positionsOf trail.frames
  pending := trail.frames.map Prod.snd
  done := trail.done
  cycles := trail.cycles

/-- What a step does to the stack: it takes a finished name off, or takes the first call that is
    left; a call back to the path closes a cycle, one to a finished name is passed over, and any
    other puts the called name on the stack. -/
inductive Move (graph : CallGraph) : Trail → Trail → Prop
  | goBack {name outer done cycles} :
      Move graph ⟨(name, []) :: outer, done, cycles⟩ ⟨outer, name :: done, cycles⟩
  | close {name callee left outer done cycles inner rest beyond cycles'}
      (split : (name, callee :: left) :: outer = inner ++ (callee, rest) :: beyond)
      (reported : cycles' =
        if callee :: (inner.map Prod.fst).reverse ++ [callee] ∈ cycles then cycles
        else cycles ++ [callee :: (inner.map Prod.fst).reverse ++ [callee]]) :
      Move graph ⟨(name, callee :: left) :: outer, done, cycles⟩ ⟨(name, left) :: outer, done, cycles'⟩
  | pass {name callee left outer done cycles} (finished : callee ∈ done)
      (off : callee ∉ name :: outer.map Prod.fst) :
      Move graph ⟨(name, callee :: left) :: outer, done, cycles⟩ ⟨(name, left) :: outer, done, cycles⟩
  | goOn {name callee left outer done cycles} (unfinished : callee ∉ done)
      (off : callee ∉ name :: outer.map Prod.fst) :
      Move graph ⟨(name, callee :: left) :: outer, done, cycles⟩
        ⟨(callee, graph.calls callee) :: (name, left) :: outer, done, cycles⟩

private theorem lookup_off {frames : List (Text × List Text)} {name : Text}
    (off : name ∉ frames.map Prod.fst) : (positionsOf frames).lookup name = none := by
  induction frames with
  | nil => rfl
  | cons frame outer ih =>
    rw [List.map_cons, List.mem_cons, not_or] at off
    have skipped : (name == frame.1) = false := by simpa using off.1
    rw [positionsOf, List.lookup_cons, skipped]
    exact ih off.2

private theorem lookup_split {inner beyond : List (Text × List Text)} {name : Text}
    {rest : List Text} (distinct : ((inner ++ (name, rest) :: beyond).map Prod.fst).Nodup) :
    (positionsOf (inner ++ (name, rest) :: beyond)).lookup name = some beyond.length := by
  induction inner with
  | nil => simp [positionsOf]
  | cons frame inner ih =>
    rw [List.cons_append, List.map_cons, List.nodup_cons] at distinct
    have different : name ≠ frame.1 := by
      rintro rfl
      exact distinct.1 (by simp)
    have skipped : (name == frame.1) = false := by simpa using different
    rw [List.cons_append, positionsOf, List.lookup_cons, skipped]
    exact ih distinct.2

private theorem positions_fst (frames : List (Text × List Text)) :
    (positionsOf frames).map Prod.fst = frames.map Prod.fst := by
  induction frames with
  | nil => rfl
  | cons frame outer ih => simp [positionsOf, ih]

private theorem positions_filter {frames : List (Text × List Text)} {name : Text}
    (off : name ∉ frames.map Prod.fst) :
    (positionsOf frames).filter (fun place => place.1 ≠ name) = positionsOf frames := by
  rw [List.filter_eq_self]
  intro place member
  have listed : place.1 ∈ frames.map Prod.fst := by
    rw [← positions_fst]
    exact List.mem_map_of_mem member
  have different : place.1 ≠ name := fun equal => off (equal ▸ listed)
  simpa using different

/-- The path splits at a name on it. -/
theorem path_split {frames inner beyond : List (Text × List Text)} {name : Text} {rest : List Text}
    (split : frames = inner ++ (name, rest) :: beyond) :
    (frames.map Prod.fst).reverse =
      (beyond.map Prod.fst).reverse ++ name :: (inner.map Prod.fst).reverse := by
  simp [split]

/-- A step of a walk does to it what the move does to its stack. -/
theorem Move.step_walk {graph : CallGraph} {trail after : Trail} (moved : Move graph trail after)
    (distinct : trail.names.Nodup) : trail.walk.step graph = after.walk := by
  cases moved with
  | @goBack name outer done cycles =>
    rw [names, List.map_cons, List.nodup_cons] at distinct
    have kept := positions_filter distinct.1
    simp only [ne_eq, decide_not] at kept
    simp [step, Walk.goBack, walk, names, positionsOf, kept]
  | @close name callee left outer done cycles inner rest beyond cycles' split reported =>
    subst reported
    have found : (positionsOf ((name, callee :: left) :: outer)).lookup callee =
        some beyond.length := by
      rw [split]
      exact lookup_split (by rw [← split]; exact distinct)
    have cut : (((name, callee :: left) :: outer).map Prod.fst).reverse.drop beyond.length =
        callee :: (inner.map Prod.fst).reverse := by
      rw [path_split split]
      exact List.drop_left' (by simp)
    rw [List.map_cons] at cut
    simp only [step, walk, names, List.map_cons, found, Walk.close, cut, List.contains_iff_mem]
    split_ifs <;> rfl
  | @pass name callee left outer done cycles finished off =>
    have missing : (positionsOf ((name, callee :: left) :: outer)).lookup callee = none :=
      lookup_off off
    simp only [step, walk, List.map_cons, missing, List.contains_iff_mem, if_pos finished]
    rfl
  | @goOn name callee left outer done cycles unfinished off =>
    have missing : (positionsOf ((name, callee :: left) :: outer)).lookup callee = none :=
      lookup_off off
    simp only [step, walk, List.map_cons, missing, List.contains_iff_mem, if_neg unfinished]
    simp [Walk.goOn, names, positionsOf]

/-- A stack that is not empty can move. -/
theorem exists_move (graph : CallGraph) {trail : Trail} (busy : trail.frames ≠ []) :
    ∃ after, Move graph trail after := by
  obtain ⟨frames, done, cycles⟩ := trail
  match frames, busy with
  | (name, []) :: outer, _ => exact ⟨_, .goBack⟩
  | (name, callee :: left) :: outer, _ =>
    by_cases on : callee ∈ ((name, callee :: left) :: outer).map Prod.fst
    · obtain ⟨⟨_, rest⟩, member, rfl⟩ := List.mem_map.mp on
      obtain ⟨inner, beyond, split⟩ := List.append_of_mem member
      exact ⟨_, .close split rfl⟩
    · by_cases finished : callee ∈ done
      · exact ⟨_, .pass finished on⟩
      · exact ⟨_, .goOn finished on⟩

/-- The trails that the search meets, with the roots that are left. -/
inductive Met (graph : CallGraph) : List Text → Trail → Prop
  | start : Met graph graph.names ⟨[], [], []⟩
  | pass {root roots done cycles} (earlier : Met graph (root :: roots) ⟨[], done, cycles⟩)
      (finished : root ∈ done) : Met graph roots ⟨[], done, cycles⟩
  | setOut {root roots done cycles} (earlier : Met graph (root :: roots) ⟨[], done, cycles⟩)
      (unfinished : root ∉ done) : Met graph roots ⟨[(root, graph.calls root)], done, cycles⟩
  | move {roots trail after} (earlier : Met graph roots trail) (moved : Move graph trail after) :
      Met graph roots after

/-! ## What holds of every trail -/

/-- The names on the path are distinct, unfinished names of the graph, each called by the one
    before it; the calls that are left for a name are calls of it; and every defined name is still
    a root, on the path or finished. -/
structure Sound (graph : CallGraph) (roots : List Text) (trail : Trail) : Prop where
  distinct : trail.names.Nodup
  unfinished : ∀ name ∈ trail.names, name ∉ trail.done
  called : trail.frames.IsChain fun inner outer => graph.Calls outer.1 inner.1
  left : ∀ frame ∈ trail.frames, ∀ callee ∈ frame.2, graph.Calls frame.1 callee
  vertices : ∀ name ∈ trail.names, name ∈ graph.vertices
  defined : ∀ root ∈ roots, root ∈ graph.names
  covered : ∀ name ∈ graph.names, name ∈ roots ∨ name ∈ trail.names ∨ name ∈ trail.done

/-- Taking a call off the innermost frame keeps the chain of calls. -/
private theorem called_take {graph : CallGraph} {name : Text} {before after : List Text}
    {outer : List (Text × List Text)}
    (called : ((name, before) :: outer).IsChain fun inner outer => graph.Calls outer.1 inner.1) :
    ((name, after) :: outer).IsChain fun inner outer => graph.Calls outer.1 inner.1 := by
  cases outer with
  | nil => exact .singleton _
  | cons frame rest => exact called.tail.cons_cons called.rel

theorem Sound.take {graph : CallGraph} {roots : List Text} {name callee : Text} {left : List Text}
    {outer : List (Text × List Text)} {done : List Text} {cycles cycles' : List (List Text)}
    (sound : Sound graph roots ⟨(name, callee :: left) :: outer, done, cycles⟩) :
    Sound graph roots ⟨(name, left) :: outer, done, cycles'⟩ where
  distinct := sound.distinct
  unfinished := sound.unfinished
  called := called_take sound.called
  left := by
    intro frame member
    rcases List.mem_cons.mp member with rfl | member
    · exact fun other inside =>
        sound.left (name, callee :: left) (by simp) other (List.mem_cons_of_mem _ inside)
    · exact sound.left frame (List.mem_cons_of_mem _ member)
  vertices := sound.vertices
  defined := sound.defined
  covered := sound.covered

theorem Sound.goBack {graph : CallGraph} {roots : List Text} {name : Text}
    {outer : List (Text × List Text)} {done : List Text} {cycles : List (List Text)}
    (sound : Sound graph roots ⟨(name, []) :: outer, done, cycles⟩) :
    Sound graph roots ⟨outer, name :: done, cycles⟩ where
  distinct := (List.nodup_cons.mp sound.distinct).2
  unfinished := by
    intro other member
    have old := sound.unfinished other (List.mem_cons_of_mem _ member)
    have different : other ≠ name := by
      rintro rfl
      exact (List.nodup_cons.mp sound.distinct).1 member
    simpa [different] using old
  called := sound.called.tail
  left := fun frame member => sound.left frame (List.mem_cons_of_mem _ member)
  vertices := fun other member => sound.vertices other (List.mem_cons_of_mem _ member)
  defined := sound.defined
  covered := by
    intro other member
    rcases sound.covered other member with h | h | h
    · exact .inl h
    · rcases List.mem_cons.mp h with same | h
      · exact .inr (.inr (same ▸ List.mem_cons_self))
      · exact .inr (.inl h)
    · exact .inr (.inr (List.mem_cons_of_mem _ h))

theorem Sound.push {graph : CallGraph} {roots : List Text} {frames : List (Text × List Text)}
    {name : Text} {done : List Text} {cycles : List (List Text)}
    (sound : Sound graph roots ⟨frames, done, cycles⟩) (unfinished : name ∉ done)
    (off : name ∉ frames.map Prod.fst) (vertex : name ∈ graph.vertices)
    (called : ∀ frame ∈ frames.head?, graph.Calls frame.1 name) :
    Sound graph roots ⟨(name, graph.calls name) :: frames, done, cycles⟩ where
  distinct := List.nodup_cons.mpr ⟨off, sound.distinct⟩
  unfinished := List.forall_mem_cons.mpr ⟨unfinished, sound.unfinished⟩
  called := List.isChain_cons.mpr ⟨called, sound.called⟩
  left := List.forall_mem_cons.mpr ⟨fun _ member => member, sound.left⟩
  vertices := List.forall_mem_cons.mpr ⟨vertex, sound.vertices⟩
  defined := sound.defined
  covered := by
    intro other member
    rcases sound.covered other member with h | h | h
    · exact .inl h
    · exact .inr (.inl (List.mem_cons_of_mem _ h))
    · exact .inr (.inr h)

theorem Sound.dropRoot {graph : CallGraph} {root : Text} {roots : List Text} {trail : Trail}
    (sound : Sound graph (root :: roots) trail) (visited : root ∈ trail.names ∨ root ∈ trail.done) :
    Sound graph roots trail where
  __ := sound
  defined := fun other member => sound.defined other (List.mem_cons_of_mem _ member)
  covered := by
    intro other member
    rcases sound.covered other member with h | h
    · rcases List.mem_cons.mp h with rfl | h
      · exact .inr visited
      · exact .inl h
    · exact .inr h

theorem Sound.move {graph : CallGraph} {roots : List Text} {trail after : Trail}
    (sound : Sound graph roots trail) (moved : Move graph trail after) :
    Sound graph roots after := by
  cases moved with
  | goBack => exact sound.goBack
  | close split reported => exact sound.take
  | pass finished off => exact sound.take
  | @goOn name callee left outer done cycles unfinished off =>
    have call : graph.Calls name callee := sound.left (name, callee :: left) (by simp) callee (by simp)
    exact sound.take.push unfinished off (CallGraph.mem_vertices_of_called call) (by simpa using call)

theorem Met.sound {graph : CallGraph} {roots : List Text} {trail : Trail}
    (met : Met graph roots trail) : Sound graph roots trail := by
  induction met with
  | start =>
    exact ⟨List.nodup_nil, by simp [names], .nil, by simp, by simp [names], fun _ h => h,
      fun _ h => .inl h⟩
  | pass _ finished ih => exact ih.dropRoot (.inr finished)
  | @setOut root roots done cycles _ unfinished ih =>
    have vertex := CallGraph.mem_vertices_of_defined graph root
      ((CallGraph.mem_names graph root).mp (ih.defined root (by simp)))
    exact (ih.push unfinished (by simp) vertex (by simp)).dropRoot (.inl (by simp [names]))
  | move _ moved ih => exact ih.move moved

/-! ## States and trails -/

theorem walk_idle (trail : Trail) : trail.walk.pending = [] ↔ trail.frames = [] := by
  simp [walk]

/-- A step of a walk with pending calls is a move of its stack. -/
theorem Sound.exists_step {graph : CallGraph} {roots : List Text} {trail : Trail}
    (sound : Sound graph roots trail) (busy : trail.walk.pending ≠ []) :
    ∃ after, Move graph trail after ∧ trail.walk.step graph = after.walk := by
  obtain ⟨after, moved⟩ := exists_move graph (mt (walk_idle trail).mpr busy)
  exact ⟨after, moved, moved.step_walk sound.distinct⟩

/-- The search goes through the walk of every trail that it meets. -/
theorem Met.stage {graph : CallGraph} {roots : List Text} {trail : Trail}
    (met : Met graph roots trail) : Stage graph (roots, trail.walk) := by
  induction met with
  | start => exact .refl
  | pass _ finished ih => exact ih.tail (.pass rfl finished)
  | setOut _ unfinished ih => exact ih.tail (.setOut rfl unfinished)
  | @move roots trail after earlier moved ih =>
    have busy : trail.walk.pending ≠ [] := by
      rw [ne_eq, walk_idle]
      rintro empty
      cases moved <;> simp at empty
    rw [← moved.step_walk earlier.sound.distinct]
    exact ih.tail (.step busy)

/-! ## The search ends -/

/-- The steps that names can take: one for every call and one to go back. -/
def stepsOf (graph : CallGraph) (names : List Text) : Nat :=
  (names.flatMap graph.calls).length + names.length

/-- The steps that the names not yet visited can take. -/
def unvisitedSteps (graph : CallGraph) (visited : List Text) : Nat :=
  stepsOf graph (graph.vertices.filter fun name => !visited.contains name)

/-- The steps that are left for a trail before it is empty. -/
def remaining (graph : CallGraph) (trail : Trail) : Nat :=
  (trail.frames.flatMap Prod.snd).length + trail.frames.length +
    unvisitedSteps graph (trail.names ++ trail.done)

theorem unvisitedSteps_congr (graph : CallGraph) {before after : List Text}
    (same : ∀ name, name ∈ before ↔ name ∈ after) :
    unvisitedSteps graph before = unvisitedSteps graph after := by
  unfold unvisitedSteps
  congr 1
  apply List.filter_congr
  intro name _
  by_cases member : name ∈ before
  · simp [member, (same name).mp member]
  · have absent : name ∉ after := fun h => member ((same name).mpr h)
    simp [member, absent]

theorem unvisitedSteps_cons (graph : CallGraph) {visited : List Text} {name : Text}
    (vertex : name ∈ graph.vertices) (fresh : name ∉ visited) :
    unvisitedSteps graph visited =
      (graph.calls name).length + 1 + unvisitedSteps graph (name :: visited) := by
  have moved := CallGraph.filter_perm_cons (p := fun name => !visited.contains name)
    (q := fun other => !(name :: visited).contains other) (CallGraph.nodup_vertices graph) vertex
    (by simpa using fresh) (by simp) (fun other different => by simp [different])
  have calls := (moved.flatMap_right graph.calls).length_eq
  have names := moved.length_eq
  rw [List.flatMap_cons, List.length_append] at calls
  rw [List.length_cons] at names
  unfold unvisitedSteps stepsOf
  omega

theorem unvisitedSteps_le (graph : CallGraph) (visited : List Text) :
    unvisitedSteps graph visited ≤ stepLimit graph := by
  have kept : (graph.vertices.filter fun name => !visited.contains name).Sublist graph.vertices :=
    List.filter_sublist
  exact Nat.add_le_add (kept.flatMap graph.calls).length_le kept.length_le

/-- Every move uses up one of the steps that are left. -/
theorem remaining_move {graph : CallGraph} {roots : List Text} {trail after : Trail}
    (sound : Sound graph roots trail) (moved : Move graph trail after) :
    remaining graph after + 1 = remaining graph trail := by
  cases moved with
  | @goBack name outer done cycles =>
    have same : unvisitedSteps graph (outer.map Prod.fst ++ name :: done) =
        unvisitedSteps graph (name :: outer.map Prod.fst ++ done) :=
      unvisitedSteps_congr graph fun other => List.perm_middle.mem_iff
    simp [remaining, names, same]
    omega
  | close split reported => simp [remaining, names]; omega
  | pass finished off => simp [remaining, names]; omega
  | @goOn name callee left outer done cycles unfinished off =>
    have call : graph.Calls name callee := sound.left (name, callee :: left) (by simp) callee (by simp)
    have fresh : callee ∉ name :: outer.map Prod.fst ++ done := by
      simpa [unfinished] using off
    have cost := unvisitedSteps_cons graph (CallGraph.mem_vertices_of_called call) fresh
    simp only [List.cons_append] at cost
    simp [remaining, names, cost]
    omega

/-- Setting out from a root leaves as many steps as before: those of the root have been counted. -/
theorem remaining_setOut {graph : CallGraph} {root : Text} {done : List Text}
    {cycles : List (List Text)} (vertex : root ∈ graph.vertices) (unfinished : root ∉ done) :
    remaining graph ⟨[(root, graph.calls root)], done, cycles⟩ =
      remaining graph ⟨[], done, cycles⟩ := by
  have cost := unvisitedSteps_cons graph vertex unfinished
  simp only [remaining, names, List.flatMap_cons, List.flatMap_nil, List.append_nil,
    List.length_singleton, List.length_nil, List.map_cons, List.map_nil, List.cons_append,
    List.nil_append]
  omega

/-- A step of the search uses up a root or one of the steps that are left for the walk. -/
theorem Met.next {graph : CallGraph} {roots : List Text} {trail : Trail}
    (met : Met graph roots trail) {state : List Text × Walk}
    (next : Next graph (roots, trail.walk) state) :
    ∃ after, state.2 = after.walk ∧ Met graph state.1 after ∧
      state.1.length + remaining graph after + 1 = roots.length + remaining graph trail := by
  obtain ⟨frames, done, cycles⟩ := trail
  cases next with
  | @pass root roots _ idle finished =>
    obtain rfl : frames = [] := (walk_idle _).mp idle
    refine ⟨_, rfl, .pass met finished, ?_⟩
    dsimp only
    rw [List.length_cons]
    omega
  | @setOut root roots _ idle unfinished =>
    obtain rfl : frames = [] := (walk_idle _).mp idle
    have fresh : root ∉ done := unfinished
    have later := met.setOut fresh
    have vertex := later.sound.vertices root (by simp [names])
    refine ⟨_, rfl, later, ?_⟩
    dsimp only
    rw [remaining_setOut vertex fresh, List.length_cons]
    omega
  | step busy =>
    obtain ⟨after, moved, walked⟩ := met.sound.exists_step busy
    have used := remaining_move met.sound moved
    refine ⟨after, walked, .move met moved, ?_⟩
    dsimp only
    omega

/-- Every state of the search is that of a trail it meets. -/
theorem stage_met {graph : CallGraph} {state : List Text × Walk} (stage : Stage graph state) :
    ∃ trail, state.2 = trail.walk ∧ Met graph state.1 trail := by
  induction stage with
  | refl => exact ⟨⟨[], [], []⟩, rfl, .start⟩
  | tail _ next ih =>
    obtain ⟨trail, same, met⟩ := ih
    obtain ⟨after, walked, later, -⟩ := met.next (by rw [← same]; exact next)
    exact ⟨after, walked, later⟩

theorem run_idle {graph : CallGraph} {roots : List Text} {trail : Trail} (fuel : Nat)
    (sound : Sound graph roots trail) (enough : remaining graph trail ≤ fuel) :
    (run graph fuel trail.walk).pending = [] := by
  induction fuel generalizing trail with
  | zero =>
    have empty : trail.frames.length = 0 := by
      unfold remaining at enough
      omega
    simp [run, walk, List.eq_nil_of_length_eq_zero empty]
  | succ fuel ih =>
    by_cases idle : trail.walk.pending = []
    · simp [run, idle]
    · obtain ⟨after, moved, walked⟩ := sound.exists_step idle
      have used := remaining_move sound moved
      rw [run, if_neg idle, walked]
      exact ih (sound.move moved) (by omega)

end Trail

theorem stage_run {graph : CallGraph} {roots : List Text} {walk : Walk} (fuel : Nat)
    (stage : Stage graph (roots, walk)) : Stage graph (roots, run graph fuel walk) := by
  induction fuel generalizing walk with
  | zero => exact stage
  | succ fuel ih =>
    by_cases idle : walk.pending = []
    · simpa [run, idle] using stage
    · rw [run, if_neg idle]
      exact ih (stage.tail (.step idle))

theorem stage_visit {graph : CallGraph} {root : Text} {roots : List Text} {walk : Walk}
    (stage : Stage graph (root :: roots, walk)) (idle : walk.pending = []) :
    Stage graph (roots, visit graph walk root) ∧ (visit graph walk root).pending = [] := by
  by_cases finished : root ∈ walk.done
  · have same : visit graph walk root = walk := by simp [visit, finished]
    rw [same]
    exact ⟨stage.tail (.pass idle finished), idle⟩
  · have ran : visit graph walk root = run graph (stepLimit graph) (walk.setOut graph root) := by
      simp [visit, finished]
    have out : Stage graph (roots, walk.setOut graph root) := stage.tail (.setOut idle finished)
    obtain ⟨⟨frames, done, cycles⟩, rfl, met⟩ := Trail.stage_met stage
    obtain rfl : frames = [] := (Trail.walk_idle _).mp idle
    have sound := (Trail.Met.setOut met finished).sound
    rw [ran]
    refine ⟨stage_run _ out, Trail.run_idle _ sound ?_⟩
    have vertex := sound.vertices root (by simp [Trail.names])
    have fresh : root ∉ done := finished
    rw [Trail.remaining_setOut vertex fresh]
    simpa [Trail.remaining, Trail.names] using Trail.unvisitedSteps_le graph done

/-- The search ends: after the last root no call is left. -/
theorem stage_full (graph : CallGraph) :
    Stage graph ([], full graph) ∧ (full graph).pending = [] := by
  have visits (roots : List Text) : ∀ walk : Walk, Stage graph (roots, walk) → walk.pending = [] →
      Stage graph ([], roots.foldl (visit graph) walk) ∧
        (roots.foldl (visit graph) walk).pending = [] := by
    induction roots with
    | nil => exact fun _ stage idle => ⟨stage, idle⟩
    | cons root roots ih =>
      intro walk stage idle
      obtain ⟨stage', idle'⟩ := stage_visit stage idle
      exact ih _ stage' idle'
  exact visits graph.names Walk.empty .refl rfl

/-- No step is left when there is no root and no call left. -/
theorem idle_last {graph : CallGraph} {walk : Walk} {state : List Text × Walk}
    (idle : walk.pending = []) (steps : Relation.ReflTransGen (Next graph) ([], walk) state) :
    state = ([], walk) := by
  rcases Relation.ReflTransGen.cases_head steps with same | ⟨_, next, _⟩
  · exact same.symm
  · cases next with
    | step busy => exact absurd idle busy

/-- The search ends in one state only. -/
theorem eq_full {graph : CallGraph} {walk : Walk} (stage : Stage graph ([], walk))
    (idle : walk.pending = []) : walk = full graph := by
  obtain ⟨last, ended⟩ := stage_full graph
  rcases stage_total stage last with forwards | backwards
  · exact (Prod.mk.inj (idle_last idle forwards)).2.symm
  · exact (Prod.mk.inj (idle_last ended backwards)).2

/-- The search ends with a trail without frames on which every defined name is finished. -/
theorem full_met (graph : CallGraph) :
    Trail.Met graph [] ⟨[], (full graph).done, graph.cycles⟩ ∧
      ∀ name ∈ graph.names, name ∈ (full graph).done := by
  obtain ⟨stage, idle⟩ := stage_full graph
  obtain ⟨⟨frames, done, cycles⟩, same, met⟩ := Trail.stage_met stage
  dsimp only at same met
  have empty : frames = [] := (Trail.walk_idle _).mp (by rw [← same]; exact idle)
  have finished : (full graph).done = done := by rw [same]; rfl
  have reported : graph.cycles = cycles := by rw [CallGraph.cycles, same]; rfl
  subst empty
  rw [finished, reported]
  refine ⟨met, fun name member => ?_⟩
  simpa [Trail.names] using met.sound.covered name member

end Mapkeys.Walk
