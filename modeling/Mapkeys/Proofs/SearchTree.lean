import Mapkeys.Proofs.ClosingCalls

/-!
# The tree of the search

The calls along which the search enters names make a forest: a name is entered once, by one call,
and the roots by none. A call that is taken before the called name is finished either enters it or
goes back to the path; the names on circular chains of such calls are exactly those on reported
cycles (`circular_explored_iff`).
-/

namespace Mapkeys.Walk

/-- The search stands at one name, and the next call that is left for it is that of the other. -/
structure Takes (graph : CallGraph) (state : List Text × Walk) (caller callee : Text) : Prop where
  stage : Stage graph state
  standing : state.2.path.getLast? = some caller
  left : ∃ left outer, state.2.pending = (callee :: left) :: outer

/-- The search takes a call before the called name is finished. -/
def Explored (graph : CallGraph) (caller callee : Text) : Prop :=
  ∃ state, Takes graph state caller callee ∧ callee ∉ state.2.done

/-- A name is on the path or finished. -/
def Visited (walk : Walk) (name : Text) : Prop := name ∈ walk.path ∨ name ∈ walk.done

/-- The search takes a call to a name that it has not visited. -/
def Enters (graph : CallGraph) (caller callee : Text) : Prop :=
  ∃ state, Takes graph state caller callee ∧ ¬ Visited state.2 callee

theorem Enters.explored {graph : CallGraph} {caller callee : Text}
    (enters : Enters graph caller callee) : Explored graph caller callee := by
  obtain ⟨state, takes, unvisited⟩ := enters
  exact ⟨state, takes, fun finished => unvisited (.inr finished)⟩

/-! ## Taking calls on trails -/

theorem Trail.visited_walk (trail : Trail) (name : Text) :
    Visited trail.walk name ↔ name ∈ trail.names ∨ name ∈ trail.done := by
  simp [Visited, walk]

theorem Takes.met {graph : CallGraph} {state : List Text × Walk} {caller callee : Text}
    (takes : Takes graph state caller callee) :
    ∃ left outer done cycles,
      state.2 = (⟨(caller, callee :: left) :: outer, done, cycles⟩ : Trail).walk ∧
        Trail.Met graph state.1 ⟨(caller, callee :: left) :: outer, done, cycles⟩ := by
  obtain ⟨⟨frames, done, cycles⟩, same, met⟩ := Trail.stage_met takes.stage
  obtain ⟨left, outer, pending⟩ := takes.left
  have standing := takes.standing
  rw [same] at pending standing
  match frames, pending, standing with
  | (name, _) :: frames, pending, standing =>
    obtain ⟨rfl, _⟩ := List.cons.inj pending
    have last : name = caller := by simpa [Trail.walk, Trail.names] using standing
    subst last
    exact ⟨left, frames, done, cycles, same, met⟩

theorem Trail.Met.takes {graph : CallGraph} {roots : List Text} {name callee : Text}
    {left : List Text} {outer : List (Text × List Text)} {done : List Text}
    {cycles : List (List Text)}
    (met : Trail.Met graph roots ⟨(name, callee :: left) :: outer, done, cycles⟩) :
    Takes graph (roots, (⟨(name, callee :: left) :: outer, done, cycles⟩ : Trail).walk) name callee where
  stage := met.stage
  standing := by simp [Trail.walk, Trail.names]
  left := ⟨left, outer.map Prod.snd, rfl⟩

/-! ## Visited names -/

/-- The name whose calls a step puts on the stack: the one that the path ends with if the stack has
    grown. -/
def expanded? (before after : List Text × Walk) : Option Text :=
  if before.2.pending.length < after.2.pending.length then after.2.path.getLast? else none

theorem expanded_eq_none {before after : List Text × Walk}
    (kept : after.2.pending.length ≤ before.2.pending.length) : expanded? before after = none :=
  if_neg (by omega)

/-- A step of the search either puts the calls of a name on the stack that has not been visited, and
    is visited then, or leaves the visited names as they are. -/
theorem next_expands {graph : CallGraph} {before after : List Text × Walk} (stage : Stage graph before)
    (next : Next graph before after) :
    (∀ name ∈ expanded? before after,
      after.2.pending.head? = some (graph.calls name) ∧ ¬ Visited before.2 name) ∧
    ∀ name, Visited after.2 name ↔ Visited before.2 name ∨ name ∈ expanded? before after := by
  obtain ⟨⟨frames, done, cycles⟩, same, met⟩ := Trail.stage_met stage
  cases next with
  | pass idle finished => simp [expanded_eq_none]
  | @setOut root roots walk idle unfinished =>
    subst same
    obtain rfl : frames = [] := (Trail.walk_idle _).mp idle
    have fresh : root ∉ done := unfinished
    have grown : expanded? (root :: roots, (⟨[], done, cycles⟩ : Trail).walk)
        (roots, (⟨[], done, cycles⟩ : Trail).walk.setOut graph root) = some root := by
      simp [expanded?, setOut, Trail.walk]
    rw [grown]
    simp [setOut, Visited, Trail.walk, Trail.names, fresh, or_comm, eq_comm]
  | @step roots walk busy =>
    subst same
    obtain ⟨later, moved, walked⟩ := met.sound.exists_step busy
    rw [walked]
    simp only [Trail.visited_walk]
    cases moved with
    | goBack =>
      rw [expanded_eq_none (by simp [Trail.walk])]
      simp [Trail.names, or_assoc, or_left_comm]
    | close split reported =>
      rw [expanded_eq_none (by simp [Trail.walk])]
      simp [Trail.names]
    | pass finished off =>
      rw [expanded_eq_none (by simp [Trail.walk])]
      simp [Trail.names]
    | @goOn name callee left outer done cycles unfinished off =>
      have grown : expanded? (roots, (⟨(name, callee :: left) :: outer, done, cycles⟩ : Trail).walk)
          (roots, (⟨(callee, graph.calls callee) :: (name, left) :: outer, done, cycles⟩ : Trail).walk) =
            some callee := by
        simp [expanded?, Trail.walk, Trail.names]
      rw [grown]
      refine ⟨?_, ?_⟩
      · simp only [Option.mem_some_iff, forall_eq']
        exact ⟨rfl, not_or.mpr ⟨off, unfinished⟩⟩
      · intro other
        simp [Trail.names, or_comm, or_left_comm, eq_comm]

theorem visited_next {graph : CallGraph} {before after : List Text × Walk}
    (stage : Stage graph before) (next : Next graph before after) {name : Text}
    (visited : Visited before.2 name) : Visited after.2 name :=
  ((next_expands stage next).2 name).mpr (.inl visited)

theorem visited_later {graph : CallGraph} {before after : List Text × Walk}
    (stage : Stage graph before) (steps : Relation.ReflTransGen (Next graph) before after)
    {name : Text} (visited : Visited before.2 name) : Visited after.2 name := by
  induction steps with
  | refl => exact visited
  | tail earlier next ih => exact visited_next (stage.trans earlier) next ih

/-- A name that is called has been visited once the call is taken. -/
theorem Takes.visited {graph : CallGraph} {before after : List Text × Walk} {caller callee : Text}
    (takes : Takes graph before caller callee) (next : Next graph before after) :
    Visited after.2 callee := by
  obtain ⟨left, outer, done, cycles, same, met⟩ := takes.met
  cases next with
  | pass idle => subst same; simp [Trail.walk] at idle
  | setOut idle => subst same; simp [Trail.walk] at idle
  | step busy =>
    subst same
    obtain ⟨later, moved, walked⟩ := met.sound.exists_step busy
    rw [walked, Trail.visited_walk]
    cases moved with
    | close split reported =>
      left
      have names := congrArg (List.map Prod.fst) split
      rw [List.map_cons, List.map_append, List.map_cons] at names
      rw [Trail.names, List.map_cons, names]
      simp
    | pass finished off => exact .inr finished
    | goOn unfinished off => exact .inl List.mem_cons_self

/-- There is one state of the search in which a name is not yet visited but is so right after. -/
theorem eq_of_first_visit {graph : CallGraph} {one two : List Text × Walk} {name : Text}
    (stage₁ : Stage graph one) (stage₂ : Stage graph two)
    (unvisited₁ : ¬ Visited one.2 name) (unvisited₂ : ¬ Visited two.2 name)
    (then₁ : ∀ after, Next graph one after → Visited after.2 name)
    (then₂ : ∀ after, Next graph two after → Visited after.2 name) : one = two := by
  have apart {first second : List Text × Walk} (stage : Stage graph first)
      (unvisited : ¬ Visited second.2 name)
      (visits : ∀ after, Next graph first after → Visited after.2 name)
      (steps : Relation.ReflTransGen (Next graph) first second) : first = second := by
    rcases Relation.ReflTransGen.cases_head steps with same | ⟨after, next, rest⟩
    · exact same
    · exact absurd (visited_later (stage.tail next) rest (visits after next)) unvisited
  rcases stage_total stage₁ stage₂ with forwards | backwards
  · exact apart stage₁ unvisited₂ then₁ forwards
  · exact (apart stage₂ unvisited₁ then₂ backwards).symm

/-! ## The forest of entered names -/

theorem enters_unique {graph : CallGraph} {one two callee : Text} (first : Enters graph one callee)
    (second : Enters graph two callee) : one = two := by
  obtain ⟨state₁, takes₁, unvisited₁⟩ := first
  obtain ⟨state₂, takes₂, unvisited₂⟩ := second
  have same := eq_of_first_visit takes₁.stage takes₂.stage unvisited₁ unvisited₂
    (fun _ => takes₁.visited) fun _ => takes₂.visited
  have standing := takes₁.standing
  rw [same, takes₂.standing] at standing
  exact (Option.some.inj standing).symm

/-- No call enters a root. -/
theorem not_enters_root {graph : CallGraph} {root : Text} {roots done : List Text}
    {cycles : List (List Text)} (met : Trail.Met graph (root :: roots) ⟨[], done, cycles⟩)
    (unfinished : root ∉ done) (caller : Text) : ¬ Enters graph caller root := by
  rintro ⟨state, takes, unvisited⟩
  have same := eq_of_first_visit met.stage takes.stage (by simpa [Visited, Trail.walk, Trail.names]
    using unfinished) unvisited (by
      intro after next
      cases next with
      | pass _ finished => exact absurd finished unfinished
      | setOut => exact .inl (by simp [setOut])
      | step busy => simp [Trail.walk] at busy) fun _ => takes.visited
  have standing := takes.standing
  rw [← same] at standing
  simp [Trail.walk, Trail.names] at standing

/-- One name has been visited at a time when another has not. -/
def Before (graph : CallGraph) (first second : Text) : Prop :=
  ∃ state, Stage graph state ∧ Visited state.2 first ∧ ¬ Visited state.2 second

theorem Before.trans {graph : CallGraph} {a b c : Text} (first : Before graph a b)
    (second : Before graph b c) : Before graph a c := by
  obtain ⟨state₁, stage₁, visited₁, unvisited₁⟩ := first
  obtain ⟨state₂, stage₂, visited₂, unvisited₂⟩ := second
  rcases stage_total stage₁ stage₂ with forwards | backwards
  · exact ⟨state₂, stage₂, visited_later stage₁ forwards visited₁, unvisited₂⟩
  · exact absurd (visited_later stage₂ backwards visited₂) unvisited₁

theorem Enters.before {graph : CallGraph} {caller callee : Text}
    (enters : Enters graph caller callee) : Before graph caller callee := by
  obtain ⟨state, takes, unvisited⟩ := enters
  exact ⟨state, takes.stage, .inl (List.mem_of_getLast? takes.standing), unvisited⟩

theorem enters_acyclic {graph : CallGraph} {name : Text} :
    ¬ Relation.TransGen (Enters graph) name name := by
  intro circle
  have earlier {a b : Text} (path : Relation.TransGen (Enters graph) a b) : Before graph a b := by
    induction path with
    | single step => exact step.before
    | tail _ step ih => exact ih.trans step.before
  obtain ⟨_, _, visited, unvisited⟩ := earlier circle
  exact unvisited visited

/-- Each name of a path enters the next, and no call enters the first one. -/
theorem Trail.Met.entered {graph : CallGraph} {roots : List Text} {trail : Trail}
    (met : Trail.Met graph roots trail) :
    trail.names.IsChain (fun inner outer => Enters graph outer inner) ∧
      ∀ root ∈ trail.names.getLast?, ∀ caller, ¬ Enters graph caller root := by
  induction met with
  | start => exact ⟨.nil, by simp [Trail.names]⟩
  | pass _ _ ih => exact ih
  | setOut earlier unfinished _ =>
    refine ⟨.singleton _, ?_⟩
    intro root isRoot
    obtain rfl : _ = root := by simpa [Trail.names] using isRoot
    exact not_enters_root earlier unfinished
  | move earlier moved ih =>
    cases moved with
    | @goBack name outer done cycles =>
      refine ⟨ih.1.tail, fun root isRoot => ih.2 root ?_⟩
      cases outer with
      | nil => simp [Trail.names] at isRoot
      | cons frame outer => simpa [Trail.names, List.getLast?_cons_cons] using isRoot
    | close => exact ih
    | pass => exact ih
    | @goOn name callee left outer done cycles unfinished off =>
      have enters : Enters graph name callee := by
        refine ⟨_, earlier.takes, ?_⟩
        rw [Trail.visited_walk]
        simpa [Trail.names, unfinished] using off
      refine ⟨ih.1.cons_cons enters, fun root isRoot => ih.2 root ?_⟩
      simpa [Trail.names, List.getLast?_cons_cons] using isRoot

/-- The names from which calls enter the way to a name on the path are on the path. -/
theorem Trail.Met.mem_names {graph : CallGraph} {roots : List Text} {trail : Trail}
    (met : Trail.Met graph roots trail) {a b : Text} (on : b ∈ trail.names)
    (way : Relation.ReflTransGen (Enters graph) a b) : a ∈ trail.names := by
  obtain ⟨chain, root⟩ := met.entered
  induction way using Relation.ReflTransGen.head_induction_on with
  | refl => exact on
  | @head a c enters _ ih =>
    obtain ⟨inner, outer, split⟩ := List.append_of_mem ih
    cases outer with
    | nil => exact absurd enters (root c (by simp [split]) a)
    | cons parent outer =>
      rw [split] at chain
      have same := enters_unique enters chain.right_of_append.rel
      rw [split, same]
      simp

/-! ## Explored calls -/

theorem Trail.Met.explored_path {graph : CallGraph} {roots : List Text} {trail : Trail}
    (met : Trail.Met graph roots trail) : trail.names.reverse.IsChain (Explored graph) := by
  rw [List.isChain_reverse]
  exact met.entered.1.imp fun _ _ enters => enters.explored

theorem Trail.Met.explored_back {graph : CallGraph} {roots : List Text} {name callee : Text}
    {left : List Text} {outer : List (Text × List Text)} {done : List Text}
    {cycles : List (List Text)}
    (met : Trail.Met graph roots ⟨(name, callee :: left) :: outer, done, cycles⟩)
    (on : callee ∈ name :: outer.map Prod.fst) : Explored graph name callee :=
  ⟨_, met.takes, met.sound.unfinished callee on⟩

theorem cycles_next {graph : CallGraph} {before after : List Text × Walk}
    (stage : Stage graph before) (next : Next graph before after) :
    ∀ cycle ∈ before.2.cycles, cycle ∈ after.2.cycles := by
  obtain ⟨trail, same, met⟩ := Trail.stage_met stage
  cases next with
  | pass => exact fun _ h => h
  | setOut => exact fun _ h => h
  | step busy =>
    subst same
    obtain ⟨later, moved, walked⟩ := met.sound.exists_step busy
    rw [walked]
    cases moved with
    | goBack => exact fun _ h => h
    | close split reported => subst reported; exact Trail.report_subset _ _
    | pass => exact fun _ h => h
    | goOn => exact fun _ h => h

theorem cycles_later {graph : CallGraph} {before after : List Text × Walk}
    (stage : Stage graph before) (steps : Relation.ReflTransGen (Next graph) before after) :
    ∀ cycle ∈ before.2.cycles, cycle ∈ after.2.cycles := by
  induction steps with
  | refl => exact fun _ h => h
  | tail earlier next ih =>
    exact fun cycle member => cycles_next (stage.trans earlier) next cycle (ih cycle member)

/-- What has been reported in some state is reported in the end. -/
theorem cycles_full {graph : CallGraph} {state : List Text × Walk} (stage : Stage graph state) :
    ∀ cycle ∈ state.2.cycles, cycle ∈ graph.cycles := by
  obtain ⟨last, idle⟩ := stage_full graph
  rcases stage_total stage last with forwards | backwards
  · exact cycles_later stage forwards
  · rw [idle_last idle backwards]
    exact fun _ h => h

/-- Every name of a path is entered on a way from each name before it. -/
theorem Trail.Met.ancestors {graph : CallGraph} {roots : List Text} {trail : Trail}
    (met : Trail.Met graph roots trail) :
    trail.names.Pairwise fun inner outer => Relation.TransGen (Enters graph) outer inner := by
  have linked := (met.entered.1.imp fun _ _ enters => Relation.TransGen.single enters).pairwise
  exact linked.imp fun way => Relation.transGen_swap.mp way

/-- A call back to the path closes a cycle of all names on the way from the called one. -/
theorem Trail.Met.back_cycle {graph : CallGraph} {roots : List Text} {name callee : Text}
    {left : List Text} {outer : List (Text × List Text)} {done : List Text}
    {cycles : List (List Text)}
    (met : Trail.Met graph roots ⟨(name, callee :: left) :: outer, done, cycles⟩)
    (on : callee ∈ name :: outer.map Prod.fst) :
    Relation.ReflTransGen (Enters graph) callee name ∧
      ∃ cycle ∈ graph.cycles, ∀ other, Relation.ReflTransGen (Enters graph) callee other →
        Relation.ReflTransGen (Enters graph) other name → other ∈ cycle := by
  have ancestors := met.ancestors
  constructor
  · rcases List.mem_cons.mp on with rfl | above
    · exact .refl
    · exact ((List.pairwise_cons.mp ancestors).1 callee above).to_reflTransGen
  · obtain ⟨⟨_, rest⟩, member, rfl⟩ : ∃ frame ∈ (name, callee :: left) :: outer, frame.1 = callee := by
      simpa [eq_comm] using on
    obtain ⟨inner, beyond, split⟩ := List.append_of_mem member
    have closed := (met.move (.close split rfl)).stage
    refine ⟨_, cycles_full closed _ (Trail.mem_report _ _), ?_⟩
    intro other below above
    have listed := met.mem_names List.mem_cons_self above
    simp only [Trail.names, split, List.map_append, List.map_cons] at listed ancestors
    rcases List.mem_append.mp listed with inside | outside
    · simp [inside]
    · rcases List.mem_cons.mp outside with rfl | outside
      · simp
      · have ancestor := (List.pairwise_cons.mp (List.pairwise_append.mp ancestors).2.1).1 other outside
        exact absurd (ancestor.trans_left below) enters_acyclic

/-! ## Circular chains of explored calls -/

/-- A chain that starts inside a set and ends outside of it leaves it by some step. -/
private theorem exists_leaving {related : Text → Text → Prop} (inside : Text → Prop) {a b : Text}
    (path : Relation.ReflTransGen related a b) (starts : inside a) (ends : ¬ inside b) :
    ∃ x y, related x y ∧ inside x ∧ ¬ inside y := by
  induction path with
  | refl => exact absurd starts ends
  | @tail x y _ step ih =>
    by_cases stays : inside x
    · exact ⟨x, y, step, stays, ends⟩
    · exact ih stays

/-- Of two names from which a third one is entered, one is entered from the other. -/
private theorem ancestors_total {graph : CallGraph} {a b c : Text}
    (first : Relation.ReflTransGen (Enters graph) a c)
    (second : Relation.ReflTransGen (Enters graph) b c) :
    Relation.ReflTransGen (Enters graph) a b ∨ Relation.ReflTransGen (Enters graph) b a := by
  have unique : Relator.RightUnique fun x y => Enters graph y x := fun _ _ _ => enters_unique
  rw [← Relation.reflTransGen_swap] at first second
  rcases Relation.ReflTransGen.total_of_right_unique unique first second with up | down
  · exact .inr (Relation.reflTransGen_swap.mp up)
  · exact .inl (Relation.reflTransGen_swap.mp down)

theorem Explored.cases {graph : CallGraph} {caller callee : Text}
    (explored : Explored graph caller callee) :
    Enters graph caller callee ∨
      Relation.ReflTransGen (Enters graph) callee caller ∧
        ∃ cycle ∈ graph.cycles, ∀ other, Relation.ReflTransGen (Enters graph) callee other →
          Relation.ReflTransGen (Enters graph) other caller → other ∈ cycle := by
  obtain ⟨state, takes, unfinished⟩ := explored
  by_cases on : callee ∈ state.2.path
  · obtain ⟨left, outer, done, cycles, same, met⟩ := takes.met
    refine .inr (met.back_cycle ?_)
    simpa [same, Trail.walk, Trail.names, or_comm] using on
  · exact .inl ⟨state, takes, fun visited => visited.elim on unfinished⟩

theorem mem_cycle_of_circle {graph : CallGraph} {name : Text}
    (circle : Relation.TransGen (Explored graph) name name) :
    ∃ cycle ∈ graph.cycles, name ∈ cycle := by
  obtain ⟨next, first, back⟩ := Relation.TransGen.head'_iff.mp circle
  rcases first.cases with enters | ⟨way, cycle, member, holds⟩
  · -- below the entered name only a call back to this name or further up leads out again
    have outside : ¬ Relation.ReflTransGen (Enters graph) next name := fun down =>
      enters_acyclic (Relation.TransGen.head' enters down)
    obtain ⟨x, y, step, below, above⟩ :=
      exists_leaving (Relation.ReflTransGen (Enters graph) next) back .refl outside
    rcases step.cases with deeper | ⟨way, cycle, member, holds⟩
    · exact absurd (below.tail deeper) above
    · have up : Relation.ReflTransGen (Enters graph) y next :=
        (ancestors_total way below).resolve_right above
      rcases Relation.ReflTransGen.cases_tail up with same | ⟨parent, toParent, entersNext⟩
      · exact absurd (same ▸ .refl) above
      · rw [enters_unique entersNext enters] at toParent
        exact ⟨cycle, member, holds name toParent (.head enters below)⟩
  · exact ⟨cycle, member, holds name way .refl⟩

/-- The names on reported cycles are those on circular chains of explored calls. -/
theorem circular_explored_iff (graph : CallGraph) (name : Text) :
    Relation.TransGen (Explored graph) name name ↔ ∃ cycle ∈ graph.cycles, name ∈ cycle := by
  constructor
  · exact mem_cycle_of_circle
  · rintro ⟨cycle, member, on⟩
    have circular := (full_met graph).1.circular (fun met => met.explored_path)
      (fun met => met.explored_back) cycle member
    exact circular.transGen on

end Mapkeys.Walk
