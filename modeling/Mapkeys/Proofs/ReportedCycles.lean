import Mapkeys.Proofs.SearchTree
import Mathlib.Data.List.Rotate

/-!
# Reported cycles

A reported cycle goes down the tree of the search, from a name to one that calls it back. Down the
tree there is at most one way between two names, so the call that closes a cycle determines it; and
names that lie on one way can be passed in one order only, so two cycles never pass the same names.
-/

namespace Mapkeys

namespace Walk

/-- A way down the tree of the search, and from its end back to its start. -/
def Descends (graph : CallGraph) (cycle : List Text) : Prop :=
  ∃ start way, cycle = start :: way ++ [start] ∧ (start :: way).IsChain (Enters graph)

/-! ## Ways down the tree -/

theorem way_pairwise {graph : CallGraph} {way : List Text} (chain : way.IsChain (Enters graph)) :
    way.Pairwise (Relation.TransGen (Enters graph)) :=
  (chain.imp fun _ _ enters => Relation.TransGen.single enters).pairwise

theorem way_nodup {graph : CallGraph} {way : List Text} (chain : way.IsChain (Enters graph)) :
    way.Nodup := by
  refine (way_pairwise chain).imp ?_
  rintro name _ below rfl
  exact enters_acyclic below

/-- Two ways from one name to another are the same. -/
theorem way_unique {graph : CallGraph} {start : Text} {way other : List Text}
    (one : (start :: way).IsChain (Enters graph)) (two : (start :: other).IsChain (Enters graph))
    (ends : (start :: way).getLast? = (start :: other).getLast?) : way = other := by
  have last (way : List Text) (name : Text) : (start :: (way ++ [name])).getLast? = some name := by
    rw [← List.cons_append, List.getLast?_concat]
  -- a way that ends where it starts has no step, since the tree has no circle
  have away {way : List Text} {name : Text}
      (chain : (start :: (way ++ [name])).IsChain (Enters graph)) : start ≠ name := by
    rintro rfl
    exact (List.nodup_cons.mp (way_nodup chain)).1 (by simp)
  induction way using List.reverseRecOn generalizing other with
  | nil =>
    cases other using List.reverseRecOn with
    | nil => rfl
    | append_singleton other name =>
      rw [last, List.getLast?_singleton] at ends
      exact absurd (Option.some.inj ends) (away two)
  | append_singleton way name ih =>
    cases other using List.reverseRecOn with
    | nil =>
      rw [last, List.getLast?_singleton] at ends
      exact absurd (Option.some.inj ends).symm (away one)
    | append_singleton other name' =>
      rw [last, last, Option.some.injEq] at ends
      subst ends
      rw [← List.cons_append, List.isChain_append] at one two
      have stands := List.getLast?_eq_some_getLast (List.cons_ne_nil start way)
      have stands' := List.getLast?_eq_some_getLast (List.cons_ne_nil start other)
      have parent := enters_unique (one.2.2 _ stands name rfl) (two.2.2 _ stands' name rfl)
      rw [ih one.1 two.1 (by rw [stands, stands', parent])]

/-! ## Cycles that go down the tree -/

section

variable {graph : CallGraph} {cycle other : List Text} (one : Descends graph cycle)

include one

theorem Descends.dropLast_chain : cycle.dropLast.IsChain (Enters graph) := by
  obtain ⟨start, way, rfl, chain⟩ := one
  rwa [List.dropLast_concat]

theorem Descends.mem_dropLast (name : Text) : name ∈ cycle.dropLast ↔ name ∈ cycle := by
  obtain ⟨start, way, rfl, -⟩ := one
  rw [List.dropLast_concat]
  simp [or_comm]

/-- The call that closes the cycle goes from the end of the way to its start. -/
theorem Descends.closing {a b : Text} (closes : [a, b] <:+ cycle) :
    ∃ way, cycle = b :: way ++ [b] ∧ (b :: way).IsChain (Enters graph) ∧
      (b :: way).getLast? = some a := by
  obtain ⟨start, way, rfl, chain⟩ := one
  have steps : [a] ++ [b] <:+ (start :: way) ++ [start] := closes
  have single : [b].length = [start].length := rfl
  obtain ⟨⟨before, path⟩, back⟩ := (List.suffix_append_inj_of_length_eq single).mp steps
  obtain rfl : b = start := List.singleton_inj.mp back
  exact ⟨way, rfl, chain, by rw [← path, List.getLast?_concat]⟩

variable (two : Descends graph other)

include two

/-- A cycle is known by the names that it passes. -/
theorem Descends.eq_of_mem_iff (same : ∀ name, name ∈ cycle ↔ name ∈ other) : cycle = other := by
  have passed (name : Text) : name ∈ cycle.dropLast ↔ name ∈ other.dropLast := by
    rw [one.mem_dropLast, two.mem_dropLast, same]
  have perm := (List.perm_ext_iff_of_nodup (way_nodup one.dropLast_chain)
    (way_nodup two.dropLast_chain)).mpr passed
  have ways : cycle.dropLast = other.dropLast := by
    refine perm.eq_of_pairwise ?_ (way_pairwise one.dropLast_chain)
      (way_pairwise two.dropLast_chain)
    intro a b _ _ down up
    exact absurd (down.trans up) enters_acyclic
  obtain ⟨start, way, rfl, -⟩ := one
  obtain ⟨start', way', rfl, -⟩ := two
  rw [List.dropLast_concat, List.dropLast_concat, List.cons.injEq] at ways
  rw [ways.1, ways.2]

/-- A cycle is known by the call that closes it. -/
theorem Descends.eq_of_closing {a b : Text} (closes : [a, b] <:+ cycle)
    (closes' : [a, b] <:+ other) : cycle = other := by
  obtain ⟨way, rfl, chain, ends⟩ := one.closing closes
  obtain ⟨way', rfl, chain', ends'⟩ := two.closing closes'
  rw [way_unique chain chain' (ends.trans ends'.symm)]

end

/-! ## The cycles that are reported -/

/-- Every reported cycle goes down the tree of the search. -/
theorem Trail.Met.descends {graph : CallGraph} {roots : List Text} {trail : Trail}
    (met : Trail.Met graph roots trail) : ∀ cycle ∈ trail.cycles, Descends graph cycle := by
  apply met.reported (Descends graph)
  intro roots name callee left outer done cycles inner rest beyond earlier split
  have path := List.isChain_reverse.mpr earlier.entered.1
  rw [Trail.names, Trail.path_split split] at path
  exact ⟨callee, (inner.map Prod.fst).reverse, rfl, path.right_of_append⟩

/-- No cycle is reported twice. -/
theorem Trail.Met.nodup_cycles {graph : CallGraph} {roots : List Text} {trail : Trail}
    (met : Trail.Met graph roots trail) : trail.cycles.Nodup := by
  induction met with
  | start => exact .nil
  | pass _ _ ih => exact ih
  | setOut _ _ ih => exact ih
  | move _ moved ih =>
    cases moved with
    | goBack => exact ih
    | pass => exact ih
    | goOn => exact ih
    | close split reported =>
      subst reported
      split_ifs with old
      · exact ih
      · rw [← List.concat_eq_append]
        exact ih.concat old

end Walk

namespace CallGraph

/-- Every reported cycle is a walk of at least one step back to its start that passes defined names,
    each of them once. Of two reported cycles neither equals the other or is a rotation of it, read
    with or without the return to the start, and different calls close them. -/
theorem cycles_simple_and_distinct (graph : CallGraph) :
    (∀ cycle ∈ graph.cycles, graph.ClosedWalk cycle ∧ cycle.dropLast.Nodup ∧
        ∀ name ∈ cycle.dropLast, graph.isDefined name = true) ∧
      graph.cycles.Pairwise fun cycle other =>
        cycle ≠ other ∧ ¬ cycle ~r other ∧ ¬ cycle.dropLast ~r other.dropLast ∧
          ∀ a b, [a, b] <:+ cycle → ¬ [a, b] <:+ other := by
  obtain ⟨met, -⟩ := Walk.full_met graph
  constructor
  · intro cycle member
    have descends := met.descends cycle member
    have circular := met.circular_calls cycle member
    refine ⟨(closedWalk_iff graph cycle).mpr circular, Walk.way_nodup descends.dropLast_chain, ?_⟩
    intro name passed
    have circle := circular.transGen ((descends.mem_dropLast name).mp passed)
    obtain ⟨next, call, -⟩ := Relation.TransGen.head'_iff.mp circle
    exact defined_of_calls call
  · refine met.nodup_cycles.imp_of_mem fun {cycle other} first second different => ?_
    have one := met.descends cycle first
    have two := met.descends other second
    refine ⟨different, fun rotated => ?_, fun rotated => ?_, fun a b closes closes' => ?_⟩
    · exact different (one.eq_of_mem_iff two fun name => rotated.mem_iff)
    · refine different (one.eq_of_mem_iff two fun name => ?_)
      rw [← one.mem_dropLast, ← two.mem_dropLast]
      exact rotated.mem_iff
    · exact different (one.eq_of_closing two closes closes')

/-- A name that calls another one twice and a third one, both of which call it back. -/
def loops : CallGraph :=
  ⟨.first, [⟨['a'], [['b'], ['b'], ['c']]⟩, ⟨['b'], [['a']]⟩, ⟨['c'], [['a'], ['c']]⟩]⟩

/-- The repeated call closes no cycle of its own, and a name that calls itself makes one. -/
theorem loops_simple_and_distinct :
    loops.cycles = [[['a'], ['b'], ['a']], [['a'], ['c'], ['a']], [['c'], ['c']]] ∧
      loops.ClosedWalk [['c'], ['c']] ∧
      ¬ [['a'], ['b'], ['a']].dropLast ~r [['a'], ['c'], ['a']].dropLast ∧
      ¬ [['b'], ['a']] <:+ [['a'], ['c'], ['a']] := by
  have listed : loops.cycles = [[['a'], ['b'], ['a']], [['a'], ['c'], ['a']], [['c'], ['c']]] := by
    decide
  obtain ⟨sound, distinct⟩ := cycles_simple_and_distinct loops
  rw [listed] at sound distinct
  obtain ⟨-, -, rotated, closing⟩ :=
    (List.pairwise_cons.mp distinct).1 [['a'], ['c'], ['a']] (by simp)
  exact ⟨listed, (sound [['c'], ['c']] (by simp)).1, rotated, closing _ _ (by decide)⟩

end CallGraph
end Mapkeys
