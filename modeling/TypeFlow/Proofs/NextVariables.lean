import Mathlib
import TypeFlow.Proofs.HotSymbols

/-!
# The next variables without types

The search for the next variables without types finds exactly those that can be reached past nodes
that are no such variables. It comes to an end on every graph, because a node is passed once.
-/

namespace TypeFlow

open Relation Classical List

variable {s : Store} {g : GraphId} {m n : NodeId} {queue visited : List Link}
  {found left : List NodeId}

namespace Store

/-- A variable without types. -/
def IsEmptySymbol (s : Store) (n : NodeId) : Prop :=
  (s.nodeAt n).kind.symbol?.isSome = true ∧ s.IsUntyped n

/-- An edge to a node that is no variable without types. -/
def Passes (s : Store) (m n : NodeId) : Prop := some n ∈ (s.nodeAt m).outs ∧ ¬s.IsEmptySymbol n

/-- A path of one edge or more past nodes that are no variables without types. -/
def Arrives (s : Store) (n m : NodeId) : Prop :=
  ∃ k, ReflTransGen s.Passes n k ∧ some m ∈ (s.nodeAt k).outs

/-- A search from a node that has met the nodes in `visited` and still has to look at those in
`queue`. Whatever leads on from nodes it has passed is met or waits. -/
structure Seeks (s : Store) (g : GraphId) (n : NodeId) (queue visited : List Link)
    (found : List NodeId) : Prop where
  nodes : ∀ link ∈ queue, ∃ m ∈ (s.graphAt g).nodes, link = some m
  arrives : ∀ m, some m ∈ visited ∨ some m ∈ queue → s.Arrives n m
  start : ∀ link ∈ (s.nodeAt n).outs, link ∈ visited ∨ link ∈ queue
  onward : ∀ m, some m ∈ visited → ¬s.IsEmptySymbol m →
    ∀ link ∈ (s.nodeAt m).outs, link ∈ visited ∨ link ∈ queue
  finds : ∀ m, m ∈ found ↔ some m ∈ visited ∧ s.IsEmptySymbol m

/-- A finished search has found what can be reached. -/
theorem Seeks.mem_found (h : s.Seeks g n [] visited found) (m : NodeId) :
    m ∈ found ↔ s.IsEmptySymbol m ∧ s.Arrives n m := by
  have hall (k : NodeId) (hk : ReflTransGen s.Passes n k) :
      ∀ link ∈ (s.nodeAt k).outs, link ∈ visited := by
    induction hk with
    | refl => simpa using h.start
    | tail _ hpass ih => simpa using h.onward _ (ih _ hpass.1) hpass.2
  rw [h.finds]
  constructor
  · exact fun hm => ⟨hm.2, h.arrives m (.inl hm.1)⟩
  · rintro ⟨hempty, k, hpath, hm⟩
    exact ⟨hall k hpath _ hm, hempty⟩

/-- A variable without types is found, and a node that has been met before is left aside. Whatever
another node feeds waits from now on. -/
theorem Seeks.turn (h : s.Seeks g n (some m :: queue) visited found)
    (houts : ∀ link ∈ (s.nodeAt m).outs, ∃ k ∈ (s.graphAt g).nodes, link = some k) :
    s.Seeks g n (queue ++ if s.IsEmptySymbol m ∨ some m ∈ visited then [] else (s.nodeAt m).outs)
      (some m :: visited) (if s.IsEmptySymbol m then found ++ [m] else found) := by
  have hmore (hm : ¬s.IsEmptySymbol m) (k : NodeId) (hk : some k ∈ (s.nodeAt m).outs) :
      s.Arrives n k := by
    obtain ⟨j, hpath, hj⟩ := h.arrives m (.inr (.head _))
    exact ⟨m, hpath.tail ⟨hj, hm⟩, hk⟩
  obtain ⟨hnodes, harrives, hstart, honward, hfinds⟩ := h
  constructor <;> grind

end Store

namespace Eval

open Store

theorem nextEmptyFrom_cons (fuel : Nat) (m : NodeId) (queue visited : List Link)
    (found : List NodeId) (s : Store) :
    nextEmptyFrom (fuel + 1) (some m :: queue) visited found s = nextEmptyFrom fuel
      (queue ++ if s.IsEmptySymbol m ∨ some m ∈ visited then [] else (s.nodeAt m).outs)
      (some m :: visited) (if s.IsEmptySymbol m then found ++ [m] else found) s := by
  refine (bind_of_ok (node_run m s) _).trans ?_
  unfold IsEmptySymbol
  cases hsymbol : (s.nodeAt m).kind.symbol?.isSome with
  | false => by_cases hvisited : some m ∈ visited <;> simp [hvisited, require, bind_apply]
  | true =>
    have hbase : (s.nodeAt m).kind ≠ .base := fun h => by simp [h, NodeKind.symbol?] at hsymbol
    refine (bind_of_ok (isUntyped_run hbase) _).trans ?_
    by_cases huntyped : s.IsUntyped m <;> by_cases hvisited : some m ∈ visited <;>
      simp [huntyped, hvisited, require, bind_apply]

/-- The number of edges that start at some nodes. -/
def edgeCount (s : Store) (left : List NodeId) : Nat :=
  (left.map fun k => (s.nodeAt k).outs.length).sum

/-- The search comes to an end in as many turns as edges wait or start at nodes that have not been
passed. -/
theorem nextEmptyFrom_run {turns : Nat}
    (houts : ∀ m ∈ (s.graphAt g).nodes, ∀ link ∈ (s.nodeAt m).outs,
      ∃ k ∈ (s.graphAt g).nodes, link = some k) (h : s.Seeks g n queue visited found)
    (hleft : ∀ k, some k ∉ visited → (s.nodeAt k).outs ≠ [] → k ∈ left)
    (hturns : queue.length + edgeCount s left ≤ turns) :
    ∃ found', (∀ fuel ≥ turns, nextEmptyFrom fuel queue visited found s = .ok found' s) ∧
      ∀ m, m ∈ found' ↔ s.IsEmptySymbol m ∧ s.Arrives n m := by
  induction turns generalizing queue visited found left with
  | zero =>
    obtain rfl : queue = [] := eq_nil_of_length_eq_zero (by omega)
    exact ⟨found, fun fuel _ => by cases fuel <;> rfl, h.mem_found⟩
  | succ turns ih =>
    cases queue with
    | nil => exact ⟨found, fun fuel _ => by cases fuel <;> rfl, h.mem_found⟩
    | cons link queue =>
      obtain ⟨m, hm, rfl⟩ := h.nodes _ (.head _)
      have hcount : (if s.IsEmptySymbol m ∨ some m ∈ visited then []
          else (s.nodeAt m).outs).length + edgeCount s (left.erase m) ≤ edgeCount s left := by
        by_cases hmem : m ∈ left
        · have := sum_map_erase (fun k => (s.nodeAt k).outs.length) hmem
          unfold edgeCount
          split_ifs <;> simp <;> omega
        · have := hleft m
          rw [erase_of_not_mem hmem]
          grind
      have hleft' (k : NodeId) (hk : some k ∉ some m :: visited) (hne : (s.nodeAt k).outs ≠ []) :
          k ∈ left.erase m := by
        refine (mem_erase_of_ne ?_).mpr (hleft k (fun h => hk (.tail _ h)) hne)
        rintro rfl
        exact hk (.head _)
      rw [length_cons] at hturns
      obtain ⟨all, hrun, hall⟩ := ih (h.turn (houts m hm)) hleft' (by
        rw [length_append]
        omega)
      refine ⟨all, fun fuel hfuel => ?_, hall⟩
      cases fuel with
      | zero => exact absurd hfuel (Nat.not_succ_le_zero _)
      | succ fuel =>
        exact (nextEmptyFrom_cons ..).trans (hrun fuel (Nat.le_of_succ_le_succ hfuel))

theorem edgeCount_all (s : Store) : edgeCount s ((range s.nodes.size).map NodeId.mk) =
    s.nodes.foldl (fun sum node => sum + node.outs.length) 0 := by
  have hnodes : (range s.nodes.size).map (fun i => s.nodeAt ⟨i⟩) = s.nodes.toList :=
    ext_getElem (by simp) fun i hi _ => by
      have hsize : i < s.nodes.size := by simpa using hi
      simp [nodeAt, hsize]
  rw [edgeCount, ← Array.foldl_toList, ← hnodes, foldl_map, sum_eq_foldl,
    foldl_map, foldl_map]

/-- On every graph, with cycles or without, the search ends by itself, leaves the store as it is and
finds exactly the variables without types to which a path of one edge or more leads past nodes that
are none. -/
theorem nextEmpty_exact (s : Store) (g : GraphId)
    (houts : ∀ m ∈ (s.graphAt g).nodes, ∀ link ∈ (s.nodeAt m).outs,
      ∃ k ∈ (s.graphAt g).nodes, link = some k) (n : NodeId) (hn : n ∈ (s.graphAt g).nodes) :
    ∃ found turns, nextEmpty n s = .ok found s ∧
      (∀ fuel ≥ turns, nextEmptyFrom fuel (s.nodeAt n).outs [] [] s = .ok found s) ∧
      ∀ m, m ∈ found ↔ s.IsEmptySymbol m ∧ s.Arrives n m := by
  have hstart : s.Seeks g n (s.nodeAt n).outs [] [] := by
    refine ⟨houts n hn, fun m hm => ?_, fun _ => .inr, fun m hm => ?_, fun m => by simp⟩
    · exact ⟨n, .refl, hm.resolve_left List.not_mem_nil⟩
    · exact absurd hm List.not_mem_nil
  have hstored (k : NodeId) (hk : (s.nodeAt k).outs ≠ []) :
      k ∈ (List.range s.nodes.size).map NodeId.mk := by
    refine List.mem_map.mpr ⟨k.index, List.mem_range.mpr ?_, rfl⟩
    by_contra hsize
    exact hk (by simp [nodeAt, hsize]; rfl)
  obtain ⟨found, hrun, hmem⟩ := nextEmptyFrom_run houts hstart (fun k _ => hstored k) le_rfl
  refine ⟨found, _, (bind_of_ok (node_run n s) _).trans (hrun _ ?_), hrun, hmem⟩
  rw [edgeCount_all]
  exact Nat.le_succ _

/-- From a parameter, the next variable without types is the sum. -/
theorem nextEmpty_adder : ∃ found turns, nextEmpty ⟨0⟩ adder = .ok found adder ∧
    (∀ fuel ≥ turns, nextEmptyFrom fuel (adder.nodeAt ⟨0⟩).outs [] [] adder = .ok found adder) ∧
    ∀ m, m ∈ found ↔ adder.IsEmptySymbol m ∧ adder.Arrives ⟨0⟩ m :=
  nextEmpty_exact adder ⟨0⟩ (by decide) ⟨0⟩ (by decide)

end Eval
end TypeFlow
