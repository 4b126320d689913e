import TypeFlow.Graph.Path
import TypeFlow.Proofs.Shape

/-!
# Dominance

A node without types waits for those of its inputs that have none. It is covered by some nodes when
every chain of waiting ends at one of them. Nodes that the others cover may be left out of a set all
at once (`covered_of_removed`), because waiting never leads in a circle. As long as paths are short,
the tests of dominance decide coverage.
-/

namespace TypeFlow

variable {g : GraphId} {n b : NodeId} {P : NodeId → Prop} {k : Nat} {s : Store}

namespace Store

variable {S T : NodeId → Prop} {m : NodeId}

/-- A node has no types yet. -/
def IsUntyped (s : Store) (n : NodeId) : Prop := s.rowAt (s.nodeAt n).types = []

/-- The call of a method through an attribute, of which nothing will be known. -/
def IsMethodCall (s : Store) (n : NodeId) : Prop :=
  ∃ info func, (s.nodeAt n).kind = .operation info ∧ info.op = "call" ∧ info.func = some func ∧
    Text.has func "_@_" = true

/-- A node waits for the types of one of its inputs. -/
def Awaits (s : Store) (n m : NodeId) : Prop := some m ∈ (s.nodeAt n).ins ∧ s.IsUntyped m

/-- Whatever a node waits for comes from some nodes in the end: it is one of them, or it waits for
something, and all that it waits for comes from them. -/
inductive Covered (s : Store) (S : NodeId → Prop) : NodeId → Prop
  | member {n : NodeId} (hn : S n) : Covered s S n
  | inputs {n m : NodeId} (hm : s.Awaits n m) (hcall : ∀ k, s.Awaits n k → ¬s.IsMethodCall k)
      (hall : ∀ k, s.Awaits n k → Covered s S k) : Covered s S n

theorem covered_iff (hn : ¬S n) : s.Covered S n ↔ (∃ m, s.Awaits n m) ∧
    (∀ k, s.Awaits n k → ¬s.IsMethodCall k) ∧ ∀ k, s.Awaits n k → s.Covered S k := by
  constructor
  · intro h
    cases h with
    | member h => exact absurd h hn
    | inputs hm hcall hall => exact ⟨⟨_, hm⟩, hcall, hall⟩
  · rintro ⟨⟨m, hm⟩, hcall, hall⟩
    exact .inputs hm hcall hall

theorem Covered.trans (h : s.Covered S n) (hS : ∀ m, S m → s.Covered T m) : s.Covered T n := by
  induction h with
  | member hn => exact hS _ hn
  | inputs hm hcall _ ih => exact .inputs hm hcall ih

/-- Only nodes that lead to a node cover it. -/
theorem Covered.behind (hdag : s.IsDag g) (h : s.Covered S n) (hn : n ∈ (s.graphAt g).nodes) :
    s.Covered (fun m => S m ∧ Relation.ReflTransGen (s.Feeds g) m n) n := by
  induction h with
  | member h => exact .member ⟨h, .refl⟩
  | @inputs n m hm hcall _ ih =>
    refine .inputs hm hcall fun k hk => ?_
    have hfeeds := hdag.feeds_of_ins hn hk.1
    refine (ih k hk hfeeds.1).trans ?_
    rintro j ⟨hj, hpath⟩
    exact .member ⟨hj, hpath.tail hfeeds⟩

theorem Covered.before (hdag : s.IsDag g) (h : s.Covered S n) (hn : n ∈ (s.graphAt g).nodes)
    (hS : ¬S n) : s.Covered (fun m => S m ∧ Relation.TransGen (s.Feeds g) m n) n := by
  obtain ⟨⟨m, hm⟩, hcall, hall⟩ := (covered_iff hS).mp h
  refine .inputs hm hcall fun k hk => ?_
  have hfeeds := hdag.feeds_of_ins hn hk.1
  refine ((hall k hk).behind hdag hfeeds.1).trans ?_
  rintro j ⟨hj, hpath⟩
  exact .member ⟨hj, .tail' hpath hfeeds⟩

theorem Covered.exists_member (h : s.Covered S n) : ∃ m, S m := by
  induction h with
  | member h => exact ⟨_, h⟩
  | inputs hm _ _ ih => exact ih _ hm

/-- Nodes may be taken out of a set all at once. As long as each of them is covered by the others,
those that remain cover the set. -/
theorem covered_of_removed (hdag : s.IsDag g) {Q : NodeId → Prop}
    (hQ : ∀ n, Q n → n ∈ (s.graphAt g).nodes)
    (hremoved : ∀ n, Q n → ¬P n → s.Covered (fun m => Q m ∧ m ≠ n) n) (hn : Q n) :
    s.Covered P n := by
  induction n using hdag.wellFounded.transGen.induction with
  | h n ih =>
    by_cases hP : P n
    · exact .member hP
    · refine ((hremoved n hn hP).before hdag (hQ n hn) fun h => h.2 rfl).trans ?_
      rintro m ⟨⟨hm, -⟩, hpath⟩
      exact ih m hpath hm

theorem outs_ne_nil_of_transGen (hdag : s.IsDag g) (h : Relation.TransGen (s.Feeds g) m n) :
    (s.nodeAt m).outs ≠ [] := by
  obtain ⟨k, hfeeds, -⟩ := Relation.TransGen.head'_iff.mp h
  exact List.ne_nil_of_mem ((hdag.same m hfeeds.1 k hfeeds.2.1).mp hfeeds.2.2)

/-- A path passes no node twice, so it has no more edges than there are nodes. -/
theorem IsDag.path_length_le (hdag : s.IsDag g) {path : List NodeId}
    (h : path.IsChain (s.Feeds g)) : path.length - 1 ≤ (s.graphAt g).nodes.length := by
  cases path with
  | nil => exact Nat.zero_le _
  | cons n rest =>
    have hpairs : rest.Pairwise (Relation.TransGen (s.Feeds g)) :=
      (h.tail.imp fun _ _ => .single).pairwise
    have hnodup : rest.Nodup := hpairs.imp fun {a b} h heq => by
      subst heq
      exact hdag.acyclic a h
    have hmem (l : List NodeId) (n : NodeId) (h : (n :: l).IsChain (s.Feeds g)) :
        l ⊆ (s.graphAt g).nodes := by
      induction l generalizing n with
      | nil => exact List.nil_subset _
      | cons m l ih =>
        obtain ⟨hfeeds, hl⟩ := List.isChain_cons_cons.mp h
        exact List.cons_subset.mpr ⟨hfeeds.2.1, ih m hl⟩
    exact (List.subperm_of_subset hnodup (hmem rest n h)).length_le

/-- All paths to a node have fewer edges than a number. -/
def PathsBelow (s : Store) (g : GraphId) (k : Nat) (n : NodeId) : Prop :=
  ∀ l : List NodeId, (l ++ [n]).IsChain (s.Feeds g) → l.length < k

theorem PathsBelow.pos (h : s.PathsBelow g k n) : 0 < k := h [] (.singleton n)

theorem PathsBelow.step (h : s.PathsBelow g (k + 1) n) (hm : s.Feeds g m n) :
    s.PathsBelow g k m := by
  intro l hl
  have hlen := h (l ++ [m]) (List.isChain_append.mpr ⟨hl, .singleton n, ?_⟩)
  · simpa using hlen
  · intro a ha b hb
    simp at ha hb
    exact ha ▸ hb ▸ hm

end Store

namespace Eval

open Store Classical

section

variable (hn : (s.nodeAt n).kind ≠ .base)

include hn

theorem typesAt_run :
    (typesAt n).run s = .ok (s.rowAt (s.nodeAt n).types) s := by
  have hrow : (typesRow n).run s = .ok (s.nodeAt n).types s := by
    refine (bind_of_ok (node_run n s) _).trans ?_
    dsimp only
    split
    · exact absurd (by assumption) hn
    · rfl
  exact bind_of_ok hrow _

theorem isUntyped_run :
    (isUntyped n).run s = .ok (decide (s.IsUntyped n)) s := by
  have hempty : (s.rowAt (s.nodeAt n).types).isEmpty = decide (s.IsUntyped n) :=
    Bool.eq_iff_iff.mpr (List.isEmpty_iff.trans (decide_eq_true_iff (p := s.IsUntyped n)).symm)
  exact hempty ▸ bind_of_ok (typesAt_run hn) _

theorem emptyInputs_cons (rest : List Link) :
    emptyInputs (some n :: rest) s = if s.IsUntyped n then
        if s.IsMethodCall n then .ok none s
        else (do return (← emptyInputs rest).map (n :: ·) : Eval (Option (List NodeId))) s
      else emptyInputs rest s := by
  refine (bind_of_ok (isUntyped_run hn) _).trans ?_
  by_cases huntyped : s.IsUntyped n
  · rw [if_pos huntyped, decide_eq_true huntyped]
    refine (bind_of_ok (node_run n s) _).trans ?_
    by_cases hcall : s.IsMethodCall n
    · obtain ⟨info, func, hkind, hop, hfunc, hhas⟩ := hcall
      obtain ⟨op, _, attr, splitIndex, rejected⟩ := info
      subst hop hfunc
      rw [if_pos ⟨_, func, hkind, rfl, rfl, hhas⟩]
      simp only [hkind, hhas]
      rfl
    · rw [if_neg hcall]
      generalize hkind : (s.nodeAt n).kind = kind
      dsimp only
      split
      · split
        · rename_i hhas
          exact absurd ⟨_, _, hkind, rfl, rfl, hhas⟩ hcall
        · rfl
      · rfl
  · rw [if_neg huntyped, decide_eq_false huntyped]
    rfl

end

/-- The inputs that a node waits for, unless one of them is the call of a method. -/
theorem emptyInputs_run {links : List Link}
    (h : ∀ link ∈ links, ∃ m, link = some m ∧ (s.nodeAt m).kind ≠ .base) :
    (∃ m, some m ∈ links ∧ s.IsUntyped m ∧ s.IsMethodCall m) ∧ emptyInputs links s = .ok none s ∨
      ∃ l, emptyInputs links s = .ok (some l) s ∧
        (∀ m, m ∈ l ↔ some m ∈ links ∧ s.IsUntyped m) ∧ ∀ m ∈ l, ¬s.IsMethodCall m := by
  induction links with
  | nil => exact .inr ⟨[], rfl, by simp, by simp⟩
  | cons link rest ih =>
    obtain ⟨⟨n, rfl, hn⟩, hrest⟩ := List.forall_mem_cons.mp h
    rw [emptyInputs_cons hn]
    have hrest := ih hrest
    by_cases huntyped : s.IsUntyped n
    · rw [if_pos huntyped]
      by_cases hcall : s.IsMethodCall n
      · exact .inl ⟨⟨n, .head _, huntyped, hcall⟩, if_pos hcall⟩
      · rw [if_neg hcall]
        rcases hrest with ⟨⟨m, hm, hm'⟩, hnone⟩ | ⟨l, hsome, hmem, hl⟩
        · exact .inl ⟨⟨m, .tail _ hm, hm'⟩, bind_of_ok hnone _⟩
        · refine .inr ⟨n :: l, bind_of_ok hsome _, fun m => ?_, ?_⟩
          · simp only [List.mem_cons, hmem, Option.some.injEq]
            grind
          · exact List.forall_mem_cons.mpr ⟨hcall, hl⟩
    · rw [if_neg huntyped]
      refine hrest.imp ?_ ?_
      · rintro ⟨⟨m, hm, hm'⟩, hnone⟩
        exact ⟨⟨m, .tail _ hm, hm'⟩, hnone⟩
      · rintro ⟨l, hsome, hmem, hl⟩
        refine ⟨l, hsome, fun m => (hmem m).trans ?_, hl⟩
        simp only [List.mem_cons, Option.some.injEq]
        grind

/-- A test of all members that changes nothing. -/
theorem all_run {test : NodeId → Eval Bool} {l : List NodeId}
    (htest : ∀ n ∈ l, test n s = .ok (decide (P n)) s) :
    all test l s = .ok (decide (∀ n ∈ l, P n)) s := by
  induction l with
  | nil => simp [all]
  | cons n l ih =>
    refine (bind_of_ok (htest n (.head _)) _).trans ?_
    by_cases hn : P n
    · rw [decide_eq_true hn]
      refine (ih fun m hm => htest m (.tail _ hm)).trans ?_
      simp [hn]
    · rw [decide_eq_false hn]
      simp [hn]

theorem waitsOnly_of_not_flows (settled : NodeId → Bool) (fuel : Nat) (n : NodeId) (s : Store) :
    waitsOnly false settled fuel n s = .ok false s := by
  cases fuel <;> rfl

section

variable (hdag : s.IsDag g)
  (hkinds : ∀ n ∈ (s.graphAt g).nodes, (s.nodeAt n).kind ≠ .base)

include hdag hkinds

/-- The test of what a node waits for follows all paths as long as they are short. -/
theorem waitsOnly_run (settled : NodeId → Bool) {fuel : Nat} (hn : n ∈ (s.graphAt g).nodes)
    (hpaths : s.PathsBelow g fuel n) :
    waitsOnly true settled fuel n s = .ok (decide (s.Covered (settled · = true) n)) s := by
  induction fuel generalizing n with
  | zero => exact absurd hpaths.pos (Nat.lt_irrefl 0)
  | succ fuel ih =>
    have hlinks : ∀ link ∈ (s.nodeAt n).ins, ∃ m, link = some m ∧ (s.nodeAt m).kind ≠ .base := by
      intro link hlink
      obtain ⟨m, hm, rfl⟩ := hdag.ins n hn link hlink
      exact ⟨m, rfl, hkinds m hm⟩
    unfold waitsOnly
    cases hsettled : settled n with
    | true =>
      rw [decide_eq_true (Covered.member hsettled)]
      rfl
    | false =>
      have hns : ¬settled n = true := by simp [hsettled]
      refine (bind_of_ok (node_run n s) _).trans ?_
      rcases emptyInputs_run hlinks with
        ⟨⟨m, hm, huntyped, hcall⟩, hnone⟩ | ⟨l, hsome, hmem, hl⟩
      · have hcovered : ¬s.Covered (settled · = true) n := fun h =>
          ((covered_iff hns).mp h).2.1 m ⟨hm, huntyped⟩ hcall
        rw [decide_eq_false hcovered]
        exact bind_of_ok hnone _
      · have hcovered : s.Covered (settled · = true) n ↔
            l ≠ [] ∧ ∀ k ∈ l, s.Covered (settled · = true) k := by
          have hne : (∃ m, s.Awaits n m) ↔ l ≠ [] :=
            ⟨fun ⟨m, hm⟩ => List.ne_nil_of_mem ((hmem m).mpr hm), fun h =>
              (List.exists_mem_of_ne_nil l h).imp fun m => (hmem m).mp⟩
          have hawaits (m : NodeId) : s.Awaits n m ↔ m ∈ l := (hmem m).symm
          rw [covered_iff (S := (settled · = true)) hns, hne]
          simp only [hawaits]
          exact and_congr_right fun _ => and_iff_right hl
        have hall : all (waitsOnly true settled fuel) l s =
            .ok (decide (∀ k ∈ l, s.Covered (settled · = true) k)) s := by
          refine all_run fun k hk => ?_
          have hfeeds := hdag.feeds_of_ins hn ((hmem k).mp hk).1
          exact ih hfeeds.1 (hpaths.step hfeeds)
        refine (bind_of_ok hsome _).trans ?_
        cases l with
        | nil =>
          rw [decide_eq_false fun h => (hcovered.mp h).1 rfl]
          rfl
        | cons m l => exact hall.trans (by simp [hcovered])

/-- One node dominates another one if it feeds something and covers it. -/
def Dominates (s : Store) (a b : NodeId) : Prop :=
  (s.nodeAt a).outs ≠ [] ∧ s.Covered (· = a) b

def SetDominates (s : Store) (set : List NodeId) (b : NodeId) : Prop :=
  (∃ a ∈ set, (s.nodeAt a).outs ≠ []) ∧ s.Covered (· ∈ set) b

theorem dominates_run (a : NodeId) (hb : b ∈ (s.graphAt g).nodes)
    (hpaths : s.PathsBelow g (maxDepth + 1) b) :
    dominates a b 0 s = .ok (decide (Dominates s a b)) s := by
  refine (bind_of_ok (node_run a s) _).trans ?_
  cases houts : (s.nodeAt a).outs with
  | nil =>
    rw [decide_eq_false fun h => h.1 houts]
    exact waitsOnly_of_not_flows _ _ _ _
  | cons link rest =>
    refine (waitsOnly_run hdag hkinds (· == a) hb hpaths).trans ?_
    simp [Dominates, houts]

theorem setDominates_run (set : List NodeId) (hb : b ∈ (s.graphAt g).nodes)
    (hpaths : s.PathsBelow g (maxDepth + 1) b) :
    setDominates set b 0 s = .ok (decide (SetDominates s set b)) s := by
  refine (bind_of_ok (mapM_of_pure (p := fun n => (s.nodeAt n).outs)
    fun n _ => bind_of_ok (node_run n s) _) _).trans ?_
  by_cases hflows : ∃ a ∈ set, (s.nodeAt a).outs ≠ []
  · have hany : ((set.map fun n => (s.nodeAt n).outs).any fun l => !l.isEmpty) = true := by
      simpa using hflows
    simp only [hany]
    refine (waitsOnly_run hdag hkinds _ hb hpaths).trans ?_
    simp [SetDominates, hflows]
  · have hany : ((set.map fun n => (s.nodeAt n).outs).any fun l => !l.isEmpty) = false := by
      simpa using hflows
    simp only [hany]
    rw [decide_eq_false fun h => hflows h.1]
    exact waitsOnly_of_not_flows _ _ _ _

end

end Eval
end TypeFlow
