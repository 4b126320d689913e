import TypeFlow.Proofs.Pruning
import TypeFlow.Proofs.Shape

/-!
# What pruning removes

Merges are peeled off in rounds: a merge goes when all its outputs have gone. In a graph without
cycles the merges that are left are those from which a node of another kind is reached, and then
the branches that are left are those with an output. Nothing else changes, and the edges between
the nodes that are left are the old ones.
-/

namespace TypeFlow

open Eval List

variable {s t : Store} {g : GraphId} {n : NodeId} {D : List NodeId}

namespace Store

variable {u : Store} {m : NodeId}

/-- A node joins the types of a variable. -/
def IsMerge (s : Store) (n : NodeId) : Prop := ∃ var, (s.nodeAt n).kind = .merge var

/-- A node splits the types of a variable. -/
def IsBranch (s : Store) (n : NodeId) : Prop := (s.nodeAt n).kind.isBranch = true

instance (s : Store) (n : NodeId) : Decidable (s.IsMerge n) :=
  decidable_of_iff ((s.nodeAt n).kind.name = "Merge") (by
    unfold IsMerge
    cases (s.nodeAt n).kind <;> simp [NodeKind.name])

instance (s : Store) (n : NodeId) : Decidable (s.IsBranch n) := inferInstanceAs (Decidable (_ = _))

/-- A node that is no merge is reached along outputs. -/
def Lives (s : Store) (n : NodeId) : Prop :=
  ∃ m, Relation.ReflTransGen (fun a b => some b ∈ (s.nodeAt a).outs) n m ∧ ¬ s.IsMerge m

/-- Graphs without cycles that list their merges and branches, in which no merge or branch takes
types from a branch and no branch from a merge. An edge is noted at its source no more often than
at its target. -/
structure Prunable (s : Store) (g : GraphId) : Prop extends s.IsDag g where
  counted : ∀ m ∈ (s.graphAt g).nodes, ∀ n ∈ (s.graphAt g).nodes,
    (s.nodeAt m).outs.count (some n) ≤ (s.nodeAt n).ins.count (some m)
  nodup : (s.graphAt g).nodes.Nodup
  merges_nodup : (s.graphAt g).merges.Nodup
  branches_nodup : (s.graphAt g).branches.Nodup
  mem_merges : ∀ n, n ∈ (s.graphAt g).merges ↔ n ∈ (s.graphAt g).nodes ∧ s.IsMerge n
  mem_branches : ∀ n, n ∈ (s.graphAt g).branches ↔ n ∈ (s.graphAt g).nodes ∧ s.IsBranch n
  merge_ins : ∀ n ∈ (s.graphAt g).merges, ∀ m, some m ∈ (s.nodeAt n).ins → ¬ s.IsBranch m
  branch_ins : ∀ n ∈ (s.graphAt g).branches, ∀ m, some m ∈ (s.nodeAt n).ins →
    ¬ s.IsBranch m ∧ ¬ s.IsMerge m

/-- The nodes `D` have been taken out of a graph, each after all its outputs. -/
structure Peeled (s : Store) (g : GraphId) (D : List NodeId) (t : Store) : Prop where
  size : t.nodes.size = s.nodes.size
  node : ∀ n, { t.nodeAt n with outs := [] } = { s.nodeAt n with outs := [] }
  outs : ∀ n ∈ (s.graphAt g).nodes,
    (t.nodeAt n).outs = (s.nodeAt n).outs.filter (· ∉ D.map some)
  nodes : (t.graphAt g).nodes = (s.graphAt g).nodes.filter (· ∉ D)
  merges : (t.graphAt g).merges = (s.graphAt g).merges.filter (· ∉ D)
  branches : (t.graphAt g).branches = (s.graphAt g).branches.filter (· ∉ D)
  closed : ∀ d ∈ D, d ∈ (s.graphAt g).nodes ∧ ∀ n, some n ∈ (s.nodeAt d).outs → n ∈ D

namespace Peeled

theorem refl (s : Store) (g : GraphId) : s.Peeled g [] s := by
  refine ⟨rfl, fun _ => rfl, ?_, ?_, ?_, ?_, ?_⟩ <;> simp

theorem kind_eq (h : s.Peeled g D t) (n : NodeId) : (t.nodeAt n).kind = (s.nodeAt n).kind :=
  (congrArg Node.kind (h.node n) :)

theorem ins_eq (h : s.Peeled g D t) (n : NodeId) : (t.nodeAt n).ins = (s.nodeAt n).ins :=
  (congrArg Node.ins (h.node n) :)

end Peeled
end Store

namespace Eval

open Store

theorem iterate_erase {α : Type} [BEq α] [LawfulBEq α] (a : α) {k : Nat} {l : List α}
    (h : l.count a ≤ k) : (List.erase · a)^[k] l = l.filter (· != a) := by
  induction k generalizing l with
  | zero =>
    have hnot : a ∉ l := count_eq_zero.mp (Nat.le_zero.mp h)
    refine (filter_eq_self.mpr fun b hb => ?_).symm
    exact bne_iff_ne.mpr fun hba => hnot (hba ▸ hb)
  | succ k ih =>
    rw [Function.iterate_succ_apply, ih (by rw [List.count_erase_self]; omega),
      Web.Pruned.filter_erase (by simp)]

/-- An output is dropped at a node as often as the node is among the inputs. -/
theorem forM_dropOutput (links : List Link)
    (hlinks : ∀ link ∈ links, ∃ m, link = some m ∧ m.index < t.nodes.size) :
    Ends (links.forM (dropOutput n)) t fun _ u => u.graphs = t.graphs ∧
      u.nodes.size = t.nodes.size ∧ ∀ m, u.nodeAt m = { t.nodeAt m with
        outs := (List.erase · (some n))^[links.count (some m)] (t.nodeAt m).outs } := by
  induction links generalizing t with
  | nil => exact .of_eq rfl ⟨rfl, rfl, fun _ => rfl⟩
  | cons link links ih =>
    obtain ⟨⟨a, rfl, ha⟩, hrest⟩ := forall_mem_cons.mp hlinks
    let f (node : Node) : Node := { node with outs := node.outs.erase (some n) }
    have hsize : (t.nodes.modify a.index f).size = t.nodes.size := Array.size_modify ..
    refine .step (modifyNode_apply a f t) ((ih (by rwa [hsize])).imp ?_)
    rintro _ u ⟨hgraphs, hu, hnode⟩
    refine ⟨hgraphs, hu.trans hsize, fun m => ?_⟩
    rw [hnode, nodeAt_modify ha, count_cons]
    by_cases hm : m = a
    · subst hm
      simp [f, Function.iterate_succ_apply]
    · simp [hm, Ne.symm hm]

/-- A node without outputs is taken out. -/
theorem dropNode_peels (hs : s.Prunable g) (h : s.Peeled g D t) (hn : n ∈ (s.graphAt g).nodes)
    (hdead : (t.nodeAt n).outs = []) : Ends (dropNode g n) t fun _ u => s.Peeled g (n :: D) u := by
  have hins : ∀ link ∈ (t.nodeAt n).ins, ∃ m, link = some m ∧ m.index < t.nodes.size := by
    rw [h.ins_eq, h.size]
    intro link hlink
    obtain ⟨m, hm, rfl⟩ := hs.ins n hn link hlink
    exact ⟨m, rfl, hs.stored m hm⟩
  refine .step (node_run n t) ((forM_dropOutput _ hins).bind ?_)
  rintro _ u ⟨hgraphs, hsize, hnode⟩
  refine .of_eq (modifyGraph_apply _ _ _) ?_
  have hgraph (f : Graph → Graph) (hf : f default = default) :
      graphAt { u with graphs := u.graphs.modify g.index f } g = f (t.graphAt g) := by
    rw [graphAt_modify, graphAt, hgraphs]
    split
    · rfl
    · rename_i hg
      rw [graphAt, Array.getD_eq_getD_getElem?, Array.getElem?_eq_none (by simpa using hg)]
      exact hf.symm
  have hfilter {α : Type} [DecidableEq α] [BEq α] [LawfulBEq α] (a : α) (l E : List α) :
      (l.filter (· ∉ E)).filter (· != a) = l.filter (· ∉ a :: E) := by
    rw [filter_filter]
    exact filter_congr fun b _ => Bool.eq_iff_iff.mpr (by simp)
  have herase {l : List NodeId} (hl : l.Nodup) :
      (l.filter (· ∉ D)).erase n = l.filter (· ∉ n :: D) := by
    rw [(hl.filter _).erase_eq_filter, hfilter]
  refine ⟨hsize.trans h.size, fun m => ?_, fun m hm => ?_, ?_, ?_, ?_, ?_⟩
  · rw [← h.node m]
    exact congrArg (fun node : Node => { node with outs := [] }) (hnode m)
  · refine (congrArg Node.outs (hnode m)).trans ?_
    change (List.erase · (some n))^[_] (t.nodeAt m).outs = _
    rw [h.outs m hm, h.ins_eq, iterate_erase, hfilter]
    · rfl
    · exact (filter_sublist.count_le _).trans (hs.counted m hm n hn)
  · rw [hgraph _ rfl, h.nodes]
    exact herase hs.nodup
  · rw [hgraph _ rfl, h.merges]
    exact herase hs.merges_nodup
  · rw [hgraph _ rfl, h.branches]
    exact herase hs.branches_nodup
  · rw [forall_mem_cons]
    refine ⟨⟨hn, fun m hm => ?_⟩, fun d hd => ⟨(h.closed d hd).1, fun m hm => ?_⟩⟩
    · rw [h.outs n hn, filter_eq_nil_iff] at hdead
      have := hdead _ hm
      simp at this
      exact .tail _ this
    · exact .tail _ ((h.closed d hd).2 m hm)

theorem forM_dropNode_peels (hs : s.Prunable g) {dead : List NodeId} (h : s.Peeled g D t)
    (hdead : ∀ n ∈ dead, n ∈ (s.graphAt g).nodes ∧ (t.nodeAt n).outs = []) :
    Ends (dead.forM (dropNode g)) t fun _ u => s.Peeled g (dead.reverse ++ D) u := by
  induction dead generalizing t D with
  | nil => exact .of_eq rfl h
  | cons n dead ih =>
    obtain ⟨hn, hrest⟩ := forall_mem_cons.mp hdead
    refine (dropNode_peels hs h hn.1 hn.2).bind fun _ u hu => ?_
    rw [reverse_cons, append_assoc]
    refine ih hu fun m hm => ⟨(hrest m hm).1, ?_⟩
    have hempty := (hrest m hm).2
    rw [h.outs m (hrest m hm).1, filter_eq_nil_iff] at hempty
    rw [hu.outs m (hrest m hm).1, filter_eq_nil_iff]
    intro link hlink
    have := hempty link hlink
    simp_all

/-- A node is dead when it has no outputs, unless a branch feeds it. -/
theorem isDead_apply (h : ∀ link ∈ (t.nodeAt n).ins, isBranchLink link t = .ok false t) :
    isDead n t = .ok (t.nodeAt n).outs.isEmpty t := by
  have hany (links : List Link) (hlinks : ∀ link ∈ links, isBranchLink link t = .ok false t) :
      links.anyM isBranchLink t = .ok false t := by
    induction links with
    | nil => rfl
    | cons link links ih =>
      obtain ⟨hlink, hrest⟩ := forall_mem_cons.mp hlinks
      rw [anyM_cons, bind_of_ok hlink]
      exact ih hrest
  unfold isDead
  rw [liftM_eq_run, bind_of_ok (node_run n t)]
  cases hempty : (t.nodeAt n).outs.isEmpty with
  | false => simp
  | true =>
    simp only [Bool.not_true, Bool.false_eq_true, if_false]
    exact (bind_of_ok (hany _ h) _).trans rfl

/-- Rounds of pruning take out candidates until none of those that are left is without outputs. -/
theorem pruneRounds_peels (hs : s.Prunable g) {candidates : Graph → List NodeId}
    (hleft : ∀ {D t}, s.Peeled g D t →
      candidates (t.graphAt g) = (candidates (s.graphAt g)).filter (· ∉ D))
    (hmem : ∀ n ∈ candidates (s.graphAt g), n ∈ (s.graphAt g).nodes ∧
      ∀ m, some m ∈ (s.nodeAt n).ins → ¬ s.IsBranch m)
    (fuel : Nat) (h : s.Peeled g D t) (hfuel : (candidates (t.graphAt g)).length < fuel) :
    Ends (pruneRounds g candidates fuel) t fun _ u => ∃ E, s.Peeled g (E ++ D) u ∧
      (∀ n ∈ E, n ∈ candidates (s.graphAt g)) ∧
      ∀ n ∈ candidates (u.graphAt g), (u.nodeAt n).outs ≠ [] := by
  induction fuel generalizing t D with
  | zero => exact absurd hfuel (Nat.not_lt_zero _)
  | succ fuel ih =>
    have hsub : ∀ n ∈ candidates (t.graphAt g), n ∈ candidates (s.graphAt g) := by
      rw [hleft h]
      exact fun n hn => mem_of_mem_filter hn
    have hdead : ∀ n ∈ candidates (t.graphAt g),
        isDead n t = .ok (t.nodeAt n).outs.isEmpty t := by
      refine fun n hn => isDead_apply fun link hlink => ?_
      obtain ⟨hnode, hins⟩ := hmem n (hsub n hn)
      rw [h.ins_eq] at hlink
      obtain ⟨m, -, rfl⟩ := hs.ins n hnode link hlink
      have hkind : (t.nodeAt m).kind.isBranch = false := by
        rw [h.kind_eq]
        exact Bool.eq_false_iff.mpr (hins m hlink)
      exact congrArg (EStateM.Result.ok · t) hkind
    unfold pruneRounds
    refine .step (graph_run g t) (.step (filterM_of_pure hdead) ?_)
    cases hround : (candidates (t.graphAt g)).filter fun n => (t.nodeAt n).outs.isEmpty with
    | nil =>
      refine .of_eq rfl ⟨[], h, by simp, fun n hn hempty => ?_⟩
      exact filter_eq_nil_iff.mp hround n hn (by simp [hempty])
    | cons first rest =>
      have hmember : ∀ n ∈ first :: rest, n ∈ candidates (t.graphAt g) ∧
          (t.nodeAt n).outs = [] := by
        rw [← hround]
        intro n hn
        simpa using mem_filter.mp hn
      refine (forM_dropNode_peels hs h fun n hn => ?_).bind fun _ u hu => ?_
      · exact ⟨(hmem n (hsub n (hmember n hn).1)).1, (hmember n hn).2⟩
      · have hfewer : (candidates (u.graphAt g)).length < (candidates (t.graphAt g)).length := by
          have hfirst := (hmember first (.head _)).1
          have heq : candidates (u.graphAt g) =
              (candidates (t.graphAt g)).filter (· ∉ (first :: rest).reverse) := by
            rw [hleft hu, hleft h, filter_filter]
            exact filter_congr fun b _ => Bool.eq_iff_iff.mpr (by simp; tauto)
          rw [heq]
          exact length_filter_lt_length_iff_exists.mpr ⟨first, hfirst, by simp⟩
        refine (ih hu (by omega)).imp ?_
        rintro _ w ⟨E, hw, hE, houts⟩
        refine ⟨E ++ (first :: rest).reverse, by rwa [append_assoc], ?_, houts⟩
        rw [forall_mem_append]
        exact ⟨hE, fun n hn => hsub n (hmember n (mem_reverse.mp hn)).1⟩

end Eval

namespace Store

variable {m : NodeId} {E : List NodeId}

theorem IsDag.wellFounded_swap (hs : s.IsDag g) : WellFounded fun n m => s.Feeds g m n := by
  have : IsStrictOrder NodeId fun n m => Relation.TransGen (s.Feeds g) m n :=
    { irrefl := hs.acyclic, trans := fun _ _ _ h h' => h'.trans h }
  have hfin : {n | n ∈ (s.graphAt g).nodes}.Finite := (s.graphAt g).nodes.finite_toSet
  have hon := hfin.wellFoundedOn (r := fun n m => Relation.TransGen (s.Feeds g) m n)
  rw [Set.wellFoundedOn_iff] at hon
  exact Subrelation.wf (fun h => ⟨.single h, h.2.1, h.1⟩) hon

namespace Peeled

section

variable (h : s.Peeled g D t)

include h

theorem mem_nodes_iff : n ∈ (t.graphAt g).nodes ↔ n ∈ (s.graphAt g).nodes ∧ n ∉ D := by
  rw [h.nodes, mem_filter, decide_eq_true_iff]

theorem mem_outs_iff (hm : m ∈ (s.graphAt g).nodes) :
    some n ∈ (t.nodeAt m).outs ↔ some n ∈ (s.nodeAt m).outs ∧ n ∉ D := by
  rw [h.outs m hm, mem_filter]
  simp

theorem isMerge_iff : t.IsMerge n ↔ s.IsMerge n := by
  rw [IsMerge, IsMerge, h.kind_eq]

theorem isBranch_iff : t.IsBranch n ↔ s.IsBranch n := by
  rw [IsBranch, IsBranch, h.kind_eq]

theorem not_mem_of_ins (hs : s.Prunable g) (hn : n ∈ (t.graphAt g).nodes)
    (hm : some m ∈ (s.nodeAt n).ins) : m ∉ D := by
  obtain ⟨hn, hnot⟩ := h.mem_nodes_iff.mp hn
  have hedge := (hs.same m (hs.mem_of_ins hn hm) n hn).mp hm
  exact fun hD => hnot ((h.closed m hD).2 n hedge)

/-- What is left is a graph of the same form. -/
theorem prunable (hs : s.Prunable g) : t.Prunable g where
  stored n hn := h.size ▸ hs.stored n (h.mem_nodes_iff.mp hn).1
  ins n hn link hlink := by
    rw [h.ins_eq] at hlink
    obtain ⟨m, hm, rfl⟩ := hs.ins n (h.mem_nodes_iff.mp hn).1 link hlink
    exact ⟨m, h.mem_nodes_iff.mpr ⟨hm, h.not_mem_of_ins hs hn hlink⟩, rfl⟩
  outs m hm link hlink := by
    obtain ⟨hm, -⟩ := h.mem_nodes_iff.mp hm
    have hold : link ∈ (s.nodeAt m).outs := mem_of_mem_filter (h.outs m hm ▸ hlink)
    obtain ⟨n, hn, rfl⟩ := hs.outs m hm link hold
    exact ⟨n, h.mem_nodes_iff.mpr ⟨hn, ((h.mem_outs_iff hm).mp hlink).2⟩, rfl⟩
  same m hm n hn := by
    obtain ⟨hm, -⟩ := h.mem_nodes_iff.mp hm
    obtain ⟨hn, hnot⟩ := h.mem_nodes_iff.mp hn
    rw [h.ins_eq, h.mem_outs_iff hm, and_iff_left hnot]
    exact hs.same m hm n hn
  acyclic n hcycle := by
    refine hs.acyclic n (Relation.TransGen.mono ?_ _ _ hcycle)
    rintro a b ⟨ha, hb, hab⟩
    exact ⟨(h.mem_nodes_iff.mp ha).1, (h.mem_nodes_iff.mp hb).1, h.ins_eq b ▸ hab⟩
  counted m hm n hn := by
    obtain ⟨hm, -⟩ := h.mem_nodes_iff.mp hm
    rw [h.outs m hm, h.ins_eq]
    exact (filter_sublist.count_le _).trans (hs.counted m hm n (h.mem_nodes_iff.mp hn).1)
  nodup := h.nodes ▸ hs.nodup.filter _
  merges_nodup := h.merges ▸ hs.merges_nodup.filter _
  branches_nodup := h.branches ▸ hs.branches_nodup.filter _
  mem_merges n := by
    rw [h.merges, mem_filter, decide_eq_true_iff, hs.mem_merges, h.mem_nodes_iff, h.isMerge_iff]
    tauto
  mem_branches n := by
    rw [h.branches, mem_filter, decide_eq_true_iff, hs.mem_branches, h.mem_nodes_iff,
      h.isBranch_iff]
    tauto
  merge_ins n hn m hm := by
    rw [h.merges] at hn
    rw [h.isBranch_iff]
    exact hs.merge_ins n (mem_of_mem_filter hn) m (h.ins_eq n ▸ hm)
  branch_ins n hn m hm := by
    rw [h.branches] at hn
    rw [h.isBranch_iff, h.isMerge_iff]
    exact hs.branch_ins n (mem_of_mem_filter hn) m (h.ins_eq n ▸ hm)

/-- Merges with an output that was not taken out lead to a node of another kind. -/
theorem lives (hs : s.Prunable g) (houts : ∀ n ∈ (t.graphAt g).merges, (t.nodeAt n).outs ≠ []) :
    ∀ n ∈ (t.graphAt g).merges, s.Lives n := by
  intro n hn
  induction n using hs.wellFounded_swap.induction with
  | _ n ih =>
    have hnode : n ∈ (s.graphAt g).nodes := by
      rw [h.merges] at hn
      exact ((hs.mem_merges n).mp (mem_of_mem_filter hn)).1
    obtain ⟨link, hlink⟩ := exists_mem_of_ne_nil _ (houts n hn)
    have hold : link ∈ (s.nodeAt n).outs := mem_of_mem_filter (h.outs n hnode ▸ hlink)
    obtain ⟨m, hm, rfl⟩ := hs.outs n hnode link hold
    by_cases hmerge : s.IsMerge m
    · have hleft : m ∈ (t.graphAt g).merges := by
        rw [h.merges, mem_filter, hs.mem_merges]
        exact ⟨⟨hm, hmerge⟩, decide_eq_true ((h.mem_outs_iff hnode).mp hlink).2⟩
      obtain ⟨k, hpath, hk⟩ := ih m ⟨hnode, hm, (hs.same n hnode m hm).mpr hold⟩ hleft
      exact ⟨k, .head hold hpath, hk⟩
    · exact ⟨m, .single hold, hmerge⟩

end

variable (h : s.Peeled g (E ++ D) t) (hs : s.Prunable g)
  (hD : ∀ n ∈ D, n ∈ (s.graphAt g).merges) (hE : ∀ n ∈ E, n ∈ (s.graphAt g).branches)
include h hs hD hE

/-- Merges that were taken out led to merges only. -/
theorem not_lives (hn : n ∈ D) : ¬ s.Lives n := by
  rintro ⟨m, hpath, hm⟩
  refine hm ((hs.mem_merges m).mp (hD m ?_)).2
  clear hm
  induction hpath with
  | refl => exact hn
  | @tail a b _ hab ih =>
    obtain ⟨ha, hmerge⟩ := (hs.mem_merges a).mp (hD a ih)
    have hb := (h.closed a (mem_append_right _ ih)).2 b hab
    refine (mem_append.mp hb).resolve_left fun hb => ?_
    have hedge := (hs.same a ha b (hs.mem_of_outs ha hab)).mpr hab
    exact (hs.branch_ins b (hE b hb) a hedge).2 hmerge

theorem outs_eq_nil (hn : n ∈ E) : (s.nodeAt n).outs = [] := by
  obtain ⟨hnode, hbranch⟩ := (hs.mem_branches n).mp (hE n hn)
  refine eq_nil_iff_forall_not_mem.mpr fun link hlink => ?_
  obtain ⟨m, hm, rfl⟩ := hs.outs n hnode link hlink
  have hedge := (hs.same n hnode m hm).mpr hlink
  obtain hm | hm := mem_append.mp ((h.closed n (mem_append_left _ hn)).2 m hlink)
  · exact (hs.branch_ins m (hE m hm) n hedge).1 hbranch
  · exact hs.merge_ins m (hD m hm) n hedge hbranch

end Peeled

open Classical in
/-- Exactly the dead merges and branches have been taken out of a graph. -/
structure PrunesDead (s : Store) (g : GraphId) (t : Store) : Prop where
  merges : (t.graphAt g).merges = (s.graphAt g).merges.filter (s.Lives ·)
  branches : (t.graphAt g).branches = (s.graphAt g).branches.filter fun n =>
    (s.nodeAt n).outs ≠ []
  /-- Nodes of all other kinds are left, and all nodes are in order. -/
  nodes : (t.graphAt g).nodes = (s.graphAt g).nodes.filter fun n =>
    (s.IsMerge n → s.Lives n) ∧ (s.IsBranch n → (s.nodeAt n).outs ≠ [])
  node : ∀ n, { t.nodeAt n with outs := [] } = { s.nodeAt n with outs := [] }
  /-- The edges between nodes that are left are the old ones. -/
  outs : ∀ n ∈ (t.graphAt g).nodes,
    (t.nodeAt n).outs = (s.nodeAt n).outs.filter (· ∈ (t.graphAt g).nodes.map some)
  prunable : t.Prunable g

theorem IsMerge.not_isBranch (h : s.IsMerge n) : ¬ s.IsBranch n := by
  obtain ⟨var, hkind⟩ := h
  rw [IsBranch, hkind]
  exact Bool.false_ne_true

end Store

namespace Eval

open Store

/-- Pruning comes to an end and takes out exactly the merges that lead to merges only and the
branches without outputs. -/
theorem prune_removes_dead (hs : s.Prunable g) : Ends (prune g) s fun _ t => s.PrunesDead g t := by
  have hmerge {n : NodeId} (hn : n ∈ (s.graphAt g).merges) := (hs.mem_merges n).mp hn
  have hbranch {n : NodeId} (hn : n ∈ (s.graphAt g).branches) := (hs.mem_branches n).mp hn
  refine .bind (.step (graph_run g s) (pruneRounds_peels hs (fun h => h.merges)
    (fun n hn => ⟨(hmerge hn).1, hs.merge_ins n hn⟩) _ (.refl s g) (Nat.lt_succ_self _))) ?_
  rintro _ u ⟨D, hu, hD, hlive⟩
  rw [List.append_nil] at hu
  refine .step (graph_run g u) ((pruneRounds_peels hs (fun h => h.branches)
    (fun n hn => ⟨(hbranch hn).1, fun m hm => (hs.branch_ins n hn m hm).1⟩) _ hu
    (Nat.lt_succ_self _)).imp ?_)
  rintro _ t ⟨E, ht, hE, hfed⟩
  -- a merge is no branch, so each kind of node is taken out in its own rounds
  have hmerges {n : NodeId} (hn : n ∈ (s.graphAt g).merges) : n ∉ E ++ D ↔ s.Lives n := by
    have hnE : n ∉ E := fun h => (hmerge hn).2.not_isBranch (hbranch (hE n h)).2
    refine ⟨fun hnot => hu.lives hs hlive n ?_, fun hlives hmem => ?_⟩
    · rw [hu.merges, List.mem_filter]
      exact ⟨hn, decide_eq_true fun h => hnot (List.mem_append_right _ h)⟩
    · exact ht.not_lives hs hD hE ((List.mem_append.mp hmem).resolve_left hnE) hlives
  have hbranches {n : NodeId} (hn : n ∈ (s.graphAt g).branches) :
      n ∉ E ++ D ↔ (s.nodeAt n).outs ≠ [] := by
    have hnD : n ∉ D := fun h => (hmerge (hD n h)).2.not_isBranch (hbranch hn).2
    refine ⟨fun hnot hempty => ?_, fun houts hmem => ?_⟩
    · refine hfed n ?_ ?_
      · rw [ht.branches, List.mem_filter]
        exact ⟨hn, decide_eq_true hnot⟩
      · rw [ht.outs n (hbranch hn).1, hempty, List.filter_nil]
    · exact houts (ht.outs_eq_nil hs hD hE ((List.mem_append.mp hmem).resolve_right hnD))
  refine ⟨?_, ?_, ?_, ht.node, fun n hn => ?_, ht.prunable hs⟩
  · rw [ht.merges]
    exact List.filter_congr fun n hn => decide_eq_decide.mpr (hmerges hn)
  · rw [ht.branches]
    exact List.filter_congr fun n hn => decide_eq_decide.mpr (hbranches hn)
  · rw [ht.nodes]
    refine List.filter_congr fun n hn => decide_eq_decide.mpr ⟨fun hnot => ?_, fun h hmem => ?_⟩
    · exact ⟨fun hm => (hmerges ((hs.mem_merges n).mpr ⟨hn, hm⟩)).mp hnot,
        fun hb => (hbranches ((hs.mem_branches n).mpr ⟨hn, hb⟩)).mp hnot⟩
    · obtain hmemE | hmemD := List.mem_append.mp hmem
      · exact (hbranches (hE n hmemE)).mpr (h.2 (hbranch (hE n hmemE)).2) hmem
      · exact (hmerges (hD n hmemD)).mpr (h.1 (hmerge (hD n hmemD)).2) hmem
  · have hnode := (ht.mem_nodes_iff.mp hn).1
    rw [ht.outs n hnode]
    refine List.filter_congr fun link hlink => decide_eq_decide.mpr ?_
    obtain ⟨m, hm, rfl⟩ := hs.outs n hnode link hlink
    simp [ht.mem_nodes_iff, hm]

/-- A merge that feeds a merge without outputs, a merge that feeds a symbol, and a branch without
outputs. -/
def withered : Store where
  nodes := #[
    { kind := .symbol { symbol := "x", order := 0 }, name := "x", outs := [some ⟨1⟩, some ⟨3⟩]
      types := ⟨0⟩, rejected := ⟨0⟩ },
    { kind := .merge "x", name := "merge", ins := [some ⟨0⟩], outs := [some ⟨2⟩]
      types := ⟨0⟩, rejected := ⟨0⟩ },
    { kind := .merge "x", name := "merge", ins := [some ⟨1⟩], types := ⟨0⟩, rejected := ⟨0⟩ },
    { kind := .merge "x", name := "merge", ins := [some ⟨0⟩], outs := [some ⟨4⟩]
      types := ⟨0⟩, rejected := ⟨0⟩ },
    { kind := .symbol { symbol := "x", order := 1 }, name := "x", ins := [some ⟨3⟩]
      outs := [some ⟨5⟩], types := ⟨0⟩, rejected := ⟨0⟩ },
    { kind := .branch (some "x") ⟨0⟩, name := "branch", ins := [some ⟨4⟩]
      types := ⟨0⟩, rejected := ⟨0⟩ }]
  graphs := #[
    { name := "f", fileName := "f", role := .module, userNames := []
      nodes := [⟨0⟩, ⟨1⟩, ⟨2⟩, ⟨3⟩, ⟨4⟩, ⟨5⟩], merges := [⟨1⟩, ⟨2⟩, ⟨3⟩], branches := [⟨5⟩] }]

theorem withered_prunable : withered.Prunable ⟨0⟩ := by
  have hmerges : (∀ n ∈ (withered.graphAt ⟨0⟩).merges,
        n ∈ (withered.graphAt ⟨0⟩).nodes ∧ withered.IsMerge n) ∧
      ∀ n ∈ (withered.graphAt ⟨0⟩).nodes, withered.IsMerge n →
        n ∈ (withered.graphAt ⟨0⟩).merges := by decide
  have hbranches : (∀ n ∈ (withered.graphAt ⟨0⟩).branches,
        n ∈ (withered.graphAt ⟨0⟩).nodes ∧ withered.IsBranch n) ∧
      ∀ n ∈ (withered.graphAt ⟨0⟩).nodes, withered.IsBranch n →
        n ∈ (withered.graphAt ⟨0⟩).branches := by decide
  have hmerge_ins : ∀ n ∈ (withered.graphAt ⟨0⟩).merges, ∀ link ∈ (withered.nodeAt n).ins,
      ∀ m ∈ link, ¬withered.IsBranch m := by decide
  have hbranch_ins : ∀ n ∈ (withered.graphAt ⟨0⟩).branches, ∀ link ∈ (withered.nodeAt n).ins,
      ∀ m ∈ link, ¬withered.IsBranch m ∧ ¬withered.IsMerge m := by decide
  exact {
    toIsDag := .of_index_lt (by decide) (by decide) (by decide) (by decide)
    counted := by decide
    nodup := by decide
    merges_nodup := by decide
    branches_nodup := by decide
    mem_merges n := ⟨hmerges.1 n, fun h => hmerges.2 n h.1 h.2⟩
    mem_branches n := ⟨hbranches.1 n, fun h => hbranches.2 n h.1 h.2⟩
    merge_ins n hn m hm := hmerge_ins n hn _ hm m rfl
    branch_ins n hn m hm := hbranch_ins n hn _ hm m rfl }

/-- The two merges that lead nowhere and the branch are taken out. -/
theorem prune_withered : withered.Prunable ⟨0⟩ ∧
    Ends (prune ⟨0⟩) withered fun _ t => withered.PrunesDead ⟨0⟩ t :=
  ⟨withered_prunable, prune_removes_dead withered_prunable⟩

end Eval
end TypeFlow
