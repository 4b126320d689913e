import TypeFlow.Proofs.Carried

/-!
# Pruning

Pruning a graph takes merges and branches out of it. It changes neither the kinds of nodes nor
their inputs, so what is carried to a node stays the same.
-/

namespace TypeFlow

open Eval

variable {α : Type} {g : GraphId} {J : NodeId → Prop} {e : Prop} {n : NodeId}

/-- Merges and branches of a graph. -/
def Graph.joints (G : Graph) : List NodeId := G.merges ++ G.branches

/-- A graph from which a node was taken out. -/
def Graph.without (G : Graph) (n : NodeId) : Graph :=
  { G with
    merges := G.merges.erase n
    branches := G.branches.erase n
    nodes := G.nodes.erase n }

namespace Web

variable {W W' W'' : Web}

/-- Nodes that satisfy `J` may have been taken out of a graph, and edges to them may have been
dropped from the outputs of others. -/
structure Pruned (W : Web) (g : GraphId) (J : NodeId → Prop) (W' : Web) : Prop where
  kind_eq : ∀ n, (W'.node n).kind = (W.node n).kind
  ins_eq : ∀ n, (W'.node n).ins = (W.node n).ins
  same : W.SameBut g W'
  functions : (W'.graph g).functions = (W.graph g).functions
  joints : ∀ n ∈ (W'.graph g).joints, n ∈ (W.graph g).joints
  kept : ∀ p : NodeId → Bool, (∀ n, J n → p n = false) →
    (W'.graph g).nodes.filter p = (W.graph g).nodes.filter p

namespace Pruned

theorem refl (W : Web) (g : GraphId) (J : NodeId → Prop) : W.Pruned g J W :=
  ⟨fun _ => rfl, fun _ => rfl, .of_eq rfl rfl, rfl, fun _ h => h, fun _ _ => rfl⟩

theorem trans (h : W.Pruned g J W') (h' : W'.Pruned g J W'') : W.Pruned g J W'' where
  kind_eq n := (h'.kind_eq n).trans (h.kind_eq n)
  ins_eq n := (h'.ins_eq n).trans (h.ins_eq n)
  same := h.same.trans h'.same
  functions := h'.functions.trans h.functions
  joints n hn := h.joints n (h'.joints n hn)
  kept p hp := (h'.kept p hp).trans (h.kept p hp)

/-- An edge may be dropped. -/
theorem alter (n : NodeId) (f : List Link → List Link) :
    W.Pruned g J (W.alter n fun v => { v with outs := f v.outs }) where
  kind_eq m := by
    simp only [Web.alter]
    split
    · rename_i h
      rw [h.1]
    · rfl
  ins_eq m := by
    simp only [Web.alter]
    split
    · rename_i h
      rw [h.1]
    · rfl
  same := .of_eq rfl rfl
  functions := rfl
  joints _ hn := hn
  kept _ _ := rfl

theorem filter_erase [BEq α] [LawfulBEq α] {p : α → Bool} {n : α} (hn : p n = false)
    (l : List α) : (l.erase n).filter p = l.filter p := by
  induction l with
  | nil => rfl
  | cons a l ih =>
    by_cases ha : a = n
    · subst ha
      simp [hn]
    · rw [List.erase_cons_tail (by simpa using ha), List.filter_cons, List.filter_cons, ih]

/-- A merge or branch may be taken out of its graph. -/
theorem without (hn : J n) : W.Pruned g J (W.alterGraph g (·.without n)) := by
  by_cases hg : g.index < W.graphs
  · have hgraph : (W.alterGraph g (·.without n)).graph g = (W.graph g).without n := by
      simp [alterGraph, hg]
    refine ⟨fun _ => rfl, fun _ => rfl, ⟨rfl, fun h hne => by simp [alterGraph, hne]⟩, ?_, ?_, ?_⟩
    · rw [hgraph]
      rfl
    · intro m hm
      rw [hgraph, Graph.joints, List.mem_append] at hm
      exact List.mem_append.mpr (hm.imp List.mem_of_mem_erase List.mem_of_mem_erase)
    · intro p hp
      rw [hgraph]
      exact filter_erase (hp n hn) _
  · have hsame : W.alterGraph g (·.without n) = W := by simp [alterGraph, hg]
    rw [hsame]
    exact refl W g J

end Pruned
end Web

namespace Eval

variable {s : Store}

/-- Looking for dead nodes changes nothing. -/
theorem meets_isDead (n : NodeId) : (isDead n).Meets e s fun _ t => t = s := by
  have hany (links : List Link) : (links.anyM isBranchLink).Meets e s fun _ t => t = s := by
    induction links with
    | nil => rfl
    | cons link links ih =>
      rw [List.anyM_cons, meets_bind]
      have hlink : (isBranchLink link).Meets e s fun _ t => t = s := by
        cases link with
        | none => rfl
        | some m =>
          unfold isBranchLink
          simp only [liftM_eq_run, meets_bind, meets_of_eq (node_run _ _)]
          rfl
      refine hlink.imp ?_
      rintro b _ rfl
      cases b with
      | true => rfl
      | false => exact ih
  unfold isDead
  simp only [liftM_eq_run, meets_bind, meets_of_eq (node_run _ _), meets_ite]
  split
  · rfl
  · exact (hany _).imp fun _ _ h => h

theorem meets_filterM {p : α → Eval Bool}
    (hp : ∀ a, (p a).Meets e s fun _ t => t = s) (l : List α) :
    (l.filterM p).Meets e s fun r t => t = s ∧ ∀ a ∈ r, a ∈ l := by
  have haux (l found : List α) : (l.filterAuxM p found).Meets e s fun r t =>
      t = s ∧ ∀ a ∈ r, a ∈ l ∨ a ∈ found := by
    induction l generalizing found with
    | nil => exact ⟨rfl, fun _ h => .inr h⟩
    | cons a l ih =>
      unfold List.filterAuxM
      rw [meets_bind]
      refine (hp a).imp ?_
      rintro b _ rfl
      refine (ih _).imp ?_
      rintro r _ ⟨rfl, hr⟩
      refine ⟨rfl, fun x hx => ?_⟩
      cases b with
      | true =>
        rcases hr x hx with h | h
        · exact .inl (.tail _ h)
        · rcases List.mem_cons.mp h with rfl | h
          · exact .inl (.head _)
          · exact .inr h
      | false => exact (hr x hx).imp (.tail _) id
  unfold List.filterM
  rw [meets_bind]
  refine (haux l []).imp ?_
  rintro r _ ⟨rfl, hr⟩
  exact ⟨rfl, fun a ha => (hr a (List.mem_reverse.mp ha)).resolve_right (by simp)⟩

/-- A condition stays as outputs are dropped and nodes that satisfy `J` are taken out of a
graph. -/
structure Withstands (e : Prop) (g : GraphId) (J : NodeId → Prop) (I : Store → Prop) : Prop where
  dropped : ∀ {s}, I s → ∀ n m : NodeId, I { s with nodes := s.nodes.modify m.index fun node =>
    { node with outs := node.outs.erase (some n) } }
  without : ∀ {s}, I s → ∀ n, J n → I { s with graphs := s.graphs.modify g.index (·.without n) }
  joints : ∀ {s}, I s → ∀ n ∈ (s.graphAt g).joints, J n
  ins : ∀ {s}, I s → ∀ n, J n → none ∈ (s.nodeAt n).ins → e

namespace Withstands

variable {I : Store → Prop} (h : Withstands e g J I) (hs : I s)

include h hs

theorem dropNode (hn : J n) : (dropNode g n).Meets e s fun _ t => I t := by
  have hdrop (links : List Link) (hlinks : none ∈ links → e) {s : Store} (hs : I s) :
      (links.forM (dropOutput n)).Meets e s fun _ t => I t := by
    induction links generalizing s with
    | nil => exact hs
    | cons link links ih =>
      refine meets_bind.mpr ?_
      cases link with
      | none => exact hlinks (.head _)
      | some m =>
        refine (meets_of_eq (modifyNode_apply ..)).mpr ?_
        exact ih (fun hnone => hlinks (.tail _ hnone)) (h.dropped hs n m)
  unfold Eval.dropNode
  simp only [liftM_eq_run, meets_bind, meets_of_eq (node_run _ _)]
  refine (hdrop _ (h.ins hs n hn) hs).imp fun _ t ht => ?_
  exact (meets_of_eq (modifyGraph_apply ..)).mpr (h.without ht n hn)

theorem dropNodes {dead : List NodeId} (hdead : ∀ n ∈ dead, J n) :
    (dead.forM (Eval.dropNode g)).Meets e s fun _ t => I t := by
  induction dead generalizing s with
  | nil => exact hs
  | cons n dead ih =>
    refine meets_bind.mpr ((h.dropNode hs (hdead n (.head _))).imp fun _ t ht => ?_)
    exact ih ht fun m hm => hdead m (.tail _ hm)

/-- Every round takes merges and branches out, or it stops. -/
theorem pruneRounds {candidates : Graph → List NodeId}
    (hcandidates : ∀ G, ∀ n ∈ candidates G, n ∈ G.joints) (fuel : Nat) :
    (pruneRounds g candidates fuel).Meets e s fun _ t => I t := by
  induction fuel generalizing s with
  | zero => exact hs
  | succ fuel ih =>
    unfold Eval.pruneRounds
    simp only [liftM_eq_run, meets_bind, meets_of_eq (graph_run _ _)]
    refine (meets_filterM meets_isDead _).imp ?_
    rintro dead _ ⟨rfl, hdead⟩
    cases dead with
    | nil => exact hs
    | cons n dead =>
      simp only [meets_bind]
      refine (h.dropNodes hs fun m hm => ?_).imp fun _ t ht => ih ht
      exact h.joints hs m (hcandidates _ m (hdead m hm))

theorem prune : (prune g).Meets e s fun _ t => I t := by
  unfold Eval.prune pruneKind
  simp only [liftM_eq_run, meets_bind, meets_of_eq (graph_run _ _)]
  exact (h.pruneRounds hs (fun _ _ => List.mem_append_left _) _).imp fun _ t ht =>
    h.pruneRounds ht (fun _ _ => List.mem_append_right _) _

end Withstands

/-- Pruning takes merges and branches out of a graph. -/
theorem meets_prune (hins : ∀ n ∈ (s.web.graph g).joints, none ∉ (s.web.node n).ins) :
    (prune g).Meets False s fun _ t => s.web.Pruned g (· ∈ (s.web.graph g).joints) t.web := by
  refine Withstands.prune ⟨fun ht n m => ht.trans ?_, fun ht n hn => ht.trans ?_,
    fun ht => ht.joints, fun ht n hn hnone => hins n hn ?_⟩ (.refl ..)
  · rw [Store.web_modify _ m _ (fun v => { v with outs := v.outs.erase (some n) }) fun _ => rfl]
    exact .alter m (·.erase (some n))
  · rw [Store.web_modifyGraph _ g _ (·.without n) fun _ => rfl]
    exact .without hn
  · rw [← ht.ins_eq]
    exact hnone

end Eval
end TypeFlow
