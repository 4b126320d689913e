import TypeFlow.Proofs.Assignment
import TypeFlow.Proofs.SweepRun

/-!
# The flow of simple types through assignments

Passing simple types through a graph of assignments gives every node one type of each class that
some known type has from which the node is reached, and passing them again changes nothing.

Inputs are visited first, so the first sweep makes all nodes up to date, and a sweep over nodes
that are up to date changes nothing. In a graph whose nodes are up to date the classes of a node
are those of the known types that reach it, by induction along the edges.
-/

namespace TypeFlow

open List

variable {s₀ s : Store} {g : GraphId} {n : NodeId} {c : Option Nat}

theorem Node.IsAssignment.reportable {n : Node} (h : n.IsAssignment) : n.Reportable := by
  intro info hkind hname
  simp only [Node.IsAssignment, hkind] at h
  exact absurd (hname.symm.trans (h.2.1.trans h.1)) (by decide)

namespace Store

variable {t : Store}

namespace Relabels

variable (h : s.Relabels t)

include h

theorem node_eq (n : NodeId) :
    t.nodeAt n = { s.nodeAt n with label := (t.nodeAt n).label } := by
  have := h.nodeAt_eq n
  cases hs : s.nodeAt n
  cases ht : t.nodeAt n
  simp_all [Node.unlabeled]

theorem old : s.Extends t := .of_eq h.types_eq h.rows_eq

theorem typesOf_eq (n : NodeId) : t.typesOf n = s.typesOf n := by
  rw [typesOf, h.node_eq, rowAt, h.rows_eq, ← rowAt, typesOf]

theorem outflow_eq (n : NodeId) : t.outflow n = s.outflow n := by
  have hclass : t.classOf = s.classOf := by
    funext e
    cases e <;> simp [classOf, typeAt, h.types_eq]
  have hjoined : t.joined = s.joined := by
    funext l
    exact joined_congr fun e _ => congrFun hclass e
  have hlink : t.linkTypesOf = s.linkTypesOf := by
    funext link
    cases link with
    | none => rfl
    | some m => exact h.typesOf_eq m
  rw [outflow, outflow, inflow, inflow, hjoined, hlink, h.node_eq]

theorem isAssignments (hs : s.IsAssignments g) : t.IsAssignments g := by
  have hgraph := h.alike.graphAt_eq g
  refine ⟨hs.dag.of_alike (h.alike.comp Node.edges), ?_, ?_, ?_, ?_, ?_, ?_⟩ <;> intro n hn <;>
    rw [hgraph] at hn
  · rw [h.node_eq]
    exact hs.nodes n hn
  · rw [h.typesOf_eq, h.node_eq]
    exact hs.known n hn
  · rw [h.node_eq, h.rows_eq]
    exact hs.types_stored n hn
  · rw [h.typesOf_eq]
    exact (hs.types_simple n hn).extend h.old
  · rw [h.node_eq, h.rows_eq]
    exact hs.rejected_stored n hn
  · rw [h.node_eq, rowAt, h.rows_eq, ← rowAt]
    exact hs.rejected_empty n hn

end Relabels

/-- A graph of assignments and what a sweep over it has made of it. -/
structure Flowing (s₀ : Store) (g : GraphId) (s : Store) : Prop where
  old : s₀.Extends s
  edges : s₀.Alike Node.edges s
  known : ∀ n c, (s.nodeAt n).kind = .known c ↔ (s₀.nodeAt n).kind = .known c
  assignments : s.IsAssignments g

namespace Flowing

theorem refl (h : s.IsAssignments g) : s.Flowing g s := ⟨.refl s, refl_of _ s, fun _ _ => .rfl, h⟩

theorem trans {u : Store} (h₁ : s₀.Flowing g s) (h₂ : s.Flowing g u) : s₀.Flowing g u :=
  ⟨h₁.old.trans h₂.old, trans_of _ h₁.edges h₂.edges,
    fun n c => (h₂.known n c).trans (h₁.known n c), h₂.assignments⟩

theorem relabel (h : s₀.Flowing g s) (hrel : s.Relabels t) : s₀.Flowing g t where
  old := h.old.trans hrel.old
  edges := trans_of _ h.edges (hrel.alike.comp Node.edges)
  known n c := by
    rw [hrel.node_eq]
    exact h.known n c
  assignments := hrel.isAssignments h.assignments

theorem visited (h : s₀.Flowing g s) (hn : n ∈ (s.graphAt g).nodes) (hv : s.Visited n t) :
    s₀.Flowing g t where
  old := h.old.trans hv.old
  edges := trans_of _ h.edges hv.marks.edges_of_marks
  known m c := by
    by_cases hmn : m = n
    · subst hmn
      exact (hv.known c).trans (h.known m c)
    · rw [hv.others m hmn]
      exact h.known m c
  assignments := h.assignments.visited hv hn

end Flowing

/-- The first sweep: nodes that have been visited are up to date, and symbols that have not been
visited are without types. -/
structure Filling (s₀ : Store) (g : GraphId) (done : List NodeId) (s : Store) : Prop extends
    s₀.Flowing g s where
  updated : ∀ n ∈ done, n ∈ (s.graphAt g).nodes → s.typesOf n = s.outflow n
  empty : ∀ n ∈ (s.graphAt g).nodes, n ∉ done → ∀ info, (s.nodeAt n).kind = .symbol info →
    s.typesOf n = []

/-- Later sweeps: all nodes are up to date, with the types that they had. -/
structure Steady (s₀ : Store) (g : GraphId) (s : Store) : Prop extends s₀.Flowing g s where
  updated : ∀ n ∈ (s.graphAt g).nodes, s.typesOf n = s.outflow n
  same : ∀ n ∈ (s.graphAt g).nodes, s.typesOf n = s₀.typesOf n

end Store

namespace Eval

open Store

/-- The first sweep carries what it fills. -/
theorem carried_filling (s₀ : Store) (g : GraphId) :
    Carried s₀ .pass g fun done _ s => s₀.Filling g done s where
  relabel h hrel := {
    h.relabel hrel with
    updated := fun n hd hn => by
      rw [hrel.typesOf_eq, hrel.outflow_eq]
      exact h.updated n hd (hrel.alike.graphAt_eq g ▸ hn)
    empty := fun n hn hd info hkind => by
      rw [hrel.typesOf_eq]
      refine h.empty n (hrel.alike.graphAt_eq g ▸ hn) hd info ?_
      rwa [hrel.node_eq] at hkind }
  reportable h n hn :=
    (h.assignments.nodes n (h.edges.graphAt_eq g ▸ hn)).reportable
  visit := by
    intro done v s n h hn hdone hins hclosed
    have hn' : n ∈ (s.graphAt g).nodes := h.edges.graphAt_eq g ▸ hn
    obtain ⟨v', t, hrun, hv, -⟩ := visit_ends h.assignments hn'
      (fun info hkind => .inl (h.empty n hn' hdone info hkind)) v.conflicts
    have hgraph := hv.marks.graphAt_eq g
    have hother (m : NodeId) (hm : m ∈ (s.graphAt g).nodes) (hne : m ≠ n) :
        t.typesOf m = s.typesOf m := h.assignments.typesOf_eq hv.toVisiting hm hne
    have hout (m : NodeId) (hm : m ∈ (s.graphAt g).nodes)
        (hins : ∀ k, some k ∈ (s₀.nodeAt m).ins → k ∈ done) : t.outflow m = s.outflow m := by
      refine h.assignments.outflow_eq hv.toVisiting hm fun k hk => ?_
      exact hother k (h.assignments.dag.mem_of_ins hm hk) fun heq =>
        hdone (heq ▸ hins k (h.edges.ins_eq m ▸ hk))
    refine .step hrun (.of_eq rfl { h.visited hn' hv with updated := ?_, empty := ?_ })
    · intro m hd hm
      rw [hgraph] at hm
      rcases mem_append.mp hd with hd | hd
      · rw [hother m hm fun heq => hdone (heq ▸ hd), hout m hm (hclosed m hd), h.updated m hd hm]
      · obtain rfl := mem_singleton.mp hd
        rw [hv.types, hout m hm hins]
    · intro m hm hd info hkind
      rw [hgraph] at hm
      obtain ⟨hd, hne⟩ := not_or.mp (mt mem_append.mpr hd)
      have hne : m ≠ n := fun heq => hne (mem_singleton.mpr heq)
      rw [hother m hm hne]
      exact h.empty m hm hd info (hv.others m hne ▸ hkind)

/-- Later sweeps carry that nothing changes. -/
theorem carried_steady (s₀ : Store) (g : GraphId) :
    Carried s₀ .pass g fun _ v s => s₀.Steady g s ∧ v.changed = false where
  relabel h hrel := ⟨{
    h.1.relabel hrel with
    updated := fun n hn => by
      rw [hrel.typesOf_eq, hrel.outflow_eq]
      exact h.1.updated n (hrel.alike.graphAt_eq g ▸ hn)
    same := fun n hn => by
      rw [hrel.typesOf_eq]
      exact h.1.same n (hrel.alike.graphAt_eq g ▸ hn) }, h.2⟩
  reportable h n hn :=
    (h.1.assignments.nodes n (h.1.edges.graphAt_eq g ▸ hn)).reportable
  visit := by
    rintro done v s n ⟨h, hchanged⟩ hn - - -
    have hn' : n ∈ (s.graphAt g).nodes := h.edges.graphAt_eq g ▸ hn
    have hupdated := h.updated n hn'
    obtain ⟨v', t, hrun, hv, hv'⟩ := visit_ends h.assignments hn'
      (fun _ _ => .inr hupdated) v.conflicts
    have hgraph := hv.marks.graphAt_eq g
    have hsame (m : NodeId) (hm : m ∈ (s.graphAt g).nodes) : t.typesOf m = s.typesOf m := by
      by_cases hmn : m = n
      · subst hmn
        rw [hv.types, hupdated]
      · exact h.assignments.typesOf_eq hv.toVisiting hm hmn
    refine .step hrun (.of_eq rfl
      ⟨{ h.visited hn' hv with updated := fun m hm => ?_, same := fun m hm => ?_ }, ?_⟩)
    · rw [hgraph] at hm
      rw [hsame m hm, h.updated m hm]
      exact (h.assignments.outflow_eq hv.toVisiting hm fun k hk =>
        hsame k (h.assignments.dag.mem_of_ins hm hk)).symm
    · rw [hgraph] at hm
      rw [hsame m hm, h.same m hm]
    · simp [hchanged, hv' hupdated]

end Eval

/-! ### Classes of known types -/

namespace Store

/-- A known type of the given class from which a node is reached. -/
def Receives (s : Store) (g : GraphId) (n : NodeId) (c : Option Nat) : Prop :=
  ∃ k ∈ (s.graphAt g).nodes, ∃ d, (s.nodeAt k).kind = .known d ∧
    Relation.ReflTransGen (s.Feeds g) k n ∧ s.classOf (.type d) = c

theorem mem_classes_inflow : c ∈ (s.inflow n).map s.classOf ↔
      ∃ m, some m ∈ (s.nodeAt n).ins ∧ c ∈ (s.typesOf m).map s.classOf := by
  simp only [inflow, map_flatMap, mem_flatMap]
  constructor
  · rintro ⟨link, hlink, hc⟩
    cases link with
    | none => simp [linkTypesOf] at hc
    | some m => exact ⟨m, hlink, hc⟩
  · rintro ⟨m, hm, hc⟩
    exact ⟨some m, hm, hc⟩

/-- Nodes that are not known types receive what their inputs receive. -/
theorem IsDag.receives_iff (h : s.IsDag g) (hn : n ∈ (s.graphAt g).nodes)
    (hkind : ∀ d, (s.nodeAt n).kind ≠ .known d) :
    s.Receives g n c ↔ ∃ m, some m ∈ (s.nodeAt n).ins ∧ s.Receives g m c := by
  constructor
  · rintro ⟨k, hk, d, hd, hpath, hc⟩
    rcases hpath.cases_tail with rfl | ⟨m, hpath, hfeeds⟩
    · exact absurd hd (hkind d)
    · exact ⟨m, hfeeds.2.2, k, hk, d, hd, hpath, hc⟩
  · rintro ⟨m, hm, k, hk, d, hd, hpath, hc⟩
    exact ⟨k, hk, d, hd, hpath.tail (h.feeds_of_ins hn hm), hc⟩

/-- In a graph that is up to date a node has one type of each class that it receives. -/
theorem IsAssignments.classes_iff (h : s.IsAssignments g)
    (hupdated : ∀ n ∈ (s.graphAt g).nodes, s.typesOf n = s.outflow n)
    (hn : n ∈ (s.graphAt g).nodes) :
    ((s.typesOf n).map s.classOf).Nodup ∧
      ∀ c, c ∈ (s.typesOf n).map s.classOf ↔ s.Receives g n c := by
  induction n using h.dag.wellFounded.induction with
  | _ n ih =>
    have hins (m : NodeId) (hm : some m ∈ (s.nodeAt n).ins) :=
      ih m (h.dag.feeds_of_ins hn hm) (h.dag.mem_of_ins hn hm)
    have hassign := h.nodes n hn
    have hreceive (hkind : ∀ d, (s.nodeAt n).kind ≠ .known d) (c : Option Nat) :
        c ∈ (s.inflow n).map s.classOf ↔ s.Receives g n c := by
      rw [h.dag.receives_iff hn hkind, mem_classes_inflow]
      exact exists_congr fun m => and_congr_right fun hm => (hins m hm).2 c
    have hsingle (hlen : (s.nodeAt n).ins.length ≤ 1) : ((s.inflow n).map s.classOf).Nodup := by
      rcases hlinks : (s.nodeAt n).ins with _ | ⟨link, _ | _⟩
      · simp [inflow, hlinks]
      · obtain ⟨m, hm, rfl⟩ := h.dag.ins n hn link (by rw [hlinks]; exact .head _)
        simpa [inflow, hlinks, linkTypesOf] using (hins m (by rw [hlinks]; exact .head _)).1
      · simp [hlinks] at hlen
    rw [hupdated n hn]
    cases hkind : (s.nodeAt n).kind with
    | known d =>
      have hlinks : (s.nodeAt n).ins = [] := by simpa [Node.IsAssignment, hkind] using hassign
      simp only [outflow, hkind, map_cons, map_nil, nodup_singleton, true_and, mem_singleton]
      intro c
      constructor
      · rintro rfl
        exact ⟨n, hn, d, hkind, .refl, rfl⟩
      · rintro ⟨k, -, d', hd', hpath, rfl⟩
        rcases hpath.cases_tail with rfl | ⟨m, -, hfeeds⟩
        · rw [NodeKind.known.inj (hkind.symm.trans hd')]
        · simp [Feeds, hlinks] at hfeeds
    | symbol info =>
      simp only [Node.IsAssignment, hkind] at hassign
      simp only [outflow, hkind]
      exact ⟨hsingle hassign.2.2.2, hreceive (by simp [hkind])⟩
    | operation info =>
      simp only [Node.IsAssignment, hkind] at hassign
      obtain ⟨-, -, m, hlinks⟩ := hassign
      simp only [outflow, hkind]
      exact ⟨hsingle (by simp [hlinks]), hreceive (by simp [hkind])⟩
    | merge x =>
      obtain ⟨hnodup, hmem⟩ := s.classes_joined (s.inflow n)
      simp only [outflow, hkind]
      exact ⟨hnodup, fun c => (hmem c).trans (hreceive (by simp [hkind]) c)⟩
    | branch var outTypes => simp [Node.IsAssignment, hkind] at hassign
    | base => simp [Node.IsAssignment, hkind] at hassign

end Store

namespace Eval

open Store

/-- Where nothing is rejected a backward pass does nothing. -/
theorem backward_run (h : s.IsAssignments g) : backward g s = .ok () s := by
  have hnone : (rejecting g).run s = .ok [] s := by
    refine (bind_of_ok (graph_run g s) _).trans (Typing.filterM_run_of_false fun n hn => ?_)
    rw [isRejecting, Typing.run_bind, bind_of_ok (node_run n s), (h.nodes n hn).not_branch]
    refine (bind_of_ok (row_run _ s) _).trans ?_
    rw [h.rejected_empty n hn]
    rfl
  have hround (users : List Document) : round g users s = .ok false s := by
    rw [round, liftM_eq_run, bind_of_ok hnone]
    rfl
  obtain ⟨fuel, hfuel⟩ : ∃ fuel, rounds s = fuel + 1 :=
    Nat.exists_eq_succ_of_ne_zero (by simp [rounds])
  have hunfold : backward g s = backwardFrom g (s.graphAt g).userNames (rounds s) s := rfl
  rw [hunfold, hfuel, backwardFrom, bind_of_ok (hround _)]
  rfl

/-- Passing types through a graph that is up to date changes no types. -/
theorem passFrom_steady (h : s.IsAssignments g)
    (hupdated : ∀ n ∈ (s.graphAt g).nodes, s.typesOf n = s.outflow n) (fuel : Nat) :
    (passFrom g (fuel + 1)).Ends s fun _ t => s.Steady g t := by
  obtain ⟨queue, steps, rest, v, t, hrun, -, ⟨ht, hchanged⟩, -⟩ :=
    forward_ends h.dag (carried_steady s g) []
      ⟨{ Flowing.refl h with updated := hupdated, same := fun _ _ => rfl }, rfl⟩
  have hforward : forward .pass g [] s = .ok v t := forward_eq_ok_iff.mpr ⟨_, _, _, hrun⟩
  refine .step hforward (.step (backward_run ht.assignments) ?_)
  rw [hchanged]
  exact .of_eq rfl ht

/-- Passing types through a graph whose symbols have none makes all nodes up to date, unless the
first sweep is cut off. -/
theorem passTypes_updates (h : s.IsAssignments g)
    (hempty : ∀ n ∈ (s.graphAt g).nodes, ∀ info, (s.nodeAt n).kind = .symbol info →
      s.typesOf n = [])
    (hsweep : ∀ queue steps rest v t, ForwardRun .pass g [] s queue steps rest v t → rest = []) :
    (passTypes g).Ends s fun _ t => s.Flowing g t ∧
      ∀ n ∈ (t.graphAt g).nodes, t.typesOf n = t.outflow n := by
  obtain ⟨queue, steps, rest, v, t, hrun, done, ht, hdone⟩ :=
    forward_ends h.dag (carried_filling s g) [] { Flowing.refl h with
        updated := fun _ hd _ => absurd hd not_mem_nil
        empty := fun n hn _ => hempty n hn }
  have hall : ∀ n ∈ (t.graphAt g).nodes, t.typesOf n = t.outflow n := fun n hn =>
    ht.updated n ((hdone (hsweep _ _ _ _ _ hrun) n).mpr (ht.edges.graphAt_eq g ▸ hn)) hn
  have hforward : forward .pass g [] s = .ok v t := forward_eq_ok_iff.mpr ⟨_, _, _, hrun⟩
  refine .step hforward (.step (backward_run ht.assignments) ?_)
  cases v.changed with
  | false => exact .of_eq rfl ⟨ht.toFlowing, hall⟩
  | true =>
    obtain ⟨⟨⟩, u, hpass, hu⟩ := passFrom_steady ht.assignments hall (maxSweeps - 2)
    exact .of_eq hpass ⟨ht.toFlowing.trans hu.toFlowing, hu.updated⟩

/-- Passing simple types through assignments ends with one type at each node for each class of the
known types from which the node is reached. Passing them again changes no types. -/
theorem passTypes_gives_reaching_classes {s : Store} (h : s.IsAssignments g)
    (hempty : ∀ n ∈ (s.graphAt g).nodes, ∀ info, (s.nodeAt n).kind = .symbol info →
      s.typesOf n = [])
    (hsweep : ∀ queue steps rest v t, ForwardRun .pass g [] s queue steps rest v t → rest = []) :
    ∃ t, passTypes g s = .ok () t ∧
      (∀ n ∈ (s.graphAt g).nodes, ((t.typesOf n).map t.classOf).Nodup ∧
        ∀ c, c ∈ (t.typesOf n).map t.classOf ↔ s.Receives g n c) ∧
      ∃ u, passTypes g t = .ok () u ∧ ∀ n ∈ (s.graphAt g).nodes,
        u.typesOf n = t.typesOf n ∧ ∀ d, .type d ∈ t.typesOf n → u.typeAt d = t.typeAt d := by
  obtain ⟨⟨⟩, t, hpass, ht, hupdated⟩ := passTypes_updates h hempty hsweep
  obtain ⟨⟨⟩, u, hagain, hu⟩ := passFrom_steady ht.assignments hupdated (maxSweeps - 1)
  have hgraph : (t.graphAt g).nodes = (s.graphAt g).nodes := by rw [ht.edges.graphAt_eq]
  refine ⟨t, hpass, fun n hn => ?_, u, hagain, fun n hn => ⟨?_, fun d hd => ?_⟩⟩
  · obtain ⟨hnodup, hmem⟩ := ht.assignments.classes_iff hupdated (hgraph ▸ hn)
    refine ⟨hnodup, fun c => (hmem c).trans ?_⟩
    rw [Receives, hgraph, ht.edges.feeds_eq]
    refine exists_congr fun k => and_congr_right fun hk => exists_congr fun d => ?_
    rw [ht.known k d]
    refine and_congr_right fun hd => and_congr_right fun _ => ?_
    have hclass := (h.types_simple k hk).map_classOf ht.old
    rw [h.known k hk d hd] at hclass
    rw [(List.cons.inj hclass).1]
  · exact hu.same n (by rw [hu.edges.graphAt_eq, hgraph]; exact hn)
  · obtain ⟨d', heq, hsimple⟩ := ht.assignments.types_simple n (hgraph ▸ hn) _ hd
    obtain rfl := Entry.type.inj heq
    exact hu.old.typeAt_eq d hsimple.index_lt

/-- Three known types, two of them of one class, that are merged and assigned to a symbol. -/
def gathering : Store where
  types := #[
    { name := "int", category := .builtin, elements := ⟨0⟩, keys := ⟨0⟩, values := ⟨0⟩ },
    { name := "bool", category := .builtin, elements := ⟨0⟩, keys := ⟨0⟩, values := ⟨0⟩ },
    { name := "Text", category := .builtin, elements := ⟨0⟩, keys := ⟨0⟩, values := ⟨0⟩ }]
  rows := #[[], [.type ⟨0⟩], [.type ⟨1⟩], [.type ⟨2⟩], [], [], [], [], [], [], [], [], [], []]
  nodes := #[
    { kind := .known ⟨0⟩, name := "int", outs := [some ⟨3⟩], types := ⟨1⟩, rejected := ⟨7⟩ },
    { kind := .known ⟨1⟩, name := "bool", outs := [some ⟨3⟩], types := ⟨2⟩, rejected := ⟨8⟩ },
    { kind := .known ⟨2⟩, name := "Text", outs := [some ⟨3⟩], types := ⟨3⟩, rejected := ⟨9⟩ },
    { kind := .merge "x", name := "merge", ins := [some ⟨0⟩, some ⟨1⟩, some ⟨2⟩]
      outs := [some ⟨4⟩], types := ⟨4⟩, rejected := ⟨10⟩ },
    { kind := .operation { op := "=", rejectedInputs := ⟨13⟩ }, name := "=", ins := [some ⟨3⟩]
      outs := [some ⟨5⟩], types := ⟨5⟩, rejected := ⟨11⟩ },
    { kind := .symbol { symbol := "y", order := 0 }, name := "y", ins := [some ⟨4⟩]
      types := ⟨6⟩, rejected := ⟨12⟩ }]
  graphs := #[
    { name := "f", fileName := "f", role := .module, userNames := []
      nodes := [⟨0⟩, ⟨1⟩, ⟨2⟩, ⟨3⟩, ⟨4⟩, ⟨5⟩] }]

theorem gathering_isAssignments : gathering.IsAssignments ⟨0⟩ := by
  have hsimple : ∀ c ∈ [(⟨0⟩ : TypeId), ⟨1⟩, ⟨2⟩], gathering.IsSimple c := by
    intro c hc
    simp only [mem_cons, not_mem_nil, or_false] at hc
    rcases hc with rfl | rfl | rfl <;> exact ⟨rfl, by decide, by decide⟩
  have hnodes : (gathering.graphAt ⟨0⟩).nodes = [⟨0⟩, ⟨1⟩, ⟨2⟩, ⟨3⟩, ⟨4⟩, ⟨5⟩] := rfl
  refine ⟨.of_index_lt (by decide) (by decide) (by decide) (by decide), ?_, ?_, by decide, ?_,
    by decide, by decide⟩ <;> simp only [hnodes, forall_mem_cons]
  · exact ⟨rfl, rfl, rfl, trivial, ⟨rfl, rfl, ⟨3⟩, rfl⟩, ⟨rfl, by decide, by decide, by decide⟩,
      by simp⟩
  · exact ⟨fun c hc => NodeKind.known.inj hc ▸ rfl, fun c hc => NodeKind.known.inj hc ▸ rfl,
      fun c hc => NodeKind.known.inj hc ▸ rfl, fun _ hc => NodeKind.noConfusion hc,
      fun _ hc => NodeKind.noConfusion hc, fun _ hc => NodeKind.noConfusion hc, by simp⟩
  · exact ⟨fun e he => ⟨⟨0⟩, mem_singleton.mp he, hsimple _ (by decide)⟩,
      fun e he => ⟨⟨1⟩, mem_singleton.mp he, hsimple _ (by decide)⟩,
      fun e he => ⟨⟨2⟩, mem_singleton.mp he, hsimple _ (by decide)⟩,
      fun e he => absurd he not_mem_nil, fun e he => absurd he not_mem_nil,
      fun e he => absurd he not_mem_nil, by simp⟩

/-- The symbol gets one of the two types of one class and the third type. -/
theorem passTypes_gathering :
    gathering.IsAssignments ⟨0⟩ ∧
      (∀ n ∈ (gathering.graphAt ⟨0⟩).nodes, ∀ info,
        (gathering.nodeAt n).kind = .symbol info → gathering.typesOf n = []) ∧
      (∀ queue steps rest v t, ForwardRun .pass ⟨0⟩ [] gathering queue steps rest v t →
        rest = []) ∧
      ∃ t, passTypes ⟨0⟩ gathering = .ok () t ∧
        (∀ n ∈ (gathering.graphAt ⟨0⟩).nodes, ((t.typesOf n).map t.classOf).Nodup ∧
          ∀ c, c ∈ (t.typesOf n).map t.classOf ↔ gathering.Receives ⟨0⟩ n c) ∧
        ∃ u, passTypes ⟨0⟩ t = .ok () u ∧ ∀ n ∈ (gathering.graphAt ⟨0⟩).nodes,
          u.typesOf n = t.typesOf n ∧ ∀ d, .type d ∈ t.typesOf n → u.typeAt d = t.typeAt d := by
  have hgraph := gathering_isAssignments
  have hempty : ∀ n ∈ (gathering.graphAt ⟨0⟩).nodes, ∀ info,
      (gathering.nodeAt n).kind = .symbol info → gathering.typesOf n = [] := by
    intro n hn info hkind
    have hsymbol : ∀ n ∈ (gathering.graphAt ⟨0⟩).nodes,
        (gathering.nodeAt n).kind.symbol?.isSome = true → gathering.typesOf n = [] := by decide
    exact hsymbol n hn (by simp [hkind, NodeKind.symbol?])
  have hsweep : ∀ queue steps rest v t,
      ForwardRun .pass ⟨0⟩ [] gathering queue steps rest v t → rest = [] :=
    fun _ _ _ _ _ hrun => hrun.rest_eq_nil hgraph.dag (by decide)
  exact ⟨hgraph, hempty, hsweep, passTypes_gives_reaching_classes hgraph hempty hsweep⟩

end Eval
end TypeFlow
