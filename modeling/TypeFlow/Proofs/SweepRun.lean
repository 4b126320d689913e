import TypeFlow.Proofs.SweepOrder

/-!
# Sweeps that come to an end

What every visit of a sweep can rely on and leaves in turn holds at the end of the sweep, and a
sweep all of whose visits come to an end comes to an end itself (`forward_ends`). Some node in the
queue can always be evaluated, so the number of turns is bounded by the square of the number of
nodes, and a sweep over a small graph empties its queue (`ForwardRun.rest_eq_nil`).
-/

set_option synthInstance.maxSize 2000

namespace TypeFlow

open List

/-- A node without its label. -/
def Node.unlabeled (n : Node) : Node := { n with label := 0 }

namespace Store

variable {s t : Store}

/-- Nothing but labels of nodes has changed. -/
structure Relabels (s t : Store) : Prop where
  types_eq : t.types = s.types
  rows_eq : t.rows = s.rows
  alike : s.Alike Node.unlabeled t

instance : IsPreorder Store Relabels where
  refl s := ⟨rfl, rfl, refl_of _ s⟩
  trans _ _ _ h₁ h₂ := ⟨h₂.types_eq.trans h₁.types_eq, h₂.rows_eq.trans h₁.rows_eq,
    trans_of _ h₁.alike h₂.alike⟩

theorem Relabels.nodeAt_eq (h : s.Relabels t) (n : NodeId) :
    (t.nodeAt n).unlabeled = (s.nodeAt n).unlabeled := h.alike.view_nodeAt n

end Store

/-- Operations that can be reported when they are queued: a call names its function. -/
def Node.Reportable (n : Node) : Prop :=
  ∀ info, n.kind = .operation info → n.name = "call" → info.func ≠ none

theorem Node.Reportable.of_relabels {s t : Store} {n : NodeId} (h : (s.nodeAt n).Reportable)
    (hrel : s.Relabels t) : (t.nodeAt n).Reportable := by
  have hkind : (t.nodeAt n).kind = (s.nodeAt n).kind :=
    (congrArg Node.kind (hrel.nodeAt_eq n) :)
  have hname : (t.nodeAt n).name = (s.nodeAt n).name :=
    (congrArg Node.name (hrel.nodeAt_eq n) :)
  rwa [Node.Reportable, hkind, hname]

namespace Eval

open Store

variable {s t : Store} {g : GraphId} {n : NodeId} {queue : List NodeId} {purpose : Purpose}
  {steps : List Step} {rest : List NodeId}

/-! ### Labels -/

instance : AllowsLabels Relabels where
  label s n _ := ⟨rfl, rfl, Alike.modify s n fun _ => rfl⟩

theorem setLabel_ends (n : NodeId) (label : Nat) (s : Store) :
    (setLabel n label).Ends s fun _ t => s.Relabels t := by
  obtain ⟨t, h⟩ : ∃ t, setLabel n label s = .ok () t := ⟨_, rfl⟩
  exact ⟨(), t, h, Keeps.rel h⟩

theorem clearLabels_ends (g : GraphId) (s : Store) :
    (clearLabels g).Ends s fun _ t => s.Relabels t := by
  have hall (l : List NodeId) (s : Store) : ∃ t, l.forM (setLabel · 0) s = .ok () t := by
    induction l generalizing s with
    | nil => exact ⟨s, rfl⟩
    | cons n l ih =>
      obtain ⟨⟨⟩, t, hset, -⟩ := setLabel_ends n 0 s
      obtain ⟨u, hrest⟩ := ih t
      exact ⟨u, (bind_of_ok hset _).trans hrest⟩
  obtain ⟨t, h⟩ := hall (s.graphAt g).nodes s
  have hclear : clearLabels g s = .ok () t := (bind_of_ok (graph_run g s) _).trans h
  exact ⟨(), t, hclear, Keeps.rel hclear⟩

theorem waitForInputs_ends {ins : List Link} (h : ∀ link ∈ ins, ∃ m, link = some m)
    (queue : List NodeId) (s : Store) :
    (waitForInputs n queue ins).Ends s fun _ t => s.Relabels t := by
  have hends : (waitForInputs n queue ins).Ends s fun _ _ => True := by
    induction ins generalizing queue s with
    | nil => exact .of_eq rfl trivial
    | cons link rest ih =>
      obtain ⟨⟨m, rfl⟩, hrest⟩ := forall_mem_cons.mp h
      refine .step rfl (.step (node_run m s) ?_)
      split
      · exact .step rfl (ih hrest _ _)
      · exact ih hrest _ _
  obtain ⟨queue', t, hrun, -⟩ := hends
  exact ⟨queue', t, hrun, Keeps.rel hrun⟩

theorem queueOutputs_ends {outs : List Link}
    (h : ∀ link ∈ outs, ∃ m, link = some m ∧ (s.nodeAt m).Reportable) (queue : List NodeId) :
    (queueOutputs queue outs).Ends s fun _ t => s.Relabels t := by
  have hends : (queueOutputs queue outs).Ends s fun _ _ => True := by
    induction outs generalizing queue s with
    | nil => exact .of_eq rfl trivial
    | cons link rest ih =>
      obtain ⟨⟨m, rfl, hm⟩, hrest⟩ := forall_mem_cons.mp h
      have hcheck (t : Store) : (checkReport (s.nodeAt m)).run t = .ok () t := by
        unfold checkReport
        split
        · rename_i info hkind
          have : ¬ ((s.nodeAt m).name = "call" ∧ info.func = none) := fun hcall =>
            hm info hkind hcall.1 hcall.2
          simp [this]
        · rfl
      refine .step rfl (.step (node_run m s) ?_)
      split
      · obtain ⟨⟨⟩, t, hset, hrel⟩ := setLabel_ends m 1 s
        refine .step hset (.step (hcheck t) (ih (fun link hlink => ?_) _))
        obtain ⟨k, rfl, hk⟩ := hrest link hlink
        exact ⟨k, rfl, hk.of_relabels hrel⟩
      · exact ih hrest _
      · exact .step (hcheck s) (ih hrest _)
  obtain ⟨queue', t, hrun, -⟩ := hends
  exact ⟨queue', t, hrun, Keeps.rel hrun⟩

/-- What visits carry through a sweep: it does not depend on labels, makes nodes reportable, and a
visit of a node whose inputs have been visited comes to an end and leaves it for the nodes that
have been visited then. -/
structure Carried (s₀ : Store) (purpose : Purpose) (g : GraphId)
    (P : List NodeId → Visit → Store → Prop) : Prop where
  relabel : ∀ {done v s t}, P done v s → s.Relabels t → P done v t
  reportable : ∀ {done v s}, P done v s → ∀ n ∈ (s₀.graphAt g).nodes, (s.nodeAt n).Reportable
  visit : ∀ {done v s n}, P done v s → n ∈ (s₀.graphAt g).nodes → n ∉ done →
    (∀ m, some m ∈ (s₀.nodeAt n).ins → m ∈ done) →
    (∀ k ∈ done, ∀ m, some m ∈ (s₀.nodeAt k).ins → m ∈ done) →
    (evaluate purpose g n true v).Ends s fun v' t => P (done ++ [n]) v' t

variable {s₀ : Store} {P : List NodeId → Visit → Store → Prop} {done : List NodeId} {v : Visit}

theorem Sweeping.ins_done (h : Sweeping s₀ g done queue s) :
    ∀ k ∈ done, ∀ m, some m ∈ (s₀.nodeAt k).ins → m ∈ done := by
  intro k hk m hm
  obtain ⟨pre, post, heq⟩ := append_of_mem hk
  exact heq ▸ mem_append_left _ (h.inputs_first pre k post heq m hm)

theorem turn_ends (hdag : s₀.IsDag g) (hP : Carried s₀ purpose g P)
    (h : Sweeping s₀ g done (n :: queue) s) (hv : P done v s) :
    (turn purpose g n queue v).Ends s fun r t =>
      P (done ++ if r.evaluated then [n] else []) r.state t := by
  have hn : n ∈ (s₀.graphAt g).nodes := h.mem_of_queue n (.head _)
  have hself : some n ∉ (s.nodeAt n).ins := fun hin =>
    hdag.ne_of_ins hn (h.alike.ins_eq n ▸ hin) rfl
  obtain ⟨⟨⟩, s₁, hset, hrel₁⟩ := setLabel_ends n 2 s
  have halike₁ : s.Alike Node.edges s₁ := Keeps.rel hset
  refine .step hset (.step (node_run n s₁) ?_)
  rw [halike₁.ins_eq]
  have hlinks : ∀ link ∈ (s.nodeAt n).ins, ∃ m, link = some m := by
    intro link hlink
    obtain ⟨m, -, hm⟩ := hdag.ins n hn link (h.alike.ins_eq n ▸ hlink)
    exact ⟨m, hm⟩
  obtain ⟨queue₂, s₂, hwait, hrel₂⟩ := waitForInputs_ends hlinks queue s₁
  have halike₂ : s.Alike Node.edges s₂ := trans_of _ halike₁ (Keeps.rel hwait)
  obtain ⟨hready, -, -⟩ := takeUp_eq_ok (h.alike.size_eq ▸ hdag.stored n hn) hself
    (nodup_cons.mp h.queue_nodup).1 hset hwait
  have hv₂ : P done v s₂ := hP.relabel (hP.relabel hv hrel₁) hrel₂
  have hevaluate : (evaluate purpose g n ((s₂.nodeAt n).label == 2) v).Ends s₂ fun v' t =>
      P (done ++ if (s₂.nodeAt n).label == 2 then [n] else []) v' t := by
    cases hlabel : (s₂.nodeAt n).label == 2 with
    | false => exact .of_eq rfl (by simpa using hv₂)
    | true =>
      refine hP.visit hv₂ hn (fun hd => ?_) (fun m hm => ?_) h.ins_done
      · have := (h.label_final n hn).mpr hd
        have := h.label_queue n (.head _)
        omega
      · have hm' := hdag.mem_of_ins hn hm
        have hfinal := hready.mp hlabel m (h.alike.ins_eq n ▸ hm)
        exact (h.label_final m hm').mp (Nat.le_antisymm (h.label_le m hm') hfinal)
  obtain ⟨v', s₃, heval, hv₃⟩ := hevaluate
  have halike₃ : s₀.Alike Node.edges s₃ :=
    trans_of _ h.alike (trans_of _ halike₂ (Keeps.rel heval))
  refine .step hwait (.step (node_run n s₂) (.step heval (.step (node_run n s₃) ?_)))
  rw [halike₃.outs_eq]
  have houts : ∀ link ∈ (s₀.nodeAt n).outs, ∃ m, link = some m ∧ (s₃.nodeAt m).Reportable := by
    intro link hlink
    obtain ⟨m, hm, heq⟩ := hdag.outs n hn link hlink
    exact ⟨m, heq, hP.reportable hv₃ m hm⟩
  obtain ⟨queue₄, t, hqueue, hrel₄⟩ := queueOutputs_ends houts queue₂
  exact .step hqueue (.of_eq rfl (hP.relabel hv₃ hrel₄))

theorem sweep_ends (hdag : s₀.IsDag g) (hP : Carried s₀ purpose g P) (fuel : Nat)
    (h : Sweeping s₀ g done queue s) (hv : P done v s) :
    ∃ steps rest v' t, Sweeps purpose g queue v s steps rest v' t ∧ steps.length ≤ fuel ∧
      (rest ≠ [] → steps.length = fuel) ∧ P (done ++ evaluatedNodes steps) v' t := by
  induction fuel generalizing done queue v s with
  | zero => exact ⟨[], queue, v, s, .halt queue v s, Nat.le_refl _, fun _ => rfl, by
    simpa [evaluatedNodes] using hv⟩
  | succ fuel ih =>
    cases queue with
    | nil => exact ⟨[], [], v, s, .halt [] v s, Nat.zero_le _, fun h => absurd rfl h, by
      simpa [evaluatedNodes] using hv⟩
    | cons n queue =>
      obtain ⟨r, t, hturn, hr⟩ := turn_ends hdag hP h hv
      obtain ⟨steps, rest, v', u, hrun, hlen, hend, hu⟩ := ih (h.turn hdag hturn) hr
      refine ⟨_, rest, v', u, .next hturn hrun, Nat.succ_le_succ hlen,
        fun hrest => congrArg Nat.succ (hend hrest), ?_⟩
      rw [append_assoc] at hu
      cases hev : r.evaluated <;> simpa [evaluatedNodes, hev] using hu

/-- A forward sweep whose visits come to an end. If its queue is empty then, all nodes have been
visited. -/
theorem forward_ends (hdag : s.IsDag g) (hP : Carried s purpose g P)
    (conflicts : Conflicts) (hstart : P [] { conflicts } s) :
    ∃ queue steps rest v t, ForwardRun purpose g conflicts s queue steps rest v t ∧
      ∃ done, P done v t ∧ (rest = [] → ∀ n, n ∈ done ↔ n ∈ (s.graphAt g).nodes) := by
  obtain ⟨queue, _, hsources, rfl, -⟩ := sources_ends g s
  obtain ⟨⟨⟩, u, hclear, hrel⟩ := clearLabels_ends g s
  have hbegin := Sweeping.start hdag hsources hclear
  obtain ⟨steps, rest, v, t, hrun, hlen, hend, hv⟩ :=
    sweep_ends hdag hP maxVisits hbegin (hP.relabel hstart hrel)
  refine ⟨queue, steps, rest, v, t, ⟨hsources, ⟨u, hclear, hrun⟩, hlen, hend⟩, _, hv, ?_⟩
  rintro rfl
  exact (Sweeping.run hdag hrun hbegin).1.mem_done_iff hdag

/-! ### The number of turns -/

theorem Sweeping.not_mem_done (h : Sweeping s₀ g done queue s) (hn : n ∈ queue) : n ∉ done := by
  intro hd
  have := (h.label_final n (h.mem_of_queue n hn)).mpr hd
  have := h.label_queue n hn
  omega

/-- As long as a queue is not empty, the inputs of some node in it are final. -/
theorem Sweeping.exists_ready (hdag : s₀.IsDag g) (h : Sweeping s₀ g done queue s)
    (hq : queue ≠ []) : ∃ n ∈ queue, ∀ m, some m ∈ (s₀.nodeAt n).ins → m ∈ done := by
  obtain ⟨k, hk⟩ := exists_mem_of_ne_nil queue hq
  obtain ⟨n, ⟨hn, hd⟩, hmin⟩ := hdag.wellFounded.has_min
    {n | n ∈ (s₀.graphAt g).nodes ∧ n ∉ done} ⟨k, h.mem_of_queue k hk, h.not_mem_done hk⟩
  have hins (m : NodeId) (hm : some m ∈ (s₀.nodeAt n).ins) : m ∈ done := by
    by_contra hmd
    exact hmin m ⟨hdag.mem_of_ins hn hm, hmd⟩ (hdag.feeds_of_ins hn hm)
  refine ⟨n, ?_, hins⟩
  cases hlinks : (s₀.nodeAt n).ins with
  | nil => exact (h.source_kept n hn hlinks).resolve_right hd
  | cons link rest =>
    obtain ⟨m, hm, rfl⟩ := hdag.ins n hn link (by rw [hlinks]; exact .head _)
    have hin : some m ∈ (s₀.nodeAt n).ins := by rw [hlinks]; exact .head _
    have hseen := h.outs_seen m (hins m hin) n ((hdag.same m hm n hn).mp hin)
    have hle := h.label_le n hn
    have hfinal : s.labelOf n ≠ 2 := fun h2 => hd ((h.label_final n hn).mp h2)
    exact h.queue_of_waiting n hn (by omega)

theorem Sweeping.length_le (h : Sweeping s₀ g done queue s) :
    done.length + queue.length ≤ (s₀.graphAt g).nodes.length := by
  have hnodup : (done ++ queue).Nodup := nodup_append.mpr
    ⟨h.done_nodup, h.queue_nodup, fun a ha b hb hab => h.not_mem_done hb (hab ▸ ha)⟩
  have hsub : done ++ queue ⊆ (s₀.graphAt g).nodes :=
    append_subset.mpr ⟨h.mem_of_done, h.mem_of_queue⟩
  simpa using (subperm_of_subset hnodup hsub).length_le

/-- A turn evaluates a node whose inputs have been evaluated and puts other nodes back. -/
theorem Sweeping.turn_queue (hdag : s₀.IsDag g) (h : Sweeping s₀ g done (n :: queue) s) {r : Turn}
    (hturn : Eval.turn purpose g n queue v s = .ok r t) :
    (r.evaluated = true ↔ ∀ m, some m ∈ (s₀.nodeAt n).ins → m ∈ done) ∧
      ∃ added, r.queue = (if r.evaluated then queue else queue ++ [n]) ++ added := by
  have hn : n ∈ (s₀.graphAt g).nodes := h.mem_of_queue n (.head _)
  have hdag' := hdag.of_alike h.alike
  rw [← h.alike.graphAt_eq] at hn
  obtain ⟨hready, added, hqueue, -⟩ := turn_eq_ok (hdag'.stored n hn)
    (fun hin => hdag'.ne_of_ins hn hin rfl)
    (fun m hm => hdag'.stored m (hdag'.mem_of_outs hn hm)) (nodup_cons.mp h.queue_nodup).1
    hturn
  refine ⟨hready.trans ?_, added, hqueue⟩
  rw [h.alike.ins_eq]
  refine forall_congr' fun m => imp_congr_right fun hm => ?_
  have hm' := hdag.mem_of_ins (h.mem_of_queue n (.head _)) hm
  rw [← h.label_final m hm']
  have := h.label_le m hm'
  omega

/-- Between two evaluations the nodes before the first one whose inputs are final are put back, so
there are fewer of them than nodes. -/
theorem Sweeping.steps_le (hdag : s₀.IsDag g) {v' : Visit}
    (hrun : Sweeps purpose g queue v s steps rest v' t) (h : Sweeping s₀ g done queue s)
    {pre post : List NodeId} (hq : queue = pre ++ n :: post)
    (hready : ∀ m, some m ∈ (s₀.nodeAt n).ins → m ∈ done) :
    steps.length ≤ pre.length + 1 +
      (s₀.graphAt g).nodes.length * ((s₀.graphAt g).nodes.length - done.length - 1) := by
  generalize hN : (s₀.graphAt g).nodes.length = N
  induction hrun generalizing done n pre post with
  | halt => simp
  | @next n₀ queue queue' v v' s t u r steps hturn hrest ih =>
    have hnext := h.turn hdag hturn
    obtain ⟨hevaluated, added, hqueue⟩ := h.turn_queue hdag hturn
    have hlen := h.length_le
    rw [hN] at hlen
    cases hev : r.evaluated with
    | true =>
      -- The bound for the rest begins anew with one evaluated node more.
      suffices hsteps : steps.length ≤ N * (N - done.length - 1) by
        simp only [length_cons]
        omega
      rw [hev, if_pos rfl] at hnext
      by_cases hempty : r.queue = []
      · rw [hempty] at hrest
        cases hrest
        simp
      · obtain ⟨n', hn', hready'⟩ := hnext.exists_ready hdag hempty
        obtain ⟨pre', post', heq⟩ := append_of_mem hn'
        have hsteps := ih hnext heq hready'
        have hlen' := hnext.length_le
        rw [hN, heq] at hlen'
        simp only [length_append, length_cons, length_nil] at hsteps hlen'
        obtain ⟨k, hk⟩ : ∃ k, N - done.length - 1 = k + 1 :=
          ⟨N - done.length - 2, by omega⟩
        have hk' : N - (done.length + (0 + 1)) - 1 = k := by omega
        rw [hk'] at hsteps
        rw [hk, Nat.mul_succ]
        omega
    | false =>
      rw [hev, if_neg Bool.false_ne_true, append_nil] at hnext
      cases pre with
      | nil =>
        obtain ⟨rfl, -⟩ := cons.inj hq
        exact absurd (hevaluated.mpr hready) (by simp [hev])
      | cons _ pre =>
        obtain ⟨rfl, rfl⟩ := cons.inj hq
        have hqueue' : r.queue = pre ++ n :: (post ++ [n₀] ++ added) := by
          rw [hqueue, hev]
          simp
        have hsteps := ih hnext hqueue' hready
        simp only [length_cons]
        omega

/-- A sweep over 31 nodes at most is not cut off. -/
theorem ForwardRun.rest_eq_nil {conflicts : Conflicts} {v : Visit} (hdag : s.IsDag g)
    (hsize : (s.graphAt g).nodes.length ≤ 31)
    (h : ForwardRun purpose g conflicts s queue steps rest v t) : rest = [] := by
  by_contra hrest
  have hcutoff : steps.length = 1000 := h.cutoff hrest
  obtain ⟨u, hclear, hrun⟩ := h.turns
  have hbegin := Sweeping.start hdag h.sources hclear
  by_cases hempty : queue = []
  · subst hempty
    cases hrun
    simp at hcutoff
  · obtain ⟨n, hn, hready⟩ := hbegin.exists_ready hdag hempty
    obtain ⟨pre, post, rfl⟩ := append_of_mem hn
    have hsteps := hbegin.steps_le hdag hrun rfl hready
    have hlen := hbegin.length_le
    generalize (s.graphAt g).nodes.length = N at hsize hsteps hlen
    simp only [length_append, length_cons, length_nil] at hsteps hlen
    have hmul : N * (N - 0 - 1) ≤ 31 * 30 := Nat.mul_le_mul hsize (by omega)
    omega

end Eval
end TypeFlow
