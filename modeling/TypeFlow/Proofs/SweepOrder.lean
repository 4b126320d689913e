import Mathlib.Data.List.Nodup
import TypeFlow.Proofs.Shape

/-!
# The order of a forward sweep

A sweep takes nodes up from the front of its queue. A node with an input that is not final goes
to the end of the queue, and the outputs of every node that is taken up are queued unless they
have been. The labels say where a node stands: 0 if it has not been seen, 1 if it waits in the
queue, 2 if it has been evaluated. `Sweeping` ties labels, queue and the list of evaluated nodes
together. One turn keeps it, hence so does every run, and a run that ends with an empty queue has
evaluated all nodes of the graph, each of them once and after its inputs.
-/

namespace TypeFlow

open List EStateM.Result

namespace Store

def labelOf (s : Store) (n : NodeId) : Nat := (s.nodeAt n).label

theorem Alike.labelOf_eq {s t : Store} (h : s.Alike Node.marks t) (n : NodeId) :
    t.labelOf n = s.labelOf n :=
  congrArg (fun m => m.2.2) (h.view_nodeAt n)

end Store

namespace Eval

open Store

variable {s t : Store} {n : NodeId} {queue queue' : List NodeId} {g : GraphId} {purpose : Purpose}
  {v : Visit}

theorem labelOf_setLabel {label : Nat} (hn : n.index < s.nodes.size)
    (h : setLabel n label s = .ok () t) (m : NodeId) :
    t.labelOf m = if m = n then label else s.labelOf m := by
  simp only [setLabel, modifyNode_apply, ok.injEq, true_and] at h
  subst h
  rw [labelOf, nodeAt_modify hn]
  split <;> rfl

/-- A node waits at the end of the queue as soon as one input is not final, and otherwise nothing
happens. -/
theorem waitForInputs_eq_ok {ins : List Link} (hn : n.index < s.nodes.size) (hself : some n ∉ ins)
    (h : waitForInputs n queue ins s = .ok queue' t) :
    ((∀ m, some m ∈ ins → 2 ≤ s.labelOf m) ∧ queue' = queue ∧ t = s) ∨
      ((∃ m, some m ∈ ins ∧ s.labelOf m < 2) ∧
        queue' = (if n ∈ queue then queue else queue ++ [n]) ∧
        ∀ m, t.labelOf m = if m = n then 1 else s.labelOf m) := by
  induction ins generalizing queue s with
  | nil =>
    simp only [waitForInputs, pure_apply, ok.injEq] at h
    exact .inl ⟨by simp, h.1.symm, h.2.symm⟩
  | cons link rest ih =>
    simp only [waitForInputs, liftM_eq_run, bind_eq_ok, require_eq_ok, node_run, ok.injEq] at h
    obtain ⟨m, _, ⟨rfl, rfl⟩, _, _, ⟨rfl, rfl⟩, h⟩ := h
    have hrest : some n ∉ rest := fun h => hself (.tail _ h)
    by_cases hlow : (s.nodeAt m).label < 2
    · rw [if_pos hlow] at h
      obtain ⟨⟨⟩, u, hset, h⟩ := bind_eq_ok.mp h
      have hu := labelOf_setLabel hn hset
      have hsize : u.nodes.size = s.nodes.size :=
        (Keeps.rel (R := Alike Node.edges) hset).size_eq
      simp only [contains_iff_mem] at h
      refine .inr ⟨⟨m, .head _, hlow⟩, ?_⟩
      rcases ih (hsize ▸ hn) hrest h with ⟨-, rfl, rfl⟩ | ⟨-, rfl, ht⟩
      · exact ⟨rfl, hu⟩
      · refine ⟨?_, fun m' => ?_⟩
        · by_cases hq : n ∈ queue <;> simp [hq]
        · rw [ht, hu]
          split <;> rfl
    · rw [if_neg hlow] at h
      rcases ih hn hrest h with ⟨hall, hq⟩ | ⟨⟨m', hm', hlow'⟩, hq⟩
      · refine .inl ⟨fun m' hm' => ?_, hq⟩
        rcases mem_cons.mp hm' with heq | hm'
        · exact Option.some.inj heq ▸ Nat.le_of_not_lt hlow
        · exact hall m' hm'
      · exact .inr ⟨⟨m', .tail _ hm', hlow'⟩, hq⟩

/-- The outputs that have not been seen are queued, each of them once. -/
theorem queueOutputs_eq_ok {outs : List Link}
    (hstored : ∀ m, some m ∈ outs → m.index < s.nodes.size)
    (h : queueOutputs queue outs s = .ok queue' t) :
    ∃ added : List NodeId, queue' = queue ++ added ∧ added.Nodup ∧
      (∀ m, m ∈ added ↔ some m ∈ outs ∧ s.labelOf m = 0) ∧
      ∀ m, t.labelOf m = if m ∈ added then 1 else s.labelOf m := by
  induction outs generalizing queue s with
  | nil =>
    simp only [queueOutputs, pure_apply, ok.injEq] at h
    obtain ⟨rfl, rfl⟩ := h
    exact ⟨[], by simp⟩
  | cons link rest ih =>
    simp only [queueOutputs, liftM_eq_run, bind_eq_ok, require_eq_ok, node_run, ok.injEq] at h
    obtain ⟨n, _, ⟨rfl, rfl⟩, _, _, ⟨rfl, rfl⟩, h⟩ := h
    have hrest : ∀ m, some m ∈ rest → m.index < s.nodes.size :=
      fun m hm => hstored m (.tail _ hm)
    rcases hlabel : (s.nodeAt n).label with _ | _ | k
    all_goals simp only [hlabel] at h
    · obtain ⟨⟨⟩, u, hset, h⟩ := bind_eq_ok.mp h
      simp only [bind_eq_ok] at h
      obtain ⟨⟨⟩, u', hcheck, h⟩ := h
      have hu : ∀ m, u'.labelOf m = if m = n then 1 else s.labelOf m := fun m => by
        rw [(Alike.of_grows (grows_of_ok hcheck)).labelOf_eq,
          labelOf_setLabel (hstored n (.head _)) hset]
      have hsize : u'.nodes.size = s.nodes.size := by
        rw [(grows_of_ok hcheck).nodes, (Keeps.rel (R := Alike Node.edges) hset).size_eq]
      obtain ⟨added, hq, hnodup, hmem, ht⟩ := ih (hsize ▸ hrest) h
      have hfresh : n ∉ added := fun hn => by simpa [hu] using ((hmem n).mp hn).2
      refine ⟨n :: added, by simp [hq], nodup_cons.mpr ⟨hfresh, hnodup⟩, fun m => ?_, fun m => ?_⟩
      · by_cases hm : m = n
        · simp [hm, labelOf, hlabel]
        · simp [hm, hmem, hu]
      · by_cases hm : m = n
        · simp [hm, ht, hu]
        · simp [hm, ht, hu]
    · obtain ⟨added, hq, hnodup, hmem, ht⟩ := ih hrest h
      refine ⟨added, hq, hnodup, fun m => ?_, ht⟩
      by_cases hm : m = n
      · simp [hmem, hm, labelOf, hlabel]
      · simp [hmem, hm]
    · simp only [bind_eq_ok] at h
      obtain ⟨⟨⟩, u, hcheck, h⟩ := h
      have hu : ∀ m, u.labelOf m = s.labelOf m :=
        (Alike.of_grows (grows_of_ok hcheck)).labelOf_eq
      obtain ⟨added, hq, hnodup, hmem, ht⟩ := ih ((grows_of_ok hcheck).nodes ▸ hrest) h
      have hseen : s.labelOf n ≠ 0 := by simp [labelOf, hlabel]
      refine ⟨added, hq, hnodup, fun m => ?_, fun m => by rw [ht, hu]⟩
      by_cases hm : m = n
      · simp [hmem, hm, hu, hseen]
      · simp [hmem, hm, hu]

theorem sources_run (g : GraphId) (s : Store) :
    (sources g).run s = .ok ((s.graphAt g).nodes.foldl (fun found n =>
      if (s.nodeAt n).ins.isEmpty && !found.contains n then found ++ [n] else found) []) s := by
  refine Typing.foldlM_run_of_pure (fun found n => ?_) _ _
  simp only [Typing.run_bind, Typing.run_ite, Typing.run_pure, bind_of_ok (node_run n s)]
  split <;> rfl

/-- The nodes without inputs, each of them once. -/
theorem sources_ends (g : GraphId) (s : Store) : (sources g).run.Ends s fun queue t =>
    s = t ∧ queue.Nodup ∧ ∀ n, n ∈ queue ↔ n ∈ (s.graphAt g).nodes ∧ (s.nodeAt n).ins = [] := by
  let step (found : List NodeId) (n : NodeId) : List NodeId :=
    if (s.nodeAt n).ins.isEmpty && !found.contains n then found ++ [n] else found
  have hfold (l found : List NodeId) (hfound : found.Nodup) : (l.foldl step found).Nodup ∧
        ∀ n, n ∈ l.foldl step found ↔ n ∈ found ∨ (n ∈ l ∧ (s.nodeAt n).ins = []) := by
    induction l generalizing found with
    | nil => simpa using hfound
    | cons m l ih =>
      have hstep : (step found m).Nodup ∧
          ∀ n, n ∈ step found m ↔ n ∈ found ∨ (n = m ∧ (s.nodeAt m).ins = []) := by
        grind [List.isEmpty_iff, List.nodup_append]
      obtain ⟨hnodup, hmem⟩ := ih (step found m) hstep.1
      refine ⟨hnodup, fun n => ?_⟩
      rw [foldl_cons, hmem, hstep.2]
      grind
  have hall : ((s.graphAt g).nodes.foldl step []).Nodup ∧ ∀ n,
      n ∈ (s.graphAt g).nodes.foldl step [] ↔ n ∈ (s.graphAt g).nodes ∧ (s.nodeAt n).ins = [] := by
    simpa using hfold (s.graphAt g).nodes [] nodup_nil
  exact .of_eq (sources_run g s) ⟨rfl, hall⟩

/-- Clearing leaves no node of a graph visited. -/
theorem labelOf_clearLabels (hstored : ∀ n ∈ (s.graphAt g).nodes, n.index < s.nodes.size)
    (h : clearLabels g s = .ok () t) (hn : n ∈ (s.graphAt g).nodes) : t.labelOf n = 0 := by
  have hall (l : List NodeId) (s : Store) (hstored : ∀ n ∈ l, n.index < s.nodes.size)
      (h : l.forM (setLabel · 0) s = .ok () t) (m : NodeId) :
      t.labelOf m = if m ∈ l then 0 else s.labelOf m := by
    induction l generalizing s with
    | nil =>
      cases h
      rfl
    | cons n l ih =>
      obtain ⟨⟨⟩, u, hset, h⟩ := bind_eq_ok.mp h
      have hsize : u.nodes.size = s.nodes.size :=
        (Keeps.rel (R := Alike Node.edges) hset).size_eq
      rw [ih u (fun m hm => hsize ▸ hstored m (.tail _ hm)) h,
        labelOf_setLabel (hstored n (.head _)) hset]
      by_cases hm : m = n <;> simp [hm]
  simpa [hn] using hall _ s hstored h n

/-- One turn of a sweep, as it is seen from outside. -/
structure Step where
  node : NodeId
  evaluated : Bool
  /-- The queue that the turn leaves. -/
  queue : List NodeId

/-- The nodes that turns evaluate, in their order. -/
def evaluatedNodes (steps : List Step) : List NodeId :=
  (steps.filter (·.evaluated)).map (·.node)

/-- The turns that lead from one point of a sweep to another. -/
inductive Sweeps (purpose : Purpose) (g : GraphId) :
    List NodeId → Visit → Store → List Step → List NodeId → Visit → Store → Prop where
  | halt (queue : List NodeId) (v : Visit) (s : Store) : Sweeps purpose g queue v s [] queue v s
  | next {n : NodeId} {queue queue' : List NodeId} {v v' : Visit} {s t u : Store} {r : Turn}
      {steps : List Step} (hturn : turn purpose g n queue v s = .ok r t)
      (hrest : Sweeps purpose g r.queue r.state t steps queue' v' u) :
      Sweeps purpose g (n :: queue) v s (⟨n, r.evaluated, r.queue⟩ :: steps) queue' v' u

/-- A sweep that comes to an end took its turns until the queue was empty or their number was
used up. -/
theorem sweep_eq_ok_iff {fuel : Nat} {v' : Visit} : sweep purpose g fuel queue v s = .ok v' t ↔
      ∃ steps rest, Sweeps purpose g queue v s steps rest v' t ∧ steps.length ≤ fuel ∧
        (rest ≠ [] → steps.length = fuel) := by
  induction fuel generalizing queue v s with
  | zero =>
    simp only [sweep, pure_apply, ok.injEq]
    constructor
    · rintro ⟨rfl, rfl⟩
      exact ⟨[], queue, .halt queue v s, Nat.le_refl _, fun _ => rfl⟩
    · rintro ⟨steps, rest, hrun, hlen, -⟩
      obtain rfl := eq_nil_of_length_eq_zero (Nat.le_zero.mp hlen)
      cases hrun
      exact ⟨rfl, rfl⟩
  | succ fuel ih =>
    cases queue with
    | nil =>
      simp only [sweep, pure_apply, ok.injEq]
      constructor
      · rintro ⟨rfl, rfl⟩
        exact ⟨[], [], .halt [] v s, Nat.zero_le _, fun h => absurd rfl h⟩
      · rintro ⟨steps, rest, hrun, -, -⟩
        cases hrun
        exact ⟨rfl, rfl⟩
    | cons n queue =>
      simp only [sweep, bind_eq_ok, ih]
      constructor
      · rintro ⟨r, u, hturn, steps, rest, hrun, hlen, hend⟩
        exact ⟨_, rest, .next hturn hrun, Nat.succ_le_succ hlen,
          fun h => congrArg Nat.succ (hend h)⟩
      · rintro ⟨steps, rest, hrun, hlen, hend⟩
        cases hrun with
        | halt => simpa using hend (cons_ne_nil n queue)
        | @next _ _ _ _ _ _ u _ r steps hturn hrun =>
          exact ⟨r, u, hturn, steps, rest, hrun, Nat.le_of_succ_le_succ hlen,
            fun h => Nat.succ.inj (hend h)⟩

/-- A forward sweep turn by turn: the queue with which it begins, its turns, and the queue that
is left. -/
structure ForwardRun (purpose : Purpose) (g : GraphId) (conflicts : Conflicts) (s : Store)
    (queue : List NodeId) (steps : List Step) (rest : List NodeId) (v : Visit) (t : Store) :
    Prop where
  sources : (sources g).run s = .ok queue s
  turns : ∃ u, clearLabels g s = .ok () u ∧
    Sweeps purpose g queue { conflicts } u steps rest v t
  bounded : steps.length ≤ maxVisits
  cutoff : rest ≠ [] → steps.length = maxVisits

theorem forward_eq_ok_iff {conflicts : Conflicts} : forward purpose g conflicts s = .ok v t ↔
      ∃ queue steps rest, ForwardRun purpose g conflicts s queue steps rest v t := by
  simp only [forward, liftM_eq_run, bind_eq_ok, sweep_eq_ok_iff]
  constructor
  · rintro ⟨queue, s', hsources, ⟨⟩, u, hclear, steps, rest, hrun, hlen, hend⟩
    obtain ⟨rfl, -⟩ := (sources_ends g s).of_ok hsources
    exact ⟨queue, steps, rest, hsources, ⟨u, hclear, hrun⟩, hlen, hend⟩
  · rintro ⟨queue, steps, rest, hsources, ⟨u, hclear, hrun⟩, hlen, hend⟩
    exact ⟨queue, s, hsources, (), u, hclear, steps, rest, hrun, hlen, hend⟩

/-- A node that is taken up is final if its inputs are, and otherwise goes back to the end of the
queue. -/
theorem takeUp_eq_ok {s₁ : Store} (hn : n.index < s.nodes.size)
    (hself : some n ∉ (s.nodeAt n).ins) (hq : n ∉ queue) (hset : setLabel n 2 s = .ok () s₁)
    (hwait : waitForInputs n queue (s.nodeAt n).ins s₁ = .ok queue' t) :
    (((t.nodeAt n).label == 2) = true ↔ ∀ m, some m ∈ (s.nodeAt n).ins → 2 ≤ s.labelOf m) ∧
      (queue' = if (t.nodeAt n).label == 2 then queue else queue ++ [n]) ∧
      ∀ m, t.labelOf m = if m = n then (if (t.nodeAt n).label == 2 then 2 else 1)
        else s.labelOf m := by
  have hsize : s₁.nodes.size = s.nodes.size := (Keeps.rel (R := Alike Node.edges) hset).size_eq
  have hlabel₁ := labelOf_setLabel hn hset
  have hne : ∀ m, some m ∈ (s.nodeAt n).ins → m ≠ n := fun m hm heq => hself (heq ▸ hm)
  rcases waitForInputs_eq_ok (hsize ▸ hn) hself hwait with
    ⟨hall, rfl, rfl⟩ | ⟨⟨m, hm, hlow⟩, rfl, hlabel⟩
  · have hfinal : ((t.nodeAt n).label == 2) = true := by simpa [labelOf] using hlabel₁ n
    refine ⟨iff_of_true hfinal fun m hm => ?_, by simp [hfinal], by simpa [hfinal] using hlabel₁⟩
    simpa [hlabel₁, hne m hm] using hall m hm
  · have hwaiting : ((t.nodeAt n).label == 2) = false := by
      have := hlabel n
      simp_all [labelOf]
    refine ⟨iff_of_false (by simp [hwaiting]) fun hall => ?_, by simp [hwaiting, hq], fun m' => ?_⟩
    · rw [hlabel₁, if_neg (hne m hm)] at hlow
      exact absurd (hall m hm) (Nat.not_le_of_lt hlow)
    · rw [hlabel, hlabel₁, hwaiting]
      split <;> simp_all

/-- A turn evaluates a node whose inputs are final and puts every other node back to the end of
the queue. In both cases it appends the outputs that have not been seen. -/
theorem turn_eq_ok {r : Turn} (hn : n.index < s.nodes.size) (hself : some n ∉ (s.nodeAt n).ins)
    (hstored : ∀ m, some m ∈ (s.nodeAt n).outs → m.index < s.nodes.size) (hq : n ∉ queue)
    (h : turn purpose g n queue v s = .ok r t) :
    (r.evaluated = true ↔ ∀ m, some m ∈ (s.nodeAt n).ins → 2 ≤ s.labelOf m) ∧ ∃ added : List NodeId,
        r.queue = (if r.evaluated then queue else queue ++ [n]) ++ added ∧ added.Nodup ∧
        (∀ m, m ∈ added ↔ some m ∈ (s.nodeAt n).outs ∧ m ≠ n ∧ s.labelOf m = 0) ∧
        ∀ m, t.labelOf m = if m ∈ added then 1
          else if m = n then (if r.evaluated then 2 else 1) else s.labelOf m := by
  simp only [turn, liftM_eq_run, bind_eq_ok, node_run, ok.injEq] at h
  obtain ⟨⟨⟩, s₁, hset, _, _, ⟨rfl, rfl⟩, queue₂, s₂, hwait, _, _, ⟨rfl, rfl⟩, state, s₃, hvisit,
    _, _, ⟨rfl, rfl⟩, queue₄, s₄, houts, h⟩ := h
  simp only [pure_apply, ok.injEq] at h
  obtain ⟨rfl, rfl⟩ := h
  have halike₁ : s.Alike Node.edges s₁ := Keeps.rel hset
  rw [halike₁.ins_eq] at hwait
  obtain ⟨hready, hqueue₂, hlabel₂⟩ := takeUp_eq_ok hn hself hq hset hwait
  have halike₂ : s.Alike Node.edges s₂ := trans_of _ halike₁ (Keeps.rel hwait)
  have hmarks : s₂.Alike Node.marks s₃ := Keeps.rel hvisit
  have halike₃ : s.Alike Node.edges s₃ := trans_of _ halike₂ (Keeps.rel hvisit)
  rw [halike₃.outs_eq] at houts
  obtain ⟨added, hqueue, hnodup, hmem, hlabel⟩ :=
    queueOutputs_eq_ok (halike₃.size_eq ▸ hstored) houts
  refine ⟨hready, added, by rw [hqueue, hqueue₂], hnodup, fun m => ?_, fun m => ?_⟩
  · rw [hmem, hmarks.labelOf_eq, hlabel₂]
    by_cases hm : m = n
    · simp only [hm, if_true]
      split <;> simp
    · simp [hm]
  · rw [hlabel, hmarks.labelOf_eq, hlabel₂]

/-- What holds between two turns of a sweep over the graph `g` of the store `s₀`. The list `done`
holds the nodes that have been evaluated, in this order. -/
structure Sweeping (s₀ : Store) (g : GraphId) (done queue : List NodeId) (s : Store) : Prop where
  alike : s₀.Alike Node.edges s
  queue_nodup : queue.Nodup
  mem_of_queue : ∀ n ∈ queue, n ∈ (s₀.graphAt g).nodes
  mem_of_done : ∀ n ∈ done, n ∈ (s₀.graphAt g).nodes
  label_le : ∀ n ∈ (s₀.graphAt g).nodes, s.labelOf n ≤ 2
  label_final : ∀ n ∈ (s₀.graphAt g).nodes, s.labelOf n = 2 ↔ n ∈ done
  label_queue : ∀ n ∈ queue, s.labelOf n < 2
  queue_of_waiting : ∀ n ∈ (s₀.graphAt g).nodes, s.labelOf n = 1 → n ∈ queue
  source_unseen : ∀ n ∈ queue, s.labelOf n = 0 → (s₀.nodeAt n).ins = []
  source_kept : ∀ n ∈ (s₀.graphAt g).nodes, (s₀.nodeAt n).ins = [] → n ∈ queue ∨ n ∈ done
  outs_seen : ∀ m ∈ done, ∀ n, some n ∈ (s₀.nodeAt m).outs → s.labelOf n ≠ 0
  done_nodup : done.Nodup
  inputs_first : ∀ pre n post, done = pre ++ n :: post →
    ∀ m, some m ∈ (s₀.nodeAt n).ins → m ∈ pre

namespace Sweeping

variable {s₀ : Store} {g : GraphId} {purpose : Purpose} {done : List NodeId} {v : Visit} {r : Turn}

/-- One turn keeps what holds between turns. -/
theorem turn (hdag : s₀.IsDag g) (h : Sweeping s₀ g done (n :: queue) s)
    (hturn : turn purpose g n queue v s = .ok r t) :
    Sweeping s₀ g (done ++ if r.evaluated then [n] else []) r.queue t := by
  have hn : n ∈ (s₀.graphAt g).nodes := h.mem_of_queue n (.head _)
  obtain ⟨hfresh, hnodup⟩ := nodup_cons.mp h.queue_nodup
  have hself : some n ∉ (s.nodeAt n).ins := fun hin =>
    hdag.ne_of_ins hn (h.alike.ins_eq n ▸ hin) rfl
  have hstored : ∀ m ∈ (s₀.graphAt g).nodes, m.index < s.nodes.size :=
    h.alike.size_eq ▸ hdag.stored
  have hout (m : NodeId) (hm : some m ∈ (s₀.nodeAt n).outs) :
      m ∈ (s₀.graphAt g).nodes ∧ (s₀.nodeAt m).ins ≠ [] :=
    have hmem := hdag.mem_of_outs hn hm
    ⟨hmem, ne_nil_of_mem ((hdag.same n hn m hmem).mpr hm)⟩
  obtain ⟨hready, added, hqueue, hadded, hmem, hlabel⟩ := turn_eq_ok (hstored n hn) hself
    (fun m hm => hstored m (hout m (h.alike.outs_eq n ▸ hm)).1) hfresh hturn
  simp only [h.alike.ins_eq, h.alike.outs_eq] at hready hmem
  -- What is added had not been seen, and only sources are queued before they are seen.
  have hnew (m : NodeId) (hm : m ∈ added) : m ∉ queue := fun hq =>
    (hout m ((hmem m).mp hm).1).2 (h.source_unseen m (.tail _ hq) ((hmem m).mp hm).2.2)
  have hdone : n ∉ done := fun hd => by
    have := (h.label_final n hn).mpr hd
    have := h.label_queue n (.head _)
    omega
  have hqueued (m : NodeId) :
      m ∈ r.queue ↔ m ∈ queue ∨ m ∈ added ∨ (m = n ∧ r.evaluated = false) := by
    cases hev : r.evaluated <;> simp [hqueue, hev, or_comm, or_left_comm]
  exact {
    alike := trans_of _ h.alike (Keeps.rel hturn)
    queue_nodup := by
      cases hev : r.evaluated <;> grind [nodup_append]
    mem_of_queue := by
      intro m hm
      rcases (hqueued m).mp hm with hm | hm | ⟨rfl, -⟩
      · exact h.mem_of_queue m (.tail _ hm)
      · exact (hout m ((hmem m).mp hm).1).1
      · exact hn
    mem_of_done := by grind [h.mem_of_done]
    label_le := by
      intro m hm
      have := h.label_le m hm
      rw [hlabel]
      split_ifs <;> omega
    label_final := by grind [h.label_final]
    label_queue := by
      intro m hm
      rw [hlabel]
      rcases (hqueued m).mp hm with hm | hm | ⟨rfl, hev⟩
      · have := h.label_queue m (.tail _ hm)
        rw [if_neg (fun hm' => hnew m hm' hm), if_neg (fun heq : m = n => hfresh (heq ▸ hm))]
        exact this
      · simp [hm]
      · split_ifs <;> simp_all
    queue_of_waiting := by grind [h.queue_of_waiting]
    source_unseen := by grind [h.source_unseen]
    source_kept := by grind [h.source_kept]
    outs_seen := by grind [h.outs_seen]
    done_nodup := by grind [h.done_nodup, nodup_append]
    inputs_first := by
      intro pre m post heq k hk
      cases hev : r.evaluated with
      | false =>
        rw [hev, if_neg Bool.false_ne_true, append_nil] at heq
        exact h.inputs_first pre m post heq k hk
      | true =>
        rw [hev, if_pos rfl] at heq
        rcases eq_nil_or_concat post with rfl | ⟨post', m', rfl⟩
        · obtain ⟨rfl, hm⟩ := append_inj' heq rfl
          obtain rfl := (cons.inj hm).1
          have hk' := hdag.mem_of_ins hn hk
          exact (h.label_final k hk').mp (Nat.le_antisymm (h.label_le k hk') (hready.mp hev k hk))
        · rw [concat_eq_append, ← cons_append, ← append_assoc] at heq
          exact h.inputs_first pre m post' (append_inj_left' heq rfl) k hk }

/-- What holds when a sweep begins. -/
theorem start (hdag : s.IsDag g) (hsources : (sources g).run s = .ok queue s)
    (hclear : clearLabels g s = .ok () t) : Sweeping s g [] queue t := by
  obtain ⟨-, hnodup, hmem⟩ := (sources_ends g s).of_ok hsources
  have hlabel : ∀ n ∈ (s.graphAt g).nodes, t.labelOf n = 0 :=
    fun n => labelOf_clearLabels hdag.stored hclear
  have hclearing : Keeps (Alike Node.edges) (clearLabels g) := by
    unfold clearLabels
    infer_instance
  exact {
    alike := hclearing.rel hclear
    queue_nodup := hnodup
    mem_of_queue := fun n hn => ((hmem n).mp hn).1
    mem_of_done := by simp
    label_le := fun n hn => by simp [hlabel n hn]
    label_final := fun n hn => by simp [hlabel n hn]
    label_queue := fun n hn => by simp [hlabel n ((hmem n).mp hn).1]
    queue_of_waiting := fun n hn h => by simp [hlabel n hn] at h
    source_unseen := fun n hn _ => ((hmem n).mp hn).2
    source_kept := fun n hn hins => .inl ((hmem n).mpr ⟨hn, hins⟩)
    outs_seen := by simp
    done_nodup := nodup_nil
    inputs_first := by simp }

/-- A run of turns keeps what holds between them, and no queue on its way has a node twice. -/
theorem run (hdag : s₀.IsDag g) {steps : List Step} {v' : Visit}
    (hrun : Sweeps purpose g queue v s steps queue' v' t) (h : Sweeping s₀ g done queue s) :
    Sweeping s₀ g (done ++ evaluatedNodes steps) queue' t ∧ ∀ step ∈ steps, step.queue.Nodup := by
  induction hrun generalizing done with
  | halt queue v s => simpa [evaluatedNodes] using h
  | @next n queue queue' v v' s t u r steps hturn hrest ih =>
    have hstep := h.turn hdag hturn
    obtain ⟨hend, hqueues⟩ := ih hstep
    constructor
    · rw [append_assoc] at hend
      cases hev : r.evaluated <;> simpa [evaluatedNodes, hev] using hend
    · intro step hmem
      rcases mem_cons.mp hmem with rfl | hmem
      · exact hstep.queue_nodup
      · exact hqueues step hmem

/-- A sweep whose queue is empty has evaluated all nodes. -/
theorem mem_done_iff (hdag : s₀.IsDag g) (h : Sweeping s₀ g done [] s) (n : NodeId) :
    n ∈ done ↔ n ∈ (s₀.graphAt g).nodes := by
  refine ⟨h.mem_of_done n, fun hn => ?_⟩
  -- Inputs first: a node that some evaluated node feeds has been seen and does not wait.
  induction n using hdag.wellFounded.induction with
  | _ n ih =>
    cases hins : (s₀.nodeAt n).ins with
    | nil => exact (h.source_kept n hn hins).resolve_left not_mem_nil
    | cons link rest =>
      obtain ⟨m, hm, rfl⟩ := hdag.ins n hn link (hins ▸ .head _)
      have hin : some m ∈ (s₀.nodeAt n).ins := hins ▸ .head _
      have hdone : m ∈ done := ih m ⟨hm, hn, hin⟩ hm
      have hseen := h.outs_seen m hdone n ((hdag.same m hm n hn).mp hin)
      have hwait : s.labelOf n ≠ 1 := fun h1 =>
        not_mem_nil (h.queue_of_waiting n hn h1)
      have hle := h.label_le n hn
      exact (h.label_final n hn).mp (by omega)

end Sweeping

/-- Stores at which passing types through a graph begins a forward sweep, with the number of
sweeps before it. -/
inductive SweepStart (g : GraphId) (s : Store) : Nat → Store → Prop where
  | first : SweepStart g s 0 s
  | again {k : Nat} {u t w : Store} {v : Visit} (hu : SweepStart g s k u)
      (hforward : forward .pass g [] u = .ok v t) (hbackward : backward g t = .ok () w)
      (hchanged : v.changed = true) (hk : k + 1 < maxSweeps) : SweepStart g s (k + 1) w

namespace SweepStart

variable {g : GraphId} {k : Nat} {u : Store}

theorem alike (h : SweepStart g s k u) : s.Alike Node.edges u := by
  induction h with
  | first => exact refl_of _ s
  | again _ hforward hbackward _ _ ih =>
    have hback : Keeps (Alike Node.edges) (backward g) :=
      .mono (R := Alike Node.unrejected) (fun _ _ h => h.comp Node.edges) _
    exact trans_of _ ih (trans_of _ (Keeps.rel hforward) (hback.rel hbackward))

end SweepStart

/-- Every forward sweep that comes to an end never has a node twice in its queue and evaluates
nodes at most once and after their inputs. Unless it is cut off, it evaluates all of them. -/
theorem forward_evaluates_inputs_first {g : GraphId} {k : Nat} {u : Store} {v : Visit}
    (hdag : s.IsDag g) (hstart : SweepStart g s k u)
    (hsweep : forward .pass g [] u = .ok v t) :
    ∃ queue steps rest, ForwardRun .pass g [] u queue steps rest v t ∧
      queue.Nodup ∧ (∀ step ∈ steps, step.queue.Nodup) ∧
      (evaluatedNodes steps).Nodup ∧
      (∀ pre n post, evaluatedNodes steps = pre ++ n :: post →
        ∀ m, some m ∈ (s.nodeAt n).ins → m ∈ pre) ∧
      ((rest ≠ [] ∧ steps.length = maxVisits) ∨
        (rest = [] ∧ ∀ n, n ∈ evaluatedNodes steps ↔ n ∈ (s.graphAt g).nodes)) := by
  have hu : u.IsDag g := hdag.of_alike hstart.alike
  obtain ⟨queue, steps, rest, hrun⟩ := forward_eq_ok_iff.mp hsweep
  obtain ⟨u', hclear, hturns⟩ := hrun.turns
  have hbegin := Sweeping.start hu hrun.sources hclear
  obtain ⟨hend, hqueues⟩ := Sweeping.run hu hturns hbegin
  simp only [← hstart.alike.ins_eq, ← hstart.alike.graphAt_eq]
  refine ⟨queue, steps, rest, hrun, hbegin.queue_nodup, hqueues, hend.done_nodup,
    hend.inputs_first, ?_⟩
  rcases eq_or_ne rest [] with rfl | hrest
  · exact .inr ⟨rfl, hend.mem_done_iff hu⟩
  · exact .inl ⟨hrest, hrun.cutoff hrest⟩

/-- Three merges. The first feeds the other two, and the last is queued before the second, which
feeds it too. -/
def crossing : Store where
  rows := .replicate 6 []
  nodes := #[
    { kind := .merge "x", name := "merge", outs := [some ⟨2⟩, some ⟨1⟩], types := ⟨0⟩
      rejected := ⟨1⟩ },
    { kind := .merge "x", name := "merge", ins := [some ⟨0⟩], outs := [some ⟨2⟩], types := ⟨2⟩
      rejected := ⟨3⟩ },
    { kind := .merge "x", name := "merge", ins := [some ⟨0⟩, some ⟨1⟩], types := ⟨4⟩
      rejected := ⟨5⟩ }]
  graphs := #[
    { name := "f", fileName := "f", role := .module, userNames := [], nodes := [⟨0⟩, ⟨1⟩, ⟨2⟩] }]

theorem crossing_isDag : crossing.IsDag ⟨0⟩ :=
  .of_index_lt (by decide) (by decide) (by decide) (by decide)

theorem forward_crossing : ∃ v t, forward .pass ⟨0⟩ [] crossing = .ok v t ∧
    ∃ queue steps rest, ForwardRun .pass ⟨0⟩ [] crossing queue steps rest v t ∧
      queue.Nodup ∧ (∀ step ∈ steps, step.queue.Nodup) ∧
      (evaluatedNodes steps).Nodup ∧
      (∀ pre n post, evaluatedNodes steps = pre ++ n :: post →
        ∀ m, some m ∈ (crossing.nodeAt n).ins → m ∈ pre) ∧
      ((rest ≠ [] ∧ steps.length = maxVisits) ∨
        (rest = [] ∧ ∀ n, n ∈ evaluatedNodes steps ↔ n ∈ (crossing.graphAt ⟨0⟩).nodes)) := by
  obtain ⟨v, t, hsweep⟩ : ∃ v t, forward .pass ⟨0⟩ [] crossing = .ok v t :=
    ⟨_, _, by with_unfolding_all rfl⟩
  exact ⟨v, t, hsweep, forward_evaluates_inputs_first crossing_isDag .first hsweep⟩

end Eval
end TypeFlow
