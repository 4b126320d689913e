import Mathlib.Data.List.Perm.Subperm
import Mathlib.Data.Nat.Find
import TypeFlow.Proofs.Settle

/-!
# The backward pass ends

A round of the backward pass settles every node that has rejected types. What is pending after a
round was put there by an output, so after `k` rounds every node with rejected types begins a
path of more than `k` nodes. In a graph without cycles no path is longer than the longest one,
and the pass ends after at most that many rounds.
-/

namespace TypeFlow

namespace Store

variable {s t : Store} {g : GraphId} {p : List NodeId}

/-- Nodes of a graph each of which feeds the next one. -/
structure IsPath (s : Store) (g : GraphId) (p : List NodeId) : Prop where
  mem : ∀ n ∈ p, n ∈ (s.graphAt g).nodes
  chain : p.IsChain (s.Feeds g)

/-- The number of nodes on a longest path. -/
structure IsLongest (s : Store) (g : GraphId) (length : Nat) : Prop where
  path : ∃ p, s.IsPath g p ∧ p.length = length
  le : ∀ p, s.IsPath g p → p.length ≤ length

theorem Alike.isPath_iff (h : s.Alike Node.edges t) : t.IsPath g p ↔ s.IsPath g p :=
  ⟨fun hp => ⟨h.graphAt_eq g ▸ hp.mem, h.feeds_eq g ▸ hp.chain⟩,
    fun hp => ⟨(h.graphAt_eq g).symm ▸ hp.mem, (h.feeds_eq g).symm ▸ hp.chain⟩⟩

theorem Alike.isLongest_iff (h : s.Alike Node.edges t) {length : Nat} :
    t.IsLongest g length ↔ s.IsLongest g length := by
  constructor <;> rintro ⟨hpath, hle⟩
  · exact ⟨by simpa only [h.isPath_iff] using hpath, by simpa only [h.isPath_iff] using hle⟩
  · exact ⟨by simpa only [h.isPath_iff] using hpath, by simpa only [h.isPath_iff] using hle⟩

theorem IsPath.nodup (h : s.IsPath g p) (hdag : s.IsDag g) : p.Nodup := by
  have htrans := h.chain.imp fun _ _ hf => Relation.TransGen.single hf
  refine (List.isChain_iff_pairwise.mp htrans).imp ?_
  rintro m n hmn rfl
  exact hdag.acyclic m hmn

theorem IsPath.length_le (h : s.IsPath g p) (hdag : s.IsDag g) : p.length ≤ s.nodes.size := by
  have hnodup : (p.map NodeId.index).Nodup :=
    (h.nodup hdag).map fun m n hmn => by cases m; cases n; simp_all
  have hsubset : p.map NodeId.index ⊆ List.range s.nodes.size := by
    intro i hi
    obtain ⟨n, hn, rfl⟩ := List.mem_map.mp hi
    exact List.mem_range.mpr (hdag.stored n (h.mem n hn))
  simpa using (List.subperm_of_subset hnodup hsubset).length_le

theorem IsDag.exists_longest (hdag : s.IsDag g) : ∃ length, s.IsLongest g length := by
  classical
  let P (k : Nat) : Prop := ∃ p, s.IsPath g p ∧ p.length = k
  have hnil : P 0 := ⟨[], ⟨by simp, .nil⟩, rfl⟩
  refine ⟨Nat.findGreatest P s.nodes.size, Nat.findGreatest_spec (Nat.zero_le _) hnil, ?_⟩
  exact fun p hp => Nat.le_findGreatest (hp.length_le hdag) ⟨p, hp, rfl⟩

end Store

namespace Eval

open Store

variable {s t : Store} {g : GraphId} {m n : NodeId} {users : List Document} {b : Bool}
  {queue : List NodeId} {L : Nat}

theorem sideRow_eq_ok {sides r : RowId} {i : Nat} :
    (sideRow sides i).run s = .ok r t ↔ (s.rowAt sides)[i]? = some (.group r) ∧ s = t := by
  simp only [sideRow, Typing.run_bind, bind_of_ok (row_run sides s)]
  cases hget : (s.rowAt sides)[i]? with
  | none => simp
  | some e => cases e <;> simp

/-- A node is said to be rejecting when it has rejected types. -/
theorem isRejecting_eq_ok
    (hsides : (s.nodeAt n).kind.isBranch = true → (s.rowAt (s.nodeAt n).rejected).length ≤ 2)
    (h : (isRejecting n).run s = .ok b t) : t = s ∧ (b = true ↔ s.Pending n) := by
  simp only [isRejecting, Typing.run_bind, bind_of_ok (node_run n s)] at h
  cases hb : (s.nodeAt n).kind.isBranch with
  | false =>
    simp only [hb] at h
    cases h
    refine ⟨rfl, ?_⟩
    have hparts : s.rejectedParts n = [(s.nodeAt n).rejected] := by simp [rejectedParts, parts, hb]
    simp [Pending, hparts]
  | true =>
    have hpending : s.Pending n ↔
        ∃ r, Entry.group r ∈ s.rowAt (s.nodeAt n).rejected ∧ s.rowAt r ≠ [] := by
      simp only [Pending, rejectedParts, mem_parts_of_branch hb]
    simp only [hb, if_true, Typing.run_bind, Typing.run_ite, bind_eq_ok, sideRow_eq_ok,
      row_run, EStateM.Result.ok.injEq] at h
    obtain ⟨left, _, ⟨hleft, rfl⟩, _, _, ⟨rfl, rfl⟩, h⟩ := h
    have hmem := List.mem_of_getElem? hleft
    split at h
    · rename_i hempty
      simp only [bind_eq_ok, sideRow_eq_ok, row_run, Typing.run_pure, pure_apply,
        EStateM.Result.ok.injEq] at h
      obtain ⟨right, _, ⟨hright, rfl⟩, _, _, ⟨rfl, rfl⟩, rfl, rfl⟩ := h
      have hrow : s.rowAt (s.nodeAt n).rejected = [.group left, .group right] := by
        have hle := hsides hb
        rcases hrow : s.rowAt (s.nodeAt n).rejected with _ | ⟨a, _ | ⟨b, _ | ⟨c, rest⟩⟩⟩ <;>
          simp_all
      refine ⟨rfl, ?_⟩
      simp only [hpending, hrow]
      simp_all
    · rename_i hfull
      cases h
      exact ⟨rfl, iff_of_true rfl (hpending.mpr ⟨left, hmem, by simpa using hfull⟩)⟩

theorem rejecting_eq_ok (ho : s.Orderly g) (h : (rejecting g).run s = .ok queue t) :
    t = s ∧ ∀ n, n ∈ queue ↔ n ∈ (s.graphAt g).nodes ∧ s.Pending n := by
  refine Typing.mem_filterM (fun n hn b u hb => ?_) h
  exact isRejecting_eq_ok (ho.kept.sides_le n hn) hb

/-- What a part of a backward pass leaves: the same graph, and at every node at most the types
that it had. -/
structure Backed (s : Store) (g : GraphId) (t : Store) : Prop where
  alike : s.Alike Node.unrejected t
  typeParts_eq : ∀ n ∈ (s.graphAt g).nodes, t.typeParts n = s.typeParts n
  types_trimmed : ∀ n ∈ (s.graphAt g).nodes, ∀ p ∈ s.typeParts n, (t.rowAt p).Sublist (s.rowAt p)

namespace Backed

theorem refl (s : Store) (g : GraphId) : Backed s g s :=
  ⟨refl_of _ s, fun _ _ => rfl, fun _ _ _ _ => .refl _⟩

theorem trans {u : Store} (h₁ : Backed s g t) (h₂ : Backed t g u) : Backed s g u where
  alike := trans_of _ h₁.alike h₂.alike
  typeParts_eq n hn :=
    (h₂.typeParts_eq n (h₁.alike.graphAt_eq g ▸ hn)).trans (h₁.typeParts_eq n hn)
  types_trimmed n hn p hp :=
    (h₂.types_trimmed n (h₁.alike.graphAt_eq g ▸ hn) p (h₁.typeParts_eq n hn ▸ hp)).trans
      (h₁.types_trimmed n hn p hp)

end Backed

/-- Settling nodes one after the other. What is pending afterwards was so before at a node that is
not among them, or feeds one of them. -/
theorem forM_reject (ho : s.Orderly g) (hmem : ∀ n ∈ queue, n ∈ (s.graphAt g).nodes)
    (h : queue.forM (reject users) s = .ok () t) :
    t.Orderly g ∧ Backed s g t ∧ ∀ m ∈ (s.graphAt g).nodes, t.Pending m →
      (s.Pending m ∧ m ∉ queue) ∨ ∃ n ∈ queue, s.Feeds g m n := by
  induction queue generalizing s with
  | nil =>
    cases h
    exact ⟨ho, .refl _ g, fun m _ hp => .inl ⟨hp, List.not_mem_nil⟩⟩
  | cons n queue ih =>
    obtain ⟨⟨⟩, u, hn, hrest⟩ := bind_eq_ok.mp h
    have hsettled := reject_settles ho (hmem n (.head _)) hn
    have hgraph := hsettled.alike.graphAt_eq g
    have hfeeds := hsettled.alike.edges.feeds_eq g
    obtain ⟨hot, hbacked, hpending⟩ :=
      ih (hsettled.orderly ho) (fun m hm => hgraph ▸ hmem m (.tail _ hm)) hrest
    refine ⟨hot, .trans ⟨hsettled.alike, hsettled.typeParts_eq, hsettled.types_trimmed⟩ hbacked,
      fun m hm hp => ?_⟩
    rcases hpending m (hgraph ▸ hm) hp with ⟨hu, hnot⟩ | ⟨k, hk, hf⟩
    · have hne : m ≠ n := fun heq => hsettled.not_pending (heq ▸ hu)
      rcases hsettled.fed m hm hne hu with hs | hf
      · exact .inl ⟨hs, by simp [hne, hnot]⟩
      · exact .inr ⟨n, .head _, hf⟩
    · exact .inr ⟨k, .tail _ hk, hfeeds ▸ hf⟩

/-- What is pending after a round feeds a node at which something was pending before. A round
without work changes nothing. -/
theorem round_eq_ok (ho : s.Orderly g) (h : round g users s = .ok b t) :
    t.Orderly g ∧ Backed s g t ∧ (∀ m ∈ (s.graphAt g).nodes, t.Pending m →
        ∃ n ∈ (s.graphAt g).nodes, s.Pending n ∧ s.Feeds g m n) ∧
      (b = true → ∃ n ∈ (s.graphAt g).nodes, s.Pending n) ∧
      (b = false → t = s ∧ ∀ n ∈ (s.graphAt g).nodes, ¬ s.Pending n) := by
  simp only [round, liftM_eq_run, bind_eq_ok, pure_apply, EStateM.Result.ok.injEq] at h
  obtain ⟨queue, s', hqueue, ⟨⟩, u, hrun, rfl, rfl⟩ := h
  obtain ⟨rfl, hmem⟩ := rejecting_eq_ok ho hqueue
  obtain ⟨hot, hbacked, hpending⟩ := forM_reject ho (fun n hn => ((hmem n).mp hn).1) hrun
  refine ⟨hot, hbacked, fun m hm hp => ?_, fun hb => ?_, fun hb => ?_⟩
  · rcases hpending m hm hp with ⟨hs, hnot⟩ | ⟨n, hn, hf⟩
    · exact absurd ((hmem m).mpr ⟨hm, hs⟩) hnot
    · exact ⟨n, ((hmem n).mp hn).1, ((hmem n).mp hn).2, hf⟩
  · cases queue with
    | nil => simp at hb
    | cons n rest => exact ⟨n, (hmem n).mp (.head _)⟩
  · cases queue with
    | nil =>
      cases hrun
      exact ⟨rfl, fun n hn hp => List.not_mem_nil ((hmem n).mpr ⟨hn, hp⟩)⟩
    | cons n rest => simp at hb

/-- Rounds of a backward pass, each of which has something to settle. -/
inductive Rounds (g : GraphId) (users : List Document) : Nat → Store → Store → Prop where
  | none (s : Store) : Rounds g users 0 s s
  | next {k : Nat} {s t u : Store} (hround : round g users s = .ok true t)
      (hrest : Rounds g users k t u) : Rounds g users (k + 1) s u

/-- A backward pass before which every node with rejected types begins a path of more than `j`
nodes. -/
theorem backwardFrom_ends {j fuel : Nat} (ho : s.Orderly g) (hL : s.IsLongest g L)
    (hstart : ∀ n ∈ (s.graphAt g).nodes, s.Pending n → ∃ p, s.IsPath g (n :: p) ∧ p.length = j)
    (hj : j ≤ L) (hfuel : L < j + fuel) :
    ∃ k t, j + k ≤ L ∧ Rounds g users k s t ∧ Backed s g t ∧
      ((backwardFrom g users fuel s = .ok () t ∧ ∀ n ∈ (s.graphAt g).nodes, ¬ t.Pending n) ∨
        ∃ e t', round g users t = .error e t' ∧ backwardFrom g users fuel s = .error e t') := by
  induction fuel generalizing s j with
  | zero => omega
  | succ fuel ih =>
    cases hround : round g users s with
    | error e t' =>
      refine ⟨0, s, hj, .none s, .refl s g, .inr ⟨e, t', hround, ?_⟩⟩
      rw [backwardFrom, bind_apply, hround]
    | ok b t =>
      have hunfold : backwardFrom g users (fuel + 1) s =
          (if b then backwardFrom g users fuel else pure ()) t := by
        rw [backwardFrom, bind_of_ok hround]
      obtain ⟨hot, hbacked, hfed, hsome, hnone⟩ := round_eq_ok ho hround
      cases b with
      | false =>
        obtain ⟨rfl, hidle⟩ := hnone rfl
        exact ⟨0, t, hj, .none t, .refl t g, .inl ⟨hunfold, hidle⟩⟩
      | true =>
        have halike := hbacked.alike.edges
        obtain ⟨n, hn, hp⟩ := hsome rfl
        obtain ⟨p, hpath, rfl⟩ := hstart n hn hp
        have hstart' : ∀ m ∈ (t.graphAt g).nodes, t.Pending m →
            ∃ q, t.IsPath g (m :: q) ∧ q.length = p.length + 1 := by
          intro m hm hp
          rw [halike.graphAt_eq] at hm
          obtain ⟨n, hn, hpn, hf⟩ := hfed m hm hp
          obtain ⟨q, hq, hlen⟩ := hstart n hn hpn
          refine ⟨n :: q, halike.isPath_iff.mpr ⟨?_, hq.chain.cons_cons hf⟩, by simp [hlen]⟩
          exact List.forall_mem_cons.mpr ⟨hm, hq.mem⟩
        obtain ⟨k, u, hk, hrounds, hback, hend⟩ :=
          ih hot (halike.isLongest_iff.mpr hL) hstart' (hL.le _ hpath) (by omega)
        refine ⟨k + 1, u, by omega, .next hround hrounds, hbacked.trans hback, ?_⟩
        rw [hunfold]
        rwa [halike.graphAt_eq] at hend

theorem longest_lt_rounds (hdag : s.IsDag g) (hL : s.IsLongest g L) : L < rounds s := by
  obtain ⟨p, hp, rfl⟩ := hL.path
  have hle := hp.length_le hdag
  have := Nat.le_mul_of_pos_right (s.nodes.size + 1)
    (Nat.succ_pos (s.rows.foldl (fun sum r => sum + r.length) 0 + s.nodes.size + 1))
  exact Nat.lt_of_lt_of_le (Nat.lt_succ_of_le hle) this

/-- A backward pass raises a fault in some round, or it stops after at most as many rounds as the
longest path has nodes. When it stops nothing is rejected any more, and no row of types of a node
has gained an entry. -/
theorem backward_ends_and_only_removes (ho : s.Orderly g) :
    ∃ L, s.IsLongest g L ∧ ∃ k ≤ L, ∃ t, Rounds g (s.graphAt g).userNames k s t ∧
      ((backward g s = .ok () t ∧ (∀ n ∈ (s.graphAt g).nodes, ¬ t.Pending n) ∧
          ∀ n ∈ (s.graphAt g).nodes, t.typeParts n = s.typeParts n ∧
            ∀ p ∈ s.typeParts n, (t.rowAt p).Sublist (s.rowAt p)) ∨
        ∃ e t', round g (s.graphAt g).userNames t = .error e t' ∧ backward g s = .error e t') := by
  obtain ⟨L, hL⟩ := ho.dag.exists_longest
  have hstart : ∀ n ∈ (s.graphAt g).nodes, s.Pending n → ∃ p, s.IsPath g (n :: p) ∧ p.length = 0 :=
    fun n hn _ => ⟨[], ⟨by simpa using hn, .singleton n⟩, rfl⟩
  obtain ⟨k, t, hk, hrounds, hbacked, hend⟩ := backwardFrom_ends ho hL hstart (Nat.zero_le L)
    (Nat.zero_add (rounds s) ▸ longest_lt_rounds ho.dag hL)
  have hunfold : backward g s = backwardFrom g (s.graphAt g).userNames (rounds s) s := rfl
  refine ⟨L, hL, k, by omega, t, hrounds, ?_⟩
  rw [hunfold]
  rcases hend with ⟨hok, hidle⟩ | hraise
  · exact .inl ⟨hok, hidle, fun n hn => ⟨hbacked.typeParts_eq n hn, hbacked.types_trimmed n hn⟩⟩
  · exact .inr hraise

/-- A symbol with two types, a branch that splits them, and the symbols on its two sides. The
first of these rejects its type. -/
def splitting : Store where
  types := #[
    { name := "int", category := .builtin, elements := ⟨13⟩, keys := ⟨14⟩, values := ⟨15⟩ },
    { name := "str", category := .builtin, elements := ⟨13⟩, keys := ⟨14⟩, values := ⟨15⟩ }]
  rows := #[[], [.type ⟨0⟩, .type ⟨1⟩], [], [.group ⟨4⟩, .group ⟨5⟩], [.type ⟨0⟩], [.type ⟨1⟩],
    [.group ⟨7⟩, .group ⟨8⟩], [], [], [.type ⟨0⟩], [.type ⟨0⟩], [.type ⟨1⟩], [], [], [], []]
  nodes := #[
    { kind := .symbol { symbol := "x", order := 0 }, name := "x", outs := [some ⟨1⟩]
      types := ⟨1⟩, rejected := ⟨2⟩ },
    { kind := .branch (some "x") ⟨13⟩, name := "branch", ins := [some ⟨0⟩]
      outs := [some ⟨2⟩, some ⟨3⟩], types := ⟨3⟩, rejected := ⟨6⟩ },
    { kind := .symbol { symbol := "x", order := 1 }, name := "x", ins := [some ⟨1⟩]
      types := ⟨9⟩, rejected := ⟨10⟩ },
    { kind := .symbol { symbol := "x", order := 2 }, name := "x", ins := [some ⟨1⟩]
      types := ⟨11⟩, rejected := ⟨12⟩ }]
  graphs := #[
    { name := "f", fileName := "f", role := .module, userNames := []
      nodes := [⟨0⟩, ⟨1⟩, ⟨2⟩, ⟨3⟩] }]

theorem splitting_orderly : splitting.Orderly ⟨0⟩ := by
  refine ⟨.of_index_lt (by decide) (by decide) (by decide) (by decide),
    ⟨by decide, by decide, by decide, by decide, by decide, ?_⟩, ?_⟩
  · have houter : ∀ b ∈ (splitting.graphAt ⟨0⟩).nodes,
        (splitting.nodeAt b).kind.isBranch = true → (splitting.nodeAt b).types = ⟨3⟩ := by decide
    rintro r ⟨b, hb, hbranch, rfl⟩
    rw [houter b hb hbranch]
    refine ⟨by decide, fun c => ?_⟩
    rcases c with ⟨_ | _ | i⟩
    · decide
    · decide
    · have hcell : splitting.typeAt ⟨i + 1 + 1⟩ = default := by simp [splitting, typeAt]
      rw [hcell]
      decide
  · have hout : ∀ b ∈ (splitting.graphAt ⟨0⟩).nodes, (splitting.nodeAt b).kind.isBranch = true →
        (splitting.nodeAt b).outs = [some ⟨2⟩, some ⟨3⟩] := by decide
    intro b hb hbranch n hn
    rw [hout b hb hbranch] at hn
    simp only [List.mem_cons, Option.some.injEq, List.not_mem_nil, or_false] at hn
    rcases hn with rfl | rfl <;> decide

/-- The type rejected at the first side of the branch goes back to the symbol before it. -/
theorem backward_splitting :
    splitting.Orderly ⟨0⟩ ∧ splitting.Pending ⟨2⟩ ∧
      ∃ L, splitting.IsLongest ⟨0⟩ L ∧ ∃ k ≤ L, ∃ t, Rounds ⟨0⟩ [] k splitting t ∧
        ((backward ⟨0⟩ splitting = .ok () t ∧
            (∀ n ∈ (splitting.graphAt ⟨0⟩).nodes, ¬ t.Pending n) ∧
            ∀ n ∈ (splitting.graphAt ⟨0⟩).nodes, t.typeParts n = splitting.typeParts n ∧
              ∀ p ∈ splitting.typeParts n, (t.rowAt p).Sublist (splitting.rowAt p)) ∨
          ∃ e t', round ⟨0⟩ [] t = .error e t' ∧ backward ⟨0⟩ splitting = .error e t') :=
  ⟨splitting_orderly, ⟨⟨10⟩, by decide, by decide⟩,
    backward_ends_and_only_removes splitting_orderly⟩

end Eval
end TypeFlow
