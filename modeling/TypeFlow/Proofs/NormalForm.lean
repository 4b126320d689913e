import Mathlib.Data.List.Pairwise
import Mathlib.Logic.Relation
import TypeFlow.Proofs.Comparing

/-!
# Simplified rows

Simplifying a row drops types that are identical to an earlier one and then types that are
included in another one, and it does the same inside of containers first. Where no cell is shared,
what is done to one type leaves the others alone, so each comparison is one of simplified shapes
and still holds in the end. The result has nothing left to drop at any depth, and simplifying it
again changes nothing.
-/

namespace TypeFlow

open Text Store Eval List Prod Shape Function

variable {t : TypeId} {simplify : TypeId → Typing Unit} {s u : Store} {es : List Entry}
  {ids : List TypeId} {a : Shape} {as bs : List Shape} {mid : List (Entry × Shape)} {n : Nat}
  {part' : Side → List Shape} {cells cells' : Side → List TypeId} {side : Side}

/-! ## Lists with members dropped -/

section Lists

variable {α : Type} {R : α → α → Prop} {ps qs : List α} {p q : α}

/-- Members are dropped that stand in a relation to one that is kept. -/
structure Sieves (R : α → α → Prop) (ps qs : List α) : Prop where
  sublist : qs.Sublist ps
  covers : ∀ p ∈ ps, p ∈ qs ∨ ∃ q ∈ qs, R p q
  apart : qs.Pairwise fun q p => ¬ R p q
  kept : (ps.Pairwise fun q p => ¬ R p q) → qs = ps

theorem Sieves.nil : Sieves R [] [] :=
  ⟨Sublist.refl _, by simp, Pairwise.nil, fun _ => rfl⟩

theorem Sieves.skip (h : Sieves R ps qs) (hp : ∃ q ∈ qs, R p q) : Sieves R (ps ++ [p]) qs where
  sublist := h.sublist.trans (sublist_append_left _ _)
  covers := by
    rw [forall_mem_append]
    exact ⟨h.covers, by simpa using .inr hp⟩
  apart := h.apart
  kept hapart := by
    obtain ⟨q, hq, hpq⟩ := hp
    rw [pairwise_append] at hapart
    exact absurd hpq (hapart.2.2 q (h.sublist.subset hq) p mem_cons_self)

theorem Sieves.keep (h : Sieves R ps qs) (hp : ∀ q ∈ qs, ¬ R p q) :
    Sieves R (ps ++ [p]) (qs ++ [p]) where
  sublist := h.sublist.append_right [p]
  covers := by
    rw [forall_mem_append]
    refine ⟨fun x hx => ?_, by simp⟩
    obtain hx | ⟨q, hq, hxq⟩ := h.covers x hx
    · exact .inl (mem_append_left _ hx)
    · exact .inr ⟨q, mem_append_left _ hq, hxq⟩
  apart := by
    rw [pairwise_append]
    exact ⟨h.apart, pairwise_singleton _ _, by simpa using hp⟩
  kept hapart := by rw [h.kept (pairwise_append.mp hapart).1]

/-- Members are dropped from which the relation leads to one that is kept. -/
structure Drains (R : α → α → Prop) (ps qs : List α) : Prop where
  sublist : qs.Sublist ps
  covers : ∀ p ∈ ps, ∃ q ∈ qs, Relation.ReflTransGen (fun x y => x ∈ ps ∧ y ∈ ps ∧ R x y) p q
  kept : (ps.Pairwise fun p q => ¬ R p q ∧ ¬ R q p) → qs = ps

theorem Drains.refl (ps : List α) : Drains R ps ps :=
  ⟨Sublist.refl _, fun p hp => ⟨p, hp, .refl⟩, fun _ => rfl⟩

theorem Drains.drop {i j : Nat} (hi : ps[i]? = some p) (hj : ps[j]? = some q) (hne : j ≠ i)
    (hpq : R p q) (h : Drains R (ps.eraseIdx i) qs) : Drains R ps qs where
  sublist := h.sublist.trans (eraseIdx_sublist ps i)
  covers x hx := by
    have hcovers (k : Nat) (hk : k ≠ i) (y : α) (hy : ps[k]? = some y) : ∃ z ∈ qs,
        Relation.ReflTransGen (fun x y => x ∈ ps ∧ y ∈ ps ∧ R x y) y z := by
      obtain ⟨z, hz, hyz⟩ := h.covers y (mem_eraseIdx_iff_getElem?.mpr ⟨k, hk, hy⟩)
      have hsub := (eraseIdx_sublist ps i).subset
      refine ⟨z, hz, Relation.ReflTransGen.mono ?_ _ _ hyz⟩
      exact fun _ _ h => ⟨hsub h.1, hsub h.2.1, h.2.2⟩
    obtain ⟨k, hk⟩ := getElem?_of_mem hx
    by_cases hki : k = i
    · obtain rfl : p = x := Option.some.inj (hi.symm.trans (hki ▸ hk))
      obtain ⟨z, hz, hqz⟩ := hcovers j hne q hj
      exact ⟨z, hz, .head ⟨hx, mem_of_getElem? hj, hpq⟩ hqz⟩
    · exact hcovers k hki x hk
  kept hapart := by
    obtain ⟨hi', rfl⟩ := List.getElem?_eq_some_iff.mp hi
    obtain ⟨hj', rfl⟩ := List.getElem?_eq_some_iff.mp hj
    rw [pairwise_iff_getElem] at hapart
    obtain hlt | hlt := Nat.lt_or_gt_of_ne hne
    · exact absurd hpq (hapart j i hj' hi' hlt).2
    · exact absurd hpq (hapart i j hi' hj' hlt).1

end Lists

/-! ## Simplified shapes -/

namespace Shape

/-- No shape is the same as an earlier one or within another one. -/
def Apart (as : List Shape) : Prop :=
  as.Pairwise fun a b => ¬ b.Same a ∧ ¬ a.Within b ∧ ¬ b.Within a

/-- There is nothing to drop, at any depth that is simplified. -/
inductive Settled : Shape → Prop
  | mk {a : Shape} (apart : ∀ side ∈ simplifiedSides a.name, Apart (a.side side))
      (contents : ∀ side ∈ simplifiedSides a.name, ∀ b ∈ a.side side, Settled b) : Settled a

end Shape

def TypeCell.withoutRows (c : TypeCell) : TypeCell :=
  { c with elements := ⟨0⟩, keys := ⟨0⟩, values := ⟨0⟩ }

namespace Store

variable {w : Store} {r : RowId} {e : Entry} {outs : List Entry} {jds : List TypeId} {b : Shape}
  {p : Entry × Shape} {ps qs rs : List (Entry × Shape)}

/-- A type has an orderly shape, within the listed cells and without sharing. -/
structure Bears (s : Store) (ids : List TypeId) (p : Entry × Shape) : Prop where
  orderly : p.2.Orderly
  shows : ∃ jds, s.Shows p.2 p.1 jds ∧ jds.Nodup ∧ jds ⊆ ids

namespace Bears

theorem frame (h : s.Bears ids p) (hframe : Frame jds s u) (hdisjoint : ids.Disjoint jds) :
    u.Bears ids p := by
  obtain ⟨kds, hshows, hnodup, hsub⟩ := h.shows
  exact ⟨h.orderly, kds, hshows.frame hframe (disjoint_of_subset_left hsub hdisjoint), hnodup, hsub⟩

theorem mono (h : s.Bears ids p) (hsub : ids ⊆ jds) : s.Bears jds p := by
  obtain ⟨kds, hshows, hnodup, hkds⟩ := h.shows
  exact ⟨h.orderly, kds, hshows, hnodup, Subset.trans hkds hsub⟩

theorem exists_has (h : s.Bears ids p) : ∃ t, p.1 = .type t ∧ (s.unfoldType s.depth t).Has p.2 := by
  obtain ⟨jds, hshows, hnodup, -⟩ := h.shows
  have hlength := length_le_of_nodup hnodup hshows.index_lt
  obtain ⟨t, ht, -⟩ := hshows.exists_type
  rw [ht] at hshows
  exact ⟨t, ht, hshows.has (by rw [depth]; omega)⟩

theorem trees_has (h : ∀ p ∈ ps, s.Bears ids p) :
    Item.Has ((ps.map fst).map (unfoldItem (s.unfoldType s.depth) (s.unfoldRow s.depth)))
      (ps.map snd) := by
  induction ps with
  | nil => rfl
  | cons p ps ih =>
    obtain ⟨hp, hps⟩ := forall_mem_cons.mp h
    obtain ⟨t, ht, hhas⟩ := hp.exists_has
    rw [map_cons, map_cons, ht]
    exact ⟨p.2, _, rfl, hhas, ih hps⟩

theorem snd_orderly (h : ∀ p ∈ ps, s.Bears ids p) : ∀ a ∈ ps.map snd, a.Orderly := by
  rw [forall_mem_map]
  exact fun p hp => (h p hp).orderly

end Bears

theorem ShowsAll.bears (h : s.ShowsAll (ps.map snd) (ps.map fst) ids) (hnodup : ids.Nodup)
    (hps : ∀ p ∈ ps, p.2.Orderly) : ∀ p ∈ ps, s.Bears ids p := by
  induction ps generalizing ids with
  | nil => simp
  | cons p ps ih =>
    rw [map_cons, map_cons, ShowsAll] at h
    obtain ⟨_, _, first, others, heq, rfl, hp, hrest⟩ := h
    obtain ⟨rfl, rfl⟩ := cons.inj heq
    obtain ⟨hop, hops⟩ := forall_mem_cons.mp hps
    have hfirst := sublist_append_left first others
    have hothers := sublist_append_right first others
    rw [forall_mem_cons]
    exact ⟨⟨hop, first, hp, hfirst.nodup hnodup, hfirst.subset⟩, fun q hq =>
      (ih hrest (hothers.nodup hnodup) hops q hq).mono hothers.subset⟩

theorem ShowsAll.nodup (h : s.ShowsAll as es ids) (hnodup : ids.Nodup) : es.Nodup := by
  induction h using ShowsAll.induction with
  | nil => exact nodup_nil
  | cons a as e es first others ha has ih =>
    obtain ⟨t, rfl, ht⟩ := ha.exists_type
    have hothers := sublist_append_right first others
    refine nodup_cons.mpr ⟨fun he => ?_, ih (hothers.nodup hnodup)⟩
    obtain ⟨_, ht', ⟨⟩⟩ := has.exists_mem _ he
    exact disjoint_of_nodup_append hnodup ht ht'

/-- Some of the types take some of the cells, and all of them take all cells. -/
theorem ShowsAll.of_sublist (h : s.ShowsAll (ps.map snd) (ps.map fst) ids)
    (hsub : rs.Sublist ps) : ∃ jds, jds.Sublist ids ∧
      s.ShowsAll (rs.map snd) (rs.map fst) jds ∧ (rs = ps → jds = ids) := by
  have hsome : ∃ jds, jds.Sublist ids ∧ s.ShowsAll (rs.map snd) (rs.map fst) jds := by
    induction hsub generalizing ids with
    | slnil => exact ⟨ids, Sublist.refl _, h⟩
    | @cons rs ps p _ ih =>
      rw [map_cons, map_cons, ShowsAll] at h
      obtain ⟨_, _, first, others, heq, rfl, -, hrest⟩ := h
      obtain ⟨-, rfl⟩ := cons.inj heq
      obtain ⟨jds, hjds, hshows⟩ := ih hrest
      exact ⟨jds, hjds.trans (sublist_append_right _ _), hshows⟩
    | @cons_cons rs ps p _ ih =>
      rw [map_cons, map_cons, ShowsAll] at h
      obtain ⟨_, _, first, others, heq, rfl, hp, hrest⟩ := h
      obtain ⟨rfl, rfl⟩ := cons.inj heq
      obtain ⟨jds, hjds, hshows⟩ := ih hrest
      exact ⟨first ++ jds, hjds.append_left first, .cons hp hshows⟩
  by_cases hall : rs = ps
  · exact ⟨ids, Sublist.refl _, hall ▸ h, fun _ => rfl⟩
  · obtain ⟨jds, hjds, hshows⟩ := hsome
    exact ⟨jds, hjds, hshows, fun heq => absurd heq hall⟩

/-! ## Simplified types -/

/-- Types have changed in nothing but their rows. -/
def SameButRows (s u : Store) : Prop :=
  ∀ t, (u.typeAt t).withoutRows = (s.typeAt t).withoutRows

theorem SameButRows.trans (h₁ : SameButRows s u) (h₂ : SameButRows u w) : SameButRows s w :=
  fun t => (h₂ t).trans (h₁ t)

theorem SameButRows.put (side : Side) (hw : w = { u with
    types := u.types.modify t.index (·.setRow r side), rows := u.rows.push outs }) :
    SameButRows u w := by
  intro c
  rw [hw]
  refine (congrArg TypeCell.withoutRows (typeAt_modify _ t _ c)).trans ?_
  split
  · rename_i hc
    rw [hc.1]
    cases side <;> rfl
  · rfl

/-- A type is simplified in its cells, and nothing else has changed; a simplified one is as
before. -/
structure Renews (a : Shape) (ids : List TypeId) (s u : Store) (e : Entry) (b : Shape)
    (jds : List TypeId) : Prop where
  frame : Frame ids s u
  cells_eq : SameButRows s u
  shows : u.Shows b e jds
  cells : jds.Sublist ids
  orderly : b.Orderly
  settled : b.Settled
  kept : a.Settled → b = a ∧ jds = ids

/-- Types are simplified in their cells. -/
structure RenewsAll (as : List Shape) (ids : List TypeId) (s u : Store)
    (ps : List (Entry × Shape)) (jds : List TypeId) : Prop where
  frame : Frame ids s u
  cells_eq : SameButRows s u
  shows : u.ShowsAll (ps.map snd) (ps.map fst) jds
  cells : jds.Sublist ids
  orderly : ∀ p ∈ ps, p.2.Orderly
  settled : ∀ p ∈ ps, p.2.Settled
  kept : (∀ a ∈ as, a.Settled) → ps.map snd = as ∧ jds = ids

/-- The first type is simplified, and then the others. -/
theorem RenewsAll.cons (hnodup : (ids ++ jds).Nodup) {ids' jds' : List TypeId}
    (h₁ : Renews a ids s u e b ids') (h₂ : RenewsAll as jds u w ps jds') :
    RenewsAll (a :: as) (ids ++ jds) s w ((e, b) :: ps) (ids' ++ jds') where
  frame := (h₁.frame.mono (subset_append_left _ _)).trans (h₂.frame.mono (subset_append_right _ _))
  cells_eq := h₁.cells_eq.trans h₂.cells_eq
  shows := by
    have hdisjoint : ids'.Disjoint jds := disjoint_of_subset_left h₁.cells.subset
      (disjoint_of_nodup_append hnodup)
    rw [map_cons, map_cons, ShowsAll]
    exact ⟨e, _, ids', jds', rfl, rfl, h₁.shows.frame h₂.frame hdisjoint, h₂.shows⟩
  cells := h₁.cells.append h₂.cells
  orderly := forall_mem_cons.mpr ⟨h₁.orderly, h₂.orderly⟩
  settled := forall_mem_cons.mpr ⟨h₁.settled, h₂.settled⟩
  kept hall := by
    obtain ⟨ha, has⟩ := forall_mem_cons.mp hall
    obtain ⟨rfl, rfl⟩ := h₁.kept ha
    obtain ⟨hshapes, rfl⟩ := h₂.kept has
    exact ⟨by rw [map_cons, hshapes], rfl⟩

/-- A computation simplifies every orderly type that takes a limited number of cells. -/
def Settles (n : Nat) (x : TypeId → Typing Unit) : Prop :=
  ∀ (t : TypeId) (a : Shape) (ids : List TypeId) (s : Store), s.Shows a (.type t) ids →
    ids.Nodup → a.Orderly → ids.length ≤ n →
    Ends (x t).run s fun _ u => ∃ b jds, Renews a ids s u (.type t) b jds

/-- What simplifying a row comes to: all types `ps` are simplified, of which `mid` are distinct
and `rs` are left. -/
structure Reduces (as : List Shape) (ids : List TypeId) (s u : Store)
    (ps mid rs : List (Entry × Shape)) (jds : List TypeId) : Prop where
  renews : RenewsAll as ids s u ps jds
  sieves : Sieves (fun p q => p.2.Same q.2) ps mid
  drains : Drains (fun p q => p.2.Within q.2) mid rs
  none_within : rs.Pairwise fun p q => ¬ p.2.Within q.2 ∧ ¬ q.2.Within p.2

namespace Reduces

section

variable (h : Reduces as ids s u ps mid rs jds)

include h

theorem sublist : rs.Sublist ps :=
  h.drains.sublist.trans h.sieves.sublist

theorem bears (hnodup : ids.Nodup) : ∀ p ∈ ps, u.Bears jds p :=
  h.renews.shows.bears (h.renews.cells.nodup hnodup) h.renews.orderly

theorem apart : Apart (rs.map snd) := by
  rw [Apart, pairwise_map]
  exact ((h.sieves.apart.sublist h.drains.sublist).and h.none_within).imp fun h => ⟨h.1, h.2⟩

theorem kept (hall : ∀ a ∈ as, a.Settled)
    (hapart : Apart as) : rs = ps ∧ ps.map snd = as ∧ jds = ids := by
  obtain ⟨hshapes, hids⟩ := h.renews.kept hall
  rw [← hshapes, Apart, pairwise_map] at hapart
  have hmid : mid = ps := h.sieves.kept (hapart.imp fun h => h.1)
  have hrs : rs = mid := h.drains.kept (by rw [hmid]; exact hapart.imp fun h => h.2)
  exact ⟨hrs.trans hmid, hshapes, hids⟩

end

end Reduces
end Store

namespace Eval

variable {w : Store} {done : List TypeId} {ps qs : List (Entry × Shape)} {p : Entry × Shape}

theorem existSame_of_bears (hp : s.Bears ids p) (hqs : ∀ q ∈ qs, s.Bears done q) :
    ∃ x, (existSame p.1 (qs.map fst)).run s = .ok x s ∧ (x = true ↔ ∃ q ∈ qs, p.2.Same q.2) := by
  obtain ⟨t, ht, hhas⟩ := hp.exists_has
  obtain ⟨x, hx, hsame⟩ := Shape.existSame_run hp.orderly (Bears.snd_orderly hqs) hhas
    (Bears.trees_has hqs) s
  rw [ht]
  refine ⟨x, hx, hsame.trans ?_⟩
  simp only [mem_map, exists_exists_and_eq_and]

theorem identical_of_bears {q : Entry × Shape} (hp : s.Bears ids p) (hq : s.Bears done q) :
    ∃ x, (identical p.1 q.1).run s = .ok x s ∧ (x = true ↔ p.2.Same q.2) := by
  obtain ⟨t, ht, htp⟩ := hp.exists_has
  obtain ⟨u, hu, huq⟩ := hq.exists_has
  rw [ht, hu]
  exact identical_run hp.orderly hq.orderly htp huq s

theorem inclusion_of_bears {q : Entry × Shape} (hp : s.Bears ids p) (hq : s.Bears done q) :
    ∃ o, (inclusion p.1 q.1).run s = .ok o s ∧ (o = some true ↔ p.2.Within q.2) := by
  obtain ⟨t, ht, htp⟩ := hp.exists_has
  obtain ⟨u, hu, huq⟩ := hq.exists_has
  rw [ht, hu]
  exact inclusion_run hp.orderly hq.orderly htp huq s

/-- Simplify an entry and add it to others if none of them is identical to it. -/
def siftBy (simplify : TypeId → Typing Unit) (outs : List Entry) (e : Entry) :
    Typing (List Entry) := do
  match e with
  | .type t => simplify t
  | _ => pure ()
  if ← existSame e outs then return outs else return outs ++ [e]

theorem siftBy_ends (hx : Settles n simplify) (ha : s.Shows a (.type t) ids) (hnodup : ids.Nodup)
    (hoa : a.Orderly) (hn : ids.length ≤ n) (hqs : ∀ q ∈ qs, s.Bears done q)
    (hdone : done.Disjoint ids) :
    Ends (siftBy simplify (qs.map fst) (.type t)).run s fun outs u =>
      ∃ b jds, Renews a ids s u (.type t) b jds ∧ (outs = qs.map fst ∧ (∃ q ∈ qs, b.Same q.2) ∨
          outs = (qs ++ [(Entry.type t, b)]).map fst ∧ ∀ q ∈ qs, ¬ b.Same q.2) := by
  refine (hx t a ids s ha hnodup hoa hn).bind ?_
  rintro _ u ⟨b, jds, hb⟩
  have hbears : u.Bears jds (.type t, b) :=
    ⟨hb.orderly, jds, hb.shows, hb.cells.nodup hnodup, Subset.refl _⟩
  obtain ⟨x, hrun, hsame⟩ := existSame_of_bears hbears fun q hq => (hqs q hq).frame hb.frame hdone
  refine Ends.step hrun ?_
  cases x with
  | true => exact Ends.of_eq rfl ⟨b, jds, hb, .inl ⟨rfl, hsame.mp rfl⟩⟩
  | false =>
    refine Ends.of_eq rfl ⟨b, jds, hb, .inr ⟨by simp, fun q hq hbq => ?_⟩⟩
    exact absurd (hsame.mpr ⟨q, hq, hbq⟩) (by decide)

/-- Types that are the same as an earlier one are dropped. -/
theorem foldlM_siftBy_ends (hx : Settles n simplify) (h : s.ShowsAll as es ids)
    (hnodup : ids.Nodup) (has : ∀ a ∈ as, a.Orderly) (hn : ids.length ≤ n)
    (hps : ∀ p ∈ ps, s.Bears done p) (hdone : done.Disjoint ids)
    (hqs : Sieves (fun p q => p.2.Same q.2) ps qs) :
    Ends (es.foldlM (siftBy simplify) (qs.map fst)).run s fun outs u =>
      ∃ ps' qs' jds, es = ps'.map fst ∧ outs = qs'.map fst ∧
        RenewsAll as ids s u ps' jds ∧ Sieves (fun p q => p.2.Same q.2) (ps ++ ps') qs' := by
  induction as generalizing s es ids ps qs done with
  | nil =>
    rw [ShowsAll] at h
    obtain ⟨rfl, rfl⟩ := h
    exact Ends.of_eq rfl ⟨[], qs, [], rfl, rfl, ⟨Frame.refl _ s, fun _ => rfl, showsAll_nil,
      Sublist.refl _, by simp, by simp, fun _ => ⟨rfl, rfl⟩⟩, by rwa [append_nil]⟩
  | cons a as ih =>
    rw [ShowsAll] at h
    obtain ⟨e, rest, first, others, rfl, rfl, ha, hothers⟩ := h
    obtain ⟨hoa, hoas⟩ := forall_mem_cons.mp has
    obtain ⟨t, rfl, -⟩ := ha.exists_type
    have hfirst := sublist_append_left first others
    have hrest := sublist_append_right first others
    have hapart := disjoint_of_nodup_append hnodup
    have hdone' := disjoint_of_subset_right hfirst.subset hdone
    rw [foldlM_cons]
    refine (siftBy_ends hx ha (hfirst.nodup hnodup) hoa (hfirst.length_le.trans hn)
      (fun q hq => hps q (hqs.sublist.subset hq)) hdone').bind ?_
    rintro outs u ⟨b, jds, hb, houts⟩
    have hp : u.Bears jds (.type t, b) :=
      ⟨hb.orderly, jds, hb.shows, hb.cells.nodup (hfirst.nodup hnodup), Subset.refl _⟩
    have hps' : ∀ p ∈ ps ++ [(Entry.type t, b)], u.Bears (done ++ jds) p := by
      rw [forall_mem_append]
      refine ⟨fun p hp => ?_, by simpa using hp.mono (subset_append_right _ _)⟩
      exact ((hps p hp).frame hb.frame hdone').mono (subset_append_left _ _)
    have hdisjoint : (done ++ jds).Disjoint others := by
      rw [disjoint_append_left]
      exact ⟨disjoint_of_subset_right hrest.subset hdone,
        disjoint_of_subset_left hb.cells.subset hapart⟩
    have hothers' := hothers.frame hb.frame (disjoint_symm hapart)
    obtain ⟨qs', rfl, hqs'⟩ : ∃ qs', outs = qs'.map fst ∧
        Sieves (fun p q => p.2.Same q.2) (ps ++ [(.type t, b)]) qs' := by
      obtain ⟨rfl, hsame⟩ | ⟨rfl, hnone⟩ := houts
      · exact ⟨qs, rfl, hqs.skip hsame⟩
      · exact ⟨_, rfl, hqs.keep hnone⟩
    refine (ih hothers' (hrest.nodup hnodup) hoas (hrest.length_le.trans hn) hps' hdisjoint
      hqs').imp ?_
    rintro outs w ⟨ps', qs'', jds', rfl, rfl, hall, hsieve⟩
    refine ⟨(.type t, b) :: ps', qs'', jds ++ jds', rfl, rfl, RenewsAll.cons hnodup hb hall, ?_⟩
    rwa [append_assoc] at hsieve

/-- Included types are dropped until none is left. -/
theorem dropIncluded_drains (n : Nat) (hqs : ∀ q ∈ qs, s.Bears ids q)
    (hnodup : (qs.map fst).Nodup) :
    Ends (dropIncluded n (qs.map fst)).run s fun outs u => u = s ∧ ∃ rs,
      outs = rs.map fst ∧ Drains (fun p q => p.2.Within q.2) qs rs ∧
      (qs.length < n → rs.Pairwise fun p q => ¬ p.2.Within q.2 ∧ ¬ q.2.Within p.2) := by
  induction n generalizing qs with
  | zero =>
    refine Ends.of_eq rfl ⟨rfl, qs, rfl, Drains.refl qs, fun h => ?_⟩
    exact absurd h (Nat.not_lt_zero _)
  | succ n ih =>
    obtain ⟨o, ho, hsome, hnone⟩ :=
      lastIncluded_run (Bears.snd_orderly hqs) (Bears.trees_has hqs) s
    rw [dropIncluded]
    refine Ends.step (a := (qs.map fst).map _) rfl (Ends.step ho ?_)
    cases o with
    | none =>
      refine Ends.of_eq rfl ⟨rfl, qs, rfl, Drains.refl qs, fun _ => ?_⟩
      rw [pairwise_iff_getElem]
      intro i j hi hj hlt
      have hget {k : Nat} (hk : k < qs.length) : (qs.map snd)[k]? = some qs[k].2 := by simp [hk]
      exact ⟨fun h => hnone rfl i ⟨j, _, _, by omega, hget hi, hget hj, h⟩,
        fun h => hnone rfl j ⟨i, _, _, by omega, hget hj, hget hi, h⟩⟩
    | some i =>
      obtain ⟨j, a, b, hne, hi, hj, hwithin⟩ := hsome i rfl
      rw [getElem?_map, Option.map_eq_some_iff] at hi hj
      obtain ⟨p, hi, rfl⟩ := hi
      obtain ⟨q, hj, rfl⟩ := hj
      obtain ⟨hlt, -⟩ := List.getElem?_eq_some_iff.mp hi
      have herase : (qs.map Prod.fst).erase ((qs.map Prod.fst).getD i .absent) =
          (qs.eraseIdx i).map fst := by
        have hlt' : i < (qs.map fst).length := by rwa [length_map]
        rw [getD_eq_getElem?_getD, getElem?_eq_getElem hlt', Option.getD_some,
          hnodup.erase_getElem, eraseIdx_map]
      have hsub := eraseIdx_sublist qs i
      have hlength : (qs.eraseIdx i).length = qs.length - 1 := length_eraseIdx_of_lt hlt
      dsimp only
      rw [herase]
      refine (ih (fun q hq => hqs q (hsub.subset hq)) ((hsub.map _).nodup hnodup)).imp ?_
      rintro outs u ⟨rfl, rs, rfl, hdrains, hrs⟩
      exact ⟨rfl, rs, rfl, hdrains.drop hi hj hne hwithin, fun h => hrs (by omega)⟩

/-- Simplifying a row keeps distinct types, and of these the ones that no other one includes. -/
theorem maximalBy_reduces (hx : Settles n simplify) (h : s.ShowsAll as es ids) (hnodup : ids.Nodup)
    (has : ∀ a ∈ as, a.Orderly) (hn : ids.length ≤ n) :
    Ends (maximalBy simplify es).run s fun outs u => ∃ ps mid rs jds,
      Reduces as ids s u ps mid rs jds ∧ es = ps.map fst ∧ outs = rs.map fst ∧
      (distinctBy simplify es).run s = .ok (mid.map fst) u := by
  obtain ⟨outs, u, hrun, ps, mid, jds, rfl, rfl, hrenews, hsieves⟩ :=
    foldlM_siftBy_ends hx h hnodup has hn (forall_mem_nil (s.Bears []))
      (disjoint_nil_left _) Sieves.nil
  rw [nil_append] at hsieves
  have hbears := hrenews.shows.bears (hrenews.cells.nodup hnodup) hrenews.orderly
  have hentries := hrenews.shows.nodup (hrenews.cells.nodup hnodup)
  refine Ends.step hrun ((dropIncluded_drains _ (fun p hp => hbears p (hsieves.sublist.subset hp))
    ((hsieves.sublist.map _).nodup hentries)).imp ?_)
  rintro _ _ ⟨rfl, rs, rfl, hdrains, hnone⟩
  exact ⟨ps, mid, rs, jds, ⟨hrenews, hsieves, hdrains, hnone (by simp)⟩, rfl, rfl, hrun⟩

end Eval

/-! ## Types with simplified contents -/

/-- The contents of one row are replaced. -/
theorem Shape.Orderly.update {name : String} {category : Category} {part : Side → List Shape}
    (h : (ofParts name category part).Orderly)
    (hbs : ∀ b ∈ bs, b.Orderly) (hnil : part side = [] → bs = []) :
    (ofParts name category (update part side bs)).Orderly := by
  obtain ⟨cell, optional, contents⟩ := h
  rw [side_ofParts] at optional contents
  refine .mk cell (fun hname => ?_) fun other => ?_
  all_goals rw [side_ofParts]
  · by_cases hside : Side.elements = side
    · rw [← hside, update_self]
      exact hnil (hside ▸ optional hname)
    · rw [update_of_ne hside]
      exact optional hname
  · by_cases hother : other = side
    · subst hother
      rwa [update_self]
    · rw [update_of_ne hother]
      exact contents other

namespace Store

/-- A type in the course of being simplified, with the rows `done` so far. -/
structure Settling (a : Shape) (s : Store) (t : TypeId) (cells : Side → List TypeId)
    (done : List Side) (u : Store) (part' : Side → List Shape) (cells' : Side → List TypeId) : Prop
    extends Holding a (allCells t cells) s u t part' cells' where
  cells_eq : SameButRows s u
  orderly : (ofParts a.name a.category part').Orderly
  settled : ∀ side ∈ done, Apart (part' side) ∧ ∀ b ∈ part' side, b.Settled
  kept : a.Settled → part' = a.side ∧ cells' = cells

theorem Settling.renews (h : Settling a s t cells (simplifiedSides a.name).reverse u part' cells') :
    Renews a (allCells t cells) s u (.type t) (.ofParts a.name a.category part')
      (allCells t cells') where
  frame := h.frame
  cells_eq := h.cells_eq
  shows := h.built.shows_type
  cells := h.sub
  orderly := h.orderly
  settled := by
    have hdone (side : Side) (hside : side ∈ simplifiedSides a.name) :=
      h.settled side (mem_reverse.mpr hside)
    refine .mk ?_ ?_
    · rw [side_ofParts]
      exact fun side hside => (hdone side hside).1
    · rw [side_ofParts]
      exact fun side hside => (hdone side hside).2
  kept ha := by
    obtain ⟨rfl, rfl⟩ := h.kept ha
    exact ⟨ofParts_side a, rfl⟩

end Store

namespace Eval

variable {jds : List TypeId} {ps rs : List (Entry × Shape)} {done : List Side}

theorem simplifyRow_settling (hx : Settles n simplify)
    (h : Settling a s t cells done u part' cells')
    (hnodup : (allCells t cells).Nodup) (hn : (allCells t cells).length ≤ n + 1)
    (hside : side ∈ simplifiedSides a.name) :
    Ends (simplifyRow simplify u t side).run u fun _ w =>
      (∃ part'' cells'', Settling a s t cells (side :: done) w part'' cells'') ∧
        ∀ other, other ≠ side → (w.typeAt t).row other = (u.typeAt t).row other := by
  have horderly (other : Side) : ∀ b ∈ part' other, b.Orderly := by
    obtain ⟨-, -, contents⟩ := h.orderly
    rw [side_ofParts] at contents
    exact contents other
  refine (maximalBy_reduces hx (h.built.shows side) (nodup_cells (h.sub.nodup hnodup) side)
    (horderly side) (h.length_cells hn side)).bind ?_
  rintro _ v ⟨ps, mid, rs, kds, hred, hes, rfl, -⟩
  have hv := hred.renews
  obtain ⟨hcell, hholding⟩ := h.toHolding.contents hnodup hv.frame (hes ▸ hv.shows) hv.cells
  obtain ⟨jds, hjds, hshows, hall⟩ := hv.shows.of_sublist hred.sublist
  have hsub : jds.Sublist (update cells' side kds side) := by simpa using hjds
  obtain ⟨hput, hholding'⟩ := hholding.put hnodup hshows hsub rfl
  rw [update_idem, update_idem] at hholding'
  -- a row that is simplified already loses nothing
  have hkept (hsettled : ∀ b ∈ part' side, b.Settled) (hapart : Apart (part' side)) :
      rs.map snd = part' side ∧ jds = cells' side := by
    obtain ⟨hrs, hshapes, hkds⟩ := hred.kept hsettled hapart
    exact ⟨by rw [hrs, hshapes], (hall hrs).trans hkds⟩
  refine Ends.step (newRow_run _ v) (Ends.of_eq (modifyType_run t _ _) ⟨⟨_, _, hholding',
    (h.cells_eq.trans hv.cells_eq).trans (SameButRows.put side rfl), h.orderly.update ?_ ?_,
      fun other hother => ?_, fun ha => ?_⟩, fun other hother => ?_⟩)
  · rw [forall_mem_map]
    exact fun p hp => hv.orderly p (hred.sublist.subset hp)
  · intro hnil
    rw [hnil] at hkept
    exact (hkept (by simp) Pairwise.nil).1
  · by_cases heq : other = side
    · subst heq
      rw [update_self]
      refine ⟨hred.apart, ?_⟩
      rw [forall_mem_map]
      exact fun p hp => hv.settled p (hred.sublist.subset hp)
    · rw [update_of_ne heq]
      exact h.settled other (mem_of_ne_of_mem heq hother)
  · obtain ⟨rfl, rfl⟩ := h.kept ha
    obtain ⟨apart, contents⟩ := ha
    obtain ⟨hbs, rfl⟩ := hkept (contents side hside) (apart side hside)
    rw [hbs]
    exact ⟨update_eq_self side _, update_eq_self side _⟩
  · rw [hput, TypeCell.row_setRow, if_neg hother, hcell]

/-- Simplifying a type leaves nothing to drop in it. -/
theorem settles_simplifyTo (n : Nat) : Settles n (simplifyTo n) := by
  induction n with
  | zero =>
    intro t a ids s h _ _ hn
    obtain ⟨_, -, ht⟩ := h.exists_type
    rw [eq_nil_of_length_eq_zero (Nat.le_zero.mp hn)] at ht
    exact absurd ht not_mem_nil
  | succ n ih =>
    intro t a ids s h hnodup ha hn
    obtain ⟨part, cells, hparts, rfl, hbuilt⟩ := h.exists_built
    have hpart : a.side = part := (congrArg side hparts).trans (side_ofParts _ _ _)
    have hstart : Settling a s t cells [] s part cells :=
      ⟨⟨Frame.refl _ s, hbuilt, Sublist.refl _⟩, fun _ => rfl, hparts ▸ ha, by simp,
        fun _ => ⟨hpart.symm, rfl⟩⟩
    refine (simplifyTo_succ_ends
      (P := fun done u => ∃ part' cells', Settling a s t cells done u part' cells')
      hbuilt.name_eq ⟨_, _, hstart⟩ (fun hoptional => ?_) fun side hside done u hu => ?_).imp
      fun _ u hu => ?_
    · have hshows := hbuilt.shows .elements
      obtain ⟨-, optional, -⟩ := ha
      rw [← hpart, optional hoptional, ShowsAll] at hshows
      exact hshows.1
    · obtain ⟨_, _, hu⟩ := hu
      exact simplifyRow_settling ih hu hnodup hn hside
    · obtain ⟨_, _, hu⟩ := hu
      exact ⟨_, _, hu.renews⟩

/-! ## The normal form -/

theorem maximal_reduces (h : s.ShowsAll as es ids) (hnodup : ids.Nodup)
    (has : ∀ a ∈ as, a.Orderly) : Ends (maximal es).run s fun outs u => ∃ ps mid rs jds,
      Reduces as ids s u ps mid rs jds ∧ es = ps.map fst ∧ outs = rs.map fst ∧
      (distinct es).run s = .ok (mid.map fst) u := by
  have hlength := length_le_of_nodup hnodup h.index_lt
  refine Ends.step (store_run s) ((maximalBy_reduces (settles_simplifyTo s.depth) h hnodup has
    (by rw [depth]; omega)).imp ?_)
  rintro outs u ⟨ps, mid, rs, jds, hred, hes, houts, hrun⟩
  exact ⟨ps, mid, rs, jds, hred, hes, houts, (bind_of_ok (store_run s) _).trans hrun⟩

section

variable (h : Reduces as ids s u ps mid rs jds) (hnodup : ids.Nodup)

include h hnodup

/-- No type that is left is included in another one. -/
theorem separate_of_reduces :
    ∀ e ∈ rs.map fst, ∀ f ∈ rs.map fst, e ≠ f →
      ∃ o, (inclusion e f).run u = .ok o u ∧ o ≠ some true := by
  rintro e he f hf hne
  obtain ⟨p, hp, rfl⟩ := mem_map.mp he
  obtain ⟨q, hq, rfl⟩ := mem_map.mp hf
  have hbears (p : Entry × Shape) (hp : p ∈ rs) := h.bears hnodup p (h.sublist.subset hp)
  obtain ⟨o, ho, hwithin⟩ := inclusion_of_bears (hbears p hp) (hbears q hq)
  have : Std.Symm fun p q : Entry × Shape => ¬ p.2.Within q.2 ∧ ¬ q.2.Within p.2 :=
    ⟨fun _ _ h => h.symm⟩
  have hnot := h.none_within.forall hp hq fun h => hne (h ▸ rfl)
  exact ⟨o, ho, fun h => hnot.1 (hwithin.mp h)⟩

/-- Every type is identical to one from which inclusions lead to a type that is left. -/
theorem covers_of_reduces :
    ∀ e ∈ ps.map fst, ∃ f ∈ ps.map fst, ∃ g ∈ rs.map fst, (identical e f).run u = .ok true u ∧
        Relation.ReflTransGen (fun x y => (inclusion x y).run u = .ok (some true) u) f g := by
  intro e he
  obtain ⟨p, hp, rfl⟩ := mem_map.mp he
  have hbears := h.bears hnodup
  have hmid := h.sieves.sublist.subset
  obtain ⟨q, hq, hsame⟩ : ∃ q ∈ mid, p.2.Same q.2 := by
    obtain hmem | hq := h.sieves.covers p hp
    · obtain ⟨t, -, ht⟩ := (hbears p hp).exists_has
      exact ⟨p, hmem, _, _, ht, ht, (h.renews.orderly p hp).same_self ht ht _⟩
    · exact hq
  obtain ⟨r, hr, hchain⟩ := h.drains.covers q hq
  obtain ⟨x, hx, hiff⟩ := identical_of_bears (hbears p hp) (hbears q (hmid hq))
  refine ⟨q.1, mem_map_of_mem (hmid hq), r.1, mem_map_of_mem hr,
    (hiff.mpr hsame) ▸ hx, hchain.lift fst ?_⟩
  rintro y z ⟨hy, hz, hyz⟩
  obtain ⟨o, ho, hwithin⟩ := inclusion_of_bears (hbears y (hmid hy)) (hbears z (hmid hz))
  rw [hwithin.mpr hyz] at ho
  exact ho

/-- The types that are left lose nothing when they are simplified again. -/
theorem stable_of_reduces :
    ∃ bs kds, u.ShowsAll bs (rs.map fst) kds ∧
      Ends (maximal (rs.map fst)).run u fun outs w => outs = rs.map fst ∧
        w.ShowsAll bs (rs.map fst) kds ∧ Frame kds u w ∧ SameButRows u w := by
  obtain ⟨kds, hkds, hshows, -⟩ := h.renews.shows.of_sublist h.sublist
  have hnodup' := (hkds.trans h.renews.cells).nodup hnodup
  refine ⟨_, kds, hshows, (maximal_reduces hshows hnodup' ?_).imp ?_⟩
  · rw [forall_mem_map]
    exact fun p hp => h.renews.orderly p (h.sublist.subset hp)
  · rintro _ w ⟨ps', mid', rs', jds', h', hes, rfl, -⟩
    obtain ⟨rfl, hshapes, rfl⟩ := h'.kept (by
      rw [forall_mem_map]
      exact fun p hp => h.renews.settled p (h.sublist.subset hp)) h.apart
    refine ⟨hes.symm, ?_, h'.renews.frame, h'.renews.cells_eq⟩
    rw [hes, ← hshapes]
    exact h'.renews.shows

end

/-- A row `es` is brought into a normal form. -/
structure Normalizes (s : Store) (es outs : List Entry) (u : Store) : Prop where
  /-- What is left is part of the distinct types, in order. -/
  sublist : ∃ mid, (distinct es).run s = .ok mid u ∧ outs.Sublist mid
  /-- No type is included in another one. -/
  separate : ∀ e ∈ outs, ∀ f ∈ outs, e ≠ f →
    ∃ o, (inclusion e f).run u = .ok o u ∧ o ≠ some true
  /-- Every type has an identical one from which inclusions lead to a type that is left. -/
  covers : ∀ e ∈ es, ∃ f ∈ es, ∃ g ∈ outs, (identical e f).run u = .ok true u ∧
    Relation.ReflTransGen (fun x y => (inclusion x y).run u = .ok (some true) u) f g
  /-- Simplifying once more gives the same types and changes none of them at any depth. -/
  stable : ∃ bs jds, u.ShowsAll bs outs jds ∧ Ends (maximal outs).run u fun outs' w =>
    outs' = outs ∧ w.ShowsAll bs outs jds ∧ Frame jds u w ∧ SameButRows u w

/-- Simplifying a row of orderly types without sharing gives a normal form. -/
theorem maximal_normalizes (h : s.ShowsAll as es ids) (hnodup : ids.Nodup)
    (has : ∀ a ∈ as, a.Orderly) : Ends (maximal es).run s (Normalizes s es) := by
  refine (maximal_reduces h hnodup has).imp ?_
  rintro _ u ⟨ps, mid, rs, jds, hred, rfl, rfl, hdistinct⟩
  exact ⟨⟨_, hdistinct, hred.drains.sublist.map _⟩, separate_of_reduces hred hnodup,
    covers_of_reduces hred hnodup, stable_of_reduces hred hnodup⟩

/-- A list without elements, one with integers and a user type. -/
theorem maximal_normalizes_twoLists : ∃ s es ids,
    s.ShowsAll [.mk "List" .builtin [] [] [], .mk "List" .builtin [.leaf "int" .builtin] [] [],
      .leaf "app.Item" .user] es ids ∧ Ends (maximal es).run s (Normalizes s es) := by
  let int : Shape := .leaf "int" .builtin
  let list (elements : List Shape) : Shape := .mk "List" .builtin elements [] []
  obtain ⟨es, s, -, ids, hadds, hshows⟩ :=
    Shape.allocAll_ends [list [], list [int], .leaf "app.Item" .user] {}
  have hcell (name : String) (hname : name ∈ Vocabulary.standardNames) :
      (Vocabulary.rank? (lower name)).isSome := Vocabulary.rank?_standard hname
  have hint : int.Orderly := by
    refine .mk (.inl ⟨rfl, hcell "int" (by decide +kernel)⟩) (fun _ => rfl) fun side => ?_
    cases side <;> simp [int, Shape.leaf, Shape.side, Side.pick]
  have hlist (elements : List Shape) (h : ∀ a ∈ elements, a.Orderly) : (list elements).Orderly := by
    refine .mk (.inl ⟨rfl, hcell "List" (by decide +kernel)⟩) (fun h => ?_) fun side => ?_
    · exact absurd h (by simp only [list, Shape.name]; decide +kernel)
    · cases side <;> simp [list, Shape.side, Side.pick]
      exact h
  have hitem : (Shape.leaf "app.Item" .user).Orderly := by
    refine .mk (.inr rfl) (fun _ => rfl) fun side => ?_
    cases side <;> simp [Shape.leaf, Shape.side, Side.pick]
  refine ⟨s, es, ids, hshows, maximal_normalizes hshows hadds.nodup ?_⟩
  simp only [List.forall_mem_cons]
  exact ⟨hlist [] (by simp), hlist [int] (by simpa using hint), hitem, by simp⟩

end Eval
end TypeFlow
