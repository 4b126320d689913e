import Mathlib.Order.Defs.Unbundled
import TypeFlow.Store.Basic

/-!
# Runs of computations on a store

A run of a sequence of computations splits into the runs of its parts, and what every part keeps
is kept by the whole. Reading leaves the store as it is.
-/

namespace TypeFlow

open List

variable {R : Store → Store → Prop} {α β γ : Type} {s t u : Store}

theorem mem_of_at? {l : List α} {i : Int} {a : α} (h : at? l i = some a) : a ∈ l := by
  unfold at? at h
  split at h
  · exact mem_of_getElem? h
  · split at h
    · exact mem_of_getElem? h
    · cases h

theorem mem_of_lookup [BEq α] [LawfulBEq α] {l : List (α × β)} {a : α} {b : β}
    (h : l.lookup a = some b) : (a, b) ∈ l := by
  obtain ⟨before, rest, heq, -⟩ := lookup_eq_some_iff.mp h
  exact heq ▸ mem_append_right before (.head rest)

theorem getD_modify (cells : Array α) (i j : Nat) (f : α → α) (a : α) :
    (cells.modify i f).getD j a =
      if j = i ∧ i < cells.size then f (cells.getD i a) else cells.getD j a := by
  simp only [Array.getD_eq_getD_getElem?, Array.getElem?_modify]
  by_cases hj : i = j
  · subst hj
    by_cases hi : i < cells.size <;> simp [hi]
  · simp [hj, Ne.symm hj]

theorem getD_push (cells : Array α) (c : α) (i : Nat) (a : α) :
    (cells.push c).getD i a = if i = cells.size then c else cells.getD i a := by
  simp only [Array.getD_eq_getD_getElem?, Array.getElem?_push]
  split <;> rfl

namespace Store

theorem nodeAt_modify_of_any (s : Store) (n : NodeId) (f : Node → Node) (m : NodeId) :
    nodeAt { s with nodes := s.nodes.modify n.index f } m =
      if m = n ∧ n.index < s.nodes.size then f (s.nodeAt n) else s.nodeAt m := by
  obtain ⟨n⟩ := n
  obtain ⟨m⟩ := m
  simp only [NodeId.mk.injEq]
  exact getD_modify s.nodes n m f default

theorem nodeAt_modify {n : NodeId} (hn : n.index < s.nodes.size) (f : Node → Node) (m : NodeId) :
    nodeAt { s with nodes := s.nodes.modify n.index f } m =
      if m = n then f (s.nodeAt n) else s.nodeAt m := by
  simp only [nodeAt_modify_of_any, hn, and_true]

theorem rowAt_modify (s : Store) (r : RowId) (f : List Entry → List Entry) (p : RowId) :
    rowAt { s with rows := s.rows.modify r.index f } p =
      if p = r ∧ r.index < s.rows.size then f (s.rowAt r) else s.rowAt p := by
  obtain ⟨r⟩ := r
  obtain ⟨p⟩ := p
  simp only [RowId.mk.injEq]
  exact getD_modify s.rows r p f []

theorem rowAt_push (s : Store) (entries : List Entry) (p : RowId) :
    rowAt { s with rows := s.rows.push entries } p =
      if p.index = s.rows.size then entries else s.rowAt p :=
  getD_push s.rows entries p.index []

theorem typeAt_modify (s : Store) (t : TypeId) (f : TypeCell → TypeCell) (p : TypeId) :
    typeAt { s with types := s.types.modify t.index f } p =
      if p = t ∧ t.index < s.types.size then f (s.typeAt t) else s.typeAt p := by
  obtain ⟨t⟩ := t
  obtain ⟨p⟩ := p
  simp only [TypeId.mk.injEq]
  exact getD_modify s.types t p f default

theorem typeAt_push (s : Store) (cell : TypeCell) (p : TypeId) :
    typeAt { s with types := s.types.push cell } p =
      if p.index = s.types.size then cell else s.typeAt p :=
  getD_push s.types cell p.index default

end Store

namespace Typing

@[simp] theorem run_pure (a : α) : (pure a : Typing α).run = pure a := rfl

@[simp] theorem run_bind (x : Typing α) (f : α → Typing β) :
    (x >>= f).run = x.run >>= fun a => (f a).run := rfl

@[simp] theorem run_throw (e : Fault) : (throw e : Typing α).run = throw e := rfl

@[simp] theorem run_ite (p : Prop) [Decidable p] (x y : Typing α) :
    (if p then x else y).run = if p then x.run else y.run := apply_ite run p x y

end Typing

namespace Fallible

variable {σ : Type} {s t u : σ} {x : EStateM Fault σ α} {f : α → EStateM Fault σ β} {a : α} {b : β}

theorem bind_apply (x : EStateM Fault σ α) (f : α → EStateM Fault σ β) (s : σ) :
    (x >>= f) s = match x s with
      | .ok a t => f a t
      | .error e t => .error e t := by
  change EStateM.bind x f s = _
  cases h : x s <;> simp only [EStateM.bind, h]

theorem bind_eq_ok : (x >>= f) s = .ok b u ↔ ∃ a t, x s = .ok a t ∧ f a t = .ok b u := by
  rw [bind_apply]
  cases h : x s with
  | ok a t => exact ⟨fun h' => ⟨a, t, rfl, h'⟩, by rintro ⟨_, _, ⟨⟩, h'⟩; exact h'⟩
  | error e t => simp

theorem bind_of_ok (h : x s = .ok a t) (f : α → EStateM Fault σ β) : (x >>= f) s = f a t := by
  rw [bind_apply, h]

end Fallible

namespace Eval

export Fallible (bind_apply bind_eq_ok bind_of_ok)

variable {x : Eval α} {a : α} {l : List α} (r : RowId) (n : NodeId) (g : GraphId)

@[simp] theorem liftM_eq_run (x : Typing α) : (liftM x : Eval α) = x.run := rfl

@[simp] theorem pure_apply (a : α) (s : Store) : (pure a : Eval α) s = .ok a s := rfl

@[simp] theorem throw_apply (e : Fault) (s : Store) : (throw e : Eval α) s = .error e s := rfl

/-- A run comes to an end, and its result and the store it leaves meet a condition. -/
def Ends (x : Eval α) (s : Store) (Q : α → Store → Prop) : Prop := ∃ a t, x s = .ok a t ∧ Q a t

namespace Ends

variable {x : Eval α} {a : α} {Q P : α → Store → Prop} {f : α → Eval β}

theorem of_eq (h : x s = .ok a t) (hQ : Q a t) : Ends x s Q := ⟨a, t, h, hQ⟩

theorem bind {Q : β → Store → Prop} (hx : Ends x s P) (hf : ∀ a t, P a t → Ends (f a) t Q) :
    Ends (x >>= f) s Q := by
  obtain ⟨a, t, hx, ha⟩ := hx
  obtain ⟨b, u, hf, hb⟩ := hf a t ha
  exact ⟨b, u, (bind_of_ok hx f).trans hf, hb⟩

theorem step {Q : β → Store → Prop} (hx : x s = .ok a t) (hf : Ends (f a) t Q) :
    Ends (x >>= f) s Q := by
  obtain ⟨b, u, hf, hb⟩ := hf
  exact ⟨b, u, (bind_of_ok hx f).trans hf, hb⟩

theorem of_ok (hx : Ends x s Q) (h : x s = .ok a t) : Q a t := by
  obtain ⟨b, u, hb, hQ⟩ := hx
  rw [h, EStateM.Result.ok.injEq] at hb
  exact hb.1 ▸ hb.2 ▸ hQ

theorem and (hP : Ends x s P) (hQ : Ends x s Q) : Ends x s fun a t => P a t ∧ Q a t := by
  obtain ⟨a, t, hx, ha⟩ := hP
  exact ⟨a, t, hx, ha, hQ.of_ok hx⟩

theorem imp (hx : Ends x s P) (h : ∀ a t, P a t → Q a t) : Ends x s Q := by
  obtain ⟨a, t, hx, ha⟩ := hx
  exact ⟨a, t, hx, h a t ha⟩

end Ends

@[simp] theorem store_run (s : Store) : store.run s = .ok s s := rfl

@[simp] theorem type_run (t : TypeId) (s : Store) : (type t).run s = .ok (s.typeAt t) s := rfl

@[simp] theorem row_run (s : Store) : (row r).run s = .ok (s.rowAt r) s := rfl

@[simp] theorem node_run (s : Store) : (node n).run s = .ok (s.nodeAt n) s := rfl

@[simp] theorem graph_run (s : Store) : (graph g).run s = .ok (s.graphAt g) s := rfl

@[simp] theorem modifyNode_apply (f : Node → Node) (s : Store) :
    modifyNode n f s = .ok () { s with nodes := s.nodes.modify n.index f } := rfl

@[simp] theorem modifyGraph_apply (f : Graph → Graph) (s : Store) :
    modifyGraph g f s = .ok () { s with graphs := s.graphs.modify g.index f } := rfl

@[simp] theorem modifyRow_run (f : List Entry → List Entry) (s : Store) :
    (modifyRow r f).run s = .ok () { s with rows := s.rows.modify r.index f } := rfl

@[simp] theorem modifyType_run (t : TypeId) (f : TypeCell → TypeCell) (s : Store) :
    (modifyType t f).run s = .ok () { s with types := s.types.modify t.index f } := rfl

@[simp] theorem newRow_run (l : List Entry) (s : Store) :
    (newRow l).run s = .ok ⟨s.rows.size⟩ { s with rows := s.rows.push l } := rfl

@[simp] theorem newCell_run (c : TypeCell) (s : Store) :
    (newCell c).run s = .ok ⟨s.types.size⟩ { s with types := s.types.push c } := rfl

theorem grows_of_ok {x : Typing α} (h : x.run s = .ok a t) : s.Grows t := by
  simpa only [finish, h] using x.grows s

theorem forIn_of_yield {f : α → β → Eval (ForInStep β)} {p : β → α → β}
    (hf : ∀ a ∈ l, ∀ b, f a b s = .ok (.yield (p b a)) s) (b : β) :
    forIn l b f s = .ok (l.foldl p b) s := by
  induction l generalizing b with
  | nil => rfl
  | cons a l ih =>
    rw [forIn_cons, bind_of_ok (hf a (.head _) b)]
    exact ih (fun a ha => hf a (.tail _ ha)) (p b a)

theorem forIn_of_append {f : α → List β → Eval (ForInStep (List β))} {p : α → List β}
    (hf : ∀ a ∈ l, ∀ r, f a r s = .ok (.yield (r ++ p a)) s) (r : List β) :
    forIn l r f s = .ok (r ++ l.flatMap p) s := by
  rw [forIn_of_yield hf, foldl_append_eq_append, flatMap]

/-- A filter whose tests change nothing. -/
theorem filterM_of_pure {f : α → Eval Bool} {p : α → Bool} (hf : ∀ a ∈ l, f a s = .ok (p a) s) :
    l.filterM f s = .ok (l.filter p) s := by
  have hloop (l found : List α) (hf : ∀ a ∈ l, f a s = .ok (p a) s) :
      l.filterAuxM f found s = .ok ((l.filter p).reverse ++ found) s := by
    induction l generalizing found with
    | nil => rfl
    | cons a l ih =>
      unfold filterAuxM
      rw [bind_of_ok (hf a (.head _)), ih _ fun a ha => hf a (.tail _ ha)]
      cases h : p a <;> simp [h]
  unfold filterM
  rw [bind_of_ok (hloop l [] hf)]
  simp

theorem mapM_of_pure {f : α → Eval β} {p : α → β} (hf : ∀ a ∈ l, f a s = .ok (p a) s) :
    l.mapM f s = .ok (l.map p) s := by
  induction l with
  | nil => rfl
  | cons a l ih =>
    rw [mapM_cons, bind_of_ok (hf a (.head _)), bind_of_ok (ih fun a ha => hf a (.tail _ ha))]
    rfl

theorem require_eq_ok {o : Option α} {e : Fault} :
    (require o e).run s = .ok a t ↔ o = some a ∧ s = t := by
  cases o <;> simp [require]

end Eval

namespace Typing

open Eval

variable {P : List α → β → Store → Prop} {l : List α} {b : β} {f : α → Typing Bool}

theorem ext {x y : Typing α} (h : x.run = y.run) : x = y := by
  cases x
  cases y
  cases h
  rfl

theorem lawful : LawfulMonad Typing :=
  LawfulMonad.mk' Typing (fun x => ext (id_map x.run))
    (fun a f => ext (pure_bind a fun a => (f a).run))
    (fun x f g => ext (bind_assoc x.run (fun a => (f a).run) fun b => (g b).run))

theorem foldlM_run_of_pure {f : β → α → Typing β} {p : β → α → β}
    (hf : ∀ b a, (f b a).run s = .ok (p b a) s) (l : List α) (b : β) :
    (l.foldlM f b).run s = .ok (l.foldl p b) s := by
  induction l generalizing b with
  | nil => rfl
  | cons a l ih => exact (bind_of_ok (hf b a) _).trans (ih (p b a))

/-- A fold comes to an end when its turns do. The condition speaks about the part of the list that
has been passed. -/
theorem foldlM_ends {f : β → α → Typing β}
    (hstep : ∀ done a rest b s, l = done ++ a :: rest → P done b s →
      Ends (f b a).run s (P (done ++ [a]))) (hs : P [] b s) : Ends (l.foldlM f b).run s (P l) := by
  have hloop (rest done : List α) (b : β) (s : Store) (hl : l = done ++ rest) (hs : P done b s) :
      Ends (rest.foldlM f b).run s (P l) := by
    induction rest generalizing done b s with
    | nil =>
      rw [append_nil] at hl
      exact Ends.of_eq rfl (hl ▸ hs)
    | cons a rest ih =>
      apply (hstep done a rest b s hl hs).bind
      intro c u hu
      exact ih (done ++ [a]) c u (by simp [hl]) hu
  exact hloop l [] b s rfl hs

/-- A loop comes to an end when its turns do. The condition speaks about the part of the list that
has been passed. -/
theorem forIn_yield_ends {f : α → β → Typing (ForInStep β)}
    (hstep : ∀ done a rest b s, l = done ++ a :: rest → P done b s →
      Ends (f a b).run s fun r u => ∃ c, r = .yield c ∧ P (done ++ [a]) c u) (hs : P [] b s) :
    Ends (forIn l b f).run s (P l) := by
  have hloop (rest done : List α) (b : β) (s : Store) (hl : l = done ++ rest) (hs : P done b s) :
      Ends (forIn rest b f).run s (P l) := by
    induction rest generalizing done b s with
    | nil =>
      rw [append_nil] at hl
      exact Ends.of_eq rfl (hl ▸ hs)
    | cons a rest ih =>
      rw [forIn_cons]
      refine (hstep done a rest b s hl hs).bind ?_
      rintro _ u ⟨c, rfl, hu⟩
      exact ih (done ++ [a]) c u (by simp [hl]) hu
  exact hloop l [] b s rfl hs

theorem forIn_ends {f : α → Typing PUnit} {P : Store → Prop}
    (hstep : ∀ a ∈ l, ∀ s, P s → Ends (f a).run s fun _ u => P u) (hs : P s) :
    Ends (forIn l PUnit.unit fun a _ => do
      f a
      pure (ForInStep.yield PUnit.unit)).run s fun _ u => P u := by
  refine forIn_yield_ends (P := fun _ _ => P) (fun done a rest _ s hl hs => ?_) hs
  exact (hstep a (by simp [hl]) s hs).bind fun _ u hu => Ends.of_eq rfl ⟨_, rfl, hu⟩

/-- Computations on the elements of a list come to an end one after the other. -/
theorem mapM_ends {f : α → Typing β} {P : List α → List β → Store → Prop}
    (hstep : ∀ done a rest bs s, l = done ++ a :: rest → P done bs s →
      Ends (f a).run s fun b u => P (done ++ [a]) (bs ++ [b]) u) (hs : P [] [] s) :
    Ends (l.mapM f).run s (P l) := by
  have hloop (rest done : List α) (acc : List β) (s : Store) (hl : l = done ++ rest)
      (hs : P done acc.reverse s) : Ends (mapM.loop f rest acc).run s (P l) := by
    induction rest generalizing done acc s with
    | nil =>
      rw [append_nil] at hl
      exact Ends.of_eq rfl (hl ▸ hs)
    | cons a rest ih =>
      apply (hstep done a rest acc.reverse s hl hs).bind
      intro b u hu
      refine ih (done ++ [a]) (b :: acc) u (by simp [hl]) ?_
      rw [reverse_cons]
      exact hu
  exact hloop l [] [] s rfl hs

/-- A filter whose tests change nothing. -/
theorem filterM_run_of_pure {p : α → Bool} (hf : ∀ a ∈ l, (f a).run s = .ok (p a) s) :
    (l.filterM f).run s = .ok (l.filter p) s := by
  have hloop (l found : List α) (hf : ∀ a ∈ l, (f a).run s = .ok (p a) s) :
      (l.filterAuxM f found).run s = .ok ((l.filter p).reverse ++ found) s := by
    induction l generalizing found with
    | nil => rfl
    | cons a l ih =>
      refine (bind_of_ok (hf a (.head _)) _).trans ?_
      refine (ih _ fun a ha => hf a (.tail _ ha)).trans ?_
      cases h : p a <;> simp [h]
  refine (bind_of_ok (hloop l [] hf) _).trans ?_
  simp

theorem filterM_run_of_false (hf : ∀ a ∈ l, (f a).run s = .ok false s) :
    (l.filterM f).run s = .ok [] s := by
  rw [filterM_run_of_pure hf]
  simp

/-- A filter whose tests read the store keeps what passes them. -/
theorem mem_filterM {P : α → Prop} {out : List α}
    (hf : ∀ a ∈ l, ∀ b t, (f a).run s = .ok b t → t = s ∧ (b = true ↔ P a))
    (h : (l.filterM f).run s = .ok out t) : t = s ∧ ∀ a, a ∈ out ↔ a ∈ l ∧ P a := by
  have hloop (l acc out : List α) (t : Store)
      (hf : ∀ a ∈ l, ∀ b t, (f a).run s = .ok b t → t = s ∧ (b = true ↔ P a))
      (h : (l.filterAuxM f acc).run s = .ok out t) :
      t = s ∧ ∀ a, a ∈ out ↔ a ∈ acc ∨ (a ∈ l ∧ P a) := by
    induction l generalizing acc with
    | nil =>
      cases h
      simp
    | cons a l ih =>
      obtain ⟨b, u, hb, hrest⟩ := bind_eq_ok.mp h
      obtain ⟨rfl, hP⟩ := hf a (.head _) b u hb
      obtain ⟨ht, hmem⟩ := ih _ (fun a ha => hf a (.tail _ ha)) hrest
      refine ⟨ht, fun a' => ?_⟩
      rw [hmem]
      cases b <;> grind
  obtain ⟨kept, u, hkept, hout⟩ := bind_eq_ok.mp h
  obtain ⟨rfl, hmem⟩ := hloop l [] kept u hf hkept
  cases hout
  exact ⟨rfl, fun a => by simp [hmem]⟩

end Typing

/-- Every run that comes to an end relates the store before it to the store after it. -/
class Keeps (R : Store → Store → Prop) (x : Eval α) : Prop where
  rel : ∀ {s a t}, x s = .ok a t → R s t

namespace Keeps

variable (x : Typing α) (e : Fault) (a : α) (p : Prop) (l : List β) (init : γ)

theorem of_grows (h : ∀ s t : Store, s.Grows t → R s t) (x : Typing α) : Keeps R x.run :=
  ⟨fun hx => h _ _ (Eval.grows_of_ok hx)⟩

theorem mono {R' : Store → Store → Prop} (h : ∀ s t : Store, R s t → R' s t) (x : Eval α)
    [hx : Keeps R x] : Keeps R' x := ⟨fun hs => h _ _ (hx.rel hs)⟩

theorem of_ends {x : Eval α} (h : ∀ s, Eval.Ends x s fun _ t => R s t) : Keeps R x :=
  ⟨fun hx => (h _).of_ok hx⟩

instance throw : Keeps R (throw e : Eval α) := ⟨fun h => by simp at h⟩

variable [IsPreorder Store R]

instance pure : Keeps R (pure a : Eval α) := of_ends fun s => ⟨a, s, rfl, refl_of R s⟩

instance bind (x : Eval α) (f : α → Eval β) [hx : Keeps R x] [hf : ∀ a, Keeps R (f a)] :
    Keeps R (x >>= f) :=
  ⟨fun h => by
    obtain ⟨a, u, h₁, h₂⟩ := Eval.bind_eq_ok.mp h
    exact trans_of R (hx.rel h₁) ((hf a).rel h₂)⟩

theorem andThen {x : Eval α} {f : α → Eval β} [Keeps R x] (hf : ∀ a, Keeps R (f a)) :
    Keeps R (x >>= f) := inferInstance

instance ite [Decidable p] (x y : Eval α) [Keeps R x] [Keeps R y] :
    Keeps R (if p then x else y) := by
  split <;> infer_instance

instance forM (f : β → Eval PUnit) [hf : ∀ b, Keeps R (f b)] : Keeps R (l.forM f) := by
  induction l with
  | nil => exact pure PUnit.unit
  | cons b l ih => exact bind _ _

instance mapM (f : β → Eval γ) [hf : ∀ b, Keeps R (f b)] : Keeps R (l.mapM f) := by
  induction l with
  | nil => exact pure []
  | cons b l ih =>
    rw [mapM_cons]
    exact bind _ _

/-! ### Computations on types -/

instance lift [h : Keeps R x.run] : Keeps R (liftM x : Eval α) := h

instance run_throw : Keeps R (MonadExcept.throw e : Typing α).run := throw e

instance run_pure : Keeps R (Pure.pure a : Typing α).run := pure a

instance run_bind (f : α → Typing β) [Keeps R x.run] [∀ a, Keeps R (f a).run] :
    Keeps R (x >>= f).run := bind x.run fun a => (f a).run

theorem run_andThen {x : Typing α} {f : α → Typing β} [Keeps R x.run]
    (hf : ∀ a, Keeps R (f a).run) : Keeps R (x >>= f).run := inferInstance

instance run_ite [Decidable p] (x y : Typing α) [Keeps R x.run] [Keeps R y.run] :
    Keeps R (if p then x else y).run := by
  split <;> infer_instance

instance run_forIn (f : β → γ → Typing (ForInStep γ)) [hf : ∀ b c, Keeps R (f b c).run] :
    Keeps R (ForIn.forIn l init f).run := by
  induction l generalizing init with
  | nil => exact pure init
  | cons b l ih =>
    rw [forIn_cons]
    refine run_andThen fun c => ?_
    cases c with
    | done c => exact pure c
    | yield c => exact ih c

theorem run_forM_of_mem {l : List β} {f : β → Typing PUnit} (hf : ∀ b ∈ l, Keeps R (f b).run) :
    Keeps R (l.forM f).run := by
  induction l with
  | nil => exact pure PUnit.unit
  | cons b l ih =>
    have := hf b (.head _)
    have := ih fun b hb => hf b (.tail _ hb)
    exact run_bind (f b) fun _ => l.forM f

instance run_forM (f : β → Typing PUnit) [hf : ∀ b, Keeps R (f b).run] :
    Keeps R (l.forM f).run := run_forM_of_mem fun b _ => hf b

instance run_foldlM (f : γ → β → Typing γ) [hf : ∀ c b, Keeps R (f c b).run] :
    Keeps R (l.foldlM f init).run := by
  induction l generalizing init with
  | nil => exact pure init
  | cons b l ih => exact run_bind (f init b) fun c => l.foldlM f c

instance run_mapM (f : β → Typing γ) [hf : ∀ b, Keeps R (f b).run] : Keeps R (l.mapM f).run := by
  have hloop (acc : List γ) : Keeps R (mapM.loop f l acc).run := by
    induction l generalizing acc with
    | nil => exact pure acc.reverse
    | cons b l ih => exact run_bind (f b) fun c => mapM.loop f l (c :: acc)
  exact hloop []

instance run_filterM (f : β → Typing Bool) [hf : ∀ b, Keeps R (f b).run] :
    Keeps R (l.filterM f).run := by
  have hloop (acc : List β) : Keeps R (l.filterAuxM f acc).run := by
    induction l generalizing acc with
    | nil => exact pure acc
    | cons b l ih => exact run_bind (f b) fun c => l.filterAuxM f (cond c (b :: acc) acc)
  exact run_bind (l.filterAuxM f []) fun l => Pure.pure l.reverse

/-! ### Reading -/

instance run_store : Keeps R Eval.store.run := of_ends fun s => ⟨s, s, rfl, refl_of R s⟩

instance run_type (t : TypeId) : Keeps R (Eval.type t).run := run_bind _ _

instance run_row (r : RowId) : Keeps R (Eval.row r).run := run_bind _ _

instance run_node (n : NodeId) : Keeps R (Eval.node n).run := run_bind _ _

instance run_graph (g : GraphId) : Keeps R (Eval.graph g).run := run_bind _ _

instance run_require (o : Option α) (e : Fault) : Keeps R (require o e).run := by
  cases o <;> unfold require <;> infer_instance

instance run_asType (e : Entry) : Keeps R e.asType.run := by
  cases e <;> unfold Entry.asType <;> infer_instance

instance run_elementAt (l : List α) (i : Int) : Keeps R (elementAt l i).run := by
  unfold elementAt
  split <;> infer_instance

end Keeps
end TypeFlow
