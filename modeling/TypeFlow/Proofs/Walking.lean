import TypeFlow.Build
import TypeFlow.Proofs.Run

/-!
# Conditions on the runs of a walk

A walk over a program changes its own state and the store. What holds at the end of a run is
found by going through the run backwards: there is one rule for each way in which computations are
put together. A condition on a run says as well whether the run may stop with a fault, so the same
rules serve for runs that come to an end and for runs that may not.
-/

namespace TypeFlow

variable {w : Walk} {key : String} {p e : Prop} {link : Link} {n : Nat} {α β : Type} {s t : Store}

namespace Eval

variable {P : α → Store → Prop} (a : α)

/-- What holds at the end of a run. Where it stops with a fault, `e` has to hold. -/
def Meets (e : Prop) (x : Eval α) (s : Store) (Q : α → Store → Prop) : Prop :=
  match x s with
  | .ok a t => Q a t
  | .error _ _ => e

variable {x : Eval α} {Q : α → Store → Prop}

theorem Meets.ends (h : x.Meets False s Q) : x.Ends s Q := by
  unfold Meets at h
  split at h
  · exact ⟨_, _, ‹_›, h⟩
  · exact h.elim

theorem meets_of_eq {a : α} (hx : x s = .ok a t) : x.Meets e s Q ↔ Q a t := by
  simp only [Meets, hx]

theorem Meets.imp (h : x.Meets e s P) (hPQ : ∀ a t, P a t → Q a t) : x.Meets e s Q := by
  unfold Meets at h ⊢
  split
  · simp_all
  · simp_all

theorem Meets.and (h : x.Meets e s P) (h' : x.Meets e s Q) :
    x.Meets e s fun a t => P a t ∧ Q a t := by
  unfold Meets at h h' ⊢
  split
  · simp_all
  · simp_all

@[simp] theorem meets_pure : (pure a : Eval α).Meets e s Q ↔ Q a s := Iff.rfl

@[simp] theorem meets_run_pure : (pure a : Typing α).run.Meets e s Q ↔ Q a s := Iff.rfl

@[simp] theorem meets_throw (f : Fault) : (throw f : Eval α).Meets e s Q ↔ e := Iff.rfl

@[simp] theorem meets_bind {f : α → Eval β} {Q : β → Store → Prop} :
    (x >>= f).Meets e s Q ↔ x.Meets e s fun a t => (f a).Meets e t Q := by
  simp only [Meets, bind_apply]
  cases x s <;> rfl

@[simp] theorem meets_ite [Decidable p] {y : Eval α} :
    (if p then x else y).Meets e s Q ↔ if p then x.Meets e s Q else y.Meets e s Q := by
  split <;> rfl

end Eval

namespace Build

variable {P : α → Walk → Store → Prop} {I : List β → Walk → Store → Prop} {l : List β}
  {v : Variables}

/-- What holds at the end of a run of a walk. Where it stops with a fault, `e` has to hold. -/
def Meets (e : Prop) (x : Build α) (w : Walk) (s : Store) (Q : α → Walk → Store → Prop) : Prop :=
  Eval.Meets e (x w) s fun r t => Q r.1 r.2 t

variable {x : Build α} {Q : α → Walk → Store → Prop}

theorem Meets.of_ok {a : α} {w' : Walk} (h : Meets e x w s Q) (hx : x w s = .ok (a, w') t) :
    Q a w' t := by
  simpa only [Meets, Eval.meets_of_eq hx] using h

theorem Meets.imp (h : Meets e x w s P) (hPQ : ∀ a w' t, P a w' t → Q a w' t) : Meets e x w s Q :=
  Eval.Meets.imp h fun r t => hPQ r.1 r.2 t

theorem Meets.and (h : Meets e x w s P) (h' : Meets e x w s Q) :
    Meets e x w s fun a w' t => P a w' t ∧ Q a w' t := Eval.Meets.and h h'

@[simp] theorem meets_pure (a : α) : Meets e (pure a) w s Q ↔ Q a w s := Iff.rfl

@[simp] theorem meets_get {Q : Walk → Walk → Store → Prop} : Meets e get w s Q ↔ Q w w s := Iff.rfl

@[simp] theorem meets_modify {f : Walk → Walk} {Q : PUnit → Walk → Store → Prop} :
    Meets e (modify f) w s Q ↔ Q ⟨⟩ (f w) s := Iff.rfl

@[simp] theorem meets_modifyGet {f : Walk → α × Walk} :
    Meets e (modifyGet f) w s Q ↔ Q (f w).1 (f w).2 s := Iff.rfl

@[simp] theorem meets_throw (f : Fault) : Meets e (throw f) w s Q ↔ e := Iff.rfl

@[simp] theorem meets_bind {f : α → Build β} {Q : β → Walk → Store → Prop} :
    Meets e (x >>= f) w s Q ↔ Meets e x w s fun a w' t => Meets e (f a) w' t Q := by
  change Eval.Meets e (x w >>= fun r => f r.1 r.2) s _ ↔ _
  rw [Eval.meets_bind]
  rfl

@[simp] theorem meets_lift {x : Eval α} :
    Meets e (liftM x) w s Q ↔ x.Meets e s fun a t => Q a w t := by
  change Eval.Meets e (x >>= fun a => pure (a, w)) s _ ↔ _
  rw [Eval.meets_bind]
  rfl

@[simp] theorem meets_liftTyping {x : Typing α} :
    Meets e (liftM x) w s Q ↔ x.run.Meets e s fun a t => Q a w t := meets_lift (x := x.run)

@[simp] theorem meets_ite [Decidable p] {y : Build α} :
    Meets e (if p then x else y) w s Q ↔ if p then Meets e x w s Q else Meets e y w s Q := by
  split <;> rfl

@[simp] theorem meets_ofExcept {x : Except Fault α} : Meets e (ofExcept x) w s Q ↔ match x with
      | .ok a => Q a w s
      | .error _ => e := by
  cases x <;> rfl

/-- A loop keeps a condition on the elements that are left. -/
theorem meets_forIn {f : β → PUnit → Build (ForInStep PUnit)} {Q : PUnit → Walk → Store → Prop}
    (hI : I l w s) (hstep : ∀ b rest w s, I (b :: rest) w s →
      Meets e (f b ⟨⟩) w s fun r w' t => r = .yield ⟨⟩ ∧ I rest w' t)
    (hend : ∀ w s, I [] w s → Q ⟨⟩ w s) : Meets e (forIn l PUnit.unit f) w s Q := by
  induction l generalizing w s with
  | nil => exact hend w s hI
  | cons b rest ih =>
    rw [List.forIn_cons, meets_bind]
    refine (hstep b rest w s hI).imp ?_
    rintro r w' t ⟨rfl, hr⟩
    exact ih hr

theorem meets_forM {f : β → Build PUnit} {Q : PUnit → Walk → Store → Prop} (hI : I l w s)
    (hstep : ∀ b rest w s, I (b :: rest) w s → Meets e (f b) w s fun _ w' t => I rest w' t)
    (hend : ∀ w s, I [] w s → Q ⟨⟩ w s) : Meets e (l.forM f) w s Q := by
  induction l generalizing w s with
  | nil => exact hend w s hI
  | cons b rest ih =>
    change Meets e (f b >>= fun _ => rest.forM f) w s Q
    rw [meets_bind]
    exact (hstep b rest w s hI).imp fun _ _ _ hr => ih hr

@[simp] theorem meets_vars {t : Tier} {Q : Variables → Walk → Store → Prop}
    (hv : vars? t w = some v) : Meets e (vars t) w s Q ↔ Q v w s := by
  simp only [vars, meets_bind, meets_get, hv, meets_pure]

@[simp] theorem meets_setVariables {t : Tier} {Q : Unit → Walk → Store → Prop} :
    Meets e (setVariables t v) w s Q ↔ Q () (withVariables t v w) s := Iff.rfl

section Flags

variable {Q : Bool → Walk → Store → Prop}

@[simp] theorem meets_inFunction :
    Meets e inFunction w s Q ↔ Q (!w.functions.isEmpty) w s := Iff.rfl

@[simp] theorem meets_atTop :
    Meets e atTop w s Q ↔ Q (w.functions.isEmpty && w.classes.isEmpty) w s := Iff.rfl

@[simp] theorem meets_occurs {t : Tier} :
    Meets e (occurs t key) w s Q ↔ Q ((vars? t w).any (·.counts.contains key)) w s := by
  simp only [occurs, meets_bind, meets_get]
  cases vars? t w <;> rfl

theorem meets_takeUnused (h : w.unused = false) : Meets e takeUnused w s Q ↔ Q false w s := by
  have hw : { w with unused := false } = w := by
    cases w
    simp_all
  simp only [takeUnused, meets_modifyGet, h, hw]

end Flags

section Scope

variable {tier : Tier} {V : Variables}

theorem vars?_withVariables {t : Tier} (h : vars? t w = some V) (V' : Variables) :
    vars? t (withVariables t V' w) = some V' := by
  cases t with
  | module => rfl
  | function =>
    cases hf : w.functions with
    | nil => simp [vars?, hf] at h
    | cons f rest => simp [vars?, withVariables, hf]
  | class_ =>
    cases hc : w.classes with
    | nil => simp [vars?, hc] at h
    | cons c rest => simp [vars?, withVariables, hc]

@[simp] theorem withVariables_withVariables (t : Tier) (V V' : Variables) (w : Walk) :
    withVariables t V' (withVariables t V w) = withVariables t V' w := by
  cases t with
  | module => rfl
  | function => cases hf : w.functions <;> simp [withVariables, hf]
  | class_ => cases hc : w.classes <;> simp [withVariables, hc]

section

variable (hv : vars? tier w = some V)

include hv

theorem meets_count? {Q : Option Nat → Walk → Store → Prop} :
    Meets e (count? tier key) w s Q ↔ Q (V.counts.get? key) w s := by
  simp only [count?, meets_bind, meets_vars hv, meets_pure]

theorem meets_latest {Q : Link → Walk → Store → Prop}
    (hl : V.latest.get? key = some link) : Meets e (latest tier key) w s Q ↔ Q link w s := by
  simp only [latest, meets_bind, meets_vars hv, hl, meets_pure]

theorem meets_setLatest {Q : Unit → Walk → Store → Prop}
    : Meets e (setLatest tier key link) w s Q ↔
      Q () (withVariables tier { V with latest := V.latest.insert key link } w) s := by
  simp only [setLatest, meets_bind, meets_vars hv, meets_setVariables]

theorem meets_setCount {Q : Unit → Walk → Store → Prop} :
    Meets e (setCount tier key n) w s Q ↔
      Q () (withVariables tier { V with counts := V.counts.insert key n } w) s := by
  simp only [setCount, meets_bind, meets_vars hv, meets_setVariables]

theorem meets_again {Q : Nat → Walk → Store → Prop}
    (hn : V.counts.get? key = some n) : Meets e (again tier key) w s Q ↔
      Q (n + 1) (withVariables tier { V with counts := V.counts.insert key (n + 1) } w) s := by
  simp only [again, meets_bind, meets_count? hv, hn, meets_setCount hv, meets_pure]

end

end Scope

theorem meets_reading {n : NodeId} {x : Build Unit} {Q : Unit → Walk → Store → Prop} :
    Meets e (reading n x) w s Q ↔
      Meets e x { w with pending := n :: w.pending } s fun _ w' t =>
        Q () { w' with pending := w'.pending.tail } t := by
  simp only [reading, meets_bind, meets_modify]

end Build

/-- The operation that takes an operand. -/
def Walk.consumer (w : Walk) (unused : Bool) : Option NodeId :=
  if unused then none else w.pending.head?

@[simp] theorem Build.meets_consumer {unused : Bool} {Q : Option NodeId → Walk → Store → Prop} :
    Meets e (Build.consumer unused) w s Q ↔ Q (w.consumer unused) w s := by
  cases unused <;> rfl

end TypeFlow
