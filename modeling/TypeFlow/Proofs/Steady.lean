import TypeFlow.Proofs.Custody
import TypeFlow.Proofs.Leveling
import TypeFlow.Proofs.Traversal

/-!
# Steady computations

A computation is steady when it leaves an orderly walk orderly and touches no node in hand but its
own. A node that a computation makes is in hand until it is added to a graph; the rules below
follow the nodes in hand through a sequence of computations, so that a steady computation is
recognized from its parts. Whether it closes its bodies is found on the same way.
-/

namespace TypeFlow.Build

open Eval List

variable {T : NodeId → Prop} {plain : Bool} {α β γ : Type} {q : Option Bool} {P : List Known}
  {K K' : List Charge} {w w' : Walk} {s t : Store} {n m : NodeId} {l : List β} {init : γ}
  {o : Origin} {e : Charge} (p : Known) (x : Build Unit) (key name : String)

/-- From a walk with the nodes `K` in hand, of which `P` is known, a computation leads to an orderly
walk in which nodes that others have in hand still are. It closes the bodies that it opens as far as
`q` asks for it: not at all, all of them, or all but handlers. -/
class Builds (q : Option Bool) (P : List Known) (K : List Charge) (x : Build α) : Prop where
  run : ∀ {o : Origin} {K₀ : List Charge} {w : Walk} {s : Store}, w.Holds o (K ++ K₀) s →
    (∀ p ∈ P, p.Holds w s) → Meets True x w s fun _ w' t => w'.Holds o K₀ t ∧ w.Extends s w' t
  level : ∀ loud ∈ q, Levels loud x

/-- A computation that needs no node in hand. -/
class Steady (q : Option Bool) (x : Build α) : Prop where
  run : ∀ {o : Origin} {K : List Charge} {w : Walk} {s : Store}, w.Holds o K s →
    Meets True x w s fun _ w' t => w'.Holds o K t ∧ w.Extends s w' t
  level : ∀ loud ∈ q, Levels loud x

instance (priority := low) Levels.of_steady {loud : Bool} (x : Build α)
    [h : Steady (some loud) x] : Levels loud x := h.level loud rfl

theorem level_bind {x : Build α} {f : α → Build β} (hx : ∀ loud ∈ q, Levels loud x)
    (hf : ∀ a, ∀ loud ∈ q, Levels loud (f a)) : ∀ loud ∈ q, Levels loud (x >>= f) :=
  fun loud h => @Levels.andThen _ _ _ _ _ (hx loud h) fun a => hf a loud h

/-- Something is among what is known. -/
class Knows (p : Known) (P : List Known) : Prop where
  mem : p ∈ P

instance Knows.here (P : List Known) : Knows p (p :: P) := ⟨.head _⟩

instance Knows.there (q : Known) (P : List Known) [h : Knows p P] : Knows p (q :: P) :=
  ⟨.tail _ h.mem⟩

/-- Among the nodes in hand there is one that may be added as asked. `K'` are the others. -/
class Offers (e : Charge) (K : List Charge) (K' : outParam (List Charge)) : Prop where
  offer : ∀ {o : Origin} {K₀ : List Charge} {w : Walk} {s : Store}, w.Holds o (K ++ K₀) s →
    w.Holds o (e :: (K' ++ K₀)) s

namespace Offers

instance here (e : Charge) (K : List Charge) : Offers e (e :: K) K := ⟨id⟩

instance there (e e' : Charge) (K K' : List Charge) [h : Offers e K K'] :
    Offers e (e' :: K) (e' :: K') := by
  constructor
  intro o K₀ w s hw
  have hmoved : w.Holds o (K ++ (e' :: K₀)) s := hw.perm perm_middle.symm
  refine (h.offer hmoved).perm (.cons e ?_)
  exact perm_middle

instance fresh_spare (n : NodeId) (K : List Charge) : Offers (.spare n) (.fresh n :: K) K := by
  constructor
  intro o K₀ w s hw
  have hclear : (Charge.fresh n).Clear o w s := hw.clear _ (.head _)
  exact hw.weaken rfl ⟨fun g hg _ => hclear g hg, fun _ => hclear _ hw.orderly.framed.opened⟩

instance fresh_inner (n : NodeId) (K : List Charge) : Offers (.inner n) (.fresh n :: K) K := by
  constructor
  intro o K₀ w s hw
  have hclear : (Charge.fresh n).Clear o w s := hw.clear _ (.head _)
  exact hw.weaken rfl fun g hg _ => hclear g hg

end Offers

namespace Builds

variable (x : Build α) (a : α) (f : α → Build β)

instance (priority := low) of_steady [hx : Steady q x] : Builds q P K x :=
  ⟨fun hw _ => (hx.run hw).imp fun _ _ _ h => ⟨h.1.drop, h.2⟩, hx.level⟩

instance pure : Builds q P K (pure a) :=
  ⟨fun hw _ => ⟨hw.drop, .refl _ _⟩, inferInstance⟩

instance throw (f : Fault) : Builds q P K (throw f : Build α) := ⟨fun _ _ => trivial, inferInstance⟩

instance throw_bind (f : Fault) (g : α → Build β) :
    Builds q P K ((MonadExcept.throw f : Build α) >>= g) :=
  ⟨fun _ _ => trivial, inferInstance⟩

/-- The parts of a sequence one after the other. After the first part `new` is known too, and the
nodes in hand are `kept`. -/
theorem seq {x : Build α} {f : α → Build β} (new : α → List Known) (kept : α → List Charge)
    (hlevel : ∀ loud ∈ q, Levels loud x)
    (hx : ∀ {o K₀ w s}, w.Holds o (K ++ K₀) s → (∀ p ∈ P, p.Holds w s) →
      Meets True x w s fun a w' t => w'.Holds o (kept a ++ K₀) t ∧ w.Extends s w' t ∧
        ∀ p ∈ new a, p.Holds w' t)
    (hf : ∀ a, Builds q (new a ++ P) (kept a) (f a)) : Builds q P K (x >>= f) := by
  refine ⟨?_, level_bind hlevel fun a => (hf a).level⟩
  intro o K₀ w s hw hP
  rw [meets_bind]
  refine (hx hw hP).imp fun a w' t h => ?_
  have hP' := forall_mem_append.mpr ⟨h.2.2, fun p hp => (hP p hp).extend h.2.1⟩
  exact ((hf a).run h.1 hP').imp fun _ _ _ h' => ⟨h'.1, h.2.1.trans h'.2⟩

theorem andThen {x : Build α} {f : α → Build β} [hx : Builds q P [] x]
    (hf : ∀ a, Builds q P K (f a)) : Builds q P K (x >>= f) :=
  seq (fun _ => []) (fun _ => K) hx.level
    (fun hw hP => (hx.run hw hP).imp fun _ _ _ h => ⟨h.1, h.2, by simp⟩) hf

instance bind [Builds q P [] x] [hf : ∀ a, Builds q P K (f a)] :
    Builds q P K (x >>= f) := andThen hf

instance pure_bind [h : Builds q P K (f a)] : Builds q P K (Pure.pure a >>= f) := h

instance ite (p : Prop) [Decidable p] (x y : Build α) [Builds q P K x] [Builds q P K y] :
    Builds q P K (if p then x else y) := by
  split <;> infer_instance

end Builds

/-- A loop whose turns need no node in hand. -/
theorem Builds.loop {f : β → γ → Build (ForInStep γ)} (hf : ∀ b ∈ l, ∀ c, Builds q P [] (f b c)) :
    Builds q P K (ForIn.forIn l init f) := by
  induction l generalizing init with
  | nil => exact .pure init
  | cons b l ih =>
    rw [forIn_cons]
    have := hf b (.head _) init
    refine andThen fun c => ?_
    cases c with
    | done c => exact .pure c
    | yield c => exact ih fun b hb => hf b (.tail _ hb)

theorem Builds.loopThen {f : β → γ → Build (ForInStep γ)} {g : γ → Build α}
    (hf : ∀ b ∈ l, ∀ c, Builds q P [] (f b c)) (hg : ∀ c, Builds q P K (g c)) :
    Builds q P K (ForIn.forIn l init f >>= g) := by
  have : Builds q P [] (ForIn.forIn l init f) := loop hf
  exact andThen hg

instance Builds.forIn (l : List β) (init : γ) (f : β → γ → Build (ForInStep γ))
    [hf : ∀ b c, Builds q P [] (f b c)] : Builds q P K (forIn l init f) := loop fun b _ => hf b

theorem Builds.forM_of_mem {f : β → Build PUnit} (hf : ∀ b ∈ l, Builds q P [] (f b)) :
    Builds q P K (l.forM f) := by
  induction l with
  | nil => exact .pure PUnit.unit
  | cons b l ih =>
    have := hf b (.head _)
    exact andThen fun _ => ih fun b hb => hf b (.tail _ hb)

instance Builds.forM (l : List β) (f : β → Build PUnit) [hf : ∀ b, Builds q P [] (f b)] :
    Builds q P K (l.forM f) := forM_of_mem fun b _ => hf b

instance Builds.mapM (l : List β) (f : β → Build γ) [hf : ∀ b, Builds q P [] (f b)] :
    Builds q P K (l.mapM f) := by
  induction l generalizing K with
  | nil => exact .pure []
  | cons b l ih =>
    rw [mapM_cons]
    have hrest : Builds q P [] (l.mapM f) := ih
    exact andThen fun _ => andThen fun _ => .pure _

namespace Steady

theorem of_builds {x : Build α} (h : Builds q [] [] x) : Steady q x :=
  ⟨fun hw => h.run hw fun _ hp => absurd hp not_mem_nil, h.level⟩

theorem of_walk {x : Build α} [hl : ∀ loud, Levels loud x] (h : ∀ o w s, w.Orderly o s →
    Meets True x w s fun _ w' t => t = s ∧ w.Level w' ∧ w'.Orderly o s) : Steady q x := by
  refine ⟨?_, fun loud _ => hl loud⟩
  intro o K w s hw
  refine (h o w s hw.orderly).imp ?_
  rintro _ w' _ ⟨rfl, hl, hw'⟩
  exact ⟨hw.congr hl hw', .of_level hl⟩

instance get : Steady q (get : Build Walk) := of_walk fun _ w _ hw => ⟨rfl, .refl w, hw⟩

theorem modifies {f : Walk → Walk} (hf : ∀ w : Walk, w.Stays (f w)) :
    Steady q (modify f : Build PUnit) :=
  have (loud : Bool) : Levels loud (modify f : Build PUnit) := .modifies fun w => (hf w).level
  of_walk fun _ w _ hw => ⟨rfl, (hf w).level, hw.stays (hf w)⟩

theorem modifiesGet {f : Walk → α × Walk} (hf : ∀ w : Walk, w.Stays (f w).2) :
    Steady q (modifyGet f : Build α) :=
  have (loud : Bool) : Levels loud (modifyGet f : Build α) := .modifiesGet fun w => (hf w).level
  of_walk fun _ w _ hw => ⟨rfl, (hf w).level, hw.stays (hf w)⟩

instance lift (x : Eval α) [hx : Keeps (Store.Rewires fun _ => False) x] [Wires x] :
    Steady q (liftM x : Build α) := by
  refine ⟨?_, inferInstance⟩
  intro o K w s hw
  rw [meets_lift]
  refine (meets_of_keeps hx s).imp fun _ t ht => ?_
  exact ⟨hw.rewires ht fun _ h => h.elim, .rewires ht⟩

instance liftTyping (x : Typing α) : Steady q (liftM x : Build α) := lift x.run

instance ofExcept (x : Except Fault α) : Steady q (ofExcept x : Build α) := by
  cases x with
  | ok a => exact of_builds (.pure a)
  | error e => exact of_builds (.throw e)

/-! ## Variables -/

instance vars (t : Tier) : Steady q (vars t) := .of_builds (by
  unfold Build.vars
  refine Builds.andThen fun w => ?_
  split <;> infer_instance)

end Steady

/-! ## Edges -/

instance Builds.addInput (n : NodeId) (link : Link) [h : Knows (.target n) P] :
    Builds q P K (liftM (addInput n link) : Build Unit) := by
  refine ⟨?_, inferInstance⟩
  intro o K₀ w s hw hP
  rw [meets_lift]
  have hkeeps : Keeps (Store.Rewires (n = ·)) (Eval.addInput n link) := Eval.keeps_addInput rfl link
  refine (Eval.meets_of_keeps hkeeps s).imp fun _ t ht => ?_
  refine ⟨(hw.rewires ht ?_).drop, .rewires ht⟩
  rintro _ rfl
  exact hP _ h.mem

instance Builds.connect (source target : NodeId) [h : Knows (.target target) P] :
    Builds q P K (liftM (connect source target) : Build Unit) := by
  refine ⟨?_, inferInstance⟩
  intro o K₀ w s hw hP
  rw [meets_lift]
  have hkeeps : Keeps (Store.Rewires (target = ·)) (Eval.connect source target) :=
    Eval.keeps_connect rfl
  refine (meets_of_keeps hkeeps s).imp fun _ t ht => ?_
  refine ⟨(hw.rewires ht ?_).drop, .rewires ht⟩
  rintro _ rfl
  exact hP _ h.mem

/-- The operation at hand may take operands. -/
instance Builds.consumer (unused : Bool) (f : Option NodeId → Build α)
    [hnone : Builds q P K (f none)] [hsome : ∀ n, Builds q (.target n :: P) K (f (some n))] :
    Builds q P K (consumer unused >>= f) := by
  refine ⟨?_, level_bind inferInstance fun n => ?_⟩
  · intro o K₀ w s hw hP
    rw [meets_bind, meets_consumer]
    cases hn : w.consumer unused with
    | none => exact hnone.run hw hP
    | some n =>
      refine (hsome n).run hw (Known.forall_cons ?_ hP)
      exact .inr (.inl (Walk.mem_pending_of_consumer hn))
  · cases n with
    | none => exact hnone.level
    | some n => exact (hsome n).level

instance Builds.operation (f : NodeId → Build α) [h : ∀ n, Builds q (.target n :: P) K (f n)] :
    Builds q P K (operation >>= f) := by
  refine seq ([.target ·]) (fun _ => K) inferInstance (fun hw _ => ?_) h
  refine meets_operation (fun _ => trivial) fun n rest hn => ⟨hw, .refl _ _, ?_⟩
  exact forall_mem_singleton.mpr (.inr (.inl (hn ▸ .head _)))

/-- One more node waits for operands. -/
def waiting (n : NodeId) (w : Walk) : Walk := { w with pending := n :: w.pending }

/-- The operands of the innermost node have been read. -/
def resumed (w : Walk) : Walk := { w with pending := w.pending.tail }

theorem takes_waiting (h : w.Takes s m) : (waiting n w).Takes s m := h.imp id (.imp (.tail _) id)

theorem extends_resumed (he : (waiting n w).Extends s w' t) : w.Extends s (resumed w') t := by
  refine ⟨⟨he.level.top, ?_, he.level.functions, he.level.classes⟩, he.graphs, he.nodes, he.listed,
    he.rubric⟩
  change w'.pending.tail = _
  rw [he.level.pending]
  rfl

/-- The node whose operands were read may take inputs without waiting for any. -/
theorem takes_resumed (he : (waiting n w).Extends s w' t) (hm : w'.Takes t m)
    (hn : (resumed w').Takes t n) : (resumed w').Takes t m := by
  rcases hm with hm | hm | hm
  · exact .inl hm
  · rw [he.level.pending] at hm
    rcases mem_cons.mp hm with rfl | hm
    · exact hn
    · refine .inr (.inl ?_)
      change m ∈ w'.pending.tail
      rw [he.level.pending]
      exact hm
  · exact .inr (.inr hm)

/-- Reading the operands of a node that may take them. -/
instance Builds.reading (n : NodeId) (x : Build Unit) [h : Knows (.target n) P]
    [hx : Builds q P K x] : Builds q P K (reading n x) := by
  refine ⟨?_, fun loud hl => have := hx.level loud hl; inferInstance⟩
  intro o K₀ w s hw hP
  have hknown (p : Known) (hp : p ∈ P) : p.Holds (waiting n w) s := by
    cases p with
    | target m => exact takes_waiting (hP _ hp)
    | listed m => exact hP _ hp
    | taken S => exact hP _ hp
  rw [meets_reading]
  refine (hx.run (hw.pend fun _ => takes_waiting) hknown).imp fun _ w' t ht => ?_
  have he := extends_resumed ht.2
  exact ⟨ht.1.pend fun m hm => takes_resumed ht.2 hm ((hP _ h.mem).extend he), he⟩

instance Steady.feed (n : NodeId) (unused : Bool) : Steady q (feed n unused) := .of_builds (by
  unfold Build.feed
  refine @Builds.consumer _ _ _ _ _ _ ?_ ?_
  · infer_instance
  · infer_instance)

/-! ## Making nodes -/

/-- A computation that only makes and wires nodes, and after which only symbols that satisfy `T` may
have got several inputs. -/
class Wires (T : NodeId → Prop) (x : Build α) : Prop where
  run : ∀ w s, Meets True x w s fun _ w' t => w' = w ∧ s.Rewires T t

namespace Wires

variable {l : List β} {init : γ} {f : β → γ → Build (ForInStep γ)}

instance pure (a : α) : Wires T (pure a) := ⟨fun _ s => ⟨rfl, .refl s⟩⟩

instance throw (f : Fault) : Wires T (throw f : Build α) := ⟨fun _ _ => trivial⟩

theorem andThen {x : Build α} {f : α → Build β} [hx : Wires T x] (hf : ∀ a, Wires T (f a)) :
    Wires T (x >>= f) := by
  constructor
  intro w s
  rw [meets_bind]
  refine (hx.run w s).imp ?_
  rintro a _ t ⟨rfl, ht⟩
  exact ((hf a).run _ t).imp fun _ _ _ h => ⟨h.1, ht.trans h.2⟩

instance bind (x : Build α) (f : α → Build β) [Wires T x] [hf : ∀ a, Wires T (f a)] :
    Wires T (x >>= f) := andThen hf

instance lift (x : Eval α) [hx : Keeps (Store.Rewires T) x] : Wires T (liftM x : Build α) := by
  constructor
  intro w s
  rw [meets_lift]
  exact (meets_of_keeps hx s).imp fun _ _ ht => ⟨rfl, ht⟩

instance liftTyping (x : Typing α) : Wires T (liftM x : Build α) := lift x.run

theorem loop (hf : ∀ b c, Wires T (f b c)) : Wires T (ForIn.forIn l init f) := by
  induction l generalizing init with
  | nil => exact pure init
  | cons b l ih =>
    rw [forIn_cons]
    refine andThen fun c => ?_
    cases c with
    | done c => exact pure c
    | yield c => exact ih

theorem loopThen {g : γ → Build α} (hf : ∀ b c, Wires T (f b c)) (hg : ∀ c, Wires T (g c)) :
    Wires T (ForIn.forIn l init f >>= g) := by
  have : Wires T (ForIn.forIn l init f) := loop hf
  exact andThen hg

end Wires

/-- A computation that gives back nothing but one value. -/
class Yields (a : α) (x : Build α) : Prop where
  run : ∀ w s, Meets True x w s fun b _ _ => b = a

namespace Yields

instance pure (a : α) : Yields a (pure a : Build α) := ⟨fun _ _ => rfl⟩

instance bind (a : β) (x : Build α) (f : α → Build β) [hf : ∀ b, Yields a (f b)] :
    Yields a (x >>= f) := by
  constructor
  intro w s
  rw [meets_bind]
  have hx : Meets True x w s fun _ _ _ => True := by
    unfold Meets Eval.Meets
    split <;> trivial
  exact hx.imp fun b w' t _ => (hf b).run w' t

end Yields

/-- A computation that makes one node. When `plain` is set, it is no symbol. -/
class Creates (plain : outParam Bool) (x : Eval NodeId) : Prop where
  run : ∀ s, x.Meets True s fun n t => n.index = s.nodes.size ∧ n.index < t.nodes.size ∧
    (plain = true → (t.rubric n).symbol? = none)

namespace Creates

theorem of_push {kind : NodeKind} {s t : Store} (ht : t.web = s.web.push { kind })
    (hplain : plain = true → kind.symbol? = none) :
    s.web.fresh.index = s.nodes.size ∧ s.web.fresh.index < t.nodes.size ∧
      (plain = true → (t.rubric s.web.fresh).symbol? = none) := by
  have hsize : t.nodes.size = s.nodes.size + 1 := congrArg Web.size ht
  refine ⟨rfl, ?_, fun h => ?_⟩
  · rw [hsize]
    exact Nat.lt_succ_self _
  · change (t.web.node s.web.fresh).kind.symbol? = none
    rw [ht, Web.push_node_fresh]
    exact hplain h

instance newSymbol (info : SymbolInfo) : Creates false (newSymbol info) :=
  ⟨fun _ => meets_newSymbol info fun _ ht => of_push ht fun h => absurd h Bool.false_ne_true⟩

instance newOperation (op : String) (func attr : Option String) (splitIndex : Int) :
    Creates true (Eval.newOperation op func attr splitIndex) :=
  ⟨fun _ => Eval.meets_newOperation op func attr splitIndex fun _ _ ht => of_push ht fun _ => rfl⟩

instance newKnown (c : TypeId) : Creates true (Eval.newKnown (.type c)) :=
  ⟨fun _ => Eval.meets_newKnown c fun _ ht => of_push ht fun _ => rfl⟩

instance newBranch (var : Option String) : Creates true (Eval.newBranch var) :=
  ⟨fun _ => Eval.meets_newBranch var fun _ _ ht => of_push ht fun _ => rfl⟩

instance newMerge (var : String) : Creates true (Eval.newMerge var) :=
  ⟨fun _ => Eval.meets_newMerge var fun _ ht => of_push ht fun _ => rfl⟩

end Creates

/-- A computation that makes a node, which is then in hand. When `plain` is set, the node may take
inputs. -/
class Makes (q : Option Bool) (plain : outParam Bool) (x : Build NodeId) : Prop where
  run : ∀ {o : Origin} {K : List Charge} {w : Walk} {s : Store}, w.Holds o K s →
    Meets True x w s fun n w' t => w'.Holds o (.fresh n :: K) t ∧ w.Extends s w' t ∧
      (plain = true → w'.Takes t n)
  level : ∀ loud ∈ q, Levels loud x

/-- A node is made and then wired. -/
theorem meets_makes {x : Eval NodeId} {f : NodeId → Build NodeId}
    [hx : Creates plain x] [hk : Keeps (Store.Rewires T) x] (hf : ∀ n, Wires T (f n))
    [hy : ∀ n, Yields n (f n)] (hw : w.Holds o K s) (hT : ∀ m, T m → w.Takes s m) :
    Meets True (liftM x >>= f) w s fun n w' t => w'.Holds o (.fresh n :: K) t ∧ w.Extends s w' t ∧
      (plain = true → w'.Takes t n) := by
  rw [meets_bind, meets_lift]
  refine ((meets_of_keeps hk s).and (hx.run s)).imp ?_
  rintro n t ⟨hr, hn, hlt, hplain⟩
  refine (((hf n).run w t).and ((hy n).run w t)).imp ?_
  rintro _ _ u ⟨⟨rfl, hu⟩, rfl⟩
  have hsu := hr.trans hu
  refine ⟨hw.fresh (hw.rewires hsu hT) hsu.graphs (Nat.le_of_eq hn.symm)
    (Nat.lt_of_lt_of_le hlt hu.size), .rewires hsu, fun h => ?_⟩
  exact .inl ⟨Nat.lt_of_lt_of_le hlt hu.size, hu.rubric _ hlt ▸ hplain h⟩

class Short (l : List Link) : Prop where
  le : l.length ≤ 1

instance Short.nil : Short [] := ⟨Nat.zero_le _⟩

instance Short.singleton (link : Link) : Short [link] := ⟨Nat.le_refl _⟩

instance Short.ite (p : Prop) [Decidable p] (l l' : List Link) [Short l] [Short l'] :
    Short (if p then l else l') := by
  split <;> infer_instance

instance Wires.place (n : NodeId) (ins outs : List Link) (pos : Position) [h : Short ins] :
    Wires T (place n ins outs pos) := by
  have : Keeps (Store.Rewires T)
      (modifyNode n fun node => { node with ins, outs, position := pos }) :=
    keeps_modifyNode (fun _ => rfl) (fun _ => ⟨rfl, rfl⟩) fun _ => .inr (.inl h.le)
  exact lift _

namespace Steady

theorem of_wires {x : Build α} [hx : Wires (fun _ => False) x] [hl : ∀ loud, Levels loud x] :
    Steady q x := by
  refine ⟨?_, fun loud _ => hl loud⟩
  intro o K w s hw
  refine (hx.run w s).imp ?_
  rintro _ _ t ⟨rfl, ht⟩
  exact ⟨hw.rewires ht fun _ h => h.elim, .rewires ht⟩

instance place (n : NodeId) (ins outs : List Link) (pos : Position) [Short ins] :
    Steady q (place n ins outs pos) := of_wires

theorem modifyNode {f : Node → Node} (hrubric : ∀ node, (f node).kind.rubric = node.kind.rubric)
    (hnumber : ∀ node, (f node).graph = node.graph ∧ (f node).id = node.id)
    (hins : ∀ node, (f node).ins = node.ins) : Steady q (liftM (modifyNode n f) : Build Unit) :=
  have := keeps_modifyNode (T := fun _ => False) (n := n) hrubric hnumber fun node =>
    .inl (hins node)
  lift _

end Steady

namespace Makes

variable (info : SymbolInfo)

instance newSymbol : Makes q false (liftM (newSymbol info)) := by
  refine ⟨?_, inferInstance⟩
  intro o K w s hw
  rw [← bind_pure (liftM _)]
  exact meets_makes (T := fun _ => False) inferInstance hw fun _ h => h.elim

instance newOperation (op : String) (pos : Position) (attr : Option String) (splitIndex : Int) :
    Makes q true (newOperation op pos attr splitIndex) := by
  refine ⟨?_, inferInstance⟩
  intro o K w s hw
  exact meets_makes (T := fun _ => False) inferInstance hw fun _ h => h.elim

instance newBranch (var : Option String) : Makes q true (liftM (Eval.newBranch var)) := by
  refine ⟨?_, inferInstance⟩
  intro o K w s hw
  rw [← bind_pure (liftM _)]
  exact meets_makes (T := fun _ => False) inferInstance hw fun _ h => h.elim

instance newKnown (name : String) (category : Category) (target : NodeId) (pos : Position) :
    Makes q true (newKnown name category target pos) := by
  refine ⟨?_, inferInstance⟩
  intro o K w s hw
  unfold Build.newKnown
  rw [meets_bind]
  refine ((Steady.liftTyping (q := none) _).run hw).imp fun c w' t ht => ?_
  refine (meets_makes (T := fun _ => False) inferInstance ht.1 fun _ h => h.elim).imp ?_
  exact fun n w'' u hu => ⟨hu.1, ht.2.trans hu.2.1, hu.2.2⟩

instance newResult (op : NodeId) (pos : Position) : Makes q false (newResult info op pos) := by
  refine ⟨?_, inferInstance⟩
  intro o K w s hw
  exact meets_makes (T := fun _ => False) inferInstance hw fun _ h => h.elim

instance newWrite (pos : Position) : Makes q false (newWrite info pos) := by
  refine ⟨?_, inferInstance⟩
  intro o K w s hw
  unfold Build.newWrite
  rw [meets_bind]
  refine meets_operation (fun _ => trivial) fun source rest hsource => ?_
  exact meets_makes (T := fun _ => False) inferInstance hw fun _ h => h.elim

/-- Only the operation at hand gets one more input. -/
instance newRead (sources : List Link) (unused : Bool) (pos : Position) [Short sources] :
    Makes q false (newRead info sources unused pos) := by
  refine ⟨?_, inferInstance⟩
  intro o K w s hw
  have hT (m : NodeId) (hm : m ∈ w.pending) : w.Takes s m := .inr (.inl hm)
  unfold Build.newRead
  rw [meets_bind, meets_consumer]
  cases htarget : w.consumer unused with
  | none =>
    dsimp only
    refine meets_makes (fun n => ?_) hw hT
    refine Wires.andThen fun _ => Wires.loopThen (fun source _ => ?_) fun _ => inferInstance
    cases source <;> infer_instance
  | some m =>
    have hm := Walk.mem_pending_of_consumer htarget
    dsimp only
    refine meets_makes (fun n => ?_) hw hT
    have := keeps_addInput (T := (· ∈ w.pending)) hm (some n)
    refine Wires.andThen fun _ => Wires.loopThen (fun source _ => ?_) fun _ => inferInstance
    cases source <;> infer_instance

end Makes

/-- Making a merge and setting its inputs. A merge is no symbol, so it may have any number. -/
theorem meets_mergeWired {f : NodeId → Build α} {g : Node → Node} {var : String}
    {Q : α → Walk → Store → Prop} (hg : ∀ node : Node, (g node).kind = node.kind ∧
      (g node).graph = node.graph ∧ (g node).id = node.id)
    (h : ∀ m t, s.Rewires (fun _ => False) t → m.index = s.nodes.size → m.index < t.nodes.size →
      (t.rubric m).symbol? = none → Meets True (f m) w t Q) :
    Meets True (do
      let m ← liftM (Eval.newMerge var)
      liftM (Eval.modifyNode m g)
      f m) w s Q := by
  have hkeeps : Keeps (Store.Rewires fun _ => False) (Eval.newMerge var) := inferInstance
  rw [meets_bind, meets_lift]
  refine ((meets_of_keeps hkeeps s).and ((Creates.newMerge var).run s)).imp ?_
  rintro m t ⟨hr, hm, hlt, hplain⟩
  rw [meets_bind, meets_lift, meets_of_eq (modifyNode_apply ..)]
  have hmodify : t.Rewires (fun _ => False) { t with nodes := t.nodes.modify m.index g } := by
    refine .modify ?_ (hg _).2 fun hsymbol => ?_
    · rw [(hg _).1]
      rfl
    · rw [hplain rfl] at hsymbol
      cases hsymbol
  refine h m _ (hr.trans hmodify) hm (Nat.lt_of_lt_of_le hlt hmodify.size) ?_
  rw [hmodify.rubric m hlt]
  exact hplain rfl

instance Makes.newMerge (links : List Link) : Makes q true (newMerge links) := by
  refine ⟨?_, inferInstance⟩
  intro o K w s hw
  unfold Build.newMerge
  rw [meets_bind]
  refine meets_mergeName (fun _ => trivial) fun _ name => ?_
  refine meets_mergeWired (fun _ => ⟨rfl, rfl, rfl⟩) fun m t ht hm hlt hplain => ?_
  have hwires : Wires (fun _ => False) (do
      for link in links do
        match link with
        | some n => addOutput n (some m)
        | none => throw .missingProperty
      return m) := by
    refine Wires.loopThen (fun link _ => ?_) fun _ => inferInstance
    cases link <;> infer_instance
  refine ((hwires.run w t).and ((Yields.bind m _ _).run w t)).imp ?_
  rintro _ _ u ⟨⟨rfl, hu⟩, rfl⟩
  have hsu := ht.trans hu
  refine ⟨hw.fresh (hw.rewires hsu fun _ h => h.elim) hsu.graphs (Nat.le_of_eq hm.symm)
    (Nat.lt_of_lt_of_le hlt hu.size), .rewires hsu, fun _ => ?_⟩
  exact .inl ⟨Nat.lt_of_lt_of_le hlt hu.size, hu.rubric _ hlt ▸ hplain⟩

instance (priority := high) Builds.makes (x : Build NodeId) (f : NodeId → Build α)
    [hx : Makes q false x] [hf : ∀ n, Builds q P (.fresh n :: K) (f n)] :
    Builds q P K (x >>= f) :=
  seq (fun _ => []) (.fresh · :: K) hx.level
    (fun hw _ => (hx.run hw).imp fun _ _ _ h => ⟨h.1, h.2.1, by simp⟩) hf

instance (priority := high) Builds.opens (x : Build NodeId) (f : NodeId → Build α)
    [hx : Makes q true x] [hf : ∀ n, Builds q (.target n :: P) (.fresh n :: K) (f n)] :
    Builds q P K (x >>= f) := by
  refine seq ([.target ·]) (.fresh · :: K) hx.level (fun hw _ => ?_) hf
  exact (hx.run hw).imp fun _ _ _ h => ⟨h.1, h.2.1, forall_mem_singleton.mpr (h.2.2 rfl)⟩

/-! ## Adding nodes to graphs -/

/-- A computation that adds a node in hand to the graph that `place` finds. -/
structure AddsAt (place : Walk → Option GraphId) (n : NodeId) (e : Charge) (x : Build Unit) :
    Prop where
  level : ∀ {w w' : Walk}, w.Level w' → place w' = place w
  apply : ∀ w s, x w s = .ok ((), w) (s.addedTo (place w) n)
  holds : ∀ {o : Origin} {K : List Charge} {w : Walk} {s : Store}, w.Holds o (e :: K) s →
    w.Holds o K (s.addedTo (place w) n) ∧ w.Extends s w (s.addedTo (place w) n) ∧
      w.Lists (s.addedTo (place w) n) n

/-- A computation that adds a node in hand to the graph at hand. -/
class Adds (n : outParam NodeId) (e : outParam Charge) (x : Build Unit) : Prop where
  adds : ∃ place, AddsAt place n e x
  level : ∀ loud, Levels loud x

/-- A node in hand is added to the graph of a function. -/
theorem holds_inner {g : GraphId} {gs : List GraphId} (hw : w.Holds o (e :: K) s)
    (hg : w.functions.map (·.graph) = g :: gs)
    (he : ∀ g, o.Opened s g → g ≠ w.top → e.node ∉ (s.graphAt g).nodes) :
    w.Holds o K (s.added g e.node) ∧ w.Extends s w (s.added g e.node) ∧
      w.Lists (s.added g e.node) e.node := by
  obtain ⟨hopened, hne, -⟩ := hw.orderly.framed.apart g (hg ▸ .head _)
  refine ⟨hw.list hopened (he g hopened hne), .added hopened.2, fun k hk => ?_⟩
  obtain rfl : g = k := by simpa [hg] using hk
  rw [Store.added_nodes hopened.2, if_pos rfl]
  exact mem_append_right _ (.head _)

theorem addsAt_addNode (n : NodeId) : AddsAt Walk.listing n (.spare n) (addNode n) := by
  refine ⟨fun hl => ?_, fun w s => ?_, fun {o K w s} hw => ?_⟩
  · simp only [Walk.listing, hl.functions, hl.classes, hl.top]
  · obtain ⟨top, _, _, _, _, functions, classes, _⟩ := w
    cases functions with
    | cons f rest => exact bind_of_ok (addNode_apply f.graph n s) _
    | nil =>
      cases classes with
      | nil => exact bind_of_ok (addNode_apply top n s) _
      | cons c rest => rfl
  · have hclear : (Charge.spare n).Clear o w s := hw.clear _ (.head _)
    cases hframes : w.functions.map (·.graph) with
    | cons g gs =>
      have hlisting : w.listing = some g := by simp only [Walk.listing, hframes]
      rw [hlisting]
      exact holds_inner hw hframes hclear.1
    | nil =>
      have hlists (t : Store) : w.Lists t n := by
        intro g hg
        simp [hframes] at hg
      cases hclasses : w.classes.length with
      | zero =>
        have hlisting : w.listing = some w.top := by
          simp only [Walk.listing, hframes, hclasses]
        have hopened := hw.orderly.framed.opened
        rw [hlisting]
        exact ⟨hw.list hopened (hclear.2 (map_eq_nil_iff.mp hframes)), .added hopened.2,
          hlists _⟩
      | succ k =>
        have hlisting : w.listing = none := by simp only [Walk.listing, hframes, hclasses]
        rw [hlisting]
        exact ⟨hw.tail, .refl w s, hlists s⟩

instance Adds.addNode (n : NodeId) : Adds n (.spare n) (addNode n) :=
  ⟨⟨_, addsAt_addNode n⟩, inferInstance⟩

instance Adds.addToFunction (n : NodeId) : Adds n (.inner n) (addToFunction n) := by
  refine ⟨⟨fun w => (w.functions.map (·.graph)).head?, fun hl => by rw [hl.functions],
    fun w s => ?_, fun {o K w s} hw => ?_⟩, inferInstance⟩
  · obtain ⟨top, _, _, _, _, functions, _⟩ := w
    cases functions with
    | cons f rest => exact bind_of_ok (addNode_apply f.graph n s) _
    | nil => rfl
  · have hclear : (Charge.inner n).Clear o w s := hw.clear _ (.head _)
    cases hframes : w.functions.map (·.graph) with
    | cons g gs => exact holds_inner hw hframes hclear
    | nil =>
      refine ⟨hw.tail, .refl w s, fun g hg => ?_⟩
      simp [hframes] at hg

instance Builds.add (f : Unit → Build α) [hx : Adds n e x] [hK : Offers e K K']
    [hf : ∀ a, Builds q (.listed n :: P) K' (f a)] : Builds q P K (x >>= f) := by
  obtain ⟨place, hadds⟩ := hx.adds
  refine seq (fun _ => [.listed n]) (fun _ => K') (fun loud _ => hx.level loud)
    (fun {o K₀ w s} hw _ => ?_) hf
  obtain ⟨hw', he, hlists⟩ := hadds.holds (hK.offer hw)
  exact (meets_of_eq (hadds.apply w s)).mpr ⟨hw', he, forall_mem_singleton.mpr hlists⟩

instance Builds.add_last [Adds n e x] [Offers e K K'] : Builds q P K x := by
  rw [← bind_pure x]
  infer_instance

instance Builds.addToModule (n : NodeId) (f : Unit → Build α) [hK : Offers (.fresh n) K K']
    [hf : ∀ a, Builds q P (.inner n :: K') (f a)] : Builds q P K (addToModule n >>= f) := by
  refine seq (fun _ => []) (fun _ => .inner n :: K') inferInstance (fun {o K₀ w s} hw _ => ?_) hf
  have hrun : Build.addToModule n w s = .ok ((), w) (s.added w.top n) :=
    bind_of_ok (addNode_apply w.top n s) _
  exact (meets_of_eq hrun).mpr ⟨(hK.offer hw).listTop, .added hw.orderly.framed.opened.2, by simp⟩

instance Builds.addToModule_last (n : NodeId) [Offers (.fresh n) K K'] :
    Builds q P K (Build.addToModule n) := by
  rw [← bind_pure (Build.addToModule n)]
  infer_instance

/-! ## Current nodes -/

/-- Reading the variables of a scope and going on from there, in ways that change only the walk. -/
theorem steady_vars {t : Tier} {f : Variables → Build α}
    [∀ loud, Levels loud (vars t >>= f)] (hf : ∀ {o w s v}, w.Orderly o s → vars? t w = some v →
      Meets True (f v) w s fun _ w' t => t = s ∧ w.Level w' ∧ w'.Orderly o s) :
    Steady q (vars t >>= f) := by
  refine .of_walk fun o w s hw => ?_
  rw [meets_bind]
  cases hv : vars? t w with
  | none =>
    simp only [vars, meets_bind, meets_get, hv]
    trivial
  | some v =>
    rw [meets_vars hv]
    exact hf hw hv

/-- A node becomes the current one of a variable and is added to the graph at hand. -/
instance (priority := high) Builds.setLatest_add (t : Tier) (key : String) (x : Build Unit)
    (f : Unit → Build α) [hx : Adds n e x] [hK : Offers e K K'] [hf : ∀ a, Builds q P K' (f a)] :
    Builds q P K (setLatest t key (some n) >>= fun _ => x >>= f) := by
  refine ⟨?_, level_bind inferInstance fun _ => level_bind (fun loud _ => hx.level loud) fun a =>
    (hf a).level⟩
  obtain ⟨place, hx⟩ := hx.adds
  intro o K₀ w s hw hP
  rw [meets_bind]
  cases hv : vars? t w with
  | none =>
    simp only [setLatest, vars, meets_bind, meets_get, hv]
    trivial
  | some v =>
    obtain ⟨hw', he, hlists⟩ := hx.holds (hK.offer hw)
    have hl := Walk.Level.withVariables t { v with latest := v.latest.insert key (some n) } w
    rw [meets_setLatest hv, meets_bind]
    refine (meets_of_eq (hx.apply _ s)).mpr ?_
    rw [hx.level hl]
    have hset := hw'.congr hl (hw'.orderly.withVariables ?_)
    · have he' := he.trans (.of_level hl)
      refine ((hf ()).run hset fun p hp => (hP p hp).extend he').imp fun _ _ _ h' => ?_
      exact ⟨h'.1, he'.trans h'.2⟩
    · rintro rfl g hg m hm
      rcases Table.mem_values_insert hm with hm | hm
      · obtain rfl := Option.some.inj hm
        exact hlists g.graph (by simpa using ⟨g, hg, rfl⟩)
      · exact hw'.orderly.held_head hv hg hm

instance (priority := high) Builds.setLatest_last (t : Tier) (key : String) (x : Build Unit)
    [Adds n e x] [Offers e K K'] : Builds q P K (setLatest t key (some n) >>= fun _ => x) := by
  have h : Builds q P K (setLatest t key (some n) >>= fun _ => x >>= Pure.pure) := inferInstance
  simpa only [bind_pure] using h

namespace Steady

instance setCount (t : Tier) (key : String) (n : Nat) : Steady q (setCount t key n) :=
  steady_vars fun hw hv => ⟨rfl, .withVariables t _ _, hw.restrict hv fun _ h => h⟩

instance forgetCount (t : Tier) (key : String) : Steady q (forgetCount t key) := by
  refine steady_vars fun hw hv => ?_
  dsimp only
  split
  · trivial
  · exact ⟨rfl, .withVariables t _ _, hw.restrict hv fun _ h => h⟩

instance forgetLatest (t : Tier) (key : String) : Steady q (forgetLatest t key) := by
  refine steady_vars fun hw hv => ?_
  dsimp only
  split
  · trivial
  · refine ⟨rfl, .withVariables t _ _, hw.restrict hv fun n hn => ?_⟩
    obtain ⟨e, he, heq⟩ := mem_map.mp hn
    exact mem_map.mpr ⟨e, (mem_filter.mp he).1, heq⟩

end Steady

/-- A node that is listed may become the current one of a variable. -/
theorem builds_setLatest {t : Tier} {key : String} {link : Link}
    (h : ∀ w s, (∀ p ∈ P, p.Holds w s) → t = .function → ∀ n, link = some n → w.Lists s n) :
    Builds q P K (setLatest t key link) := by
  refine ⟨?_, inferInstance⟩
  intro o K₀ w s hw hP
  cases hv : vars? t w with
  | none =>
    simp only [setLatest, vars, meets_bind, meets_get, hv]
    trivial
  | some v =>
    have hl := Walk.Level.withVariables t { v with latest := v.latest.insert key link } w
    rw [meets_setLatest hv]
    refine ⟨(hw.congr hl (hw.orderly.withVariables ?_)).drop, .of_level hl⟩
    rintro rfl g hg m hm
    rcases Table.mem_values_insert hm with hm | hm
    · exact h w s hP rfl m hm.symm g.graph (by simpa using ⟨g, hg, rfl⟩)
    · exact hw.orderly.held_head hv hg hm

instance Builds.setLatest_listed (t : Tier) (key : String) (n : NodeId) [h : Knows (.listed n) P] :
    Builds q P K (setLatest t key (some n)) := by
  refine builds_setLatest fun w s hP _ m hm => ?_
  obtain rfl := Option.some.inj hm
  exact hP _ h.mem

instance Steady.setLatest_module (link : Link) : Steady q (setLatest .module key link) :=
  .of_builds (builds_setLatest fun _ _ _ h => absurd h (by decide))

instance Steady.setLatest_class (link : Link) : Steady q (setLatest .class_ key link) :=
  .of_builds (builds_setLatest fun _ _ _ h => absurd h (by decide))

instance Builds.snapshot (f : Snapshot → Build α) [hf : ∀ S, Builds q (.taken S :: P) K (f S)] :
    Builds q P K (snapshot >>= f) := by
  refine ⟨?_, level_bind inferInstance fun S => (hf S).level⟩
  intro o K₀ w s hw hP
  refine (hf ⟨w.globals, vars? .function w, vars? .class_ w⟩).run hw (Known.forall_cons ?_ hP)
  intro V hV n hn g hg
  obtain ⟨f, hf, rfl⟩ : ∃ f, w.functions.head? = some f ∧ f.graph = g := by simpa using hg
  exact hw.orderly.held_head hV hf hn

instance Builds.restoreLatest (S : Snapshot) [h : Knows (.taken S) P] :
    Builds q P K (restoreLatest S) := by
  unfold Build.restoreLatest
  refine loopThen (fun t _ _ => ?_) fun _ => .pure _
  refine ⟨?_, fun _ _ => .andThen fun w => by split <;> infer_instance⟩
  intro o K₀ w s hw hP
  rw [meets_bind, meets_get]
  cases hold : S.tier t with
  | none => exact ⟨hw, .refl w s⟩
  | some old =>
    cases hv : vars? t w with
    | none => exact ⟨hw, .refl w s⟩
    | some v =>
      have hl := Walk.Level.withVariables t { v with latest := old.latest } w
      refine ⟨hw.congr hl (hw.orderly.withVariables ?_), .of_level hl⟩
      rintro rfl g hg n hn
      exact hP _ h.mem old hold n hn g.graph (by simpa using ⟨g, hg, rfl⟩)

/-- The current node of a parameter is listed in the graph of its function. -/
instance Builds.paramNode (f : NodeId → Build α) [hf : ∀ n, Builds q (.target n :: P) K (f n)] :
    Builds q P K (paramNode name >>= f) := by
  refine ⟨?_, level_bind inferInstance fun n => (hf n).level⟩
  intro o K₀ w s hw hP
  rw [meets_bind]
  unfold Build.paramNode latest vars
  cases hframes : w.functions with
  | nil => simp [meets_bind, vars?, hframes]
  | cons g rest =>
    simp only [meets_bind, meets_get, vars?, hframes, head?_cons, Option.map_some, meets_pure]
    cases hl : g.vars.latest.get? name with
    | none => trivial
    | some link =>
      cases link with
      | none => trivial
      | some n =>
        refine (hf n).run hw (Known.forall_cons ?_ hP)
        exact hw.orderly.takes_held (hframes ▸ .head _) (Table.mem_values_of_get? hl)

instance Builds.paramNodeByClass (f : NodeId → Build α)
    [hf : ∀ n, Builds q (.target n :: P) K (f n)] : Builds q P K (paramNodeByClass name >>= f) := by
  refine ⟨?_, level_bind inferInstance fun n => (hf n).level⟩
  intro o K₀ w s hw hP
  rw [meets_bind]
  unfold Build.paramNodeByClass elementAt
  rw [meets_bind, meets_get, meets_bind, meets_liftTyping]
  cases hat : at? w.functions.reverse ((w.classes.length : Int) - 1) with
  | none => trivial
  | some g =>
    have hg : g ∈ w.functions := mem_reverse.mp (mem_of_at? hat)
    rw [meets_run_pure]
    cases hl : g.vars.latest.get? name with
    | none => trivial
    | some link =>
      cases link with
      | none => trivial
      | some n =>
        refine (hf n).run hw (Known.forall_cons ?_ hP)
        exact hw.orderly.takes_held hg (Table.mem_values_of_get? hl)

end TypeFlow.Build
