import TypeFlow.Proofs.Web

/-!
# Nested bodies

A graph counts the loops, `try` bodies and handlers that are being read, and opens a buffer for a
body when the first node is added inside of it. A computation is level when it closes every body
that it opens. Whether it comes to an end or stops with a fault, no more buffers are open than
bodies.
-/

namespace TypeFlow

variable {s t : Store} {w w' : Walk} {loud : Bool} {g : GraphId} {o : Nat} {α β γ : Type}
  (G : Graph) (n : NodeId) (kind : NodeKind)

/-- The bodies that are being read into a graph: how many there are, and their buffers. -/
structure Nesting where
  loopDepth : Int := 0
  loopBuffer : List (List NodeId) := []
  tryDepth : Int := 0
  tryBuffer : List (Table String (List NodeId)) := []
  exceptDepth : Int := 0
  exceptBuffer : List (Table String NodeId) := []

/-- The bodies that are being read into a graph. -/
def Graph.nesting (G : Graph) : Nesting where
  loopDepth := G.loopDepth
  loopBuffer := G.loopBuffer
  tryDepth := G.tryDepth
  tryBuffer := G.tryBuffer
  exceptDepth := G.exceptDepth
  exceptBuffer := G.exceptBuffer

namespace Nesting

variable {N N' : Nesting}

/-- There is at most one buffer for each loop and each `try` body. -/
structure Fits (N : Nesting) : Prop where
  loop : N.loopBuffer.length ≤ N.loopDepth
  body : N.tryBuffer.length ≤ N.tryDepth

/-- No handler is being read. -/
structure Quiet (N : Nesting) : Prop where
  depth : N.exceptDepth = 0
  buffer : N.exceptBuffer = []

/-- How many loops and how many `try` bodies are being read. -/
def depths (N : Nesting) : Int × Int := (N.loopDepth, N.tryDepth)

/-- No body is being read; buffers may be left over. -/
structure Flat (N : Nesting) : Prop where
  depths : N.depths = (0, 0)
  quiet : N.Quiet

theorem fits_empty : ({} : Nesting).Fits := ⟨by decide, by decide⟩

theorem flat_empty : ({} : Nesting).Flat := ⟨rfl, rfl, rfl⟩

theorem Flat.eq_empty (h : N.Flat) (hN : N.Fits) : N = {} := by
  obtain ⟨hdepths, hexcept, hbuffer⟩ := h
  obtain ⟨hloop, hbody⟩ := hN
  cases N
  simp_all [Nesting.depths]

/-- A node is noted in the buffers of the innermost bodies. -/
def note (N : Nesting) (n : NodeId) (info : Option SymbolInfo) : Nesting :=
  { N with
    loopBuffer := Graph.loopNoted N.loopDepth N.loopBuffer n
    tryBuffer := Graph.tryNoted N.tryDepth N.tryBuffer n info
    exceptBuffer := Graph.exceptNoted N.exceptDepth N.exceptBuffer n info }

/-- Noting a node opens a buffer only for a body that has none. -/
theorem Fits.note (h : N.Fits) (n : NodeId) (info : Option SymbolInfo) : (N.note n info).Fits := by
  constructor
  · have := h.loop
    simp only [Nesting.note, Graph.loopNoted]
    split
    · exact h.loop
    · split <;> simp <;> omega
  · have := h.body
    simp only [Nesting.note, Graph.tryNoted]
    split
    · exact h.body
    · split
      · simp
        omega
      · split
        · split <;> simpa using this
        · exact this

theorem Quiet.note (h : N.Quiet) (n : NodeId) (info : Option SymbolInfo) : (N.note n info).Quiet :=
  ⟨h.depth, by simp [Nesting.note, Graph.exceptNoted, h.depth, h.buffer]⟩

theorem length_eraseIdx_le {l : List β} {d : Int} (h : l.length ≤ d) (hd : 0 < d) :
    (((if d - 1 < l.length then l.eraseIdx (d - 1).toNat else l).length : Nat) : Int) ≤ d - 1 := by
  split
  · rw [List.length_eraseIdx]
    split <;> omega
  · omega

end Nesting

theorem Graph.nesting_indexNode : (G.indexNode n kind).nesting = G.nesting := by
  cases kind with
  | symbol info =>
    simp only [indexNode, indexSymbol, apply_ite nesting]
    split
    · exact ite_self _
    · rfl
  | known t =>
    simp only [indexNode, apply_ite nesting]
    exact ite_self _
  | _ => rfl

theorem Graph.nesting_enter : (G.enter n kind).nesting = G.nesting.note n kind.symbol? := by
  rw [enter, nesting_indexNode, note_eq]
  rfl

namespace Walk

/-- The graph that is being built. -/
def hand (w : Walk) : GraphId := (w.functions.head?.map (·.graph)).getD w.top

/-- The graphs that a walk is building are there. -/
structure Placed (w : Walk) (s : Store) : Prop where
  top : w.top.index < s.graphs.size
  functions : ∀ g ∈ w.functions.map (·.graph), g.index < s.graphs.size

/-- The same operations wait for operands and the same functions and classes are being read. -/
structure Level (w w' : Walk) : Prop where
  top : w'.top = w.top
  pending : w'.pending = w.pending
  functions : w'.functions.map (·.graph) = w.functions.map (·.graph)
  classes : w'.classes.length = w.classes.length

variable {w'' : Walk}

theorem Level.refl (w : Walk) : w.Level w := ⟨rfl, rfl, rfl, rfl⟩

theorem Level.trans (h : w.Level w') (h' : w'.Level w'') : w.Level w'' :=
  ⟨h'.top.trans h.top, h'.pending.trans h.pending, h'.functions.trans h.functions,
    h'.classes.trans h.classes⟩

theorem Level.withVariables (t : Tier) (v : Variables) (w : Walk) :
    w.Level (Build.withVariables t v w) := by
  cases t with
  | module => exact ⟨rfl, rfl, rfl, rfl⟩
  | function =>
    refine ⟨rfl, rfl, ?_, rfl⟩
    cases h : w.functions <;> simp [Build.withVariables, h]
  | class_ =>
    refine ⟨rfl, rfl, rfl, ?_⟩
    cases h : w.classes <;> simp [Build.withVariables, h]

theorem hand_eq (w : Walk) : w.hand = (w.functions.map (·.graph)).head?.getD w.top := by
  rw [List.head?_map]
  rfl

theorem Level.hand (h : w.Level w') : w'.hand = w.hand := by
  rw [hand_eq, hand_eq, h.functions, h.top]

theorem Placed.hand (h : w.Placed s) : w.hand.index < s.graphs.size := by
  rw [hand_eq]
  cases hf : w.functions.map (·.graph) with
  | nil => exact h.top
  | cons g rest => exact h.functions g (hf ▸ .head _)

theorem Placed.level (h : w.Placed s) (hw : w.Level w') (ht : s.graphs.size ≤ t.graphs.size) :
    w'.Placed t :=
  ⟨hw.top ▸ Nat.lt_of_lt_of_le h.top ht,
    fun g hg => Nat.lt_of_lt_of_le (h.functions g (hw.functions ▸ hg)) ht⟩

theorem Placed.congr (h : w.Placed s) (htop : w'.top = w.top)
    (hfunctions : w'.functions = w.functions) : w'.Placed s :=
  ⟨htop ▸ h.top, hfunctions ▸ h.functions⟩

end Walk

theorem Build.meets_graphAtHand {e : Prop} {Q : GraphId → Walk → Store → Prop} :
    Meets e graphAtHand w s Q ↔ Q w.hand w s := by
  obtain ⟨top, _, _, _, _, functions, _⟩ := w
  cases functions <;> exact Iff.rfl

theorem Store.nesting_of_le (h : s.graphs.size ≤ g.index) : (s.graphAt g).nesting = {} := by
  rw [graphAt, Array.getD_eq_getD_getElem?, Array.getElem?_eq_none h]
  rfl

/-- In every graph of a run there are at most as many buffers as bodies. The graphs before `o` are
those of others. -/
def Store.Fits (o : Nat) (s : Store) : Prop :=
  ∀ g : GraphId, o ≤ g.index → (s.graphAt g).nesting.Fits

/-- From one moment of a walk to another one, every body that was opened has been closed. While
handlers are read one after the other, the graph at hand is left with them. -/
structure Leveled (loud : Bool) (w : Walk) (s : Store) (w' : Walk) (t : Store) : Prop where
  walk : w.Level w'
  size : s.graphs.size ≤ t.graphs.size
  depths : ∀ g : GraphId, g.index < s.graphs.size →
    (t.graphAt g).nesting.depths = (s.graphAt g).nesting.depths
  quiet : ∀ g : GraphId, g.index < s.graphs.size → (loud = true → g ≠ w.hand) →
    (s.graphAt g).nesting.Quiet → (t.graphAt g).nesting.Quiet
  flat : ∀ g : GraphId, s.graphs.size ≤ g.index → g.index < t.graphs.size →
    (t.graphAt g).nesting.Flat

namespace Leveled

variable {w'' : Walk} {u : Store}

theorem of_nesting (hw : w.Level w') (hsize : t.graphs.size = s.graphs.size)
    (h : ∀ g, (t.graphAt g).nesting = (s.graphAt g).nesting) : Leveled loud w s w' t where
  walk := hw
  size := Nat.le_of_eq hsize.symm
  depths g _ := congrArg Nesting.depths (h g)
  quiet g _ _ hq := h g ▸ hq
  flat g hg hg' := absurd hg (by omega)

theorem trans (h : Leveled loud w s w' t) (h' : Leveled loud w' t w'' u) (hw : w.Placed s) :
    Leveled loud w s w'' u where
  walk := h.walk.trans h'.walk
  size := Nat.le_trans h.size h'.size
  depths g hg := (h'.depths g (Nat.lt_of_lt_of_le hg h.size)).trans (h.depths g hg)
  quiet g hg hloud hq := by
    refine h'.quiet g (Nat.lt_of_lt_of_le hg h.size) ?_ (h.quiet g hg hloud hq)
    rw [h.walk.hand]
    exact hloud
  flat g hg hg' := by
    by_cases hnew : g.index < t.graphs.size
    · have hflat := h.flat g hg hnew
      refine ⟨(h'.depths g hnew).trans hflat.depths,
        h'.quiet g hnew (fun _ hhand => ?_) hflat.quiet⟩
      -- a graph that is new is not the one at hand
      rw [hhand, h.walk.hand] at hg
      exact absurd hw.hand (by omega)
    · exact h'.flat g (by omega) hg'

theorem congr {v v' : Walk} (h : Leveled loud w s w' t) (hhand : v.hand = w.hand)
    (hv : v.Level v') : Leveled loud v s v' t :=
  { h with walk := hv, quiet := hhand ▸ h.quiet }

theorem mono (h : Leveled false w s w' t) : Leveled loud w s w' t :=
  { h with quiet := fun g hg _ hq => h.quiet g hg (fun hf => absurd hf Bool.false_ne_true) hq }

end Leveled

/-- The bodies of all graphs are the same. -/
structure Store.SameNesting (s t : Store) : Prop where
  size : t.graphs.size = s.graphs.size
  nesting : ∀ g, (t.graphAt g).nesting = (s.graphAt g).nesting

namespace Store.SameNesting

variable {u : Store}

theorem refl (s : Store) : s.SameNesting s := ⟨rfl, fun _ => rfl⟩

theorem trans (h : s.SameNesting t) (h' : t.SameNesting u) : s.SameNesting u :=
  ⟨h'.size.trans h.size, fun g => (h'.nesting g).trans (h.nesting g)⟩

theorem of_graphs (h : t.graphs = s.graphs) : s.SameNesting t := by
  refine ⟨congrArg _ h, fun g => ?_⟩
  simp only [graphAt, h]

theorem fits (h : s.SameNesting t) (hs : s.Fits o) : t.Fits o := by
  intro g hg
  rw [h.nesting]
  exact hs g hg

end Store.SameNesting

/-- A computation that leaves the bodies of all graphs as they are, whether it comes to an end or
not. -/
class Eval.Wires (x : Eval α) : Prop where
  same : ∀ s : Store, s.SameNesting (x.finish s)

namespace Eval.Wires

variable (l : List β) (f : β → Eval Bool) (x : Typing α) (n : NodeId) (link : Link)

instance pure (a : α) : Wires (pure a) := ⟨.refl⟩

instance throw (f : Fault) : Wires (throw f : Eval α) := ⟨.refl⟩

theorem andThen {x : Eval α} {f : α → Eval β} [hx : Wires x] (hf : ∀ a, Wires (f a)) :
    Wires (x >>= f) := by
  constructor
  intro s
  have hx := hx.same s
  simp only [finish, bind_apply] at hx ⊢
  cases h : x s with
  | ok a t =>
    rw [h] at hx
    exact hx.trans ((hf a).same t)
  | error e t =>
    rw [h] at hx
    exact hx

instance bind (x : Eval α) (f : α → Eval β) [Wires x] [hf : ∀ a, Wires (f a)] :
    Wires (x >>= f) := andThen hf

instance ite (p : Prop) [Decidable p] (x y : Eval α) [Wires x] [Wires y] :
    Wires (if p then x else y) := by
  split <;> infer_instance

instance forM (f : β → Eval PUnit) [hf : ∀ b, Wires (f b)] : Wires (l.forM f) := by
  induction l with
  | nil => exact pure PUnit.unit
  | cons b l ih => exact bind _ _

instance anyM [hf : ∀ b, Wires (f b)] : Wires (l.anyM f) := by
  induction l with
  | nil => exact pure false
  | cons b l ih =>
    refine andThen fun found => ?_
    cases found <;> infer_instance

instance filterM [hf : ∀ b, Wires (f b)] : Wires (l.filterM f) := by
  have hloop (acc : List β) : Wires (l.filterAuxM f acc) := by
    induction l generalizing acc with
    | nil => exact pure acc
    | cons b l ih => exact andThen fun c => ih (cond c (b :: acc) acc)
  exact andThen fun l => pure l.reverse

instance typing : Wires x.run := ⟨fun s => .of_graphs (x.grows s).graphs⟩

instance lift : Wires (liftM x : Eval α) := typing x

instance modifyNode (f : Node → Node) : Wires (modifyNode n f) :=
  ⟨fun _ => .of_graphs rfl⟩

instance newNode (node : Node) : Wires (newNode node) := ⟨fun _ => .of_graphs rfl⟩

theorem modifyGraph {f : Graph → Graph} (hf : ∀ G, (f G).nesting = G.nesting) :
    Wires (modifyGraph g f) := by
  refine ⟨fun s => ⟨Array.size_modify, fun h => ?_⟩⟩
  change (Store.graphAt { s with graphs := s.graphs.modify g.index f } h).nesting = _
  rw [Store.graphAt_modify]
  split
  · rename_i hh
    rw [hf, hh.1]
  · rfl

instance makeNode (kind : NodeKind) (name : String) (types rejected : List Entry) :
    Wires (makeNode kind name types rejected) := by
  unfold Eval.makeNode
  infer_instance

instance newSymbol (info : SymbolInfo) : Wires (newSymbol info) := makeNode ..

instance newMerge (var : String) : Wires (newMerge var) := makeNode ..

instance newOperation (op : String) (func attr : Option String) (splitIndex : Int) :
    Wires (newOperation op func attr splitIndex) := by
  unfold Eval.newOperation
  infer_instance

instance newKnown (e : Entry) : Wires (newKnown e) := by
  unfold Eval.newKnown
  split <;> infer_instance

instance newBranch (var : Option String) : Wires (newBranch var) := by
  unfold Eval.newBranch
  infer_instance

instance setPosition (pos : Position) : Wires (setPosition n pos) := modifyNode ..

instance addInput : Wires (addInput n link) := by
  unfold Eval.addInput
  infer_instance

instance addOutput : Wires (addOutput n link) := by
  unfold Eval.addOutput
  infer_instance

instance connect (source target : NodeId) : Wires (connect source target) := by
  unfold Eval.connect
  infer_instance

instance setOutTypes (row : RowId) : Wires (setOutTypes n row) := by
  unfold Eval.setOutTypes
  refine andThen fun node => ?_
  split <;> infer_instance

end Eval.Wires

namespace Build

variable {N M : Nesting} {f : Graph → Graph}

/-- What a run leaves: `P` holds of the store wherever the run stops, and `Q` if it comes to an
end. -/
def Leaves (P : Store → Prop) (x : Build α) (w : Walk) (s : Store)
    (Q : α → Walk → Store → Prop) : Prop :=
  match x w s with
  | .ok (a, w') t => P t ∧ Q a w' t
  | .error _ t => P t

namespace Leaves

variable {P : Store → Prop} {x : Build α} {Q R : α → Walk → Store → Prop}

theorem imp (h : Leaves P x w s Q) (hQR : ∀ a w' t, P t → Q a w' t → R a w' t) :
    Leaves P x w s R := by
  unfold Leaves at h ⊢
  split
  · simp_all
  · simp_all

theorem bind {f : α → Build β} {R : β → Walk → Store → Prop} (hx : Leaves P x w s Q)
    (hf : ∀ a w' t, P t → Q a w' t → Leaves P (f a) w' t R) : Leaves P (x >>= f) w s R := by
  change match (x w >>= fun r => f r.1 r.2) s with
    | .ok (a, w') t => P t ∧ R a w' t
    | .error _ t => P t
  unfold Leaves at hx
  rw [Eval.bind_apply]
  cases h : x w s with
  | ok r t =>
    rw [h] at hx
    exact hf r.1 r.2 t hx.1 hx.2
  | error e t =>
    rw [h] at hx
    exact hx

theorem modify_bind {f : Walk → Walk} {g : PUnit → Build α} :
    Leaves P (modify f >>= g) w s Q ↔ Leaves P (g ⟨⟩) (f w) s Q := Iff.rfl

theorem modify_iff {f : Walk → Walk} {Q : PUnit → Walk → Store → Prop} :
    Leaves P (modify f) w s Q ↔ P s ∧ Q ⟨⟩ (f w) s := Iff.rfl

end Leaves

/-- A computation that closes every body that it opens. At no moment at which it may stop are
there more buffers than bodies. -/
class Levels (loud : Bool) (x : Build α) : Prop where
  level : ∀ {o : Nat} {w : Walk} {s : Store}, w.Placed s → s.Fits o →
    Leaves (Store.Fits o) x w s fun _ w' t => Leveled loud w s w' t

namespace Levels

variable {x : Build α} {l : List β} {init : γ} {f : β → γ → Build (ForInStep γ)}

theorem of_same (h : ∀ w s, Leaves s.SameNesting x w s fun _ w' _ => w.Level w') :
    Levels loud x := by
  constructor
  intro o w s hw hs
  have hx := h w s
  unfold Leaves at hx ⊢
  split at hx
  · exact ⟨hx.1.fits hs, .of_nesting hx.2 hx.1.size hx.1.nesting⟩
  · exact hx.fits hs

instance pure (a : α) : Levels loud (pure a) := of_same fun w s => ⟨.refl s, .refl w⟩

instance throw (f : Fault) : Levels loud (throw f : Build α) := of_same fun _ s => .refl s

instance throw_bind (f : Fault) (g : α → Build β) :
    Levels loud ((MonadExcept.throw f : Build α) >>= g) :=
  of_same fun _ s => .refl s

instance get : Levels loud (get : Build Walk) := of_same fun w s => ⟨.refl s, .refl w⟩

theorem modifies {f : Walk → Walk} (hf : ∀ w : Walk, w.Level (f w)) :
    Levels loud (modify f : Build PUnit) :=
  of_same fun w s => ⟨.refl s, hf w⟩

theorem modifiesGet {f : Walk → α × Walk} (hf : ∀ w : Walk, w.Level (f w).2) :
    Levels loud (modifyGet f : Build α) := of_same fun w s => ⟨.refl s, hf w⟩

instance lift (x : Eval α) [hx : Eval.Wires x] : Levels loud (liftM x : Build α) := by
  refine of_same fun w s => ?_
  have hs := hx.same s
  have hrun : (liftM x : Build α) w s = (x >>= fun a => Pure.pure (a, w)) s := rfl
  unfold Leaves
  rw [hrun, Eval.bind_apply]
  unfold Eval.finish at hs
  cases h : x s with
  | ok a t =>
    rw [h] at hs
    exact ⟨hs, .refl w⟩
  | error e t =>
    rw [h] at hs
    exact hs

instance liftTyping (x : Typing α) : Levels loud (liftM x : Build α) := lift x.run

theorem andThen {f : α → Build β} [hx : Levels loud x] (hf : ∀ a, Levels loud (f a)) :
    Levels loud (x >>= f) := by
  constructor
  intro o w s hw hs
  refine (hx.level hw hs).bind fun a w' t ht h => ?_
  exact ((hf a).level (hw.level h.walk h.size) ht).imp fun _ _ _ _ h' => h.trans h' hw

instance bind (x : Build α) (f : α → Build β) [Levels loud x] [hf : ∀ a, Levels loud (f a)] :
    Levels loud (x >>= f) := andThen hf

instance ite (p : Prop) [Decidable p] (x y : Build α) [Levels loud x] [Levels loud y] :
    Levels loud (if p then x else y) := by
  split <;> infer_instance

/-- A loop is level when every turn of it is. -/
theorem loop (hf : ∀ b ∈ l, ∀ c, Levels loud (f b c)) : Levels loud (ForIn.forIn l init f) := by
  induction l generalizing init with
  | nil => exact pure init
  | cons b l ih =>
    rw [List.forIn_cons]
    have := hf b (.head _) init
    refine andThen fun c => ?_
    cases c with
    | done c => exact pure c
    | yield c => exact ih fun b hb => hf b (.tail _ hb)

theorem loopThen {g : γ → Build α} (hf : ∀ b ∈ l, ∀ c, Levels loud (f b c))
    (hg : ∀ c, Levels loud (g c)) : Levels loud (ForIn.forIn l init f >>= g) := by
  have : Levels loud (ForIn.forIn l init f) := loop hf
  exact andThen hg

theorem forM_of_mem {f : β → Build PUnit} (hf : ∀ b ∈ l, Levels loud (f b)) :
    Levels loud (l.forM f) := by
  induction l with
  | nil => exact pure PUnit.unit
  | cons b l ih =>
    have := hf b (.head _)
    exact andThen fun _ => ih fun b hb => hf b (.tail _ hb)

instance forM (l : List β) (f : β → Build PUnit) [hf : ∀ b, Levels loud (f b)] :
    Levels loud (l.forM f) := forM_of_mem fun b _ => hf b

instance mapM (l : List β) (f : β → Build γ) [hf : ∀ b, Levels loud (f b)] :
    Levels loud (l.mapM f) := by
  induction l with
  | nil => exact pure []
  | cons b l ih =>
    rw [List.mapM_cons]
    exact bind _ _

/-- Adding a node to a graph notes it in the buffers of the bodies around it. -/
instance addToGraph (g : GraphId) (n : NodeId) :
    Levels loud (liftM (Eval.addNode g n) : Build Unit) := by
  constructor
  intro o w s hw hs
  obtain ⟨_, t, hrun, ht⟩ : Eval.Ends (Eval.addNode g n) s fun _ t => t.web = s.web.enter g n :=
    (Eval.meets_addNode g n fun t ht => ht).ends
  have hgraph (h : GraphId) : (t.graphAt h).nesting = (s.graphAt h).nesting ∨
      ∃ n info, (t.graphAt h).nesting = (s.graphAt h).nesting.note n info := by
    change (t.web.graph h).nesting = (s.web.graph h).nesting ∨
      ∃ n info, (t.web.graph h).nesting = (s.web.graph h).nesting.note n info
    rw [ht, Web.enter, Web.alterGraph]
    dsimp only
    split
    · rename_i hh
      rw [hh.1]
      exact .inr ⟨n, _, Graph.nesting_enter _ _ _⟩
    · exact .inl rfl
  have hsize : t.graphs.size = s.graphs.size := congrArg Web.graphs ht
  have hrun' : (liftM (Eval.addNode g n) : Build Unit) w s = .ok ((), w) t :=
    Eval.bind_of_ok hrun _
  simp only [Leaves, hrun']
  refine ⟨fun h hh => ?_, .refl w, Nat.le_of_eq hsize.symm, ?_, ?_, ?_⟩
  · rcases hgraph h with heq | ⟨n, info, heq⟩
    · exact heq ▸ hs h hh
    · exact heq ▸ (hs h hh).note n info
  · intro h _
    rcases hgraph h with heq | ⟨n, info, heq⟩
    · rw [heq]
    · exact heq ▸ rfl
  · intro h _ _ hq
    rcases hgraph h with heq | ⟨n, info, heq⟩
    · exact heq ▸ hq
    · exact heq ▸ hq.note n info
  · intro h hh hh'
    omega

theorem mono (h : Levels false x) : Levels loud x :=
  ⟨fun hw hs => (h.level hw hs).imp fun _ _ _ _ h => h.mono⟩

end Levels

/-! ## Opening and closing bodies -/

/-- The bodies of one graph have changed. -/
structure NestsAt (g : GraphId) (N : Nesting) (s t : Store) : Prop where
  size : t.graphs.size = s.graphs.size
  here : (t.graphAt g).nesting = N
  elsewhere : ∀ h, h ≠ g → (t.graphAt h).nesting = (s.graphAt h).nesting

theorem nestsAt_modify (hg : g.index < s.graphs.size) (hf : (f (s.graphAt g)).nesting = N) :
    NestsAt g N s { s with graphs := s.graphs.modify g.index f } where
  size := Array.size_modify
  here := by simpa [Store.graphAt_modify, hg] using hf
  elsewhere h hh := by simp [Store.graphAt_modify, hh]

theorem modifyHand_run (f : Graph → Graph) (w : Walk) (s : Store) :
    (do Eval.modifyGraph (← graphAtHand) f : Build Unit) w s =
      .ok ((), w) { s with graphs := s.graphs.modify w.hand.index f } := by
  obtain ⟨top, _, _, _, _, functions, _⟩ := w
  cases functions <;> rfl

/-- A body that is opened before and closed after a computation that closes every body of its
own. `N` is the nesting of the graph at hand before, and `M` the one after. -/
theorem leveled_closing {inner : Bool} {u v : Store} (hw : w.Placed s)
    (hopen : NestsAt w.hand N s t) (h : Leveled inner w t w' u) (hclose : NestsAt w.hand M u v)
    (hdepths : M.depths = (s.graphAt w.hand).nesting.depths)
    (hhand : (loud → w.hand ≠ w.hand) → (s.graphAt w.hand).nesting.Quiet → M.Quiet) :
    Leveled loud w s w' v where
  walk := h.walk
  size := by
    rw [hclose.size, ← hopen.size]
    exact h.size
  depths g hg := by
    by_cases hhand : g = w.hand
    · rw [hhand, hclose.here, hdepths]
    · rw [hclose.elsewhere g hhand, h.depths g (hopen.size ▸ hg), hopen.elsewhere g hhand]
  quiet g hg hloud hquiet := by
    by_cases heq : g = w.hand
    · subst heq
      rw [hclose.here]
      exact hhand hloud hquiet
    · rw [hclose.elsewhere g heq]
      refine h.quiet g (hopen.size ▸ hg) (fun _ => heq) ?_
      rw [hopen.elsewhere g heq]
      exact hquiet
  flat g hg hg' := by
    have hne : g ≠ w.hand := by
      rintro rfl
      exact absurd hw.hand (by omega)
    rw [hclose.elsewhere g hne]
    exact h.flat g (hopen.size ▸ hg) (hclose.size ▸ hg')

theorem NestsAt.fits (h : NestsAt g N s t) (hs : s.Fits o) (hN : o ≤ g.index → N.Fits) :
    t.Fits o := by
  intro k hk
  by_cases hkg : k = g
  · rw [hkg, h.here]
    exact hN (hkg ▸ hk)
  · rw [h.elsewhere k hkg]
    exact hs k hk

theorem leaves_modifyHand (hw : w.Placed s) (hs : s.Fits o)
    (hf : (f (s.graphAt w.hand)).nesting = M) (hM : o ≤ w.hand.index → M.Fits) :
    Leaves (Store.Fits o) (do Eval.modifyGraph (← graphAtHand) f) w s fun _ w' t =>
      w' = w ∧ NestsAt w.hand M s t := by
  have ht := nestsAt_modify hw.hand hf
  unfold Leaves
  rw [modifyHand_run f w s]
  exact ⟨ht.fits hs hM, rfl, ht⟩

/-- Opening a body, a computation inside of it, and closing the body: when the computation closes
every body of its own, so does the whole. -/
theorem Levels.bracket {enter leave : Build Unit} {x : Build α} [hx : Levels loud x]
    {opened : Nesting → Nesting} (hfits : ∀ N : Nesting, N.Fits → (opened N).Fits)
    (hquiet : ∀ N : Nesting, N.Quiet → (opened N).Quiet)
    (henter : ∀ {w s}, w.Placed s → ∃ t, enter w s = .ok ((), w) t ∧
      NestsAt w.hand (opened (s.graphAt w.hand).nesting) s t)
    (hleave : ∀ {o w s} {N : Nesting}, w.Placed s → s.Fits o → (o ≤ w.hand.index → N.Fits) →
      (s.graphAt w.hand).nesting.depths = (opened N).depths →
      Leaves (Store.Fits o) leave w s fun _ w' t => w' = w ∧ ∃ M : Nesting, NestsAt w.hand M s t ∧
        M.depths = N.depths ∧ ((s.graphAt w.hand).nesting.Quiet → M.Quiet)) :
    Levels loud (do
      enter
      let a ← x
      leave
      return a) := by
  constructor
  intro o w s hw hs
  obtain ⟨t, hrun, ht⟩ := henter hw
  have hwt : w.Placed t := hw.level (.refl w) (Nat.le_of_eq ht.size.symm)
  have hinner : Leaves (Store.Fits o) (do
      let a ← x
      leave
      return a) w t fun _ w' v => Leveled loud w s w' v := by
    refine (hx.level hwt (ht.fits hs fun ho => hfits _ (hs _ ho))).bind fun a w' u hu h => ?_
    have hhand := h.walk.hand
    refine (hleave (hwt.level h.walk h.size) hu (fun ho => hs w.hand (hhand ▸ ho)) ?_).bind ?_
    · rw [hhand, h.depths _ hwt.hand, ht.here]
    · rintro _ _ v hv ⟨rfl, M, hM, hdepths, hq⟩
      rw [hhand] at hM hq
      refine ⟨hv, leveled_closing hw ht h hM hdepths fun hloud hs => hq ?_⟩
      exact h.quiet _ hwt.hand hloud (ht.here ▸ hquiet _ hs)
  unfold Leaves at hinner ⊢
  have hseq : (enter >>= fun _ => x >>= fun a => leave >>= fun _ => Pure.pure a : Build α) w s =
      (x >>= fun a => leave >>= fun _ => Pure.pure a : Build α) w t := Eval.bind_of_ok hrun _
  rw [hseq]
  exact hinner

end Build

end TypeFlow
