import TypeFlow.Proofs.SteadyExpressions

/-!
# Branches, loops and handlers are steady

Where the sides of a statement meet, the walk makes merges and gives variables back the nodes of a
snapshot, which are listed. Entering and leaving bodies changes nothing that a graph lists.
-/

namespace TypeFlow

open List

variable {G : Graph} {o : Origin} {s : Store} {g : GraphId} {n : NodeId} {w : Walk}
  {K : List Charge} {f : Graph → Graph}

/-! ## Bodies of a graph -/

/-- What a graph lists and files, and its name. -/
structure Ledger where
  nodes : List NodeId
  merges : List NodeId
  branches : List NodeId
  symbols : Table String (List NodeId)
  operations : Table String (List NodeId)
  arguments : List NodeId
  returns : List NodeId
  role : GraphRole
  name : String
  nextIndex : Nat

/-- What a graph lists and files, and its name. -/
def Graph.ledger (G : Graph) : Ledger where
  nodes := G.nodes
  merges := G.merges
  branches := G.branches
  symbols := G.symbols
  operations := G.operations
  arguments := G.arguments
  returns := G.returns
  role := G.role
  name := G.name
  nextIndex := G.nextIndex

/-- A graph that lists nothing is tidy. -/
theorem Graph.Tidy.of_blank {rubric : NodeId → Rubric}
    (hledger : G.ledger = ⟨[], [], [], {}, {}, [], [], G.role, G.name, G.nextIndex⟩)
    (hhandled : G.exceptBuffer = []) : G.Tidy rubric := by
  have nodes : G.nodes = [] := congrArg Ledger.nodes hledger
  have joints : G.merges ++ G.branches = [] :=
    congrArg (fun l => l.merges ++ l.branches) hledger
  have symbols : G.symbols = {} := congrArg Ledger.symbols hledger
  have operations : G.operations = {} := congrArg Ledger.operations hledger
  have arguments : G.arguments = [] := congrArg Ledger.arguments hledger
  have returns : G.returns = [] := congrArg Ledger.returns hledger
  constructor
  · rw [nodes]
    exact .nil
  · rw [joints]
    exact fun _ h => absurd h not_mem_nil
  · rw [hhandled]
    exact fun _ h => absurd h not_mem_nil
  · rw [symbols, nodes]
    exact fun _ => .empty
  · rw [operations, nodes]
    exact .empty
  · rw [arguments, nodes]
    exact fun _ => rfl
  · rw [returns, nodes]
    exact fun _ => rfl

/-- A graph lists and files the same, and has no new writes of handlers. -/
structure Graph.Keeps (G G' : Graph) : Prop where
  ledger : G'.ledger = G.ledger
  handled : ∀ writes ∈ G'.exceptBuffer, writes ∈ G.exceptBuffer

namespace Graph.Keeps

variable {G' : Graph}

theorem refl (G : Graph) : G.Keeps G := ⟨rfl, fun _ h => h⟩

variable (h : G.Keeps G')

include h

theorem nodes : G'.nodes = G.nodes := congrArg Ledger.nodes h.ledger

theorem name : G'.name = G.name := congrArg Ledger.name h.ledger

theorem nextIndex : G'.nextIndex = G.nextIndex :=
  congrArg Ledger.nextIndex h.ledger

theorem isModule : G'.isModule = G.isModule :=
  congrArg (fun l => l.role == GraphRole.module) h.ledger

theorem tidy {rubric : NodeId → Rubric} (hG : G.Tidy rubric) : G'.Tidy rubric := by
  have joints : G'.merges ++ G'.branches = G.merges ++ G.branches :=
    congrArg (fun l => l.merges ++ l.branches) h.ledger
  have symbols : G'.symbols = G.symbols := congrArg Ledger.symbols h.ledger
  have operations : G'.operations = G.operations := congrArg Ledger.operations h.ledger
  have arguments : G'.arguments = G.arguments := congrArg Ledger.arguments h.ledger
  have returns : G'.returns = G.returns := congrArg Ledger.returns h.ledger
  constructor
  · exact h.nodes ▸ hG.nodup
  · rw [joints, h.nodes]
    exact hG.joints
  · intro writes hwrites
    rw [h.nodes]
    exact hG.handled writes (h.handled writes hwrites)
  · rw [symbols, h.nodes, h.isModule]
    exact hG.symbols
  · rw [operations, h.nodes]
    exact hG.operations
  · rw [arguments, h.nodes, h.isModule]
    exact hG.arguments
  · rw [returns, h.nodes, h.isModule]
    exact hG.returns

end Graph.Keeps

/-- Every graph of a store lists and files the same. -/
structure Store.Reopens (s t : Store) : Prop where
  nodes : t.nodes = s.nodes
  size : t.graphs.size = s.graphs.size
  graph : ∀ g, (s.graphAt g).Keeps (t.graphAt g)

namespace Store.Reopens

variable {t : Store}

theorem modify (hf : ∀ G : Graph, G.Keeps (f G)) (g : GraphId) :
    s.Reopens { s with graphs := s.graphs.modify g.index f } where
  nodes := rfl
  size := Array.size_modify ..
  graph h := by
    rw [graphAt_modify]
    split
    · rename_i heq
      exact heq.1 ▸ hf _
    · exact .refl _

section

variable (h : s.Reopens t)

include h

theorem nodeAt : t.nodeAt n = s.nodeAt n := by simp only [Store.nodeAt, h.nodes]

theorem rubric : t.rubric = s.rubric :=
  funext fun n => by rw [Store.rubric, Store.rubric, h.nodeAt]

theorem opened : o.Opened t g ↔ o.Opened s g := by
  rw [Origin.Opened, Origin.Opened, h.size]

theorem made : o.Made t n ↔ o.Made s n := by
  rw [Origin.Made, Origin.Made, h.nodes]

theorem filed (hs : o.Filed s) : o.Filed t where
  size := h.nodes ▸ hs.size
  made g n hg hn := h.made.mpr (hs.made g n (h.opened.mp hg) ((h.graph g).nodes ▸ hn))
  tidy g hg := by
    rw [h.rubric]
    exact (h.graph g).tidy (hs.tidy g (h.opened.mp hg))

theorem numbered (hs : o.Numbered s) : o.Numbered t where
  number n g hn hng := by
    rw [h.opened, (h.graph g).name, (h.graph g).nextIndex, h.nodeAt]
    exact hs.number n g (h.made.mp hn) (h.nodeAt ▸ hng)
  distinct n m g hn hm hng hmg hid := by
    rw [h.nodeAt] at hng hmg hid
    rw [h.nodeAt] at hid
    exact hs.distinct n m g (h.made.mp hn) (h.made.mp hm) hng hmg hid
  listed g n hg hn := by
    rw [h.nodeAt]
    exact hs.listed g n (h.opened.mp hg) ((h.graph g).nodes ▸ hn)

end

end Store.Reopens

namespace Walk

variable {t : Store}

theorem Extends.reopens (h : s.Reopens t) : w.Extends s w t where
  level := .refl w
  graphs := Nat.le_of_eq h.size.symm
  nodes := Nat.le_of_eq (congrArg _ h.nodes.symm)
  listed g n hn := (h.graph g).nodes ▸ hn
  rubric n _ := by rw [h.rubric]

/-- Graphs that list the same and have the same functions are in order. -/
theorem Orderly.reopens (h : w.Orderly o s) (ht : s.Reopens t)
    (hfunctions : ∀ g, (t.graphAt g).functions = (s.graphAt g).functions) : w.Orderly o t where
  filed := ht.filed h.filed
  numbered := ht.numbered h.numbered
  framed := h.framed.congr (fun _ => ht.opened) (fun g => (ht.graph g).name)
    (fun g => (ht.graph g).isModule) hfunctions rfl rfl rfl
  held f hf n hn := by
    rw [(ht.graph f.graph).nodes]
    exact h.held f hf n hn
  fans n hn hsymbol hlen := by
    rw [ht.rubric] at hsymbol
    rw [ht.nodeAt] at hlen
    exact (h.fans n (ht.made.mp hn) hsymbol hlen).extend (.reopens ht)

theorem Holds.reopens (h : w.Holds o K s) (ht : s.Reopens t)
    (hfunctions : ∀ g, (t.graphAt g).functions = (s.graphAt g).functions) : w.Holds o K t where
  orderly := h.orderly.reopens ht hfunctions
  made e he := ht.made.mpr (h.made e he)
  clear e he := (h.clear e he).extend rfl id
    (fun g hg hn => ⟨ht.opened.mp hg, (ht.graph g).nodes ▸ hn⟩)
    (ht.opened.mpr h.orderly.framed.opened)
  distinct := h.distinct

end Walk

namespace Build

open Program

variable {α : Type} {q : Option Bool} {P : List Known}

set_option synthInstance.maxSize 1000

/-- Changing the bodies that are being read into a graph. -/
theorem Steady.modifyGraph (hf : ∀ G : Graph, G.Keeps (f G))
    (hfunctions : ∀ G : Graph, (f G).functions = G.functions) :
    Steady none (liftM (Eval.modifyGraph g f) : Build Unit) := by
  refine ⟨?_, fun _ h => absurd h (Option.not_mem_none _)⟩
  intro o K w s hw
  rw [meets_lift, Eval.meets_of_eq (Eval.modifyGraph_apply ..)]
  have ht := Store.Reopens.modify (s := s) hf g
  refine ⟨hw.reopens ht fun h => ?_, .reopens ht⟩
  rw [Store.graphAt_modify, apply_ite Graph.functions, hfunctions]
  split
  · rename_i heq
    rw [heq.1]
  · rfl

namespace Steady

theorem modifyHand (hf : ∀ G : Graph, G.Keeps (f G))
    (hfunctions : ∀ G : Graph, (f G).functions = G.functions) : Steady none (do
    Eval.modifyGraph (← Build.graphAtHand) f) := .of_builds (by
  have (g : GraphId) := modifyGraph (g := g) hf hfunctions
  infer_instance)

instance enterLoop : Steady none enterLoop := modifyHand (fun _ => ⟨rfl, fun _ h => h⟩) fun _ => rfl

instance closeLoop : Steady none closeLoop := modifyHand (fun _ => ⟨rfl, fun _ h => h⟩) fun _ => rfl

instance dropLoop : Steady none dropLoop := modifyHand (fun _ => ⟨rfl, fun _ h => h⟩) fun _ => rfl

instance leaveWhile : Steady none leaveWhile := .of_builds (by
  unfold Build.leaveWhile
  refine .andThen fun g => .andThen fun G => .andThen fun _ => ?_
  have := modifyGraph (g := g) (f := fun graph : Graph =>
    { graph with
      loopDepth := G.loopDepth - 1
      loopBuffer := graph.loopBuffer.eraseIdx (G.loopDepth - 1).toNat })
    (fun _ => ⟨rfl, fun _ h => h⟩) fun _ => rfl
  infer_instance)

instance enterTry : Steady none enterTry := modifyHand (fun _ => ⟨rfl, fun _ h => h⟩) fun _ => rfl

instance closeTry : Steady none closeTry := modifyHand (fun _ => ⟨rfl, fun _ h => h⟩) fun _ => rfl

instance dropTry : Steady none dropTry := modifyHand (fun _ => ⟨rfl, fun _ h => h⟩) fun _ => rfl

instance enterHandler : Steady none enterHandler :=
  modifyHand (fun _ => ⟨rfl, fun _ h => h⟩) fun _ => rfl

instance leaveHandlers : Steady none leaveHandlers :=
  modifyHand (fun _ => ⟨rfl, fun _ h => absurd h not_mem_nil⟩) fun _ => rfl

/-! ## Branches -/

instance testedType (tested : Tested) : Steady q (testedType tested) := .of_builds (by
  have hdenoted (path spelling : String) : Builds q [] [] (denotedType path spelling) := by
    unfold denotedType
    split
    · split <;> infer_instance
    · infer_instance
  unfold Build.testedType
  cases tested with
  | exact_ e => infer_instance
  | named e => infer_instance
  | literal kind =>
    refine .andThen fun name => ?_
    cases name <;> infer_instance)

instance setBranchName (b : NodeId) (name : String) : Steady q (setBranchName b name) := by
  refine modifyNode (fun node => ?_) (fun _ => ⟨rfl, rfl⟩) fun _ => rfl
  obtain ⟨kind, _⟩ := node
  cases kind <;> rfl

end Steady

instance (priority := high) Builds.newBranch (test : TypeTest) (subject : Build Unit)
    (f : NodeId → Build α) [Steady q subject]
    [hf : ∀ b, Builds q (.listed b :: .target b :: P) K (f b)] :
    Builds q P K (newBranch test subject >>= f) := by
  unfold Build.newBranch
  simp only [bind_assoc, LawfulMonad.pure_bind]
  infer_instance

instance Builds.splitVariable (b : NodeId) [Knows (.listed b) P] :
    Builds q P K (splitVariable b) := by
  unfold Build.splitVariable
  refine andThen fun node => ?_
  split
  · infer_instance
  · infer_instance
  · refine andThen fun node => ?_
    split
    · infer_instance
    · split
      · infer_instance
      · refine andThen fun _ => andThen fun order => ?_
        cases order <;> infer_instance

namespace Steady

instance enterSide (split : Option SplitVariable) : Steady q (enterSide split) := .of_builds (by
  unfold Build.enterSide
  cases split <;> infer_instance)

instance joinVariable (t : Tier) (key : String) (first second : Link) :
    Steady q (joinVariable t key first second) := .of_builds (by
  unfold Build.joinVariable
  cases t <;> infer_instance)

instance latestIn (v : Variables) (key : String) : Steady q (latestIn v key) := .of_builds (by
  unfold Build.latestIn
  split <;> infer_instance)

instance joinOld (t : Tier) (before first now : Variables) (old : Link) (key : String) :
    Steady q (joinOld t before first now old key) := .of_builds (by
  unfold Build.joinOld
  split
  · split
    · infer_instance
    · split <;> infer_instance
  · infer_instance)

end Steady

/-- A variable gets its current node of the first side only where the snapshot has one. -/
theorem builds_joinSides {S : Snapshot} {t : Tier} {before first : Variables} {key : String}
    [h : Knows (.taken S) P] (hfirst : S.tier t = some first) :
    Builds q P K (joinSides t before first key) := by
  unfold joinSides
  refine .andThen fun now => ?_
  split
  · infer_instance
  · split
    · infer_instance
    · rename_i other hother _
      refine builds_setLatest fun w s hP ht n hn => ?_
      subst ht hn
      exact hP _ h.mem first hfirst n (Table.mem_values_of_get? hother)
    · infer_instance

instance Builds.joinAll (before first : Snapshot) [Knows (.taken first) P] :
    Builds q P K (joinAll before first) := by
  unfold Build.joinAll
  refine loopThen (fun t _ _ => ?_) inferInstance
  split
  · rename_i b f hb hf
    refine andThen fun v => loopThen (fun key _ _ => ?_) inferInstance
    have : Builds q P [] (joinSides t b f key) := builds_joinSides hf
    infer_instance
  · infer_instance

namespace Steady

variable (pos : Position) (t : Tier) (before : Variables) (overElements : Bool) (key : String)
  (orElse : List Stmt) (name : String)

instance visitIf (test : Expr) (subject condition body orElse : Build Unit) [Steady q subject]
    [Steady q condition] [Steady q body] [Steady q orElse] :
    Steady q (visitIf test subject condition body orElse) := .of_builds (by
  have hsides (split : Option SplitVariable) {P : List Known} : Builds q P [] (do
      let before ← Build.snapshot
      Build.enterSide split
      body
      let first ← Build.snapshot
      Build.restoreLatest before
      Build.enterSide split
      orElse
      Build.joinAll before first
      match split with
      | some s => do let _ ← Build.latest s.tier s.info.symbol
      | none => Pure.pure ()) := by
    cases split <;> infer_instance
  unfold Build.visitIf
  dsimp only
  split
  · infer_instance
  · infer_instance)

/-! ## Loops -/

instance loopEnds : Steady q (loopEnds t before overElements key) := .of_builds (by
  unfold Build.loopEnds
  infer_instance)

instance joinLoopVariable : Steady q (joinLoopVariable t before overElements key) := .of_builds (by
  unfold Build.joinLoopVariable
  refine .andThen fun v => ?_
  split
  · split
    · refine .andThen fun ends => ?_
      split <;> infer_instance
    · infer_instance
  · infer_instance)

instance joinLoop (before : Snapshot) (overElements : Bool) :
    Steady q (joinLoop before overElements) := .of_builds (by
  unfold Build.joinLoop
  refine .loopThen (fun t _ _ => ?_) inferInstance
  split <;> infer_instance)

instance checkLoopBody : Steady q checkLoopBody := .of_builds (by
  unfold Build.checkLoopBody
  infer_instance)

instance refuseElse : Steady q (refuseElse orElse) := .of_builds (by
  unfold Build.refuseElse
  infer_instance)

instance visitFor (target iter body : Build Unit) [Steady none target] [Steady none iter]
    [Steady none body] : Steady none (visitFor pos orElse target iter body) := .of_builds (by
  unfold Build.visitFor readFor
  simp only [bind_assoc, pure_bind]
  refine .andThen fun _ => ?_
  infer_instance)

instance visitWhile (test body : Build Unit) [Steady none test] [Steady none body] :
    Steady none (visitWhile orElse test body) := .of_builds (by
  unfold Build.visitWhile
  infer_instance)

/-! ## Handlers and contexts -/

instance bodyWrites : Steady q bodyWrites := .of_builds (by
  unfold Build.bodyWrites
  infer_instance)

instance innermost : Steady q innermost := .of_builds (by
  unfold Build.innermost
  infer_instance)

instance holder (tiers : List Tier) : Steady q (holder key tiers) := .of_builds (by
  unfold Build.holder
  infer_instance)

instance mergeWrites : Steady q mergeWrites := .of_builds (by
  unfold Build.mergeWrites
  refine .andThen fun writes => .loopThen (fun e _ _ => .andThen fun found => ?_) inferInstance
  cases found <;> infer_instance)

instance forgetOccurrences : Steady q (forgetOccurrences t name) := by
  refine of_walk fun o w s hw => ?_
  unfold Build.forgetOccurrences
  rw [meets_bind, meets_get]
  cases hv : vars? t w with
  | none => exact ⟨rfl, .refl w, hw⟩
  | some v =>
    dsimp only
    split
    · exact ⟨rfl, .withVariables t _ _, hw.restrict hv fun _ h => h⟩
    · exact ⟨rfl, .refl w, hw⟩

instance bindError (pos : Position) : Steady q (bindError name pos) := .of_builds (by
  unfold Build.bindError
  infer_instance)

instance visitHandler (name : Option String) (body : Build Unit) [Steady none body] :
    Steady none (visitHandler pos name body) := .of_builds (by
  unfold Build.visitHandler
  cases name <;> infer_instance)

instance occurrenceTier (n : NodeId) : Steady q (occurrenceTier n) := .of_builds (by
  unfold Build.occurrenceTier
  refine .andThen fun node => ?_
  split <;> infer_instance)

end Steady

/-- What handlers wrote is listed in the graph at hand. -/
def written (buffers : List (Table String NodeId)) : List Known :=
  (buffers.flatMap Table.values).map .listed

/-- A variable that only one handler wrote keeps the node of that handler. -/
theorem builds_mergeHandled {buffers : List (Table String NodeId)} {key : String}
    (hkey : key ∈ buffers.flatMap Table.keys) :
    Builds q (written buffers) [] (mergeHandled buffers key) := by
  unfold mergeHandled
  refine .andThen fun found => ?_
  dsimp only
  split
  · rename_i n hn
    have hwrites : n ∈ buffers.filterMap (·.get? key) := by
      obtain ⟨writes, hwrites, hmem⟩ := mem_flatMap.mp hkey
      obtain ⟨m, hm⟩ := Option.isSome_iff_exists.mp (Table.mem_keys_iff.mp hmem)
      have hm' : m ∈ buffers.filterMap (·.get? key) := mem_filterMap.mpr ⟨writes, hwrites, hm⟩
      -- the one node is that of the handler
      obtain rfl : m = n := mem_singleton.mp (hn ▸ mem_append_right _ hm')
      exact hm'
    have : Knows (.listed n) (written buffers) := by
      obtain ⟨writes, hwrites, hget⟩ := mem_filterMap.mp hwrites
      refine ⟨mem_map_of_mem (mem_flatMap.mpr ⟨writes, hwrites, ?_⟩)⟩
      exact Table.mem_values_of_get? hget
    refine .andThen fun t => ?_
    cases t <;> infer_instance
  · infer_instance

namespace Steady

instance mergeHandlers : Steady q mergeHandlers := by
  have hbuilds (buffers : List (Table String NodeId)) : Builds q (written buffers) [] (do
      for key in buffers.flatMap Table.keys do
        Build.mergeHandled buffers key) := by
    refine .loopThen (fun key hkey _ => ?_) inferInstance
    have := builds_mergeHandled (q := q) hkey
    infer_instance
  refine ⟨?_, level_bind inferInstance fun _ => level_bind inferInstance fun G =>
    (hbuilds G.exceptBuffer).level⟩
  intro o K w s hw
  unfold Build.mergeHandlers
  rw [meets_bind, meets_graphAtHand, meets_bind, meets_liftTyping,
    Eval.meets_of_eq (Eval.graph_run _ _)]
  refine (hbuilds _).run hw fun p hp => ?_
  obtain ⟨n, hn, rfl⟩ := mem_map.mp hp
  obtain ⟨writes, hwrites, hn⟩ := mem_flatMap.mp hn
  intro g hg
  obtain rfl : w.hand = g := by
    rw [Walk.hand, ← head?_map, Option.mem_def.mp hg]
    rfl
  have hopened := (hw.orderly.framed.apart w.hand (mem_of_mem_head? hg)).1
  exact (hw.orderly.filed.tidy w.hand hopened).handled writes hwrites n hn

instance visitTry (body handlers orElse finalBody : Build Unit) [Steady none body]
    [Steady none handlers] [Steady none orElse] [Steady none finalBody] :
    Steady none (visitTry body handlers orElse finalBody) := .of_builds (by
  unfold Build.visitTry
  refine @Builds.snapshot _ _ _ _ _ fun before => .andThen fun _ => .andThen fun _ => ?_
  refine @Builds.snapshot _ _ _ _ _ fun after => .andThen fun _ => .andThen fun _ => ?_
  infer_instance)

theorem visitContext {value : Build Unit} {target : Option (Expr × Build Unit)}
    [Steady q value] (htarget : ∀ e ∈ target, Steady q e.2) :
    Steady q (visitContext value target) := .of_builds (by
  have hnames (names : Walk → List (List String)) : Steady q
      (modify fun w : Walk => { w with contextNames := names w } : Build PUnit) :=
    modifies fun _ => ⟨⟨rfl, rfl, rfl, rfl⟩, rfl, rfl⟩
  unfold Build.visitContext
  cases target with
  | none => infer_instance
  | some e =>
    have := htarget e rfl
    infer_instance)

instance forgetBound (name : String) : Steady q (forgetBound name) := .of_builds (by
  have hdrop (t : Tier) (keeps : Variables → String × Link → Bool) : Steady q (do
      let v ← Build.vars t
      Build.setVariables t { v with latest := ⟨v.latest.entries.filter (keeps v)⟩ }) := by
    refine steady_vars fun hw hv => ⟨rfl, .withVariables t _ _, hw.restrict hv fun n hn => ?_⟩
    obtain ⟨e, he, heq⟩ := mem_map.mp hn
    exact mem_map.mpr ⟨e, (mem_filter.mp he).1, heq⟩
  have hbound (t : Tier) : Builds q [] [] (do
      Build.forgetLatest t name
      let v ← Build.vars t
      let isPart (key : String) : Bool := Text.startsWith key (name ++ "_@_")
      let gone := v.counts.keys.filter isPart
      let latest := v.latest.entries.filter fun e => !(gone.contains e.1)
      Build.setVariables t { v with latest := ⟨latest⟩ }
      Build.forgetOccurrences t name) := by
    refine .andThen fun _ => ?_
    dsimp only
    rw [← bind_assoc]
    have := hdrop t fun v e =>
      !((v.counts.keys.filter fun key => Text.startsWith key (name ++ "_@_")).contains e.1)
    infer_instance
  unfold Build.forgetBound
  simp only [pure_bind]
  infer_instance)

instance visitWith (pos : Position) (items body : Build Unit) [Steady q items] [Steady q body] :
    Steady q (visitWith pos items body) := .of_builds (by
  have hstart : Steady q (modify fun w : Walk =>
      { w with contextPositions := pos :: w.contextPositions } : Build PUnit) :=
    modifies fun _ => ⟨⟨rfl, rfl, rfl, rfl⟩, rfl, rfl⟩
  have hend (rest : List (List String)) : Steady q (modify fun w : Walk =>
      { w with contextNames := rest, contextPositions := w.contextPositions.tail } : Build PUnit) :=
    modifies fun _ => ⟨⟨rfl, rfl, rfl, rfl⟩, rfl, rfl⟩
  unfold Build.visitWith
  refine .andThen fun _ => .andThen fun _ => .andThen fun _ => .andThen fun w => ?_
  split <;> infer_instance)

end Steady

end Build
end TypeFlow
