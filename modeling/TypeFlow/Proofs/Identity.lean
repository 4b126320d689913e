import TypeFlow.Proofs.Pruning
import TypeFlow.Proofs.SteadyFunctions

/-!
# Identity of nodes

Every rule of the walk leaves it orderly, and pruning only takes merges and branches out of graphs.
So the graphs of a program list every node once, file it where it belongs, and no two of their nodes
have the same number.
-/

namespace TypeFlow

/-! ## Pruned graphs -/

theorem NodeKind.unfiled_of_isJoint {kind : NodeKind} (h : kind.isJoint = true) :
    kind.symbol? = none ∧ kind.operation? = none := by
  cases kind <;> simp_all [isJoint, symbol?, operation?]

/-- What pruning leaves of a node as it is. -/
def Node.core (node : Node) : NodeKind × List Link × Option GraphId × String :=
  (node.kind, node.ins, node.graph, node.id)

/-- What pruning leaves of a graph as it is. -/
def Graph.core (G : Graph) : Ledger × List GraphId :=
  ({ G.ledger with nodes := [], merges := [], branches := [] }, G.functions)

/-- Merges and branches may have been taken out of graphs. -/
structure Store.Prunes (s t : Store) : Prop where
  size : t.nodes.size = s.nodes.size
  graphs : t.graphs.size = s.graphs.size
  node : ∀ n, (t.nodeAt n).core = (s.nodeAt n).core
  graph : ∀ g, (t.graphAt g).core = (s.graphAt g).core
  joints : ∀ g, ∀ n ∈ (t.graphAt g).joints, n ∈ (s.graphAt g).joints
  sublist : ∀ g, (t.graphAt g).nodes.Sublist (s.graphAt g).nodes
  kept : ∀ g (p : NodeId → Bool), (∀ n, (s.rubric n).joint = true → p n = false) →
    (t.graphAt g).nodes.filter p = (s.graphAt g).nodes.filter p

namespace Store.Prunes

variable {s t u : Store} {g : GraphId} {n : NodeId}

theorem kind (h : s.Prunes t) (n : NodeId) : (t.nodeAt n).kind = (s.nodeAt n).kind :=
  congrArg (·.1) (h.node n)

theorem rubric (h : s.Prunes t) : t.rubric = s.rubric :=
  funext fun n => congrArg NodeKind.rubric (h.kind n)

theorem number (h : s.Prunes t) (n : NodeId) : (t.nodeAt n).id = (s.nodeAt n).id :=
  congrArg (·.2.2.2) (h.node n)

theorem name (h : s.Prunes t) (g : GraphId) : (t.graphAt g).name = (s.graphAt g).name :=
  congrArg (·.1.name) (h.graph g)

theorem functions (h : s.Prunes t) (g : GraphId) :
    (t.graphAt g).functions = (s.graphAt g).functions :=
  congrArg Prod.snd (h.graph g)

theorem refl (s : Store) : s.Prunes s :=
  ⟨rfl, rfl, fun _ => rfl, fun _ => rfl, fun _ _ h => h, fun _ => .refl _, fun _ _ _ => rfl⟩

theorem trans (h : s.Prunes t) (h' : t.Prunes u) : s.Prunes u where
  size := h'.size.trans h.size
  graphs := h'.graphs.trans h.graphs
  node n := (h'.node n).trans (h.node n)
  graph g := (h'.graph g).trans (h.graph g)
  joints g n hn := h.joints g n (h'.joints g n hn)
  sublist g := (h'.sublist g).trans (h.sublist g)
  kept g p hp := (h'.kept g p fun n hn => hp n (h.rubric ▸ hn)).trans (h.kept g p hp)

theorem dropped (n : NodeId) (outs : List Link → List Link) :
    s.Prunes { s with nodes := s.nodes.modify n.index fun node =>
      { node with outs := outs node.outs } } where
  size := Array.size_modify ..
  graphs := rfl
  node m := by
    rw [nodeAt_modify_of_any]
    split
    · rename_i h
      rw [h.1]
      rfl
    · rfl
  graph _ := rfl
  joints _ _ h := h
  sublist _ := .refl _
  kept _ _ _ := rfl

/-- A merge or a branch is taken out of a graph. -/
theorem without (hn : (s.rubric n).joint = true) (g : GraphId) :
    s.Prunes { s with graphs := s.graphs.modify g.index (·.without n) } := by
  have hgraph (h : GraphId) : graphAt { s with graphs := s.graphs.modify g.index (·.without n) } h =
      (s.graphAt h).without n ∨
      graphAt { s with graphs := s.graphs.modify g.index (·.without n) } h = s.graphAt h := by
    rw [graphAt_modify]
    split
    · rename_i heq
      rw [heq.1]
      exact .inl rfl
    · exact .inr rfl
  refine ⟨rfl, Array.size_modify .., fun _ => rfl, fun h => ?_, fun h m hm => ?_, fun h => ?_,
    fun h p hp => ?_⟩
  · rcases hgraph h with heq | heq <;> rw [heq]
    rfl
  · rcases hgraph h with heq | heq <;> rw [heq] at hm
    · exact List.mem_append.mpr ((List.mem_append.mp hm).imp List.mem_of_mem_erase
        List.mem_of_mem_erase)
    · exact hm
  · rcases hgraph h with heq | heq <;> rw [heq]
    exact List.erase_sublist
  · rcases hgraph h with heq | heq <;> rw [heq]
    exact Web.Pruned.filter_erase (hp n hn) _

end Store.Prunes

namespace Eval

variable {s : Store} {g : GraphId}

theorem meets_pruneJoints (hs : ∀ n ∈ (s.graphAt g).joints, (s.rubric n).joint = true) :
    (prune g).Meets True s fun _ t => s.Prunes t := by
  refine Withstands.prune (J := fun n => (s.rubric n).joint = true)
    ⟨fun ht n m => ht.trans (.dropped m (·.erase (some n))),
      fun ht n hn => ht.trans (.without ?_ g), fun ht n hn => hs n (ht.joints g n hn),
      fun _ _ _ _ => trivial⟩ (.refl s)
  rw [ht.rubric]
  exact hn

end Eval

namespace Build

open Program

variable {g : GraphId} {options : BuildOptions}

/-! ## Programs -/

/-- Every rule of the walk leaves it orderly. -/
theorem steady_rules :
    StmtRules id (fun _ => True) (Steady none) (Steady none) (Steady none) where
  __ := steady_exprs id
  stmtVisit := id
  handlerVisit := id
  lift h := h
  andThen _ _ := .of_builds inferInstance
  forking _ _ _ _ _ := inferInstance
  function h _ := have := Steady.visitParams h; inferInstance
  classBody _ := inferInstance
  result _ := inferInstance
  augmented _ _ := inferInstance
  forLoop _ _ _ := inferInstance
  whileLoop _ _ := inferInstance
  context _ _ := .visitContext
  contexts _ _ := inferInstance
  importing := inferInstance
  handlerSkip := .of_builds inferInstance
  handlerSeq _ _ := .of_builds inferInstance
  handler _ _ := inferInstance
  trying _ _ _ _ := inferInstance

theorem steady_body (program : Module) : Steady none (visitBody id program) :=
  steady_rules.body program (.of_forall fun _ => trivial) (.inl fun _ h => h)

/-- Where the walk over a program starts. -/
def origin (o : BuildOptions) (s : Store) : Origin := ⟨s.nodes.size, s.graphs.size, o.fileName⟩

theorem opened_startStore {o : BuildOptions} {s : Store}
    (hg : (origin o s).Opened (startStore o s) g) : g = ⟨s.graphs.size⟩ := by
  obtain ⟨i⟩ := g
  have hle : s.graphs.size ≤ i := hg.1
  have hlt : i < s.graphs.size + 1 := by simpa [startStore] using hg.2
  rw [Nat.le_antisymm (Nat.lt_succ_iff.mp hlt) hle]

theorem orderly_start (o : BuildOptions) (s : Store) :
    (startWalk o ⟨s.graphs.size⟩).Orderly (origin o s) (startStore o s) := by
  have hself : (startStore o s).graphAt ⟨s.graphs.size⟩ =
      Graph.ofModule o.fileName o.userNames := by
    rw [startStore, Store.graphAt_push, if_pos rfl]
  have hunmade {n : NodeId} (hn : (origin o s).Made (startStore o s) n) : False :=
    Nat.lt_irrefl _ (Nat.lt_of_le_of_lt hn.1 hn.2)
  have hunlisted {g : GraphId} {n : NodeId} (hg : (origin o s).Opened (startStore o s) g)
      (hn : n ∈ ((startStore o s).graphAt g).nodes) : False := by
    rw [opened_startStore hg, hself] at hn
    cases hn
  have hopened : (origin o s).Opened (startStore o s) ⟨s.graphs.size⟩ :=
    ⟨Nat.le_refl _, by simp [startStore]⟩
  have hfunctions : ((startStore o s).graphAt ⟨s.graphs.size⟩).functions = [] := by
    rw [hself]
    rfl
  refine ⟨⟨Nat.le_refl _, fun g n hg hn => (hunlisted hg hn).elim, fun g hg => ?_⟩,
    ⟨fun n _ hn => (hunmade hn).elim, fun n _ _ hn => (hunmade hn).elim,
      fun g n hg hn => (hunlisted hg hn).elim⟩, ?_, fun f hf => absurd hf List.not_mem_nil,
    fun n hn => (hunmade hn).elim⟩
  · rw [opened_startStore hg, hself]
    exact .of_blank rfl rfl
  · constructor
    · rfl
    · exact hopened
    · intro g hg
      rw [opened_startStore hg, hself]
      exact ⟨fun _ => rfl, fun _ => rfl⟩
    · exact .nil
    · exact fun g hg => absurd hg List.not_mem_nil
    · exact hfunctions ▸ .nil
    · exact fun g hg => absurd (hfunctions ▸ hg) List.not_mem_nil
    · exact fun g hg hne => absurd (opened_startStore hg) hne
    · exact fun g k hg hk hne => absurd (opened_startStore hg) hne
    · exact congrArg Graph.name hself
    · exact fun g hg => .inl (opened_startStore hg)

theorem steady_findAliases (top : GraphId) (program : Module) :
    Steady none (liftM (findAliases top program) : Build Unit) := by
  refine ⟨?_, fun _ h => absurd h (Option.not_mem_none _)⟩
  intro o K w s hw
  rw [meets_lift]
  unfold findAliases
  simp only [Eval.liftM_eq_run, Eval.meets_bind, Eval.meets_of_eq (Eval.graph_run _ _)]
  cases (s.graphAt top).aliases.addProgram program with
  | error e => trivial
  | ok aliases =>
    have hset : Steady none (liftM (Eval.modifyGraph top fun graph => { graph with aliases })) :=
      .modifyGraph (fun _ => ⟨rfl, fun _ h => h⟩) fun _ => rfl
    exact hset.run hw

variable {o : Origin} {w : Walk} {s t : Store}

/-- Pruning graphs of an orderly walk. -/
theorem meets_pruneEach {gs : List GraphId} (hs : o.Filed s) (hgs : ∀ g ∈ gs, o.Opened s g)
    (ht : s.Prunes t) : Meets True (gs.forM fun g => (Eval.prune g : Build Unit)) w t
      fun _ w' u => w' = w ∧ s.Prunes u := by
  induction gs generalizing t with
  | nil => exact ⟨rfl, ht⟩
  | cons g gs ih =>
    refine meets_bind.mpr (meets_lift.mpr ?_)
    have hjoints (n : NodeId) (hn : n ∈ (t.graphAt g).joints) : (t.rubric n).joint = true := by
      rw [ht.rubric]
      exact ((hs.tidy g (hgs g (.head _))).joints n (ht.joints g n hn)).2
    refine (Eval.meets_pruneJoints hjoints).imp fun _ u hu => ?_
    exact ih (fun k hk => hgs k (.tail _ hk)) (ht.trans hu)

theorem orderly_readProgram {program : Module} (hw : w.Holds o [] s) :
    Meets True (readProgram id options program) w s fun _ w' t => w.Level w' ∧
      ∃ u, w'.Orderly o u ∧ u.Prunes t := by
  unfold readProgram
  refine (steady_body program).meets_then hw fun _ w₁ s₁ hw₁ he₁ => ?_
  rw [meets_bind, meets_get]
  have hnames : Steady none (liftM (Eval.addClassNames w₁.top w₁.classNames) : Build Unit) :=
    .modifyGraph (fun _ => ⟨rfl, fun _ h => h⟩) fun _ => rfl
  refine hnames.meets_then hw₁ fun _ w₂ s₂ hw₂ he₂ => ?_
  have hlevel := (he₁.trans he₂).level
  have hfiled := hw₂.orderly.filed
  have hframed := hw₂.orderly.framed
  have htop : w₁.top = w₂.top := he₂.level.top.symm
  split
  · rw [meets_bind, meets_lift]
    have hjoints (n : NodeId) (hn : n ∈ (s₂.graphAt w₁.top).joints) :
        (s₂.rubric n).joint = true := by
      rw [htop] at hn
      exact ((hfiled.tidy w₂.top hframed.opened).joints n hn).2
    refine (Eval.meets_pruneJoints hjoints).imp fun _ s₃ h₃ => ?_
    rw [meets_bind, meets_liftTyping, Eval.meets_of_eq (Eval.graph_run _ _)]
    rw [h₃.functions, htop]
    refine (meets_pruneEach hfiled (fun g hg => (hframed.functions g hg).1) h₃).imp ?_
    rintro _ _ t ⟨rfl, ht⟩
    exact ⟨hlevel, s₂, hw₂.orderly, ht⟩
  · exact ⟨hlevel, s₂, hw₂.orderly, .refl s₂⟩

/-- When the walk over a program has come to an end, its graphs are orderly but for merges and
branches that were taken out of them. -/
theorem orderly_readGraphs (o : BuildOptions) (program : Module) (s : Store) :
    Meets True (readGraphs id o ⟨s.graphs.size⟩ program) (startWalk o ⟨s.graphs.size⟩)
      (startStore o s) fun _ w t => w.pending = [] ∧ w.functions = [] ∧
        ∃ u, w.Orderly (origin o s) u ∧ u.Prunes t := by
  have hstart : (startWalk o ⟨s.graphs.size⟩).Holds (origin o s) [] (startStore o s) :=
    ⟨orderly_start o s, fun _ he => absurd he List.not_mem_nil,
      fun _ he => absurd he List.not_mem_nil, .nil⟩
  have hfind : Steady none (do
      if 0 < o.aliasLevel then findAliases ⟨s.graphs.size⟩ program : Build Unit) := by
    have := steady_findAliases ⟨s.graphs.size⟩ program
    exact .of_builds inferInstance
  have hread : readGraphs id o ⟨s.graphs.size⟩ program = (do
      if 0 < o.aliasLevel then findAliases ⟨s.graphs.size⟩ program : Build Unit) >>= fun _ =>
        if o.aliasLevel ≤ 1 then readProgram id o program else pure () := by
    by_cases hlevel : 0 < o.aliasLevel <;> simp [readGraphs, hlevel]
  rw [hread]
  refine hfind.meets_then hstart fun _ w₁ s₁ hw₁ he₁ => ?_
  have hend {w : Walk} (hl : (startWalk o ⟨s.graphs.size⟩).Level w) :
      w.pending = [] ∧ w.functions = [] :=
    ⟨hl.pending, List.map_eq_nil_iff.mp hl.functions⟩
  split
  · refine (orderly_readProgram hw₁).imp ?_
    rintro _ w₂ t ⟨hl, hu⟩
    exact ⟨(hend (he₁.level.trans hl)).1, (hend (he₁.level.trans hl)).2, hu⟩
  · exact ⟨(hend he₁.level).1, (hend he₁.level).2, s₁, hw₁.orderly, .refl s₁⟩

/-- A walk that came to an end has read everything, and its graphs are orderly but for merges and
branches that were taken out of them. -/
theorem orderly_of_graphsOf {program : Module} (h : graphsOf options program s = .ok w t) :
    w.pending = [] ∧ w.functions = [] ∧ ∃ u, w.Orderly (origin options s) u ∧ u.Prunes t := by
  rw [graphsOf_eq_ok] at h
  exact (orderly_readGraphs options program s).of_ok h

theorem same_of_number {n m : NodeId} (hw : w.Orderly o s) (hname : '@' ∉ o.name.toList)
    (hn : o.Made s n) (hm : o.Made s m) (hgn : (s.nodeAt n).graph ≠ none)
    (hgm : (s.nodeAt m).graph ≠ none) (hid : (s.nodeAt n).id = (s.nodeAt m).id) : n = m := by
  obtain ⟨g, hg⟩ := Option.ne_none_iff_exists'.mp hgn
  obtain ⟨h, hh⟩ := Option.ne_none_iff_exists'.mp hgm
  obtain ⟨hgopen, j, -, hj⟩ := hw.numbered.number n g hn hg
  obtain ⟨hhopen, k, -, hk⟩ := hw.numbered.number m h hm hh
  rw [hj, hk] at hid
  -- the name of a function has an `@` in it, and that of the module has none
  have htop {k : GraphId} (hk : o.Opened s k) (hne : k ≠ w.top) :
      (s.graphAt k).name ≠ (s.graphAt w.top).name := by
    intro heq
    rw [hw.framed.topName] at heq
    exact hname (heq ▸ (hw.framed.visited k hk hne).2)
  have hname := (number_inj hid).1
  have hsame : g = h := by
    by_cases hgtop : g = w.top <;> by_cases hhtop : h = w.top
    · rw [hgtop, hhtop]
    · exact absurd (hgtop ▸ hname).symm (htop hhopen hhtop)
    · exact absurd (hhtop ▸ hname) (htop hgopen hgtop)
    · exact hw.framed.names g h hgopen hhopen hgtop hhtop hname
  rw [← hj, ← hk] at hid
  exact hw.numbered.distinct n m g hn hm hg (hsame ▸ hh) hid

/-- The graph of a module and those of its functions. -/
def graphsUnder (top : GraphId) (s : Store) : List GraphId := top :: (s.graphAt top).functions

theorem made_of_listed (hw : w.Orderly o s) (ht : s.Prunes t) (hg : g ∈ graphsUnder w.top t) :
    o.Opened s g ∧ ∀ n ∈ (t.graphAt g).nodes, o.Made s n ∧ (s.nodeAt n).graph ≠ none := by
  have hopened : o.Opened s g := by
    rcases List.mem_cons.mp hg with rfl | hg
    · exact hw.framed.opened
    · exact (hw.framed.functions g (ht.functions w.top ▸ hg)).1
  refine ⟨hopened, fun n hn => ?_⟩
  have hlisted := (ht.sublist g).subset hn
  exact ⟨hw.filed.made g n hopened hlisted, hw.numbered.listed g n hopened hlisted⟩

theorem files_of_pruned (ht : s.Prunes t) {table : Table String (List NodeId)}
    {key : NodeId → Option String} (hkey : ∀ n, (s.rubric n).joint = true → key n = none)
    (h : table.Files (s.graphAt g).nodes key) : table.Files (t.graphAt g).nodes key := by
  refine ⟨fun k => (h.entry k).trans (ht.kept g _ fun n hn => ?_).symm, h.keys⟩
  simp [hkey n hn]

/-- Identity and indexing of nodes. When the walk over a program comes to an end, its functions
have names of their own, no graph lists a node twice, every node has a number that one of the graphs
gave to it, and no two nodes have the same number, whichever graphs list them. The graph of a
function files every symbol under its name and every operation under its operator, once each and
nothing else, and its parameters and results are the symbols that are marked as such. -/
theorem graphsOf_identifies_nodes (options : BuildOptions) (program : Module) (s : Store) (w : Walk)
    (t : Store) (hname : '@' ∉ options.fileName.toList)
    (h : graphsOf options program s = .ok w t) :
    ((t.graphAt w.top).functions.map fun g => (t.graphAt g).name).Nodup ∧
    (∀ g ∈ graphsUnder w.top t, (t.graphAt g).nodes.Nodup) ∧
    (∀ g ∈ graphsUnder w.top t, ∀ n ∈ (t.graphAt g).nodes, ∃ k ∈ graphsUnder w.top t, ∃ i : Nat,
      (t.nodeAt n).graph = some k ∧ (t.nodeAt n).id = (t.graphAt k).name ++ "@" ++ toString i) ∧
    (∀ g ∈ graphsUnder w.top t, ∀ k ∈ graphsUnder w.top t, ∀ n ∈ (t.graphAt g).nodes,
      ∀ m ∈ (t.graphAt k).nodes, (t.nodeAt n).id = (t.nodeAt m).id → n = m) ∧
    ∀ g ∈ (t.graphAt w.top).functions,
      ((t.graphAt g).symbols.Files (t.graphAt g).nodes fun n =>
        (t.nodeAt n).kind.symbol?.map (·.symbol)) ∧
      ((t.graphAt g).operations.Files (t.graphAt g).nodes fun n =>
        (t.nodeAt n).kind.operation?.map (·.op)) ∧
      ((t.graphAt g).arguments = (t.graphAt g).nodes.filter fun n =>
        (t.nodeAt n).kind.symbol?.any (·.context = "Arg")) ∧
      (t.graphAt g).returns = (t.graphAt g).nodes.filter fun n =>
        (t.nodeAt n).kind.symbol?.any (·.context = "Return") := by
  obtain ⟨-, hend, u, hw, hu⟩ := orderly_of_graphsOf h
  have hfunctions := hu.functions w.top
  refine ⟨?_, fun g hg => ?_, fun g hg n hn => ?_, fun g hg k hk n hn m hm hid => ?_,
    fun g hg => ?_⟩
  · rw [hfunctions]
    refine hw.framed.finished.map_on fun g hg k hk heq => ?_
    have hg := hw.framed.functions g hg
    have hk := hw.framed.functions k hk
    rw [hu.name, hu.name] at heq
    exact hw.framed.names g k hg.1 hk.1 hg.2 hk.2 heq
  · exact (hw.filed.tidy g (made_of_listed hw hu hg).1).nodup.sublist (hu.sublist g)
  · obtain ⟨hmade, hnumber⟩ := (made_of_listed hw hu hg).2 n hn
    obtain ⟨k, hk⟩ := Option.ne_none_iff_exists'.mp hnumber
    obtain ⟨hopened, i, -, hi⟩ := hw.numbered.number n k hmade hk
    refine ⟨k, ?_, i, (congrArg (·.2.2.1) (hu.node n)).trans hk, ?_⟩
    · have hall := hw.framed.all k hopened
      simpa [hend, graphsUnder, hfunctions] using hall
    · rw [hu.number, hi, hu.name]
  · obtain ⟨hn, hgn⟩ := (made_of_listed hw hu hg).2 n hn
    obtain ⟨hm, hgm⟩ := (made_of_listed hw hu hk).2 m hm
    rw [hu.number, hu.number] at hid
    exact same_of_number hw hname hn hm hgn hgm hid
  · obtain ⟨hopened, hne⟩ := hw.framed.functions g (hfunctions ▸ hg)
    have hinner : (u.graphAt g).isModule = false :=
      Bool.eq_false_iff.mpr fun hmodule => hne ((hw.framed.role g hopened).mp hmodule)
    have htidy := hw.filed.tidy g hopened
    have hcore := hu.graph g
    have hsymbols : (t.graphAt g).symbols = (u.graphAt g).symbols := congrArg (·.1.symbols) hcore
    have hoperations : (t.graphAt g).operations = (u.graphAt g).operations :=
      congrArg (·.1.operations) hcore
    have harguments : (t.graphAt g).arguments = (u.graphAt g).arguments :=
      congrArg (·.1.arguments) hcore
    have hreturns : (t.graphAt g).returns = (u.graphAt g).returns := congrArg (·.1.returns) hcore
    simp only [hu.kind, hsymbols, hoperations, harguments, hreturns]
    -- merges and branches, which pruning takes out, are neither symbols nor operations
    have hsymbol (n : NodeId) (hn : (u.rubric n).joint = true) : (u.rubric n).symbol? = none :=
      (NodeKind.unfiled_of_isJoint hn).1
    refine ⟨files_of_pruned hu (fun n hn => ?_) (htidy.symbols hinner),
      files_of_pruned hu (fun n hn => ?_) htidy.operations,
      (htidy.arguments hinner).trans (hu.kept g _ fun n hn => ?_).symm,
      (htidy.returns hinner).trans (hu.kept g _ fun n hn => ?_).symm⟩
    · exact congrArg (Option.map _) (hsymbol n hn)
    · exact congrArg (Option.map _) (NodeKind.unfiled_of_isJoint hn).2
    · exact congrArg (Option.any _) (hsymbol n hn)
    · exact congrArg (Option.any _) (hsymbol n hn)

/-- A variable of the module that two functions read. -/
def twoReaders : Module :=
  let reader (name : String) : Stmt :=
    .function default name (.mk [] [.mk default "y" none] none [] [] none [])
      [.return_ default (some (.binary default .add (.name default "x" .load)
        (.name default "y" .load)))] [] none
  [.assign default [.name default "x" .store] (.constant default .int), reader "f", reader "g"]

/-- Nodes of a module that two functions read are told apart by their numbers. -/
theorem graphsOf_identifies_twoReaders : ∃ w t, graphsOf {} twoReaders {} = .ok w t ∧
    ((t.graphAt w.top).functions.map fun g => (t.graphAt g).name).Nodup ∧
    (∀ g ∈ graphsUnder w.top t, (t.graphAt g).nodes.Nodup) ∧
    ∀ g ∈ graphsUnder w.top t, ∀ k ∈ graphsUnder w.top t, ∀ n ∈ (t.graphAt g).nodes,
      ∀ m ∈ (t.graphAt k).nodes, (t.nodeAt n).id = (t.nodeAt m).id → n = m := by
  have hend : comesToEnd {} twoReaders = true := by decide +kernel
  obtain ⟨w, t, hrun⟩ := exists_of_comesToEnd hend
  obtain ⟨hnames, hnodup, -, hids, -⟩ :=
    graphsOf_identifies_nodes {} twoReaders {} w t (by decide) hrun
  exact ⟨w, t, hrun, hnames, hnodup, hids⟩

end Build

end TypeFlow
