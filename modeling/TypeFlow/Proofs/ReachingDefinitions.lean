import TypeFlow.Proofs.Bodies
import TypeFlow.Proofs.Pruning

/-!
# Reaching definitions in the graph of a program

A program that is one function of the small language is read without a fault. In the graph of the
function the definitions that are carried to a read are those that reach it.
-/

namespace TypeFlow

open Program Eval

variable {W : Web} {s : Store} {w : Walk} {g : GraphId} {V : Variables} {name : String}
  {params : Params} {body : List Stmt} {f : Flow Unit}

namespace Web

variable {G : Graph}

/-- The graph of a function is tame at first. -/
theorem addGraph_tame (hW : W.Closed) (hrole : G.isModule = false) (hnodes : G.nodes = [])
    (hsymbols : G.symbols = {}) (hmerges : G.merges = []) (hbranches : G.branches = [])
    (hreturns : G.returns = []) : (W.addGraph G).Tame W.freshGraph where
  closed := hW
  graph := Nat.lt_succ_self _
  role := by rw [addGraph_graph_self, hrole]
  nodes n hn := by
    rw [addGraph_graph_self, hnodes] at hn
    cases hn
  symbols n hn := by
    rw [addGraph_graph_self, hsymbols] at hn
    cases hn
  joints n hn := by
    rw [addGraph_graph_self, hmerges, hbranches] at hn
    cases hn
  returns := by rw [addGraph_graph_self, hreturns]

end Web

/-- Nothing has been named on the level of the module, and nothing is being read. -/
structure Outside (w : Walk) : Prop where
  functions : w.functions = []
  classes : w.classes = []
  globals : w.globals = {}
  modules : w.modules = []
  classNames : w.classNames = []
  pending : w.pending = []
  unused : w.unused = false
  subscriptWrite : w.subscriptWrite = false
  augmented : w.augmented = false

/-- A function is among those to read. -/
def Wanted (locations : Option (List Document)) (qualified : String) : Prop :=
  ∀ l, locations = some l → l.contains (.text qualified) = true

namespace Build

variable {e : Prop} {Q : Unit → Walk → Store → Prop}

theorem meets_clearLatest (hw : Inside w g V) : Meets e clearLatest w s Q ↔ Q () w s := by
  have hglobals : vars? .module w = some {} := by simp [vars?, hw.globals]
  have hclass : vars? .class_ w = none := by simp [vars?, hw.classes]
  unfold clearLatest
  simp only [List.forIn_cons, List.forIn_nil, meets_bind, meets_get, hglobals, hclass, meets_pure,
    meets_setVariables]
  rw [show ({ ({} : Variables) with latest := Table.map (fun _ => none) ({} : Variables).latest } :
    Variables) = {} from rfl, hw.withGlobals]

/-- Occurrences with one input are left alone. -/
theorem meets_mergeAllInputs (hT : s.web.Tame g) (hQ : Q () w s) :
    Meets e (mergeAllInputs g) w s Q := by
  have hone (n : NodeId) (hn : (s.nodeAt n).ins.length ≤ 1) :
      Meets e (mergeInputs n) w s fun _ w' t => w' = w ∧ t = s := by
    unfold mergeInputs
    simp only [meets_bind, meets_liftTyping, meets_of_eq (node_run _ _), meets_ite]
    rw [if_neg (by omega)]
    exact ⟨rfl, rfl⟩
  have hrole : (s.graphAt g).isModule = false := hT.role
  have hreturns : (s.graphAt g).returns = [] := hT.returns
  unfold mergeAllInputs
  simp only [meets_bind, meets_liftTyping, meets_of_eq (graph_run _ _), hrole, hreturns,
    Bool.false_eq_true, if_false]
  refine meets_forM
    (I := fun rest w' t => (∀ n ∈ rest, (s.nodeAt n).ins.length ≤ 1) ∧ w' = w ∧ t = s)
    ⟨fun n hn => (hT.symbols n hn).2.2, rfl, rfl⟩ ?_ ?_
  · rintro n rest _ _ ⟨hrest, rfl, rfl⟩
    refine (hone n (hrest n (.head _))).imp ?_
    rintro - _ _ ⟨rfl, rfl⟩
    exact ⟨fun m hm => hrest m (.tail _ hm), rfl, rfl⟩
  · rintro _ _ ⟨-, rfl, rfl⟩
    exact hQ

/-- The name of a function that stands outside of classes. -/
def outerName (name : String) : String := name ++ "@" ++ "global"

theorem meets_qualifiedName {Q : String → Walk → Store → Prop} (hw : Outside w) (name : String) :
    Meets e (qualifiedName name) w s Q ↔ Q (outerName name) w s := by
  unfold qualifiedName
  simp only [meets_bind, meets_get, hw.classes, meets_pure]
  rfl

theorem meets_isWanted {Q : Bool → Walk → Store → Prop} {qualified : String}
    (hwanted : Wanted w.locations qualified) (hvisited : qualified ∉ w.visited) :
    Meets e (isWanted qualified) w s Q ↔ Q true w s := by
  unfold isWanted
  simp only [meets_bind, meets_get, meets_pure, hvisited, not_false_eq_true, decide_true,
    Bool.and_true]
  cases hl : w.locations with
  | none => rfl
  | some l => simp only [hwanted l hl]

/-- What holds after a function was read: its graph is the next one, it belongs to the module, and
the events of its flow are in it. -/
def HasFunction (w : Walk) (s : Store) (f : Flow Unit) (w' : Walk) (t : Store) : Prop :=
  ∃ G V T F, F.shape = f ∧ Advances s.web.freshGraph (s.web.addGraph G) {} T V F ∧
    G.nodes = [] ∧ w'.top = w.top ∧ w'.classNames = w.classNames ∧
    t.web = T.alterGraph w.top fun top =>
      { top with functions := top.functions ++ [s.web.freshGraph] }

/-- A function of the small language is read without a fault. -/
theorem meets_visitFunction (hw : Outside w) (hvisited : outerName name ∉ w.visited)
    (hwanted : Wanted w.locations (outerName name)) (hclosed : s.web.Closed)
    (hparams : SimpleParams params) (hbody : Flows body f) (pos : Position) :
    Meets False (visitFunction pos name (visitParams params (visitExpr id)) (visitBody id body)) w s
      fun _ w' t => HasFunction w s (.writes (params.bound.map Param.name) ++ f) w' t := by
  unfold visitFunction
  rw [meets_bind, meets_qualifiedName hw, meets_bind, meets_isWanted hwanted hvisited]
  simp only [if_true, meets_bind, meets_get, meets_lift]
  refine meets_newGraph _ fun t₁ ht₁ => ?_
  rw [meets_modify]
  have hT : t₁.web.Tame s.web.freshGraph := by
    rw [ht₁]
    exact Web.addGraph_tame hclosed rfl rfl rfl rfl rfl rfl
  have hin : Inside { w with
        visited := w.visited ++ [outerName name]
        functions := { name, graph := s.web.freshGraph } :: w.functions } s.web.freshGraph {} :=
    ⟨⟨name, by rw [hw.functions]⟩, hw.classes, hw.globals, hw.modules, hw.classNames,
      hw.subscriptWrite, hw.augmented⟩
  rw [meets_clearLatest hin]
  refine (passes_visitParams hparams hin hT (visitExpr id)).imp ?_
  rintro - w₂ t₂ ⟨V₂, F₂, rfl, hF₂, h₂⟩
  refine (passes_visitBody hbody (hin.withVariables V₂) hw.unused hw.pending h₂.tame
    h₂.sound).imp ?_
  rintro - w₃ t₃ ⟨V₃, F₃, rfl, hF₃, h₃⟩
  have hboth := h₂.trans h₃
  rw [meets_clearLatest ((hin.withVariables V₂).withVariables V₃)]
  refine meets_mergeAllInputs h₃.tame ?_
  refine meets_modifyGraph _ _ (fun top =>
    { top with functions := top.functions ++ [s.web.freshGraph] }) (fun _ => rfl) fun t₄ ht₄ => ?_
  refine ⟨_, V₃, t₃.web, F₂ ++ F₃, ?_, ht₁ ▸ hboth, ?_, rfl, rfl, ht₄⟩
  · rw [Flow.shape_append, hF₂, hF₃]
  · rfl

end Build

/-- The graph of a function shows a flow: the occurrences in it are the events of the flow, in
their order, and the definitions that are carried to a read are those that reach it. -/
structure Web.Shows (W : Web) (g : GraphId) (F : Flow NodeId) : Prop where
  occurrences : W.occurrences g = F.events.map Prod.fst
  marks : ∀ n e, (n, e) ∈ F.events → (W.node n).kind.Marks e
  reaches : ∀ r v, (r, .read v) ∈ F.events → ∀ d, d ∈ W.defs r ↔ F.Reaches d r v

namespace Web.Shows

variable {W' : Web} {F : Flow NodeId}

theorem of_advances (h : Advances g W {} W' V F) (hW : W.occurrences g = []) : W'.Shows g F where
  occurrences := by rw [h.occurrences, hW, List.nil_append]
  marks n e hn := (h.marks n e hn).2
  reaches r v hr d := h.traced.reaches_iff hr

/-- Changes to other graphs do not show. -/
theorem congr (h : W.Shows g F) (hkind : ∀ n, (W'.node n).kind = (W.node n).kind)
    (hins : ∀ n, (W'.node n).ins = (W.node n).ins) (hocc : W'.occurrences g = W.occurrences g) :
    W'.Shows g F where
  occurrences := hocc.trans h.occurrences
  marks n e hn := by
    rw [hkind]
    exact h.marks n e hn
  reaches r v hr d := by
    rw [Web.defs_of_same hkind hins]
    exact h.reaches r v hr d

theorem pruned {h : GraphId} {J : NodeId → Prop} (hW : W.Shows g F) (hp : W.Pruned h J W')
    (hJ : h = g → ∀ n, J n → (W.node n).kind.isOccurrence = false) : W'.Shows g F := by
  refine hW.congr hp.kind_eq hp.ins_eq ?_
  unfold Web.occurrences
  simp only [hp.kind_eq]
  by_cases hg : g = h
  · subst hg
    exact hp.kept _ (hJ rfl)
  · rw [hp.same.graph_eq g hg]

end Web.Shows

namespace Build

/-- A program that is one function of the small language is read without a fault. -/
theorem meets_readProgram
    {decorators : List Expr} {returns : Option Expr} (o : BuildOptions) (hw : Outside w)
    (hvisited : outerName name ∉ w.visited) (hwanted : Wanted w.locations (outerName name))
    (hclosed : s.web.Closed) (htop : w.top.index < s.web.graphs)
    (hmodule : (s.web.graph w.top).joints = []) (hempty : (s.web.graph w.top).functions = [])
    (hparams : SimpleParams params) (hbody : Flows body f) (pos : Position) :
    Meets False (readProgram id o [.function pos name params body decorators returns]) w s
      fun _ w' t => w'.top = w.top ∧ (t.web.graph w.top).functions = [s.web.freshGraph] ∧
        ∃ F, F.shape = .writes (params.bound.map Param.name) ++ f ∧
          t.web.Shows s.web.freshGraph F := by
  have hne : s.web.freshGraph ≠ w.top := by
    rintro heq
    rw [← heq] at htop
    simp [Web.freshGraph] at htop
  unfold readProgram
  simp only [visitBody, visitStmt, id, meets_bind]
  refine (meets_visitFunction hw hvisited hwanted hclosed hparams hbody pos).imp ?_
  rintro - w₁ s₁ ⟨G, V, T, F, hF, hadv, hnodes, hw₁, -, hs₁⟩
  simp only [meets_pure, meets_get, meets_lift, hw₁]
  refine meets_modifyGraph _ _ (fun top =>
    { top with classNames := w₁.classNames.foldl addName top.classNames }) (fun _ => rfl)
    fun s₂ hs₂ => ?_
  -- the graph of the module is as it was, but for its functions and classes
  have hlt : w.top.index < T.graphs := by
    rw [hadv.same.graphs]
    exact Nat.lt_succ_of_lt htop
  have htopGraph : T.graph w.top = s.web.graph w.top := by
    rw [hadv.same.graph_eq _ hne.symm, Web.addGraph_graph_of_lt htop]
  have hfunctions : (s₂.web.graph w.top).functions = [s.web.freshGraph] := by
    rw [hs₂, hs₁]
    simp [Web.alterGraph, hlt, htopGraph, hempty]
  have hjoints : (s₂.web.graph w.top).joints = [] := by
    rw [← hmodule, hs₂, hs₁]
    simp [Web.alterGraph, hlt, htopGraph, Graph.joints]
  have hgraph : s₂.web.graph s.web.freshGraph = T.graph s.web.freshGraph := by
    rw [hs₂, hs₁]
    simp [Web.alterGraph, hne]
  have hnode : s₂.web.node = T.node := by
    rw [hs₂, hs₁]
    rfl
  have hshows : s₂.web.Shows s.web.freshGraph F := by
    refine (Web.Shows.of_advances hadv ?_).congr (fun n => by rw [hnode])
      (fun n => by rw [hnode]) ?_
    · simp [Web.occurrences, Web.addGraph_graph_self, hnodes]
    · simp only [Web.occurrences, hgraph, hnode]
  rw [meets_ite]
  split
  · simp only [meets_bind, meets_lift, meets_liftTyping, meets_of_eq (graph_run _ _)]
    refine (meets_prune (by simp [hjoints])).imp fun _ s₃ h₃ => ?_
    have hfunctions₃ := h₃.functions.trans hfunctions
    rw [show (s₃.graphAt w.top).functions = _ from hfunctions₃]
    change Meets False (liftM (prune s.web.freshGraph) >>= fun _ => pure ()) w₁ s₃ _
    simp only [meets_bind, meets_lift, meets_pure]
    have hgraph₃ : s₃.web.graph s.web.freshGraph = T.graph s.web.freshGraph := by
      rw [h₃.same.graph_eq _ hne, hgraph]
    have hjoint (n : NodeId) (hn : n ∈ (s₃.web.graph s.web.freshGraph).joints) :=
      hadv.tame.joints n (hgraph₃ ▸ hn)
    refine (meets_prune fun n hn hnone => ?_).imp fun _ s₄ h₄ => ?_
    · rw [h₃.ins_eq, hnode] at hnone
      obtain ⟨_, hm, -⟩ := hadv.tame.closed n (hjoint n hn).1 _ hnone
      cases hm
    · refine ⟨hw₁, ?_, F, hF, (hshows.pruned h₃ fun h => absurd h hne.symm).pruned h₄ ?_⟩
      · rw [h₄.same.graph_eq _ hne.symm, hfunctions₃]
      · intro _ n hn
        rw [h₃.kind_eq, hnode]
        exact (hjoint n hn).2.2
  · exact ⟨hw₁, hfunctions, F, hF, hshows⟩

/-- The aliases that are found are the only thing that changes in a graph. -/
theorem findAliases_run {g : GraphId} {program : Module} {aliases : Alias.Graph}
    (h : (s.graphAt g).aliases.addProgram program = .ok aliases) : findAliases g program s =
      .ok () { s with graphs := s.graphs.modify g.index fun graph => { graph with aliases } } := by
  have hread : (liftM (graph g) : Eval Graph) s = .ok (s.graphAt g) s := graph_run _ _
  unfold findAliases
  rw [Fallible.bind_of_ok hread, h]
  rfl

/-- Reaching definitions. A program that is one function of the small language, with constants for
the defaults of its parameters, is read without a fault, and the graph of the function shows its
flow: first every parameter that is bound is defined, then the events of the body follow. A
parameter that is given by position only is not bound, so no definition of it reaches a read. If
aliases are asked for, they are found first; a program whose aliases cannot be found is not read. -/
theorem graphsOf_shows_reaching_definitions (o : BuildOptions) {name : String} {params : Params}
    {body : List Stmt} {f : Flow Unit} (pos : Position) (decorators : List Expr)
    (returns : Option Expr) (halias : o.aliasLevel ≤ 1)
    (hfound : 0 < o.aliasLevel → ∃ aliases,
      ({} : Alias.Graph).addProgram [.function pos name params body decorators returns] =
        .ok aliases)
    (hwanted : Wanted o.locations (outerName name)) (hparams : SimpleParams params)
    (hbody : Flows body f) :
    ∃ w t g F, graphsOf o [.function pos name params body decorators returns] {} = .ok w t ∧
      (t.graphAt w.top).functions = [g] ∧
      F.shape = .writes (params.bound.map Param.name) ++ f ∧ t.web.Shows g F := by
  have hmeets : (graphsOf o [.function pos name params body decorators returns]).Meets False {}
      fun w t => ∃ g F, (t.graphAt w.top).functions = [g] ∧
        F.shape = .writes (params.bound.map Param.name) ++ f ∧ t.web.Shows g F := by
    unfold graphsOf graphsAround start
    simp only [Eval.meets_bind, Eval.meets_pure]
    refine Eval.meets_newGraph _ fun t₁ ht₁ => ?_
    have hclosed : t₁.web.Closed := by
      rw [ht₁]
      intro n hn
      cases hn
    have hgraph : t₁.web.graph ({} : Store).web.freshGraph =
        (Graph.ofModule o.fileName o.userNames).uncounted := by
      rw [ht₁, Web.addGraph_graph_self]
    have hlt : ({} : Store).web.freshGraph.index < t₁.web.graphs := by
      rw [ht₁]
      exact Nat.lt_succ_self _
    let w : Walk :=
      { top := ({} : Store).web.freshGraph, fileName := o.fileName, userNames := o.userNames,
        locations := o.locations }
    have hread (t : Store) (hclosed : t.web.Closed) (hlt : w.top.index < t.web.graphs)
        (hjoints : (t.web.graph w.top).joints = []) (hempty : (t.web.graph w.top).functions = []) :
        Meets False (readProgram id o [.function pos name params body decorators returns]) w t
          fun _ w' t => ∃ g F, (t.graphAt w'.top).functions = [g] ∧
            F.shape = .writes (params.bound.map Param.name) ++ f ∧ t.web.Shows g F := by
      have hw : Outside w := ⟨rfl, rfl, rfl, rfl, rfl, rfl, rfl, rfl, rfl⟩
      refine (meets_readProgram o hw List.not_mem_nil hwanted hclosed hlt hjoints hempty hparams
        hbody pos).imp ?_
      rintro - w' t ⟨hw', hfunctions, F, hF, hshows⟩
      exact ⟨_, F, hw' ▸ hfunctions, hF, hshows⟩
    rw [if_pos halias]
    split
    · rename_i hasked
      obtain ⟨aliases, haliases⟩ := hfound hasked
      have hnone : (t₁.graphAt ({} : Store).web.freshGraph).aliases = {} :=
        congrArg Graph.aliases hgraph
      have ht₂ := Store.web_modifyGraph t₁ ({} : Store).web.freshGraph
        (fun top => { top with aliases }) (fun top => { top with aliases }) fun _ => rfl
      rw [Eval.meets_bind, Eval.meets_of_eq (findAliases_run (hnone ▸ haliases)), Eval.meets_bind]
      refine hread _ ?_ ?_ ?_ ?_ <;> rw [ht₂]
      · exact hclosed
      · exact hlt
      · simp [Web.alterGraph, hlt, hgraph, Graph.joints, w, Graph.ofModule, Graph.uncounted]
      · simp [Web.alterGraph, hlt, hgraph, w, Graph.ofModule, Graph.uncounted]
    · rw [Eval.meets_bind]
      exact hread t₁ hclosed hlt (by rw [hgraph]; rfl) (by rw [hgraph]; rfl)
  obtain ⟨w, t, hrun, g, F, h⟩ := hmeets.ends
  exact ⟨w, t, g, F, hrun, h⟩

/-- A read of a variable behind a branch on the type of the parameter. -/
theorem graphsOf_shows_branching : ∃ w t g F, graphsOf {}
    [.function default "f" (.mk [] [.mk default "x" none] none [] [] none [])
      [.if_ default
          (.call default (.name default "isinstance" .load)
            [.name default "x" .load, .name default "int" .load] [])
          [.assign default [.name default "y" .store] (.name default "x" .load)]
          [.assign default [.name default "y" .store] (.constant default .none)],
        .expr (.call default (.name default "g" .load) [.name default "y" .load] [])]
      [] none] {} = .ok w t ∧
    (t.graphAt w.top).functions = [g] ∧
    F.shape = .event () (.define "x") (.event () (.read "x")
      (.fork (.event () (.read "x") (.event () (.define "y") .done))
        (.event () (.define "y") .done) (.event () (.read "y") .done))) ∧
    t.web.Shows g F := by
  have hx : IsVariable "x" := by decide +kernel
  have hy : IsVariable "y" := by decide +kernel
  have hcall : ReadsEach [.call default (.name default "g" .load) [.name default "y" .load] []]
      (["y"] ++ [] ++ []) := .call default default "g" .load (.name default hy .nil) .nil .nil
  have htest : Tests (.call default (.name default "isinstance" .load)
      [.name default "x" .load, .name default "int" .load] []) ["x"] :=
    .type rfl (.named rfl) rfl hx
  have hnone : ReadsEach [.constant default .none] [] := .constant default (by decide) .nil
  have hbody := Flows.if_ default htest
    (.assign default (.name default hx .nil) (.name default hy .nil) .nil)
    (.assign default hnone (.name default hy .nil) .nil) (.expr hcall .nil)
  exact graphsOf_shows_reaching_definitions {} default [] none (by decide)
    (fun h => absurd h (by decide)) nofun
    ⟨by simpa [Params.bound, Param.name] using hx, by simp [Params.bound],
      by simp [Params.defaultValues]⟩
    hbody

/-- The reads in the functions of a program, each with its inputs. -/
def readsOf (program : Module) : Option (List (String × List Link)) :=
  match graphsOf {} program {} with
  | .ok w t =>
    some (((t.graphAt w.top).functions.flatMap fun g => (t.graphAt g).nodes).filterMap fun n =>
      match (t.nodeAt n).kind with
      | .symbol info => if info.context = "Read" then some (info.symbol, (t.nodeAt n).ins) else none
      | _ => none)
  | .error _ _ => none

/-- A read of a parameter that is given by position only has no inputs. -/
theorem readsOf_positionalOnly : readsOf
    [.function default "f" (.mk [.mk default "x" none] [] none [] [] none [])
      [.assign default [.name default "y" .store] (.name default "x" .load)] [] none] =
    some [("x", [])] := by
  decide +kernel

end Build
end TypeFlow
