import TypeFlow.Proofs.Tables
import TypeFlow.Proofs.Walking

/-!
# The web of nodes

What a walk builds is a web: nodes of some kind with inputs and outputs, and graphs that list
them. Each step of a walk changes the web in one of a few ways, whatever it does to types and
names of nodes.
-/

namespace TypeFlow

open List

variable {α : Type} {s : Store} {e : Prop}

/-- What the web shows of a node. -/
structure Wired where
  kind : NodeKind
  ins : List Link := []
  outs : List Link := []

def Node.wired (n : Node) : Wired := ⟨n.kind, n.ins, n.outs⟩

/-- Append a link to a list unless it is there. -/
def withLink (l : List Link) (link : Link) : List Link :=
  if l.contains link then l else l ++ [link]

theorem mem_withLink {l : List Link} {a b : Link} : a ∈ withLink l b ↔ a ∈ l ∨ a = b := by
  unfold withLink
  split <;> simp_all

theorem withLink_withLink (l : List Link) (b : Link) :
    withLink (withLink l b) b = withLink l b := by
  unfold withLink
  split <;> simp_all

/-- Merges and branches. -/
def NodeKind.isJoint : NodeKind → Bool
  | .merge _ | .branch .. => true
  | _ => false

namespace Graph

variable {m : NodeId} (n : NodeId) (info : Option SymbolInfo) (kind : NodeKind)

/-- A graph that lists one more node and notes it in its buffers. -/
def note (g : Graph) (n : NodeId) (kind : NodeKind) : Graph :=
  let noted := ((g.bufferLoop n).bufferTry n kind.symbol?).bufferExcept n kind.symbol?
  { noted with nodes := noted.nodes ++ [n] }

/-- A graph after a node was added to it, whatever number it gave to the node. -/
def enter (g : Graph) (n : NodeId) (kind : NodeKind) : Graph := (g.note n kind).indexNode n kind

/-- A graph without its counter of numbers. -/
def uncounted (g : Graph) : Graph := { g with nextIndex := 0 }

variable {g h : Graph}

def loopNoted (depth : Int) (buffer : List (List NodeId)) (n : NodeId) : List (List NodeId) :=
  if depth = 0 then buffer
  else if (buffer.length : Int) ≠ depth then buffer ++ [[n]]
  else buffer.modify (buffer.length - 1) (· ++ [n])

/-- The buffers of `try` bodies after a node was noted. -/
def tryNoted (depth : Int) (buffer : List (Table String (List NodeId))) (n : NodeId)
    (info : Option SymbolInfo) : List (Table String (List NodeId)) :=
  if depth = 0 then buffer
  else if (buffer.length : Int) ≠ depth then buffer ++ [.empty]
  else
    match info with
    | some info =>
      if info.context = "Write" then
        buffer.modify (buffer.length - 1) fun writes =>
          writes.insert info.symbol ((writes.get? info.symbol).getD [] ++ [n])
      else buffer
    | none => buffer

/-- The buffers of handlers after a node was noted. -/
def exceptNoted (depth : Int) (buffer : List (Table String NodeId)) (n : NodeId)
    (info : Option SymbolInfo) : List (Table String NodeId) :=
  if depth = 0 then buffer
  else if (buffer.length : Int) ≠ depth then buffer ++ [.empty]
  else
    match info with
    | some info =>
      let last := buffer.length - 1
      if info.context = "Write" ||
          (info.context = "Read" && (buffer.getD last .empty).contains info.symbol) then
        buffer.modify last fun writes => writes.insert info.symbol n
      else buffer
    | none => buffer

theorem bufferLoop_eq :
    g.bufferLoop n = { g with loopBuffer := loopNoted g.loopDepth g.loopBuffer n } := by
  unfold bufferLoop loopNoted
  split
  · rfl
  · split <;> rfl

theorem bufferTry_eq :
    g.bufferTry n info = { g with tryBuffer := tryNoted g.tryDepth g.tryBuffer n info } := by
  unfold bufferTry tryNoted
  split
  · rfl
  · split
    · rfl
    · cases info with
      | none => rfl
      | some info => dsimp only; split <;> rfl

theorem bufferExcept_eq : g.bufferExcept n info =
      { g with exceptBuffer := exceptNoted g.exceptDepth g.exceptBuffer n info } := by
  unfold bufferExcept exceptNoted
  split
  · rfl
  · split
    · rfl
    · cases info with
      | none => rfl
      | some info => dsimp only; split <;> rfl

theorem note_eq : g.note n kind = { g with
        nodes := g.nodes ++ [n]
        loopBuffer := loopNoted g.loopDepth g.loopBuffer n
        tryBuffer := tryNoted g.tryDepth g.tryBuffer n kind.symbol?
        exceptBuffer := exceptNoted g.exceptDepth g.exceptBuffer n kind.symbol? } := by
  unfold note
  rw [bufferExcept_eq, bufferTry_eq, bufferLoop_eq]

theorem uncounted_note : (g.note n kind).uncounted = g.uncounted.note n kind := by
  rw [note_eq, note_eq]
  rfl

@[simp] theorem enter_nodes : (g.enter n kind).nodes = g.nodes ++ [n] := by
  cases kind <;> simp [enter, note_eq, indexNode, indexSymbol, apply_ite Graph.nodes]

@[simp] theorem enter_role : (g.enter n kind).role = g.role := by
  cases kind <;> simp [enter, note_eq, indexNode, indexSymbol, apply_ite Graph.role]

@[simp] theorem enter_functions : (g.enter n kind).functions = g.functions := by
  cases kind <;> simp [enter, note_eq, indexNode, indexSymbol, apply_ite Graph.functions]

/-- The occurrences in an index after one more was entered. -/
theorem mem_index {t : Table String (List NodeId)} {key : String} {n : NodeId}
    (h : m ∈ (index t key n).values.flatten) : m ∈ t.values.flatten ∨ m = n := by
  obtain ⟨l, hl, hm⟩ := mem_flatten.mp h
  rcases Table.mem_values_insert hl with rfl | hl
  · rcases mem_append.mp hm with hm | hm
    · cases hget : t.get? key with
      | none => simp [hget] at hm
      | some l =>
        rw [hget] at hm
        exact .inl (mem_flatten.mpr ⟨l, Table.mem_values_of_get? hget, hm⟩)
    · exact .inr (mem_singleton.mp hm)
  · exact .inl (mem_flatten.mpr ⟨l, hl, hm⟩)

theorem enter_exceptBuffer :
    (g.enter n kind).exceptBuffer = exceptNoted g.exceptDepth g.exceptBuffer n kind.symbol? := by
  cases kind <;> simp [enter, note_eq, indexNode, indexSymbol, apply_ite Graph.exceptBuffer]

theorem mem_modify {l : List α} {i : Nat} {f : α → α} {a : α}
    (h : a ∈ l.modify i f) : a ∈ l ∨ ∃ b ∈ l, a = f b := by
  obtain ⟨j, hj⟩ := mem_iff_getElem?.mp h
  rw [getElem?_modify] at hj
  obtain ⟨b, hb, heq⟩ := Option.map_eq_some_iff.mp hj
  have hmem := mem_of_getElem? hb
  split at heq
  · exact .inr ⟨b, hmem, heq.symm⟩
  · exact .inl (heq ▸ hmem)

/-- The nodes of handlers after a node was noted. -/
theorem mem_exceptNoted {depth : Int} {buffer : List (Table String NodeId)} {n : NodeId}
    {info : Option SymbolInfo} {writes : Table String NodeId}
    (hw : writes ∈ exceptNoted depth buffer n info) (hm : m ∈ writes.values) :
    (∃ writes ∈ buffer, m ∈ writes.values) ∨ m = n := by
  have hkeep (h : writes ∈ buffer) : (∃ writes ∈ buffer, m ∈ writes.values) ∨ m = n :=
    .inl ⟨writes, h, hm⟩
  unfold exceptNoted at hw
  split at hw
  · exact hkeep hw
  · split at hw
    · rcases mem_append.mp hw with hw | hw
      · exact hkeep hw
      · rw [mem_singleton.mp hw] at hm
        cases hm
    · split at hw
      · dsimp only at hw
        split at hw
        · rcases mem_modify hw with hw | ⟨old, hold, rfl⟩
          · exact hkeep hw
          · exact (Table.mem_values_insert hm).symm.imp (fun hm => ⟨old, hold, hm⟩) id
        · exact hkeep hw
      · exact hkeep hw

/-- Merges and branches are listed apart. -/
theorem mem_enter_joints {n : NodeId} {kind : NodeKind}
    (h : m ∈ (g.enter n kind).merges ++ (g.enter n kind).branches) :
    m ∈ g.merges ++ g.branches ∨ (m = n ∧ kind.isJoint = true) := by
  cases kind with
  | merge var =>
    simp only [enter, note_eq, indexNode, mem_append, mem_singleton] at h ⊢
    rcases h with (h | h) | h
    · exact .inl (.inl h)
    · exact .inr ⟨h, rfl⟩
    · exact .inl (.inr h)
  | branch var row =>
    simp only [enter, note_eq, indexNode, mem_append, mem_singleton] at h ⊢
    rcases h with h | h | h
    · exact .inl (.inl h)
    · exact .inl (.inr h)
    · exact .inr ⟨h, rfl⟩
  | _ =>
    simp only [enter, note_eq, indexNode, indexSymbol, apply_ite Graph.merges,
      apply_ite Graph.branches, ite_self] at h
    exact .inl h

theorem enter_returns : (g.enter n kind).returns =
      if g.isModule = false ∧ kind.symbol?.any (·.context = "Return") = true then g.returns ++ [n]
      else g.returns := by
  cases kind with
  | symbol info =>
    by_cases hm : g.role = .module <;> by_cases hr : info.context = "Return" <;>
      simp [enter, note_eq, indexNode, indexSymbol, apply_ite Graph.returns, isModule,
        NodeKind.symbol?, hm, hr]
  | _ => simp [enter, note_eq, indexNode, apply_ite Graph.returns, NodeKind.symbol?]

theorem mem_enter_symbols {n : NodeId} {kind : NodeKind}
    (h : m ∈ (g.enter n kind).symbols.values.flatten) :
    m ∈ g.symbols.values.flatten ∨ (m = n ∧ kind.symbol?.isSome = true) := by
  cases kind with
  | symbol info =>
    have hindex : (g.enter n (.symbol info)).symbols =
        if g.isModule ∧ info.scope = "local" then g.symbols
        else index g.symbols info.symbol n := by
      by_cases hm : g.role = .module <;> by_cases hr : info.scope = "local" <;>
        simp [enter, note_eq, indexNode, indexSymbol, isModule, hm, hr]
    rw [hindex] at h
    split at h
    · exact .inl h
    · exact (mem_index h).imp id fun hm => ⟨hm, rfl⟩
  | _ =>
    refine .inl ?_
    simpa [enter, note_eq, indexNode, apply_ite Graph.symbols] using h

/-- A graph with another counter of numbers. -/
def counted (G : Graph) (k : Nat) : Graph := { G with nextIndex := k }

theorem indexNode_counted (G : Graph) (k : Nat) (n : NodeId) (kind : NodeKind) :
    (G.counted k).indexNode n kind = (G.indexNode n kind).counted k := by
  cases kind with
  | symbol info =>
    by_cases hG : G.role = .module <;> by_cases hscope : info.scope = "local" <;>
      simp [indexNode, indexSymbol, isModule, counted, hG, hscope]
  | known t =>
    by_cases ht : G.knowns.contains t = true <;> simp [indexNode, counted, ht]
  | _ => rfl

theorem uncounted_indexNode : (g.indexNode n kind).uncounted = g.uncounted.indexNode n kind :=
  (indexNode_counted ..).symm

end Graph

/-- The wiring of all nodes, and the graphs without their counters. -/
structure Web where
  size : Nat
  node : NodeId → Wired
  graphs : Nat
  graph : GraphId → Graph

namespace Web

/-- A web with one more node. -/
def push (W : Web) (v : Wired) : Web :=
  { W with size := W.size + 1, node := fun m => if m.index = W.size then v else W.node m }

def alter (W : Web) (n : NodeId) (f : Wired → Wired) : Web :=
  { W with node := fun m => if m = n ∧ n.index < W.size then f (W.node n) else W.node m }

/-- A web in which a node is among the inputs of another one, if there is one. -/
def take (W : Web) (target : Option NodeId) (n : NodeId) : Web :=
  { W with
    node := fun m =>
      if target = some m ∧ m.index < W.size then
        { W.node m with ins := withLink (W.node m).ins (some n) }
      else W.node m }

/-- A web in which a node is among the outputs of others. -/
def tell (W : Web) (links : List Link) (n : NodeId) : Web :=
  { W with
    node := fun m =>
      if links.contains (some m) ∧ m.index < W.size then
        { W.node m with outs := withLink (W.node m).outs (some n) }
      else W.node m }

def alterGraph (W : Web) (g : GraphId) (f : Graph → Graph) : Web :=
  { W with graph := fun h => if h = g ∧ g.index < W.graphs then f (W.graph g) else W.graph h }

def enter (W : Web) (g : GraphId) (n : NodeId) : Web :=
  W.alterGraph g (·.enter n (W.node n).kind)

/-- The number of the next node. -/
def fresh (W : Web) : NodeId := ⟨W.size⟩

def addGraph (W : Web) (G : Graph) : Web :=
  { W with graphs := W.graphs + 1, graph := fun h => if h.index = W.graphs then G else W.graph h }

/-- The number of the next graph. -/
def freshGraph (W : Web) : GraphId := ⟨W.graphs⟩

end Web

namespace Store

variable {t : Store}

def web (s : Store) : Web where
  size := s.nodes.size
  node n := (s.nodeAt n).wired
  graphs := s.graphs.size
  graph g := (s.graphAt g).uncounted

theorem Grows.web_eq (h : s.Grows t) : t.web = s.web := by
  simp only [web, nodeAt, graphAt, h.nodes, h.graphs]

theorem nodeAt_push (s : Store) (node : Node) (m : NodeId) :
    nodeAt { s with nodes := s.nodes.push node } m =
      if m.index = s.nodes.size then node else s.nodeAt m :=
  getD_push s.nodes node m.index default

theorem graphAt_modify (s : Store) (g : GraphId) (f : Graph → Graph) (h : GraphId) :
    graphAt { s with graphs := s.graphs.modify g.index f } h =
      if h = g ∧ g.index < s.graphs.size then f (s.graphAt g) else s.graphAt h := by
  obtain ⟨g⟩ := g
  obtain ⟨h⟩ := h
  simp only [GraphId.mk.injEq]
  exact getD_modify s.graphs g h f default

theorem graphAt_push (s : Store) (graph : Graph) (g : GraphId) :
    graphAt { s with graphs := s.graphs.push graph } g =
      if g.index = s.graphs.size then graph else s.graphAt g :=
  getD_push s.graphs graph g.index default

theorem web_modify (s : Store) (n : NodeId) (f : Node → Node) (v : Wired → Wired)
    (hf : ∀ node : Node, (f node).wired = v node.wired) :
    web { s with nodes := s.nodes.modify n.index f } = s.web.alter n v := by
  simp only [web, Web.alter, Array.size_modify, nodeAt_modify_of_any, apply_ite Node.wired, hf]
  rfl

theorem web_push (s : Store) (node : Node) :
    web { s with nodes := s.nodes.push node } = s.web.push node.wired := by
  simp only [web, Web.push, Array.size_push, nodeAt_push, apply_ite Node.wired]
  rfl

theorem web_modifyGraph (s : Store) (g : GraphId) (f f' : Graph → Graph)
    (hf : ∀ graph : Graph, (f graph).uncounted = f' graph.uncounted) :
    web { s with graphs := s.graphs.modify g.index f } = s.web.alterGraph g f' := by
  simp only [web, Web.alterGraph, Array.size_modify, graphAt_modify, apply_ite Graph.uncounted, hf]
  rfl

end Store

namespace Web

section Updates

variable (W : Web) (v : Wired) (target : Option NodeId) (links : List Link) (g : GraphId)
  (n m : NodeId)

@[simp] theorem push_size : (W.push v).size = W.size + 1 := rfl

@[simp] theorem push_graphs : (W.push v).graphs = W.graphs := rfl

@[simp] theorem push_node_fresh : (W.push v).node W.fresh = v := by
  simp [push, fresh]

@[simp] theorem take_size : (W.take target n).size = W.size := rfl

@[simp] theorem take_graphs : (W.take target n).graphs = W.graphs := rfl

@[simp] theorem take_kind : ((W.take target n).node m).kind = (W.node m).kind := by
  simp only [take, apply_ite Wired.kind, ite_self]

theorem take_ins : ((W.take target n).node m).ins =
      if target = some m ∧ m.index < W.size then withLink (W.node m).ins (some n)
      else (W.node m).ins := by
  simp only [take, apply_ite Wired.ins]

@[simp] theorem tell_size : (W.tell links n).size = W.size := rfl

@[simp] theorem tell_graphs : (W.tell links n).graphs = W.graphs := rfl

@[simp] theorem tell_kind : ((W.tell links n).node m).kind = (W.node m).kind := by
  simp only [tell, apply_ite Wired.kind, ite_self]

@[simp] theorem tell_ins : ((W.tell links n).node m).ins = (W.node m).ins := by
  simp only [tell, apply_ite Wired.ins, ite_self]

@[simp] theorem enter_size : (W.enter g n).size = W.size := rfl

@[simp] theorem enter_graphs : (W.enter g n).graphs = W.graphs := rfl

@[simp] theorem enter_node : (W.enter g n).node = W.node := rfl

@[simp] theorem push_fresh_alter (f : Wired → Wired) :
    (W.push v).alter W.fresh f = W.push (f v) := by
  simp only [push, alter, fresh, Web.mk.injEq, true_and, and_true]
  funext m
  have : m = ⟨W.size⟩ ↔ m.index = W.size := ⟨fun h => h ▸ rfl, fun h => by cases m; simp_all⟩
  grind

theorem enter_alter (f : Wired → Wired)
    (h : ∀ G : Graph, G.enter n (W.node n).kind = G.enter n ((W.alter m f).node n).kind) :
    (W.enter g n).alter m f = (W.alter m f).enter g n := by
  have hG : (fun G : Graph => G.enter n (W.node n).kind) =
      fun G => G.enter n ((W.alter m f).node n).kind := funext h
  unfold enter
  rw [hG]
  rfl

@[simp] theorem alter_id : W.alter n (fun v => v) = W := by
  simp only [alter]
  congr
  funext m
  split <;> simp_all

@[simp] theorem take_none : W.take none n = W := by
  simp [take]

@[simp] theorem tell_nil : W.tell [] n = W := by
  simp [tell]

@[simp] theorem tell_none : W.tell [none] n = W := by
  simp [tell]

theorem alter_ins :
    (W.alter n fun v => { v with ins := withLink v.ins (some m) }) = W.take (some n) m := by
  simp only [alter, take, Web.mk.injEq, true_and, and_true]
  grind

theorem alter_outs :
    (W.alter n fun v => { v with outs := withLink v.outs (some m) }) = W.tell [some n] m := by
  simp only [alter, tell, Web.mk.injEq, true_and, and_true]
  grind

theorem tell_tell (links more : List Link) (n : NodeId) :
    (W.tell links n).tell more n = W.tell (links ++ more) n := by
  simp only [tell, Web.mk.injEq, true_and, and_true]
  funext m
  by_cases hm : m.index < W.size <;> by_cases h₁ : some m ∈ links <;>
    by_cases h₂ : some m ∈ more <;> simp [hm, h₁, h₂, withLink_withLink]

end Updates

variable {W : Web} {n m : NodeId} {G : Graph} {f : Wired → Wired}

theorem push_node_of_lt {v : Wired} (h : n.index < W.size) : (W.push v).node n = W.node n := by
  simp [push, Nat.ne_of_lt h]

theorem enter_graph_self {g : GraphId} (h : g.index < W.graphs) (n : NodeId) :
    (W.enter g n).graph g = (W.graph g).enter n (W.node n).kind := by
  simp [enter, alterGraph, h]

theorem enter_graph_of_ne {g h : GraphId} (hne : h ≠ g) (n : NodeId) :
    (W.enter g n).graph h = W.graph h := by
  simp [enter, alterGraph, hne]

theorem addGraph_graph_self : (W.addGraph G).graph W.freshGraph = G := by
  simp [addGraph, freshGraph]

theorem addGraph_graph_of_lt {g : GraphId} (hg : g.index < W.graphs) :
    (W.addGraph G).graph g = W.graph g := by
  simp [addGraph, Nat.ne_of_lt hg]

theorem alter_node_self (h : n.index < W.size) : (W.alter n f).node n = f (W.node n) := by
  simp [alter, h]

theorem alter_node_of_ne (h : m ≠ n) : (W.alter n f).node m = W.node m := by
  simp [alter, h]

theorem alter_congr (k : Wired → Wired) (h : f (W.node n) = k (W.node n)) :
    W.alter n f = W.alter n k := by
  simp only [alter, h]

end Web

namespace Store

/-- The graph of a function does not renumber a node of its module. -/
def keepsNumber (s : Store) (g : GraphId) (n : NodeId) : Bool :=
  !(s.graphAt g).isModule && (s.nodeAt n).graph.any fun h => (s.graphAt h).isModule

/-- The number that a graph gives to the next node. -/
def nextNumber (s : Store) (g : GraphId) : String :=
  (s.graphAt g).name ++ "@" ++ toString (s.graphAt g).nextIndex

def added (s : Store) (g : GraphId) (n : NodeId) : Store :=
  let kind := (s.nodeAt n).kind
  if s.keepsNumber g n then { s with graphs := s.graphs.modify g.index (·.enter n kind) }
  else
    { s with
      nodes := s.nodes.modify n.index ({ · with graph := some g, id := s.nextNumber g })
      graphs := s.graphs.modify g.index fun G => (G.enter n kind).counted (G.nextIndex + 1) }

end Store

theorem modify_modify (a : Array α) (i : Nat) (f f' : α → α) :
    (a.modify i f).modify i f' = a.modify i fun x => f' (f x) := by
  apply Array.ext
  · simp
  · intro j _ _
    simp only [Array.getElem_modify]
    split <;> rfl

open Store Graph in
/-- Adding a node to a graph lists and files it there, and numbers it unless it keeps the number
that its module gave to it. -/
theorem Eval.addNode_apply (g : GraphId) (n : NodeId) (s : Store) :
    Eval.addNode g n s = .ok () (s.added g n) := by
  let kind := (s.nodeAt n).kind
  let s₁ : Store := { s with graphs := s.graphs.modify g.index (·.note n kind) }
  have hnoted (h : GraphId) : s₁.graphAt h = (s.graphAt h).note n kind ∨
      s₁.graphAt h = s.graphAt h := by
    rw [graphAt_modify]
    split
    · rename_i hh
      rw [hh.1]
      exact .inl rfl
    · exact .inr rfl
  have hmodule (h : GraphId) : (s₁.graphAt h).isModule = (s.graphAt h).isModule := by
    rcases hnoted h with heq | heq
    · rw [heq, note_eq]
      rfl
    · rw [heq]
  have hnumber : s₁.nextNumber g = s.nextNumber g := by
    unfold nextNumber
    rcases hnoted g with heq | heq
    · rw [heq, note_eq]
    · rw [heq]
  have hkeeps (f : Bool → Eval Unit) : (if (s₁.graphAt g).isModule then pure false >>= f
      else (isModuleNode (s.nodeAt n)).run >>= f) s₁ = f (s.keepsNumber g n) s₁ := by
    rw [keepsNumber, hmodule]
    cases hg : (s.graphAt g).isModule with
    | true => rfl
    | false =>
      unfold isModuleNode
      cases hn : (s.nodeAt n).graph with
      | none => rfl
      | some h =>
        change f (s₁.graphAt h).isModule s₁ = _
        rw [hmodule]
        rfl
  unfold Eval.addNode
  simp only [liftM_eq_run]
  rw [Eval.bind_of_ok (Eval.node_run n s), Eval.bind_of_ok (Eval.modifyGraph_apply ..)]
  change ((graph g).run >>= fun target => _) s₁ = _
  rw [Eval.bind_of_ok (Eval.graph_run g s₁)]
  refine (hkeeps _).trans ?_
  unfold added
  cases s.keepsNumber g n with
  | true =>
    simp only [Bool.not_true, Bool.false_eq_true, if_false, if_true]
    rw [modifyGraph_apply, modify_modify]
    rfl
  | false =>
    simp only [Bool.not_false, Bool.false_eq_true, if_false, if_true]
    rw [bind_of_ok (modifyNode_apply ..), bind_of_ok (modifyGraph_apply ..), modifyGraph_apply,
      modify_modify, modify_modify, ← hnumber]
    have hgraph (G : Graph) : ((G.note n kind).counted ((G.note n kind).nextIndex + 1)).indexNode
        n kind = (G.enter n kind).counted (G.nextIndex + 1) := by
      rw [indexNode_counted, enter, note_eq]
    exact congrArg (fun f => EStateM.Result.ok () { s with
      nodes := s.nodes.modify n.index ({ · with graph := some g, id := s₁.nextNumber g })
      graphs := s.graphs.modify g.index f }) (funext hgraph)

theorem Store.web_added (s : Store) (g : GraphId) (n : NodeId) :
    (s.added g n).web = s.web.enter g n := by
  have henter (G : Graph) : (G.enter n (s.nodeAt n).kind).uncounted =
      G.uncounted.enter n (s.nodeAt n).kind := by
    rw [Graph.enter, Graph.uncounted_indexNode, Graph.uncounted_note]
    rfl
  unfold added
  split
  · exact web_modifyGraph s g _ (·.enter n (s.nodeAt n).kind) henter
  · let f (node : Node) : Node := { node with graph := some g, id := s.nextNumber g }
    refine (web_modifyGraph { s with nodes := s.nodes.modify n.index f } g
      (fun G => (G.enter n _).counted (G.nextIndex + 1)) (·.enter n (s.nodeAt n).kind)
      henter).trans ?_
    rw [web_modify s n f (fun v => v) fun _ => rfl, Web.alter_id]
    rfl

namespace Eval

variable {Q : Unit → Store → Prop} (n : NodeId) (g : GraphId) (m : NodeId)

theorem meets_modifyNode (f : Node → Node) (v : Wired → Wired)
    (hf : ∀ node : Node, (f node).wired = v node.wired)
    (h : ∀ t, t.web = s.web.alter n v → Q () t) : (modifyNode n f).Meets e s Q :=
  h _ (Store.web_modify s n f v hf)

theorem meets_setPosition (pos : Position) (h : ∀ t, t.web = s.web → Q () t) :
    (setPosition n pos).Meets e s Q :=
  meets_modifyNode n _ (fun v => v) (fun _ => rfl) (by simpa using h)

theorem meets_modifyGraph (f f' : Graph → Graph)
    (hf : ∀ graph : Graph, (f graph).uncounted = f' graph.uncounted)
    (h : ∀ t, t.web = s.web.alterGraph g f' → Q () t) : (modifyGraph g f).Meets e s Q :=
  h _ (Store.web_modifyGraph s g f f' hf)

theorem meets_newGraph {Q : GraphId → Store → Prop} (G : Graph)
    (h : ∀ t, t.web = s.web.addGraph G.uncounted → Q s.web.freshGraph t) :
    (newGraph G).Meets e s Q := by
  refine h _ ?_
  simp only [Store.web, Web.addGraph, Web.mk.injEq, Array.size_push, true_and]
  refine ⟨rfl, ?_⟩
  funext k
  rw [Store.graphAt_push, apply_ite Graph.uncounted]
  rfl

theorem meets_makeNode {Q : NodeId → Store → Prop} (kind : NodeKind) (name : String)
    (types rejected : List Entry) (h : ∀ t, t.web = s.web.push { kind } → Q s.web.fresh t) :
    (makeNode kind name types rejected).Meets e s Q := by
  refine h _ ?_
  exact Store.web_push _ _

theorem meets_newSymbol {Q : NodeId → Store → Prop} (info : SymbolInfo)
    (h : ∀ t, t.web = s.web.push { kind := .symbol info } → Q s.web.fresh t) :
    (newSymbol info).Meets e s Q := meets_makeNode _ _ _ _ h

theorem meets_newMerge {Q : NodeId → Store → Prop} (var : String)
    (h : ∀ t, t.web = s.web.push { kind := .merge var } → Q s.web.fresh t) :
    (newMerge var).Meets e s Q := meets_makeNode _ _ _ _ h

theorem meets_newOperation {Q : NodeId → Store → Prop} (op : String) (func attr : Option String)
    (splitIndex : Int)
    (h : ∀ t row, t.web = s.web.push
      { kind := .operation { op, func, attr, splitIndex, rejectedInputs := row } } →
        Q s.web.fresh t) :
    (newOperation op func attr splitIndex).Meets e s Q := by
  unfold newOperation
  simp only [liftM_eq_run, meets_bind, meets_of_eq (newRow_run _ _)]
  exact meets_makeNode _ _ _ _ fun t ht => h t _ ht

theorem meets_newKnown {Q : NodeId → Store → Prop} (c : TypeId)
    (h : ∀ t, t.web = s.web.push { kind := .known c } → Q s.web.fresh t) :
    (newKnown (.type c)).Meets e s Q := by
  unfold newKnown
  simp only [liftM_eq_run, meets_bind, meets_of_eq (type_run _ _)]
  exact meets_makeNode _ _ _ _ h

theorem meets_newType {Q : TypeId → Store → Prop} (name : String) (category : Category)
    (h : ∀ c t, t.web = s.web → Q c t) : (newType name category).run.Meets e s Q := by
  obtain ⟨c, t, hrun⟩ : ∃ c t, (newType name category).run s = .ok c t := ⟨_, _, rfl⟩
  rw [meets_of_eq hrun]
  exact h c t (grows_of_ok hrun).web_eq

theorem meets_newRow {Q : RowId → Store → Prop} (entries : List Entry)
    (h : ∀ r t, t.web = s.web → Q r t) : (newRow entries).run.Meets e s Q :=
  h _ _ rfl

theorem meets_newBranch {Q : NodeId → Store → Prop} (var : Option String)
    (h : ∀ t row, t.web = s.web.push { kind := .branch var row } → Q s.web.fresh t) :
    (newBranch var).Meets e s Q := by
  unfold newBranch emptySides
  simp only [liftM_eq_run, Typing.run_bind, Typing.run_pure, meets_bind, meets_pure,
    meets_of_eq (newRow_run _ _)]
  exact meets_makeNode _ _ _ _ fun t ht => h t _ ht

theorem meets_setOutTypes (row : RowId) {var : Option String} {old : RowId}
    (hk : (s.web.node n).kind = .branch var old)
    (h : ∀ t, t.web = s.web.alter n (fun v => { v with kind := .branch var row }) → Q () t) :
    (setOutTypes n row).Meets e s Q := by
  unfold setOutTypes
  simp only [liftM_eq_run, meets_bind, meets_of_eq (node_run _ _)]
  rw [show (s.nodeAt n).kind = .branch var old from hk]
  exact meets_modifyNode n _ _ (fun _ => rfl) h

theorem meets_addInput (hk : (s.web.node n).kind.isKnown = true → e)
    (h : ∀ t, t.web = s.web.take (some n) m → Q () t) : (addInput n (some m)).Meets e s Q := by
  unfold addInput
  simp only [liftM_eq_run, meets_bind, meets_of_eq (node_run _ _), meets_ite, meets_throw]
  split
  · exact hk ‹_›
  · split
    · refine h s ?_
      rw [← Web.alter_ins, Web.alter_congr fun v => v, Web.alter_id]
      simp_all [withLink, Store.web, Node.wired]
    · refine meets_modifyNode n _ (fun v => { v with ins := v.ins ++ [some m] }) (fun _ => rfl) ?_
      rw [← Web.alter_ins, Web.alter_congr fun v => { v with ins := v.ins ++ [some m] }] at h
      · exact h
      · simp_all [withLink, Store.web, Node.wired]

theorem meets_addOutput (h : ∀ t, t.web = s.web.tell [some n] m → Q () t) :
    (addOutput n (some m)).Meets e s Q := by
  unfold addOutput
  simp only [liftM_eq_run, meets_bind, meets_of_eq (node_run _ _), meets_ite]
  rw [← Web.alter_outs] at h
  split
  · refine h s ?_
    rw [Web.alter_congr fun v => v, Web.alter_id]
    simp_all [withLink, Store.web, Node.wired]
  · rw [Web.alter_congr fun v => { v with outs := v.outs ++ [some m] }] at h
    · exact meets_modifyNode n _ _ (fun _ => rfl) h
    · simp_all [withLink, Store.web, Node.wired]

theorem meets_connect (hk : (s.web.node m).kind.isKnown = true → e)
    (h : ∀ t, t.web = (s.web.tell [some n] m).take (some m) n → Q () t) :
    (connect n m).Meets e s Q := by
  unfold connect
  rw [meets_bind]
  refine meets_addOutput n m fun t ht => ?_
  refine meets_addInput m n ?_ fun u hu => h u (ht ▸ hu)
  rw [ht]
  simpa [Web.tell, apply_ite Wired.kind] using hk

theorem meets_addNode (n : NodeId) (h : ∀ t, t.web = s.web.enter g n → Q () t) :
    (addNode g n).Meets e s Q :=
  (meets_of_eq (addNode_apply g n s)).mpr (h _ (Store.web_added s g n))

end Eval

namespace Build

open Eval

variable {w : Walk} {Q : NodeId → Walk → Store → Prop} {f : FunctionFrame}
  {rest : List FunctionFrame} (n : NodeId) (info : SymbolInfo)

theorem meets_newOperation (op : String) (pos : Position) (attr : Option String) (splitIndex : Int)
    (h : ∀ t info, info.op = op → t.web = s.web.push { kind := .operation info } →
      Q s.web.fresh w t) :
    Meets e (newOperation op pos attr splitIndex) w s Q := by
  unfold newOperation
  simp only [meets_bind, meets_lift, meets_pure]
  refine Eval.meets_newOperation _ _ _ _ fun t row ht => ?_
  exact meets_setPosition _ _ fun u hu => h u _ rfl (hu.trans ht)

theorem meets_place {Q : Unit → Walk → Store → Prop} (ins outs : List Link) (pos : Position)
    (h : ∀ t, t.web = s.web.alter n (fun v => { v with ins, outs }) → Q () w t) :
    Meets e (place n ins outs pos) w s Q := by
  unfold place
  rw [meets_lift]
  exact meets_modifyNode n _ _ (fun _ => rfl) h

theorem meets_newKnown (name : String) (category : Category) (target : NodeId) (pos : Position)
    (h : ∀ t c, t.web = s.web.push ⟨.known c, [], [some target]⟩ → Q s.web.fresh w t) :
    Meets e (newKnown name category target pos) w s Q := by
  unfold newKnown
  simp only [meets_bind, meets_lift, meets_liftTyping, meets_pure]
  refine meets_newType _ _ fun c t ht => ?_
  refine Eval.meets_newKnown _ fun u hu => ?_
  refine meets_place _ _ _ _ fun v hv => ?_
  rw [hu, Web.push_fresh_alter, ht] at hv
  rw [ht]
  exact h v c hv

/-- Telling the sources of a node about it. -/
theorem meets_tell {Q : PUnit → Walk → Store → Prop} {f : Link → PUnit → Build (ForInStep PUnit)}
    {sources : List Link} {n : NodeId}
    (hsome : ∀ m, some m ∈ sources → f (some m) ⟨⟩ = do
      liftM (Eval.addOutput m (some n))
      pure (ForInStep.yield PUnit.unit))
    (hnone : none ∈ sources → ∀ w s, Meets e (f none ⟨⟩) w s fun r w' t =>
      r = .yield ⟨⟩ ∧ w' = w ∧ t = s)
    (h : ∀ t, t.web = s.web.tell sources n → Q ⟨⟩ w t) :
    Meets e (forIn sources PUnit.unit f) w s Q := by
  refine meets_forIn (I := fun rest w' t => w' = w ∧ ∃ done, sources = done ++ rest ∧
    t.web = s.web.tell done n) ⟨rfl, [], rfl, by simp⟩ ?_ ?_
  · rintro link rest w' t ⟨rfl, done, hdone, ht⟩
    have hmem : link ∈ sources := hdone ▸ mem_append_right _ (.head _)
    cases link with
    | some m =>
      simp only [hsome m hmem, meets_bind, meets_lift, meets_pure, true_and]
      refine meets_addOutput _ _ fun u hu => ⟨done ++ [some m], by simp [hdone], ?_⟩
      rw [hu, ht, Web.tell_tell]
    | none =>
      refine (hnone hmem w' t).imp ?_
      rintro r w'' u ⟨hr, rfl, rfl⟩
      refine ⟨hr, rfl, done ++ [none], by simp [hdone], ?_⟩
      rw [ht, ← Web.tell_tell, Web.tell_none]
  · rintro w' t ⟨rfl, done, hdone, ht⟩
    rw [append_nil] at hdone
    exact h t (hdone ▸ ht)

theorem meets_newRead (sources : List Link) (unused : Bool) (pos : Position)
    (hk : ∀ n, w.consumer unused = some n → (s.web.node n).kind.isKnown = true → e)
    (h : ∀ t, t.web =
      ((s.web.push ⟨.symbol info, sources, (w.consumer unused).toList.map some⟩).tell sources
        s.web.fresh).take (w.consumer unused) s.web.fresh → Q s.web.fresh w t) :
    Meets e (newRead info sources unused pos) w s Q := by
  unfold newRead
  simp only [meets_bind, meets_consumer, meets_lift]
  refine Eval.meets_newSymbol _ fun t ht => ?_
  refine meets_place _ _ _ _ fun t₁ ht₁ => ?_
  rw [ht, Web.push_fresh_alter] at ht₁
  refine meets_tell (fun _ _ => rfl) (fun _ _ _ => ⟨rfl, rfl, rfl⟩) fun t₂ ht₂ => ?_
  cases htarget : w.consumer unused with
  | none =>
    simp only [htarget, Web.take_none] at h
    exact h t₂ (by simpa [htarget, ht₁] using ht₂)
  | some n =>
    simp only [meets_bind, meets_lift, meets_pure]
    refine meets_addInput _ _ ?_ fun t₃ ht₃ => h t₃ ?_
    · rw [ht₂, ht₁]
      simp only [Web.tell, apply_ite Wired.kind, ite_self, Web.push]
      split
      · simp [NodeKind.isKnown]
      · exact hk n htarget
    · rw [ht₃, ht₂, ht₁, htarget]

theorem meets_operation (he : w.pending = [] → e) (h : ∀ n rest, w.pending = n :: rest → Q n w s) :
    Meets e operation w s Q := by
  simp only [operation, meets_bind, meets_get]
  split
  · exact h _ _ ‹_›
  · exact he ‹_›

theorem meets_newWrite (pos : Position) (he : w.pending = [] → e)
    (h : ∀ t source rest, w.pending = source :: rest → t.web =
      (s.web.push ⟨.symbol { info with context := "Write" }, [some source], []⟩).tell [some source]
        s.web.fresh → Q s.web.fresh w t) :
    Meets e (newWrite info pos) w s Q := by
  unfold newWrite
  rw [meets_bind]
  refine meets_operation he fun source rest hsource => ?_
  simp only [meets_bind, meets_lift, meets_pure]
  refine Eval.meets_newSymbol _ fun t ht => ?_
  refine meets_place _ _ _ _ fun u hu => ?_
  refine meets_addOutput _ _ fun v hv => h v source rest hsource ?_
  rw [hv, hu, ht, Web.push_fresh_alter]

/-- The name of a merge is only read off its nodes, all of which have to be there. -/
theorem meets_mergeName {Q : String → Walk → Store → Prop} {links : List Link}
    (he : none ∈ links → e) (h : none ∉ links → ∀ name, Q name w s) :
    Meets e (mergeName links) w s Q := by
  have hpart (n : NodeId) (w : Walk) (s : Store) :
      Meets e (mergePart (some n)) w s fun _ w' t => w' = w ∧ t = s := by
    simp only [mergePart, meets_bind, meets_liftTyping, meets_of_eq (node_run _ _)]
    split
    · split <;> exact ⟨rfl, rfl⟩
    · exact ⟨rfl, rfl⟩
    · exact ⟨rfl, rfl⟩
    · exact ⟨rfl, rfl⟩
  have hparts : Meets e (links.mapM mergePart) w s fun _ w' t =>
      none ∉ links ∧ w' = w ∧ t = s := by
    clear h
    induction links with
    | nil => exact ⟨by simp, rfl, rfl⟩
    | cons link rest ih =>
      simp only [mapM_cons, meets_bind, meets_pure]
      cases link with
      | none => exact he (.head _)
      | some n =>
        refine (hpart n w s).imp ?_
        rintro _ _ _ ⟨rfl, rfl⟩
        refine (ih fun h => he (.tail _ h)).imp ?_
        rintro _ _ _ ⟨hrest, rfl, rfl⟩
        exact ⟨by simp [hrest], rfl, rfl⟩
  unfold mergeName
  simp only [meets_bind, meets_pure]
  refine hparts.imp ?_
  rintro names _ _ ⟨hlinks, rfl, rfl⟩
  exact h hlinks _

theorem meets_newMerge (links : List Link) (he : none ∈ links → e)
    (h : none ∉ links → ∀ t name, t.web =
      (s.web.push ⟨.merge name, links, []⟩).tell links s.web.fresh → Q s.web.fresh w t) :
    Meets e (newMerge links) w s Q := by
  unfold newMerge
  rw [meets_bind]
  refine meets_mergeName he fun hlinks name => ?_
  simp only [meets_bind, meets_lift, meets_pure]
  refine Eval.meets_newMerge _ fun t ht => ?_
  refine meets_modifyNode _ _ (fun v => { v with ins := links }) (fun _ => rfl) fun u hu => ?_
  refine meets_tell (fun _ _ => rfl) (fun hn _ _ => he hn) fun v hv => h hlinks v name ?_
  rw [hv, hu, ht, Web.push_fresh_alter]

variable {Q : Unit → Walk → Store → Prop}

theorem meets_feed (unused : Bool)
    (hk : ∀ m, w.consumer unused = some m → (s.web.node m).kind.isKnown = true → e)
    (h : ∀ t, t.web = (s.web.tell ((w.consumer unused).toList.map fun _ => some n)
        ((w.consumer unused).getD n)).take (w.consumer unused) n → Q () w t) :
    Meets e (feed n unused) w s Q := by
  unfold feed
  simp only [meets_bind, meets_consumer]
  cases htarget : w.consumer unused with
  | none => exact h s (by simp [htarget])
  | some m =>
    simp only [meets_lift]
    refine meets_connect _ _ (hk m htarget) fun t ht => h t ?_
    simpa [htarget] using ht

theorem meets_addToFunction (hf : w.functions = f :: rest) (n : NodeId)
    (h : ∀ t, t.web = s.web.enter f.graph n → Q () w t) : Meets e (addToFunction n) w s Q := by
  simp only [addToFunction, meets_bind, meets_get, hf, meets_lift]
  exact Eval.meets_addNode _ _ h

theorem meets_addNode (hf : w.functions = f :: rest) (n : NodeId)
    (h : ∀ t, t.web = s.web.enter f.graph n → Q () w t) : Meets e (addNode n) w s Q := by
  simp only [addNode, meets_bind, meets_get, hf, meets_lift]
  exact Eval.meets_addNode _ _ h

end Build
end TypeFlow
