import Mathlib.Order.WellFoundedSet
import TypeFlow.Graph.Flow
import TypeFlow.Proofs.Run

/-!
# The shape of a graph

The flow of types moves types along edges and never changes an edge. This module says what it
means that two stores show the same of every node, proves it of every visit and of every
rejection, and defines the graphs whose inputs and outputs describe the same edges.
-/

set_option synthInstance.maxSize 3000

namespace TypeFlow

open Node

variable {s t : Store} {R : Store → Store → Prop} {f : Node → Node} {α β γ : Type}

namespace Store

variable {u : Store}

/-- Graphs are the same, and so is what `view` shows of every node. -/
structure Alike (view : Node → β) (s t : Store) : Prop where
  graphs : t.graphs = s.graphs
  nodes : t.nodes.map view = s.nodes.map view

namespace Alike

variable {view : Node → β}

instance : IsPreorder Store (Alike view) where
  refl _ := ⟨rfl, rfl⟩
  trans _ _ _ h₁ h₂ := ⟨h₂.graphs.trans h₁.graphs, h₂.nodes.trans h₁.nodes⟩

section

variable (h : s.Alike view t)

include h

theorem graphAt_eq (g : GraphId) : t.graphAt g = s.graphAt g := by
  rw [graphAt, graphAt, h.graphs]

theorem size_eq : t.nodes.size = s.nodes.size := by
  simpa only [Array.size_map] using congrArg Array.size h.nodes

theorem view_nodeAt (n : NodeId) : view (t.nodeAt n) = view (s.nodeAt n) := by
  have hget : (t.nodes.map view)[n.index]? = (s.nodes.map view)[n.index]? := by rw [h.nodes]
  simp only [Array.getElem?_map] at hget
  simp only [nodeAt, Array.getD_eq_getD_getElem?]
  cases ht : t.nodes[n.index]? <;> cases hs : s.nodes[n.index]? <;> simp_all

theorem comp (f : β → γ) : s.Alike (f ∘ view) t :=
  ⟨h.graphs, by rw [← Array.map_map, ← Array.map_map, h.nodes]⟩

end

theorem of_grows (h : s.Grows t) : s.Alike view t := ⟨h.graphs, by rw [h.nodes]⟩

theorem modify (s : Store) (n : NodeId) (hf : ∀ node, view (f node) = view node) :
    s.Alike view { s with nodes := s.nodes.modify n.index f } := by
  refine ⟨rfl, Array.ext (by simp) fun i h₁ h₂ => ?_⟩
  simp only [Array.getElem_map, Array.getElem_modify]
  split <;> simp [hf]

end Alike
end Store

namespace Keeps

open Store Eval

variable {view : Node → β}

instance run_alike (x : Typing α) : Keeps (Alike view) x.run :=
  of_grows (fun _ _ => Alike.of_grows) x

theorem modifyNode_alike (n : NodeId) (f : Node → Node) (hf : ∀ node, view (f node) = view node) :
    Keeps (Alike view) (modifyNode n f) :=
  of_ends fun s => ⟨_, _, rfl, Alike.modify s n hf⟩

end Keeps

/-- The edges of a node and its label in a sweep. -/
def Node.marks (n : Node) : List Link × List Link × Nat := (n.ins, n.outs, n.label)

def Node.edges (n : Node) : List Link × List Link := (n.ins, n.outs)

namespace Store

/-- A relation between stores that takes no notice of growth, nor of a change of a node that leaves
its edges and its label and does not make a symbol of it. -/
class Overlooks (R : Store → Store → Prop) : Prop extends IsPreorder Store R where
  grows : ∀ {s t : Store}, s.Grows t → R s t
  modify : ∀ (s : Store) (n : NodeId) {f : Node → Node}, (∀ node, (f node).marks = node.marks) →
    (∀ node, (f node).kind = node.kind ∨ (f node).kind.symbol? = none) →
    R s { s with nodes := s.nodes.modify n.index f }

/-- A relation between stores that takes no notice of labels either. -/
class OverlooksLabels (R : Store → Store → Prop) : Prop extends Overlooks R where
  label : ∀ (s : Store) (n : NodeId) (label : Nat),
    R s { s with nodes := s.nodes.modify n.index ({ · with label }) }

/-- A relation between stores that takes no notice of labels, whatever else it notices. -/
class AllowsLabels (R : Store → Store → Prop) : Prop extends IsPreorder Store R where
  label : ∀ (s : Store) (n : NodeId) (label : Nat),
    R s { s with nodes := s.nodes.modify n.index ({ · with label }) }

instance [OverlooksLabels R] : AllowsLabels R where
  label := OverlooksLabels.label

instance : Overlooks (Alike marks) where
  grows := .of_grows
  modify s n _ hmarks _ := .modify s n hmarks

theorem Alike.edges_of_marks (h : s.Alike marks t) : s.Alike edges t := h.comp fun m => (m.1, m.2.1)

instance : OverlooksLabels (Alike edges) where
  grows := .of_grows
  modify s n _ hmarks _ := (Alike.modify s n hmarks).edges_of_marks
  label s n _ := .modify s n fun _ => rfl

end Store

namespace Eval

open Store

section Visits

variable [Overlooks R] (n : NodeId) (purpose : Purpose) (role : GraphRole) (g : GraphId)

instance (x : Typing α) : Keeps R x.run := .of_grows (fun _ _ => Overlooks.grows) x

theorem overlooks_modifyNode (hmarks : ∀ node, (f node).marks = node.marks)
    (hkind : ∀ node, (f node).kind = node.kind ∨ (f node).kind.symbol? = none) :
    Keeps R (modifyNode n f) :=
  .of_ends fun s => ⟨_, _, rfl, Overlooks.modify s n hmarks hkind⟩

instance (tag : Int) : Keeps R (setTag n tag) :=
  overlooks_modifyNode n (fun _ => rfl) fun _ => .inl rfl

instance (entries : List Entry) : Keeps R (setTypes n entries) := by
  have hset (r : RowId) : Keeps R (modifyNode n fun node => { node with types := r }) :=
    overlooks_modifyNode n (fun _ => rfl) fun _ => .inl rfl
  unfold setTypes
  infer_instance

instance (input n : NodeId) : Keeps R (visitInput input n) := by
  unfold visitInput
  infer_instance

instance (n : NodeId) (info : SymbolInfo) : Keeps R (fillGlobal purpose role n info) := by
  refine .andThen fun _ => .andThen fun types => ?_
  split <;> infer_instance

instance (n : NodeId) (info : SymbolInfo) (conflicts : Conflicts) :
    Keeps R (visitSymbol purpose role n info conflicts) := by
  refine .andThen fun node => ?_
  split <;> infer_instance

instance (info : OperationInfo) (v : Verdict) : Keeps R (keepVerdict n info v) := by
  have hset (rejectedInputs types : RowId) : Keeps R (modifyNode n fun node =>
        { node with kind := .operation { info with rejectedInputs }, types }) :=
    overlooks_modifyNode n (fun _ => rfl) fun _ => .inr rfl
  unfold keepVerdict
  infer_instance

instance (operands : List Operand) (userNames : Option (List Document)) (traversal : Bool) :
    Keeps R (performOn n operands userNames traversal) := by
  unfold performOn
  infer_instance

instance (userNames : Option (List Document)) (traversal : Bool) :
    Keeps R (perform n userNames traversal) := by
  unfold perform
  infer_instance

instance (users : List Document) (n : NodeId) (info : OperationInfo) :
    Keeps R (visitOperation users n info) := by
  unfold visitOperation
  dsimp only
  infer_instance

instance : Keeps R (visitMerge n) := by
  unfold visitMerge
  infer_instance

instance : Keeps R (splitTypes n) := by
  unfold splitTypes
  infer_instance

instance : Keeps R (visitBranch n) := by
  unfold visitBranch
  infer_instance

instance (n : NodeId) (conflicts : Conflicts) : Keeps R (visit purpose g n conflicts) := by
  refine .andThen fun graph => .andThen fun node => ?_
  split <;> infer_instance

instance (n : NodeId) (evaluated : Bool) (state : Visit) :
    Keeps R (evaluate purpose g n evaluated state) := by
  unfold evaluate
  infer_instance

end Visits

section Labels

variable [AllowsLabels R] (n : NodeId) (queue : List NodeId)

instance (label : Nat) : Keeps R (setLabel n label) :=
  .of_ends fun s => ⟨_, _, rfl, AllowsLabels.label s n label⟩

instance (node : Node) : Keeps R (checkReport node).run := by
  unfold checkReport
  split <;> infer_instance

instance (ins : List Link) : Keeps R (waitForInputs n queue ins) := by
  induction ins generalizing queue with
  | nil => exact Keeps.pure queue
  | cons link rest ih =>
    unfold waitForInputs
    infer_instance

instance (outs : List Link) : Keeps R (queueOutputs queue outs) := by
  induction outs generalizing queue with
  | nil => exact Keeps.pure queue
  | cons link rest ih =>
    refine .andThen fun n => .andThen fun node => ?_
    split <;> infer_instance

instance (g : GraphId) : Keeps R (clearLabels g) := by
  unfold clearLabels
  infer_instance

end Labels

section Sweeps

variable [OverlooksLabels R] (purpose : Purpose) (g : GraphId) (fuel : Nat) (conflicts : Conflicts)

instance (n : NodeId) (queue : List NodeId) (state : Visit) :
    Keeps R (turn purpose g n queue state) := by
  unfold turn
  infer_instance

instance (queue : List NodeId) (state : Visit) : Keeps R (sweep purpose g fuel queue state) := by
  induction fuel generalizing queue state with
  | zero => exact Keeps.pure state
  | succ fuel ih =>
    cases queue with
    | nil => exact Keeps.pure state
    | cons n queue => exact .andThen fun t => ih t.queue t.state

instance : Keeps R (forward purpose g conflicts) := by
  unfold forward
  infer_instance

instance : Keeps R (conflictsFrom g fuel conflicts) := by
  induction fuel generalizing conflicts with
  | zero => exact Keeps.pure conflicts
  | succ fuel ih =>
    unfold conflictsFrom
    infer_instance

end Sweeps

end Eval

/-- A node without its rejected types. -/
def Node.unrejected (n : Node) : Node := { n with rejected := default }

namespace Eval

open Store

instance (n : NodeId) (entries : List Entry) :
    Keeps (Alike unrejected) (setRejected n entries) := by
  have hset (r : RowId) : Keeps (Alike unrejected)
      (modifyNode n fun node => { node with rejected := r }) :=
    Keeps.modifyNode_alike _ _ fun _ => rfl
  unfold setRejected
  infer_instance

instance (users : List Document) (n : NodeId) : Keeps (Alike unrejected) (reject users n) := by
  unfold reject
  infer_instance

instance (g : GraphId) (users : List Document) (fuel : Nat) :
    Keeps (Alike unrejected) (backwardFrom g users fuel) := by
  induction fuel with
  | zero => exact Keeps.throw _
  | succ fuel ih =>
    unfold backwardFrom round
    infer_instance

instance (g : GraphId) : Keeps (Alike unrejected) (backward g) := by
  have hget : Keeps (Alike unrejected) (get : Eval Store) := Keeps.run_alike store
  unfold backward
  infer_instance

end Eval

namespace Store

variable {g : GraphId} {m n : NodeId}

/-- An edge between two nodes of a graph. -/
def Feeds (s : Store) (g : GraphId) (m n : NodeId) : Prop :=
  m ∈ (s.graphAt g).nodes ∧ n ∈ (s.graphAt g).nodes ∧ some m ∈ (s.nodeAt n).ins

/-- Graphs without cycles, whose nodes are in the store and whose inputs and outputs describe the
same edges between these nodes. -/
structure IsDag (s : Store) (g : GraphId) : Prop where
  stored : ∀ n ∈ (s.graphAt g).nodes, n.index < s.nodes.size
  ins : ∀ n ∈ (s.graphAt g).nodes, ∀ link ∈ (s.nodeAt n).ins,
    ∃ m ∈ (s.graphAt g).nodes, link = some m
  outs : ∀ m ∈ (s.graphAt g).nodes, ∀ link ∈ (s.nodeAt m).outs,
    ∃ n ∈ (s.graphAt g).nodes, link = some n
  same : ∀ m ∈ (s.graphAt g).nodes, ∀ n ∈ (s.graphAt g).nodes,
    some m ∈ (s.nodeAt n).ins ↔ some n ∈ (s.nodeAt m).outs
  acyclic : ∀ n, ¬ Relation.TransGen (s.Feeds g) n n

namespace Alike

theorem kind_eq (h : s.Alike unrejected t) (n : NodeId) : (t.nodeAt n).kind = (s.nodeAt n).kind :=
  (congrArg kind (h.view_nodeAt n) :)

theorem edges (h : s.Alike Node.unrejected t) : s.Alike Node.edges t := h.comp Node.edges

variable (h : s.Alike Node.edges t)

include h

theorem ins_eq (n : NodeId) : (t.nodeAt n).ins = (s.nodeAt n).ins :=
  congrArg Prod.fst (h.view_nodeAt n)

theorem outs_eq (n : NodeId) : (t.nodeAt n).outs = (s.nodeAt n).outs :=
  congrArg Prod.snd (h.view_nodeAt n)

theorem feeds_eq (g : GraphId) : t.Feeds g = s.Feeds g := by
  funext m n
  simp only [Feeds, h.graphAt_eq, h.ins_eq]

end Alike

namespace IsDag

section

variable (hs : s.IsDag g)

include hs

theorem of_alike (h : s.Alike edges t) : t.IsDag g where
  stored := by simpa only [h.graphAt_eq, h.size_eq] using hs.stored
  ins := by simpa only [h.graphAt_eq, h.ins_eq] using hs.ins
  outs := by simpa only [h.graphAt_eq, h.outs_eq] using hs.outs
  same := by simpa only [h.graphAt_eq, h.ins_eq, h.outs_eq] using hs.same
  acyclic := by simpa only [h.feeds_eq] using hs.acyclic

theorem mem_of_ins (hn : n ∈ (s.graphAt g).nodes) (hm : some m ∈ (s.nodeAt n).ins) :
    m ∈ (s.graphAt g).nodes := by
  obtain ⟨m', hm', h⟩ := hs.ins n hn _ hm
  exact Option.some.inj h ▸ hm'

theorem mem_of_outs (hm : m ∈ (s.graphAt g).nodes)
    (hn : some n ∈ (s.nodeAt m).outs) : n ∈ (s.graphAt g).nodes := by
  obtain ⟨n', hn', h⟩ := hs.outs m hm _ hn
  exact Option.some.inj h ▸ hn'

theorem feeds_of_ins (hn : n ∈ (s.graphAt g).nodes)
    (hm : some m ∈ (s.nodeAt n).ins) : s.Feeds g m n :=
  ⟨hs.mem_of_ins hn hm, hn, hm⟩

theorem ne_of_ins (hn : n ∈ (s.graphAt g).nodes)
    (hm : some m ∈ (s.nodeAt n).ins) : m ≠ n :=
  fun h => hs.acyclic n (.single (hs.feeds_of_ins hn (h ▸ hm)))

end

/-- Edges that lead from lower to higher numbers form no cycle. -/
theorem of_index_lt (stored : ∀ n ∈ (s.graphAt g).nodes, n.index < s.nodes.size)
    (ins : ∀ n ∈ (s.graphAt g).nodes, ∀ link ∈ (s.nodeAt n).ins,
      ∃ m ∈ (s.graphAt g).nodes, link = some m ∧ m.index < n.index)
    (outs : ∀ m ∈ (s.graphAt g).nodes, ∀ link ∈ (s.nodeAt m).outs,
      ∃ n ∈ (s.graphAt g).nodes, link = some n)
    (same : ∀ m ∈ (s.graphAt g).nodes, ∀ n ∈ (s.graphAt g).nodes,
      some m ∈ (s.nodeAt n).ins ↔ some n ∈ (s.nodeAt m).outs) : s.IsDag g := by
  refine ⟨stored, fun n hn link hlink => ?_, outs, same, fun n hcycle => ?_⟩
  · obtain ⟨m, hm, heq, -⟩ := ins n hn link hlink
    exact ⟨m, hm, heq⟩
  · have hstep (m k : NodeId) (h : s.Feeds g m k) : m.index < k.index := by
      obtain ⟨m', -, heq, hlt⟩ := ins k h.2.1 _ h.2.2
      exact Option.some.inj heq ▸ hlt
    have hlt : n.index < n.index := by
      refine hcycle.trans_induction_on (motive := fun {m k} _ => m.index < k.index)
        (hstep _ _) fun _ _ => Nat.lt_trans
    exact Nat.lt_irrefl _ hlt

theorem wellFounded (hs : s.IsDag g) : WellFounded (s.Feeds g) := by
  have : IsStrictOrder NodeId (Relation.TransGen (s.Feeds g)) :=
    { irrefl := hs.acyclic, trans := fun _ _ _ => Relation.TransGen.trans }
  have hfin : {n | n ∈ (s.graphAt g).nodes}.Finite := (s.graphAt g).nodes.finite_toSet
  have hon := hfin.wellFoundedOn (r := Relation.TransGen (s.Feeds g))
  rw [Set.wellFoundedOn_iff] at hon
  refine Subrelation.wf ?_ hon
  intro m n h
  exact ⟨.single h, h.1, h.2.1⟩

end IsDag
end Store
end TypeFlow
