import TypeFlow.Proofs.Shape
import TypeFlow.Proofs.Simple

/-!
# Assignments of simple types

Graphs of known types, assignments, local symbols and merges. A node is up to date when its types
are those that flow into it, of which a merge takes the first of each class. One visit makes a node
up to date with its inputs, leaves the types of all other nodes, and reports no change if the node
was up to date (`visit_ends`).
-/

set_option synthInstance.maxSize 2000

namespace TypeFlow

open List

/-- Known types, assignments with one input, local symbols whose types are not fixed, with one
input at most, and merges. -/
def Node.IsAssignment (n : Node) : Prop :=
  match n.kind with
  | .known _ => n.ins = []
  | .operation info => info.op = "=" ∧ n.name = info.op ∧ ∃ m, n.ins = [some m]
  | .symbol info => info.scope = "local" ∧ n.tag ≠ 1 ∧ n.tag ≠ 4 ∧ n.ins.length ≤ 1
  | .merge _ => True
  | .base | .branch .. => False

theorem Node.IsAssignment.not_branch {n : Node} (h : n.IsAssignment) : n.kind.isBranch = false := by
  unfold Node.IsAssignment at h
  split at h <;> simp_all [NodeKind.isBranch]

theorem Node.IsAssignment.not_base {n : Node} (h : n.IsAssignment) : n.kind ≠ .base := by
  rintro hbase
  simp [Node.IsAssignment, hbase] at h

namespace Store

variable {s t u : Store} {g : GraphId} {m n : NodeId}

def typesOf (s : Store) (n : NodeId) : List Entry := s.rowAt (s.nodeAt n).types

/-- The types at the end of an edge. -/
def linkTypesOf (s : Store) : Link → List Entry
  | some m => s.typesOf m
  | none => []

/-- The types that flow into a node. -/
def inflow (s : Store) (n : NodeId) : List Entry := (s.nodeAt n).ins.flatMap s.linkTypesOf

/-- Append a type to a list without its class. -/
def joinNew (s : Store) (entries : List Entry) (e : Entry) : List Entry :=
  if s.classOf e ∈ entries.map s.classOf then entries else entries ++ [e]

/-- The first type of each class. -/
def joined (s : Store) (entries : List Entry) : List Entry := entries.foldl s.joinNew []

/-- The types that a node has when it is up to date with its inputs. -/
def outflow (s : Store) (n : NodeId) : List Entry :=
  match (s.nodeAt n).kind with
  | .known c => [.type c]
  | .merge _ => s.joined (s.inflow n)
  | _ => s.inflow n

/-- Graphs of assignments between simple types at which nothing is rejected. -/
structure IsAssignments (s : Store) (g : GraphId) : Prop where
  dag : s.IsDag g
  nodes : ∀ n ∈ (s.graphAt g).nodes, (s.nodeAt n).IsAssignment
  known : ∀ n ∈ (s.graphAt g).nodes, ∀ c, (s.nodeAt n).kind = .known c → s.typesOf n = [.type c]
  types_stored : ∀ n ∈ (s.graphAt g).nodes, (s.nodeAt n).types.index < s.rows.size
  types_simple : ∀ n ∈ (s.graphAt g).nodes, s.AllSimple (s.typesOf n)
  rejected_stored : ∀ n ∈ (s.graphAt g).nodes, (s.nodeAt n).rejected.index < s.rows.size
  rejected_empty : ∀ n ∈ (s.graphAt g).nodes, s.rowAt (s.nodeAt n).rejected = []

structure Visiting (s : Store) (n : NodeId) (t : Store) : Prop where
  old : s.Extends t
  marks : s.Alike Node.marks t
  others : ∀ m, m ≠ n → t.nodeAt m = s.nodeAt m
  rejected : (t.nodeAt n).rejected = (s.nodeAt n).rejected
  assignment : (s.nodeAt n).IsAssignment → (t.nodeAt n).IsAssignment
  known : ∀ c, (t.nodeAt n).kind = .known c ↔ (s.nodeAt n).kind = .known c
  merge : (∃ x, (t.nodeAt n).kind = .merge x) ↔ ∃ x, (s.nodeAt n).kind = .merge x

namespace Visiting

theorem refl (s : Store) (n : NodeId) : s.Visiting n s where
  old := .refl s
  marks := refl_of _ s
  others _ _ := rfl
  rejected := rfl
  assignment h := h
  known _ := Iff.rfl
  merge := Iff.rfl

theorem trans (h₁ : s.Visiting n t) (h₂ : t.Visiting n u) : s.Visiting n u where
  old := h₁.old.trans h₂.old
  marks := trans_of _ h₁.marks h₂.marks
  others m hm := (h₂.others m hm).trans (h₁.others m hm)
  rejected := h₂.rejected.trans h₁.rejected
  assignment := h₂.assignment ∘ h₁.assignment
  known c := (h₂.known c).trans (h₁.known c)
  merge := h₂.merge.trans h₁.merge

theorem of_nodes (h : s.Visiting n t) (hgrows : t.Grows u) (hold : s.Extends u) :
    s.Visiting n u := by
  have hnode (m : NodeId) : u.nodeAt m = t.nodeAt m := by rw [nodeAt, nodeAt, hgrows.nodes]
  exact ⟨hold, trans_of _ h.marks (.of_grows hgrows), fun m hm => by rw [hnode, h.others m hm],
    by rw [hnode, h.rejected], by rw [hnode]; exact h.assignment,
    fun c => by rw [hnode, h.known], by rw [hnode, h.merge]⟩

theorem of_grows (hgrows : s.Grows t) (h : s.Extends t) : s.Visiting n t :=
  (refl s n).of_nodes hgrows h

/-- Changes of a node that leave its marks and its rejected types as they are. -/
theorem modify (hn : n.index < s.nodes.size) {f : Node → Node}
    (hmarks : ∀ node, (f node).marks = node.marks)
    (hknown : ∀ c, (f (s.nodeAt n)).kind = .known c ↔ (s.nodeAt n).kind = .known c)
    (hmerge : (∃ x, (f (s.nodeAt n)).kind = .merge x) ↔ ∃ x, (s.nodeAt n).kind = .merge x)
    (hrejected : (f (s.nodeAt n)).rejected = (s.nodeAt n).rejected)
    (hassign : (s.nodeAt n).IsAssignment → (f (s.nodeAt n)).IsAssignment) :
    s.Visiting n { s with nodes := s.nodes.modify n.index f } := by
  have hnode : nodeAt { s with nodes := s.nodes.modify n.index f } n = f (s.nodeAt n) := by
    rw [nodeAt_modify hn, if_pos rfl]
  exact {
    old := .of_eq rfl rfl
    marks := .modify s n hmarks
    others := fun m hm => by rw [nodeAt_modify hn, if_neg hm]
    rejected := by rw [hnode, hrejected]
    assignment := by rwa [hnode]
    known := by rwa [hnode]
    merge := by rwa [hnode] }

end Visiting

/-! ### The first type of each class -/

theorem foldl_joinNew_subset (l acc : List Entry) : l.foldl s.joinNew acc ⊆ acc ++ l := by
  induction l generalizing acc with
  | nil => simp
  | cons e l ih =>
    intro x hx
    have := ih _ hx
    rw [joinNew] at this
    split at this
    · exact append_subset.mpr ⟨subset_append_left _ _, fun _ h =>
        mem_append_right _ (.tail _ h)⟩ this
    · rwa [append_assoc] at this

theorem joined_subset (s : Store) (l : List Entry) : s.joined l ⊆ l := by
  simpa [joined] using foldl_joinNew_subset l []

/-- Which type is the first of its class depends on classes only. -/
theorem joined_congr {l : List Entry} (h : ∀ e ∈ l, t.classOf e = s.classOf e) :
    t.joined l = s.joined l := by
  have hfold (acc : List Entry) (hacc : ∀ e ∈ acc, t.classOf e = s.classOf e) :
      l.foldl t.joinNew acc = l.foldl s.joinNew acc := by
    induction l generalizing acc with
    | nil => rfl
    | cons e l ih =>
      obtain ⟨he, hl⟩ := forall_mem_cons.mp h
      have hstep : t.joinNew acc e = s.joinNew acc e := by
        rw [joinNew, joinNew, he, map_congr_left hacc]
      rw [foldl_cons, foldl_cons, hstep]
      refine ih hl _ fun x hx => ?_
      rw [joinNew] at hx
      split at hx
      · exact hacc x hx
      · rcases mem_append.mp hx with hx | hx
        · exact hacc x hx
        · rw [mem_singleton.mp hx, he]
  exact hfold [] (by simp)

/-- The first types of each class have the classes of all, each of them once. -/
theorem classes_joined (s : Store) (l : List Entry) : ((s.joined l).map s.classOf).Nodup ∧
      ∀ c, c ∈ (s.joined l).map s.classOf ↔ c ∈ l.map s.classOf := by
  have hfold (acc : List Entry) (hacc : (acc.map s.classOf).Nodup) :
      ((l.foldl s.joinNew acc).map s.classOf).Nodup ∧
        ∀ c, c ∈ (l.foldl s.joinNew acc).map s.classOf ↔
          c ∈ acc.map s.classOf ∨ c ∈ l.map s.classOf := by
    induction l generalizing acc with
    | nil => simpa using hacc
    | cons e l ih =>
      have hstep : ((s.joinNew acc e).map s.classOf).Nodup ∧
          ∀ c, c ∈ (s.joinNew acc e).map s.classOf ↔
            c ∈ acc.map s.classOf ∨ c = s.classOf e := by
        rw [joinNew]
        split
        · rename_i hmem
          exact ⟨hacc, fun c => ⟨.inl, Or.rec (fun h => h) fun h => h ▸ hmem⟩⟩
        · rename_i hmem
          simp only [map_append, map_cons, map_nil, mem_append, mem_singleton]
          exact ⟨nodup_append.mpr ⟨hacc, by simp, by
            rintro a ha b hb rfl
            exact hmem (mem_singleton.mp hb ▸ ha)⟩, fun _ => trivial⟩
      obtain ⟨hnodup, hmem⟩ := ih _ hstep.1
      refine ⟨hnodup, fun c => ?_⟩
      rw [foldl_cons, hmem, hstep.2, map_cons, mem_cons, or_assoc]
  simpa [joined] using hfold [] (by simp)

/-! ### What a visit leaves -/

/-- What a visit of a node leaves: the node is up to date with its inputs. -/
structure Visited (s : Store) (n : NodeId) (t : Store) : Prop extends s.Visiting n t where
  stored : (t.nodeAt n).types.index < t.rows.size
  types : t.typesOf n = s.outflow n

namespace IsAssignments

section

variable (h : s.IsAssignments g)

include h

theorem inflow_simple (hn : n ∈ (s.graphAt g).nodes) : s.AllSimple (s.inflow n) := by
  intro e he
  obtain ⟨link, hlink, he⟩ := mem_flatMap.mp he
  obtain ⟨m, hm, rfl⟩ := h.dag.ins n hn link hlink
  exact h.types_simple m hm e he

theorem outflow_simple (hn : n ∈ (s.graphAt g).nodes) : s.AllSimple (s.outflow n) := by
  unfold outflow
  split
  · rename_i c hkind
    exact h.known n hn c hkind ▸ h.types_simple n hn
  · exact fun e he => h.inflow_simple hn e (s.joined_subset _ he)
  · exact h.inflow_simple hn

theorem typesOf_eq (hv : s.Visiting n t) (hm : m ∈ (s.graphAt g).nodes)
    (hne : m ≠ n) : t.typesOf m = s.typesOf m := by
  rw [typesOf, hv.others m hne, hv.old.rowAt_eq _ (h.types_stored m hm), typesOf]

/-- What flows out of a node stays the same when its inputs keep their types. -/
theorem outflow_eq (hv : s.Visiting n t) (hm : m ∈ (s.graphAt g).nodes)
    (hsame : ∀ k, some k ∈ (s.nodeAt m).ins → t.typesOf k = s.typesOf k) :
    t.outflow m = s.outflow m := by
  have hins := hv.marks.edges_of_marks.ins_eq m
  have hinflow : t.inflow m = s.inflow m := by
    rw [inflow, inflow, hins]
    refine flatMap_congr fun link hlink => ?_
    obtain ⟨k, hk, rfl⟩ := h.dag.ins m hm link hlink
    exact hsame k hlink
  have hjoined : t.joined (s.inflow m) = s.joined (s.inflow m) :=
    joined_congr fun e he => by
      have := (h.inflow_simple hm).map_classOf hv.old
      exact map_inj_left.mp this e he
  have hkind : (∀ c, (t.nodeAt m).kind = .known c ↔ (s.nodeAt m).kind = .known c) ∧
      ((∃ x, (t.nodeAt m).kind = .merge x) ↔ ∃ x, (s.nodeAt m).kind = .merge x) := by
    by_cases hmn : m = n
    · exact hmn ▸ ⟨hv.known, hv.merge⟩
    · simp [hv.others m hmn]
  unfold outflow
  rw [hinflow, hjoined]
  cases hs : (s.nodeAt m).kind <;> cases ht : (t.nodeAt m).kind <;> simp_all

theorem visited (hv : s.Visited n t) (hn : n ∈ (s.graphAt g).nodes) : t.IsAssignments g := by
  have hgraph := hv.marks.graphAt_eq g
  have hcases (P : NodeId → Prop) (hother : ∀ m ∈ (s.graphAt g).nodes, m ≠ n → P m) (hself : P n) :
      ∀ m ∈ (t.graphAt g).nodes, P m := by
    intro m hm
    by_cases hmn : m = n
    · exact hmn ▸ hself
    · exact hother m (hgraph ▸ hm) hmn
  refine ⟨h.dag.of_alike hv.marks.edges_of_marks, ?_, ?_, ?_, ?_, ?_, ?_⟩
  · exact hcases _ (fun m hm hne => hv.others m hne ▸ h.nodes m hm) (hv.assignment (h.nodes n hn))
  · refine hcases _ (fun m hm hne c hkind => ?_) fun c hkind => ?_
    · rw [h.typesOf_eq hv.toVisiting hm hne]
      exact h.known m hm c (hv.others m hne ▸ hkind)
    · rw [hv.types, outflow, (hv.known c).mp hkind]
  · refine hcases _ (fun m hm hne => ?_) hv.stored
    rw [hv.others m hne]
    exact Nat.lt_of_lt_of_le (h.types_stored m hm) hv.old.rows_le
  · refine hcases _ (fun m hm hne => ?_) ?_
    · rw [h.typesOf_eq hv.toVisiting hm hne]
      exact (h.types_simple m hm).extend hv.old
    · rw [hv.types]
      exact (h.outflow_simple hn).extend hv.old
  · refine hcases _ (fun m hm hne => ?_) ?_
    · rw [hv.others m hne]
      exact Nat.lt_of_lt_of_le (h.rejected_stored m hm) hv.old.rows_le
    · rw [hv.rejected]
      exact Nat.lt_of_lt_of_le (h.rejected_stored n hn) hv.old.rows_le
  · refine hcases _ (fun m hm hne => ?_) ?_
    · rw [hv.others m hne, hv.old.rowAt_eq _ (h.rejected_stored m hm), h.rejected_empty m hm]
    · rw [hv.rejected, hv.old.rowAt_eq _ (h.rejected_stored n hn), h.rejected_empty n hn]

end

end IsAssignments

end Store

namespace Eval

open Store

variable {s t : Store} {g : GraphId} {m n : NodeId} {info info' : OperationInfo}

/-! ### Visits -/

theorem setTag_ends (hn : n.index < s.nodes.size) : (setTag n 3).Ends s fun _ t =>
    s.Visiting n t ∧ t.types = s.types ∧ t.rows = s.rows ∧
      t.nodeAt n = { s.nodeAt n with tag := 3 } := by
  refine .of_eq rfl ⟨.modify hn (fun _ => rfl) (fun _ => .rfl) .rfl rfl fun h => ?_, rfl, rfl, ?_⟩
  · unfold Node.IsAssignment at h ⊢
    dsimp only
    split at h <;> simp_all
  · rw [nodeAt_modify hn, if_pos rfl]

theorem setTypes_ends (hn : n.index < s.nodes.size) (entries : List Entry) :
    (setTypes n entries).Ends s fun _ t => s.Visiting n t ∧
      (t.nodeAt n).types = ⟨s.rows.size⟩ ∧ s.rows.size < t.rows.size ∧ t.typesOf n = entries := by
  have hpush := Extends.pushRow s entries
  have hgrows : s.Grows { s with rows := s.rows.push entries } :=
    ⟨rfl, rfl, hpush.types_le, hpush.rows_le⟩
  refine .step (newRow_run entries s) ?_
  generalize hs₁ : ({ s with rows := s.rows.push entries } : Store) = s₁ at hpush hgrows ⊢
  have hn₁ : n.index < s₁.nodes.size := hgrows.nodes ▸ hn
  have hrow : s₁.rowAt ⟨s.rows.size⟩ = entries := by rw [← hs₁, rowAt_push, if_pos rfl]
  have hlt : s.rows.size < s₁.rows.size := by simp [← hs₁]
  have hmodify := Visiting.modify hn₁ (f := fun node => { node with types := ⟨s.rows.size⟩ })
    (fun _ => rfl) (fun _ => .rfl) .rfl rfl id
  have hnode := nodeAt_modify hn₁ (fun node => { node with types := ⟨s.rows.size⟩ }) n
  rw [if_pos rfl] at hnode
  refine .of_eq (modifyNode_apply ..)
    ⟨(Visiting.of_grows hgrows hpush).trans hmodify, congrArg Node.types hnode, hlt, ?_⟩
  simp only [Store.typesOf, hnode]
  exact hrow

theorem typesRow_run (h : (s.nodeAt m).IsAssignment) :
    (typesRow m).run s = .ok (s.nodeAt m).types s := by
  rw [typesRow, Typing.run_bind, bind_of_ok (node_run m s)]
  split
  · exact absurd ‹_› h.not_base
  · rfl

theorem flowRow_run (h : (s.nodeAt m).IsAssignment) (n : NodeId) :
    (flowRow m n).run s = .ok (s.nodeAt m).types s := by
  rw [flowRow, Typing.run_bind, bind_of_ok (node_run m s), h.not_branch]
  exact typesRow_run h

/-- A symbol takes over the types of its input. -/
theorem visitInput_ends (h : s.IsAssignments g) (hn : n ∈ (s.graphAt g).nodes)
    (hm : m ∈ (s.graphAt g).nodes) (hne : m ≠ n) (hout : s.outflow n = s.typesOf m)
    (hready : s.typesOf n = [] ∨ s.typesOf n = s.outflow n) :
    (visitInput m n).Ends s fun changed t =>
      s.Visited n t ∧ (s.typesOf n = s.outflow n → changed = false) := by
  have hstored := h.dag.stored n hn
  obtain ⟨⟨⟩, s₁, htag, hv₁, htypes₁, hrows₁, hnode₁⟩ := setTag_ends hstored
  have hm₁ : s₁.nodeAt m = s.nodeAt m := hv₁.others m hne
  have hrow (r : RowId) : s₁.rowAt r = s.rowAt r := by rw [rowAt, rowAt, hrows₁]
  have hsame : (identicalRows (s.nodeAt m).types (s₁.nodeAt n).types).run s₁ =
      .ok (decide (s₁.SameClasses (s.typesOf m) (s.typesOf n))) s₁ := by
    rw [hnode₁]
    have := identicalRows_run (s := s₁) (l := (s.nodeAt m).types) (r := (s.nodeAt n).types)
    rw [hrow, hrow] at this
    exact this ((h.types_simple m hm).extend hv₁.old) ((h.types_simple n hn).extend hv₁.old)
  refine .step htag (.step ((flowRow_run (hm₁ ▸ h.nodes m hm) n).trans (by rw [hm₁]))
    (.step (node_run n s₁) (.step hsame ?_)))
  by_cases hclasses : s₁.SameClasses (s.typesOf m) (s.typesOf n)
  · simp only [hclasses, decide_true, if_true]
    refine .of_eq rfl ⟨⟨hv₁, ?_, ?_⟩, fun _ => rfl⟩
    · rw [hnode₁, hrows₁]
      exact h.types_stored n hn
    · have htypes : s₁.typesOf n = s.typesOf n := by
        simp only [Store.typesOf, hnode₁, hrow]
      rw [htypes]
      rcases hready with hempty | hready
      · -- Types of the input would have classes that an empty list has not.
        rw [hempty] at hclasses ⊢
        have := map_eq_nil_iff.mp (subset_nil.mp hclasses.1)
        rw [hout, this]
      · exact hready
  · simp only [hclasses, decide_false, Bool.false_eq_true, if_false]
    refine .step (row_run _ s₁) ?_
    rw [hrow]
    obtain ⟨⟨⟩, t, hset, hv₂, hrow₂, hlt, htypes⟩ :=
      setTypes_ends (s := s₁) (n := n) (hv₁.marks.size_eq ▸ hstored) (s.rowAt (s.nodeAt m).types)
    refine .step hset (.of_eq rfl ⟨⟨hv₁.trans hv₂, by rwa [hrow₂], htypes.trans hout.symm⟩, ?_⟩)
    intro hupdate
    rw [hupdate, hout] at hclasses
    exact absurd ⟨fun _ => id, fun _ => id⟩ hclasses

theorem fillGlobal_run {info : SymbolInfo} (hscope : info.scope = "local") (purpose : Purpose)
    (role : GraphRole) (s : Store) : fillGlobal purpose role n info s = .ok () s := by
  have hglobal : ¬ (info.scope = "global" ∧ (s.rowAt (s.nodeAt n).types).isEmpty = true) := by
    simp [hscope]
  rw [fillGlobal, liftM_eq_run, bind_of_ok (node_run n s), liftM_eq_run, bind_of_ok (row_run _ s)]
  split
  · rw [if_neg hglobal]
    rfl
  · rfl

theorem visitSymbol_ends (h : s.IsAssignments g) (hn : n ∈ (s.graphAt g).nodes)
    {info : SymbolInfo} (hkind : (s.nodeAt n).kind = .symbol info)
    (hready : s.typesOf n = [] ∨ s.typesOf n = s.outflow n) (role : GraphRole)
    (conflicts : Conflicts) :
    (visitSymbol .pass role n info conflicts).Ends s fun v t =>
      s.Visited n t ∧ (s.typesOf n = s.outflow n → v.changed = false) := by
  have hassign := h.nodes n hn
  simp only [Node.IsAssignment, hkind] at hassign
  obtain ⟨hscope, htag₁, htag₄, hlen⟩ := hassign
  have hout : s.outflow n = s.inflow n := by simp [outflow, hkind]
  refine .step (node_run n s) ?_
  cases hins : (s.nodeAt n).ins with
  | nil =>
    have hempty : s.outflow n = [] := by simp [hout, inflow, hins]
    refine .step (fillGlobal_run hscope _ _ s) (.of_eq rfl ⟨⟨.refl s n, ?_, ?_⟩, fun _ => rfl⟩)
    · exact h.types_stored n hn
    · rcases hready with hready | hready
      · rw [hready, hempty]
      · exact hready
  | cons link rest =>
    obtain ⟨m, hm, rfl⟩ := h.dag.ins n hn link (hins ▸ .head _)
    obtain rfl : rest = [] := by simpa [hins] using hlen
    have hne : m ≠ n := h.dag.ne_of_ins hn (hins ▸ .head _)
    have hout' : s.outflow n = s.typesOf m := by simp [hout, inflow, hins, linkTypesOf]
    refine .step (fillGlobal_run hscope _ _ s) (.step rfl ?_)
    simp only [htag₁, htag₄, ne_eq, not_false_eq_true, and_self, if_true]
    obtain ⟨changed, t, hrun, hv⟩ := visitInput_ends h hn hm hne hout' hready
    exact .step hrun (.of_eq rfl hv)

/-- The verdict of an assignment: the types of its input, as they are. -/
theorem verdictOn_run (h : (s.nodeAt m).IsAssignment) (hop : info.op = "=") (source : Node)
    (users : Option (List Document)) :
    (verdictOn source info [.node m] users false).run s =
      .ok ⟨[[]], .row (s.nodeAt m).types⟩ s := by
  have hrow : (Operand.row (.node m)).run s = .ok (s.nodeAt m).types s := typesRow_run h
  obtain ⟨op, func, attr, splitIndex, rejectedInputs⟩ := info
  obtain rfl : op = "=" := hop
  have hrule : (Rule.assignment (.node m)).run s =
      .ok (some ⟨[[]], .row (s.nodeAt m).types⟩) s := bind_of_ok hrow _
  exact (bind_of_ok hrule fun v => (require v .wrongKind).run)

/-- Keeping a verdict that shares the row of an input. -/
theorem keepVerdict_ends (hn : n.index < s.nodes.size) (hkind : (s.nodeAt n).kind = .operation info)
    (hop : info'.op = info.op) (r : RowId) :
    (keepVerdict n info' ⟨[[]], .row r⟩).Ends s fun _ t => s.Visiting n t ∧
      (t.nodeAt n).types = r ∧ ∃ info, (t.nodeAt n).kind = .operation info := by
  have hfirst := Extends.pushRow s []
  have hpush := hfirst.trans (Extends.pushRow _ [.group ⟨s.rows.size⟩])
  have hgrows : s.Grows { s with rows := (s.rows.push []).push [.group ⟨s.rows.size⟩] } :=
    ⟨rfl, rfl, hpush.types_le, hpush.rows_le⟩
  refine .step (t := { s with rows := s.rows.push [] }) (a := [.group ⟨s.rows.size⟩]) rfl
    (.step (newRow_run ..) (.step rfl ?_))
  generalize ({ s with rows := (s.rows.push []).push [.group ⟨s.rows.size⟩] } : Store) = s₁
    at hpush hgrows ⊢
  have hn₁ : n.index < s₁.nodes.size := hgrows.nodes ▸ hn
  have hnode₁ : s₁.nodeAt n = s.nodeAt n := by rw [nodeAt, nodeAt, hgrows.nodes]
  have hnode := nodeAt_modify hn₁ (fun node => { node with
    kind := .operation { info' with rejectedInputs := ⟨(s.rows.push []).size⟩ }, types := r }) n
  rw [if_pos rfl] at hnode
  refine .of_eq (modifyNode_apply ..) ⟨(Visiting.of_grows hgrows hpush).trans ?_,
    congrArg Node.types hnode, _, congrArg Node.kind hnode⟩
  refine .modify hn₁ (fun _ => rfl) (fun c => ?_) ?_ rfl fun h => ?_
  · simp [hnode₁, hkind]
  · simp [hnode₁, hkind]
  · simp only [Node.IsAssignment, hnode₁, hkind, hop] at h ⊢
    exact h

theorem operationAt_run (hkind : (s.nodeAt n).kind = .operation info) :
    (operationAt n).run s = .ok info s := by
  rw [operationAt, Typing.run_bind, bind_of_ok (node_run n s), hkind]
  rfl

theorem noteVerdict_run (h : (s.nodeAt m).IsAssignment)
    (hkind : (s.nodeAt n).kind = .operation info) (hins : (s.nodeAt n).ins = [some m])
    (hop : info'.op = "=") {source : Node} (hsource : source.ins = [some m]) (outs : Outs) :
    (noteVerdict n source info' ⟨[[]], outs⟩).run s = .ok true s := by
  obtain ⟨op, func, attr, splitIndex, rejectedInputs⟩ := info'
  obtain rfl : op = "=" := hop
  have htypes : (linkTypes (some m)).run s = .ok (s.typesOf m) s := bind_of_ok (typesRow_run h) _
  have htyped : (inputsTyped n).run s = .ok (!(s.typesOf m).isEmpty) s := by
    rw [inputsTyped, Typing.run_bind, bind_of_ok (operationAt_run hkind), Typing.run_bind,
      bind_of_ok (node_run n s), hins, allTyped, Typing.run_bind, bind_of_ok htypes]
    cases (s.typesOf m).isEmpty <;> rfl
  simp only [noteVerdict, hsource]
  rw [if_neg (by decide), if_neg (by simp), Typing.run_bind, bind_of_ok htyped]
  cases (s.typesOf m).isEmpty <;> rfl

/-- Evaluating an assignment makes it share the types of its input. -/
theorem perform_ends (hn : n.index < s.nodes.size) (hne : m ≠ n) (hm : (s.nodeAt m).IsAssignment)
    (hkind : (s.nodeAt n).kind = .operation info) (hop : info.op = "=")
    (hins : (s.nodeAt n).ins = [some m]) (users : Option (List Document)) :
    (perform n users).Ends s fun _ t =>
      s.Visiting n t ∧ (t.nodeAt n).types = (s.nodeAt m).types := by
  obtain ⟨⟨⟩, t, hkeep, hv, htypes, info', hkind'⟩ :=
    keepVerdict_ends hn hkind rfl (s.nodeAt m).types
  have hm' : (t.nodeAt m).IsAssignment := hv.others m hne ▸ hm
  have hins' : (t.nodeAt n).ins = [some m] := (hv.marks.edges_of_marks.ins_eq n).trans hins
  have hoperands : operandsOf (s.nodeAt n) = [.node m] := by
    rw [operandsOf, hins]
    rfl
  refine .step (node_run n s) ?_
  rw [hoperands]
  refine .step (operationAt_run hkind) (.step (node_run n s) (.step
    (verdictOn_run hm hop _ users) (.step hkeep ⟨true, t, ?_, hv, htypes⟩)))
  exact noteVerdict_run hm' hkind' hins' hop hins _

/-- The types of a node are copied before it is evaluated. -/
theorem copyTypes_ok (h : s.IsAssignments g) (hn : n ∈ (s.graphAt g).nodes) :
    ∃ s₁ before s₂, setTag n 3 s = .ok () s₁ ∧
      (copyContents (s₁.nodeAt n).types).run s₁ = .ok before s₂ ∧ s.Visiting n s₂ ∧
      s₂.nodeAt n = { s.nodeAt n with tag := 3 } ∧ before.index < s₂.rows.size ∧
      s₂.AllSimple (s₂.rowAt before) ∧
      (s₂.rowAt before).map s₂.classOf = (s.typesOf n).map s.classOf := by
  obtain ⟨⟨⟩, s₁, htag, hv₁, htypes₁, hrows₁, hnode₁⟩ := setTag_ends (h.dag.stored n hn)
  have htypesOf₁ : s₁.rowAt (s₁.nodeAt n).types = s.typesOf n := by
    simp only [Store.typesOf, hnode₁, rowAt, hrows₁]
  have hsimple := h.types_simple n hn
  obtain ⟨before, s₂, hcopy, hold₂, hbefore, hsimple₂, hclass₂⟩ := copyContents_ends
    (by rw [hnode₁, hrows₁]; exact h.types_stored n hn) (htypesOf₁ ▸ hsimple.extend hv₁.old)
  rw [htypesOf₁, hsimple.map_classOf hv₁.old] at hclass₂
  refine ⟨s₁, before, s₂, htag, hcopy, hv₁.trans (.of_grows (grows_of_ok hcopy) hold₂), ?_,
    hbefore, hsimple₂, hclass₂⟩
  rw [nodeAt, (grows_of_ok hcopy).nodes, ← nodeAt, hnode₁]

/-- An assignment shares the types of its input. -/
theorem visitOperation_ends (h : s.IsAssignments g) (hn : n ∈ (s.graphAt g).nodes)
    (hkind : (s.nodeAt n).kind = .operation info) (users : List Document) :
    (visitOperation users n info).Ends s fun changed t =>
      s.Visited n t ∧ (s.typesOf n = s.outflow n → changed = false) := by
  have hassign := h.nodes n hn
  simp only [Node.IsAssignment, hkind] at hassign
  obtain ⟨hop, -, m, hins⟩ := hassign
  have hm : m ∈ (s.graphAt g).nodes := h.dag.mem_of_ins hn (hins ▸ .head _)
  have hne : m ≠ n := h.dag.ne_of_ins hn (hins ▸ .head _)
  have hout : s.outflow n = s.typesOf m := by
    simp [outflow, hkind, inflow, hins, linkTypesOf]
  obtain ⟨s₁, before, s₂, htag, hcopy, hv₂, hnode₂, hbefore, hsimple₂, hclass₂⟩ :=
    copyTypes_ok h hn
  have hm₂ : s₂.nodeAt m = s.nodeAt m := hv₂.others m hne
  have hkind₂ : (s₂.nodeAt n).kind = .operation info := by rw [hnode₂, hkind]
  obtain ⟨_, s₃, hperform, hv₃, htypes₃⟩ := perform_ends (hv₂.marks.size_eq ▸ h.dag.stored n hn)
    hne (hm₂ ▸ h.nodes m hm) hkind₂ hop ((hv₂.marks.edges_of_marks.ins_eq n).trans hins)
    (some users)
  rw [hm₂] at htypes₃
  have hv : s.Visiting n s₃ := hv₂.trans hv₃
  refine .step htag (.step (node_run n s₁) (.step hcopy ?_))
  rw [if_neg (by rw [hop]; decide), show traversals.contains info.op = false by rw [hop]; decide]
  have htypes : s₃.rowAt (s₃.nodeAt n).types = s.outflow n := by
    rw [htypes₃, hv.old.rowAt_eq _ (h.types_stored m hm), hout, Store.typesOf]
  obtain ⟨same, hsame, hsame_true⟩ := identicalRows_copy hv.old hbefore hsimple₂ hclass₂ hv₃.old
    (htypes ▸ h.outflow_simple hn)
  refine .step hperform (.step (node_run n s₃) (.step hsame (.of_eq rfl ⟨⟨hv, ?_, htypes⟩, ?_⟩)))
  · rw [htypes₃]
    exact Nat.lt_of_lt_of_le (h.types_stored m hm) hv.old.rows_le
  · intro hupdate
    rw [hsame_true (hupdate.trans htypes.symm), Bool.not_true]

/-- What holds while the types of a merge are joined in the row `k`; `acc` are those so far. The
store `s` is that before the visit, `b` that before the row was made. -/
structure Joining (s b : Store) (n : NodeId) (nodes : Array Node) (k : RowId) (acc : List Entry)
    (u : Store) : Prop where
  first : s.Extends b
  later : b.Extends u
  nodes : u.nodes = nodes
  types : (u.nodeAt n).types = k
  fresh : b.rows.size ≤ k.index
  stored : k.index < u.rows.size
  row : u.rowAt k = acc
  simple : s.AllSimple acc

namespace Joining

variable {b u : Store} {nodes : Array Node} {k : RowId} {acc : List Entry}

section

variable (h : Joining s b n nodes k acc u)

include h

theorem old : s.Extends u := h.first.trans h.later

theorem joinType_ends {e : Entry} (he : s.AllSimple [e]) :
    (joinType n e).run.Ends u fun _ w => Joining s b n nodes k (s.joinNew acc e) w := by
  have hclass : u.classOf e = s.classOf e := by simpa using he.map_classOf h.old
  have hexists : (existSame e (u.rowAt k)).run u =
      .ok (decide (s.classOf e ∈ acc.map s.classOf)) u := by
    rw [existSame_run (he.extend h.old) (h.row ▸ h.simple.extend h.old), h.row, hclass,
      h.simple.map_classOf h.old]
  rw [joinType]
  refine .step (node_run n u) ?_
  dsimp only
  rw [h.types]
  refine .step (row_run k u) (.step hexists ?_)
  rw [joinNew]
  by_cases hmem : s.classOf e ∈ acc.map s.classOf
  · simp only [hmem, decide_true, Bool.not_true, Bool.false_eq_true, if_false, if_true]
    exact .of_eq rfl h
  · simp only [hmem, decide_false, Bool.not_false, if_true, if_false]
    refine .of_eq rfl { h with
      later := h.later.modifyRow h.fresh _
      stored := by simpa using h.stored
      row := by rw [rowAt_modify, if_pos ⟨rfl, h.stored⟩, h.row]
      simple := ?_ }
    intro x hx
    rcases mem_append.mp hx with hx | hx
    · exact h.simple x hx
    · exact he x hx

theorem forM_ends {entries : List Entry}
    (hentries : s.AllSimple entries) :
    (entries.forM (joinType n)).run.Ends u fun _ w =>
      Joining s b n nodes k (entries.foldl s.joinNew acc) w := by
  induction entries generalizing acc u with
  | nil => exact .of_eq rfl h
  | cons e rest ih =>
    obtain ⟨he, hrest⟩ := forall_mem_cons.mp hentries
    exact (h.joinType_ends (by simpa [AllSimple] using he)).bind fun _ w hw => ih hw hrest

end

/-- Inputs of a merge are joined one after the other. -/
theorem joinInputs_ends (hjoin : Joining s b n nodes k acc u) {links : List Link}
    (hlinks : ∀ link ∈ links, ∃ m, link = some m ∧ (u.nodeAt m) = s.nodeAt m ∧
      (s.nodeAt m).IsAssignment ∧ (s.nodeAt m).types.index < s.rows.size ∧
      s.AllSimple (s.typesOf m)) :
    (links.forM (joinInput n)).run.Ends u fun _ w =>
      Joining s b n nodes k ((links.flatMap s.linkTypesOf).foldl s.joinNew acc) w := by
  induction links generalizing acc u with
  | nil => exact .of_eq rfl hjoin
  | cons link rest ih =>
    obtain ⟨⟨m, rfl, hm, hassign, hstored, hsimple⟩, hrest⟩ := forall_mem_cons.mp hlinks
    have hflow := flowRow_run (s := u) (m := m) (by rwa [hm]) n
    have hinput : (joinInput n (some m)).run.Ends u fun _ w =>
        Joining s b n nodes k ((s.typesOf m).foldl s.joinNew acc) w := by
      refine .step rfl (.step hflow (.step (row_run _ u) ?_))
      rw [hm, hjoin.old.rowAt_eq _ hstored]
      exact hjoin.forM_ends hsimple
    rw [flatMap_cons, foldl_append]
    refine hinput.bind fun _ w hw => ih hw fun link hlink => ?_
    obtain ⟨m', rfl, hm', hfacts⟩ := hrest link hlink
    refine ⟨m', rfl, ?_, hfacts⟩
    rw [nodeAt, hw.nodes, ← hjoin.nodes, ← nodeAt, hm']

end Joining

/-- A merge joins the types of its inputs. -/
theorem visitMerge_ends (h : s.IsAssignments g) (hn : n ∈ (s.graphAt g).nodes) {x : String}
    (hkind : (s.nodeAt n).kind = .merge x) :
    (visitMerge n).Ends s fun changed t =>
      s.Visited n t ∧ (s.typesOf n = s.outflow n → changed = false) := by
  obtain ⟨s₁, before, s₂, htag, hcopy, hv₂, hnode₂, hbefore, hsimple₂, hclass₂⟩ :=
    copyTypes_ok h hn
  obtain ⟨⟨⟩, s₃, hset, hv₃, hrow₃, hlt₃, htypes₃⟩ :=
    setTypes_ends (s := s₂) (n := n) (hv₂.marks.size_eq ▸ h.dag.stored n hn) []
  have hv := hv₂.trans hv₃
  have hjoining : Joining s s₂ n s₃.nodes ⟨s₂.rows.size⟩ [] s₃ := {
    first := hv₂.old
    later := hv₃.old
    nodes := rfl
    types := hrow₃
    fresh := Nat.le_refl _
    stored := hlt₃
    row := hrow₃ ▸ htypes₃
    simple := by simp [AllSimple] }
  have hlinks : ∀ link ∈ (s.nodeAt n).ins, ∃ m, link = some m ∧ (s₃.nodeAt m) = s.nodeAt m ∧
      (s.nodeAt m).IsAssignment ∧ (s.nodeAt m).types.index < s.rows.size ∧
      s.AllSimple (s.typesOf m) := by
    intro link hlink
    obtain ⟨m, hm, rfl⟩ := h.dag.ins n hn link hlink
    exact ⟨m, rfl, hv.others m (h.dag.ne_of_ins hn hlink), h.nodes m hm, h.types_stored m hm,
      h.types_simple m hm⟩
  obtain ⟨⟨⟩, t, hjoin, ht⟩ := hjoining.joinInputs_ends hlinks
  have hinputs : (joinInputs n).run s₃ = .ok () t := by
    rw [joinInputs, Typing.run_bind, bind_of_ok (node_run n s₃), hv.marks.edges_of_marks.ins_eq]
    exact hjoin
  have htypes : t.rowAt (t.nodeAt n).types = s.outflow n := by
    rw [ht.types, ht.row]
    simp only [outflow, hkind, Store.joined, inflow]
  obtain ⟨same, hsame, hsame_true⟩ := identicalRows_copy ht.old hbefore hsimple₂ hclass₂ ht.later
    (htypes ▸ h.outflow_simple hn)
  refine .step htag (.step (node_run n s₁) (.step hcopy (.step hset (.step hinputs
    (.step (node_run n t) (.step hsame (.of_eq rfl ⟨⟨?_, ?_, htypes⟩, ?_⟩)))))))
  · exact hv.of_nodes (grows_of_ok hinputs) ht.old
  · rw [ht.types]
    exact ht.stored
  · intro hupdate
    rw [hsame_true (hupdate.trans htypes.symm), Bool.not_true]

/-- A visit makes a node up to date, and it reports no change if the node was. -/
theorem visit_ends (h : s.IsAssignments g) (hn : n ∈ (s.graphAt g).nodes)
    (hready : ∀ info, (s.nodeAt n).kind = .symbol info →
      s.typesOf n = [] ∨ s.typesOf n = s.outflow n) (conflicts : Conflicts) :
    (visit .pass g n conflicts).Ends s fun v t =>
      s.Visited n t ∧ (s.typesOf n = s.outflow n → v.changed = false) := by
  have hassign := h.nodes n hn
  refine .step (graph_run g s) (.step (node_run n s) ?_)
  cases hkind : (s.nodeAt n).kind with
  | symbol info => exact visitSymbol_ends h hn hkind (hready info hkind) _ conflicts
  | operation info =>
    obtain ⟨changed, t, hrun, ht⟩ := visitOperation_ends h hn hkind (s.graphAt g).userNames
    exact .step hrun (.of_eq rfl ht)
  | known c =>
    obtain ⟨⟨⟩, t, htag, hv, -, hrows, hnode⟩ := setTag_ends (h.dag.stored n hn)
    refine .step htag (.of_eq rfl ⟨⟨hv, ?_, ?_⟩, fun _ => rfl⟩)
    · rw [hnode, hrows]
      exact h.types_stored n hn
    · have hknown := h.known n hn c hkind
      simp only [Store.typesOf, rowAt, hnode, hrows, outflow, hkind] at hknown ⊢
      exact hknown
  | merge x =>
    obtain ⟨changed, t, hrun, ht⟩ := visitMerge_ends h hn hkind
    exact .step hrun (.of_eq rfl ht)
  | branch var outTypes => simp [Node.IsAssignment, hkind] at hassign
  | base => simp [Node.IsAssignment, hkind] at hassign

end Eval

end TypeFlow
