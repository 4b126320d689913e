import Mathlib.Logic.Relation
import TypeFlow.Proofs.Dataflow
import TypeFlow.Proofs.Locals

/-!
# Definitions that are carried to a node

Occurrences, merges and branches carry the definitions of a variable from the nodes they take as
inputs; a definition is an argument or a write. While a function is read, the nodes that carry
definitions stay as they are once they are made, so what they carry does not change.
-/

namespace TypeFlow

open Relation NodeKind

namespace NodeKind

variable {k k' : NodeKind}

/-- Nodes that hand on the definitions of a variable. -/
def carries : NodeKind → Bool
  | .symbol _ | .merge _ | .branch .. => true
  | _ => false

/-- Definitions of a variable: its argument and its writes. -/
def defines : NodeKind → Bool
  | .symbol info => info.context = "Arg" || info.context = "Write"
  | _ => false

/-- Occurrences that stand in the program: definitions, and reads that no branch added. -/
def isOccurrence : NodeKind → Bool
  | .symbol info => info.context = "Arg" || info.context = "Write" ||
      (info.context = "Read" && !info.extra)
  | _ => false

/-- A node marks an event if it is an occurrence of the variable with that role. -/
def Marks : NodeKind → Event → Prop
  | .symbol info, .read v => info.symbol = v ∧ info.context = "Read" ∧ info.extra = false
  | .symbol info, .define v =>
    (info.symbol = v ∧ info.context = "Write") ∨ (info.symbol = v ++ "(arg)" ∧ info.context = "Arg")
  | _, _ => False

theorem Marks.isOccurrence {e : Event} (h : k.Marks e) : k.isOccurrence = true := by
  cases k <;> cases e <;> simp_all [Marks, isOccurrence]
  grind

theorem carries_congr (h : k.name = k'.name) : k.carries = k'.carries := by
  cases k <;> cases k' <;> simp_all [name, carries]

theorem isOperation_congr (h : k.name = k'.name) : k.operation?.isSome = k'.operation?.isSome := by
  cases k <;> cases k' <;> simp_all [name, operation?]

theorem carries_of_isOccurrence (h : k.isOccurrence = true) : k.carries = true := by
  cases k <;> simp_all [isOccurrence, carries]

end NodeKind

namespace Web

variable {W W' W'' : Web} {n m d : NodeId}

/-- A node takes definitions from one of its inputs. -/
def Back (W : Web) (n m : NodeId) : Prop :=
  some m ∈ (W.node n).ins ∧ (W.node m).kind.carries = true

def defs (W : Web) (n : NodeId) : Set NodeId :=
  {d | ReflTransGen W.Back n d ∧ (W.node d).kind.defines = true}

theorem mem_defs_iff : d ∈ W.defs n ↔
    (d = n ∧ (W.node n).kind.defines = true) ∨ ∃ m, W.Back n m ∧ d ∈ W.defs m := by
  constructor
  · rintro ⟨hpath, hd⟩
    rcases hpath.cases_head with rfl | ⟨m, hm, hpath⟩
    · exact .inl ⟨rfl, hd⟩
    · exact .inr ⟨m, hm, hpath, hd⟩
  · rintro (⟨rfl, hd⟩ | ⟨m, hm, hpath, hd⟩)
    · exact ⟨.refl, hd⟩
    · exact ⟨.head hm hpath, hd⟩

/-- What is carried to the nodes of a closed part depends only on that part. -/
theorem defs_congr {S : NodeId → Prop} (hback : ∀ m p, S m → (W'.Back m p ↔ W.Back m p))
    (hclosed : ∀ m p, S m → W.Back m p → S p)
    (hdefines : ∀ m, S m → (W'.node m).kind.defines = (W.node m).kind.defines) (hn : S n) :
    W'.defs n = W.defs n := by
  have hreach {d : NodeId} (hp : ReflTransGen W.Back n d) : S d := by
    induction hp with
    | refl => exact hn
    | tail _ hb ih => exact hclosed _ _ ih hb
  have hpath (d : NodeId) : ReflTransGen W'.Back n d ↔ ReflTransGen W.Back n d := by
    constructor <;> intro hp
    · induction hp with
      | refl => exact .refl
      | tail _ hb ih => exact ih.tail ((hback _ _ (hreach ih)).mp hb)
    · induction hp with
      | refl => exact .refl
      | tail hp hb ih => exact ih.tail ((hback _ _ (hreach hp)).mpr hb)
  ext d
  simp only [defs, Set.mem_ofPred_eq, hpath]
  exact and_congr_right fun hp => by rw [hdefines d (hreach hp)]

theorem defs_of_same (hkind : ∀ m, (W'.node m).kind = (W.node m).kind)
    (hins : ∀ m, (W'.node m).ins = (W.node m).ins) (n : NodeId) : W'.defs n = W.defs n := by
  refine defs_congr (S := fun _ => True) (fun m p _ => ?_) (fun _ _ _ _ => trivial)
    (fun m _ => by rw [hkind]) trivial
  unfold Back
  rw [hins, hkind]

/-- All inputs are nodes of the web. -/
def Closed (W : Web) : Prop :=
  ∀ n, n.index < W.size → ∀ link ∈ (W.node n).ins, ∃ m, link = some m ∧ m.index < W.size

/-- Nodes that carry definitions stay as they are, and no node becomes one of another kind. -/
structure Extends (W W' : Web) : Prop where
  size_le : W.size ≤ W'.size
  kind_eq : ∀ n, n.index < W.size → (W.node n).kind.carries = true →
    (W'.node n).kind = (W.node n).kind
  ins_eq : ∀ n, n.index < W.size → (W.node n).kind.carries = true →
    (W'.node n).ins = (W.node n).ins
  name_eq : ∀ n, n.index < W.size → (W'.node n).kind.name = (W.node n).kind.name

namespace Extends

theorem refl (W : Web) : W.Extends W :=
  ⟨le_rfl, fun _ _ _ => rfl, fun _ _ _ => rfl, fun _ _ => rfl⟩

section

variable (h : W.Extends W')

include h

theorem trans (h' : W'.Extends W'') : W.Extends W'' where
  size_le := h.size_le.trans h'.size_le
  kind_eq n hn hc := by
    have hk := h.kind_eq n hn hc
    rw [h'.kind_eq n (hn.trans_le h.size_le) (hk ▸ hc), hk]
  ins_eq n hn hc := by
    rw [h'.ins_eq n (hn.trans_le h.size_le) (h.kind_eq n hn hc ▸ hc), h.ins_eq n hn hc]
  name_eq n hn := (h'.name_eq n (hn.trans_le h.size_le)).trans (h.name_eq n hn)

theorem enter (g : GraphId) (n : NodeId) : W.Extends (W'.enter g n) :=
  ⟨h.size_le, h.kind_eq, h.ins_eq, h.name_eq⟩

theorem carries_eq (hn : n.index < W.size) : (W'.node n).kind.carries = (W.node n).kind.carries :=
  carries_congr (h.name_eq n hn)

theorem isOccurrence_eq (hn : n.index < W.size) :
    (W'.node n).kind.isOccurrence = (W.node n).kind.isOccurrence := by
  cases hc : (W.node n).kind.carries with
  | true => rw [h.kind_eq n hn hc]
  | false =>
    have hno {k : NodeKind} (hk : k.carries = false) : k.isOccurrence = false := by
      cases hb : k.isOccurrence with
      | false => rfl
      | true => exact absurd (carries_of_isOccurrence hb) (by simp [hk])
    rw [hno hc, hno ((h.carries_eq hn).trans hc)]

theorem back_iff (hW : W.Closed) (hn : n.index < W.size)
    (hc : (W.node n).kind.carries = true) : W'.Back n m ↔ W.Back n m := by
  unfold Back
  rw [h.ins_eq n hn hc]
  refine and_congr_right fun hm => ?_
  obtain ⟨m', hm', hlt⟩ := hW n hn _ hm
  obtain rfl := Option.some.inj hm'
  rw [h.carries_eq hlt]

/-- What is carried to a node does not change. -/
theorem defs_eq (hW : W.Closed) (hn : n.index < W.size)
    (hc : (W.node n).kind.carries = true) : W'.defs n = W.defs n := by
  refine defs_congr (S := fun m => m.index < W.size ∧ (W.node m).kind.carries = true) ?_ ?_ ?_
    ⟨hn, hc⟩
  · intro m p hm
    exact h.back_iff hW hm.1 hm.2
  · intro m p hm hb
    obtain ⟨p', hp, hlt⟩ := hW m hm.1 _ hb.1
    exact ⟨Option.some.inj hp ▸ hlt, hb.2⟩
  · intro m hm
    rw [h.kind_eq m hm.1 hm.2]

end

end Extends

/-- One more node; of the others only the inputs of such that carry nothing may have grown. -/
structure Adds (W W' : Web) (k : NodeKind) (ins : List Link) : Prop where
  size : W'.size = W.size + 1
  kind_new : (W'.node W.fresh).kind = k
  ins_new : (W'.node W.fresh).ins = ins
  kind_old : ∀ n, n.index < W.size → (W'.node n).kind = (W.node n).kind
  ins_old : ∀ n, n.index < W.size → (W.node n).kind.carries = true →
    (W'.node n).ins = (W.node n).ins
  ins_other : ∀ n, n.index < W.size → ∀ link ∈ (W'.node n).ins,
    link ∈ (W.node n).ins ∨ link = some W.fresh

/-- A new node is an operand of at most one operation. -/
theorem adds_push (W : Web) (k : NodeKind) (ins outs links : List Link) (target : Option NodeId)
    (ht : ∀ n, target = some n → n.index < W.size ∧ (W.node n).kind.carries = false) :
    W.Adds (((W.push ⟨k, ins, outs⟩).tell links W.fresh).take target W.fresh) k ins where
  size := rfl
  kind_new := by simp
  ins_new := by
    rw [take_ins, if_neg]
    · simp
    · rintro ⟨h, -⟩
      exact absurd (ht _ h).1 (by simp [fresh])
  kind_old n hn := by simp [push_node_of_lt hn]
  ins_old n hn hc := by
    rw [take_ins, if_neg]
    · simp [push_node_of_lt hn]
    · rintro ⟨h, -⟩
      simp [(ht n h).2] at hc
  ins_other n hn link hl := by
    rw [take_ins, tell_ins, push_node_of_lt hn] at hl
    split at hl
    · exact mem_withLink.mp hl
    · exact .inl hl

theorem adds_push_none (W : Web) (k : NodeKind) (ins outs links : List Link) :
    W.Adds ((W.push ⟨k, ins, outs⟩).tell links W.fresh) k ins := by
  simpa using W.adds_push k ins outs links none nofun

/-- An operation of the web, which may take operands. -/
def Takes (W : Web) (n : NodeId) : Prop :=
  n.index < W.size ∧ (W.node n).kind.operation?.isSome = true

namespace Takes

theorem carries (h : W.Takes n) : (W.node n).kind.carries = false := by
  cases hk : (W.node n).kind <;> simp_all [Takes, NodeKind.operation?, NodeKind.carries]

theorem isKnown (h : W.Takes n) : (W.node n).kind.isKnown = false := by
  cases hk : (W.node n).kind <;> simp_all [Takes, NodeKind.operation?, NodeKind.isKnown]

theorem extend (h : W.Takes n) (hx : W.Extends W') : W'.Takes n :=
  ⟨h.1.trans_le hx.size_le, isOperation_congr (hx.name_eq n h.1) ▸ h.2⟩

end Takes

/-- An operation may take one more operand. -/
theorem Extends.connect (hm : W.Takes m) (links : List Link) (n : NodeId) :
    W.Extends ((W.tell links m).take (some m) n) where
  size_le := le_rfl
  kind_eq n' _ _ := by simp
  ins_eq n' hn' hc := by
    rw [take_ins, if_neg, tell_ins]
    rintro ⟨h, -⟩
    obtain rfl := Option.some.inj h
    simp [hm.carries] at hc
  name_eq n' _ := by simp

theorem Closed.connect (hW : W.Closed) (links : List Link) (hn : n.index < W.size) :
    ((W.tell links m).take (some m) n).Closed := by
  intro n' hn' link hl
  rw [take_ins, tell_ins] at hl
  split at hl
  · rcases mem_withLink.mp hl with hl | rfl
    · exact hW n' hn' link hl
    · exact ⟨n, rfl, hn⟩
  · exact hW n' hn' link hl

/-- An operation may change in what it does. -/
theorem Extends.alter (hn : W.Takes n) {f : Wired → Wired}
    (hf : (f (W.node n)).kind.name = (W.node n).kind.name) : W.Extends (W.alter n f) where
  size_le := le_rfl
  kind_eq m _ hc := by
    simp only [Web.alter]
    rw [if_neg]
    rintro ⟨rfl, -⟩
    simp [hn.carries] at hc
  ins_eq m _ hc := by
    simp only [Web.alter]
    rw [if_neg]
    rintro ⟨rfl, -⟩
    simp [hn.carries] at hc
  name_eq m _ := by
    simp only [Web.alter]
    split
    · simp_all
    · rfl

namespace Adds

variable {k : NodeKind} {ins : List Link}

theorem extends_ (h : W.Adds W' k ins) : W.Extends W' where
  size_le := h.size ▸ Nat.le_succ _
  kind_eq n hn _ := h.kind_old n hn
  ins_eq := h.ins_old
  name_eq n hn := by rw [h.kind_old n hn]

theorem closed (h : W.Adds W' k ins) (hW : W.Closed)
    (hins : ∀ link ∈ ins, ∃ m, link = some m ∧ m.index < W.size) : W'.Closed := by
  intro n hn link hl
  rw [h.size] at hn ⊢
  by_cases hlt : n.index < W.size
  · rcases h.ins_other n hlt link hl with hl | rfl
    · obtain ⟨m, hm, hlt⟩ := hW n hlt link hl
      exact ⟨m, hm, by omega⟩
    · exact ⟨W.fresh, rfl, Nat.lt_succ_self _⟩
  · obtain rfl : n = W.fresh := by
      cases n
      simp only [fresh, NodeId.mk.injEq]
      simp only at hn hlt
      omega
    rw [h.ins_new] at hl
    obtain ⟨m, hm, hlt⟩ := hins link hl
    exact ⟨m, hm, by omega⟩

/-- The new node carries what its inputs carry, and itself when it is a definition. -/
theorem mem_defs_fresh (h : W.Adds W' k ins) (hW : W.Closed)
    (hins : ∀ link ∈ ins, ∃ m, link = some m ∧ m.index < W.size) :
    d ∈ W'.defs W.fresh ↔ (d = W.fresh ∧ k.defines = true) ∨
      ∃ m, some m ∈ ins ∧ (W.node m).kind.carries = true ∧ d ∈ W.defs m := by
  rw [mem_defs_iff, h.kind_new]
  refine or_congr_right (exists_congr fun m => ?_)
  rw [Back, h.ins_new, and_assoc]
  refine and_congr_right fun hm => ?_
  obtain ⟨m', hm', hlt⟩ := hins _ hm
  obtain rfl := Option.some.inj hm'
  rw [h.kind_old m hlt]
  refine and_congr_right fun hc => ?_
  rw [h.extends_.defs_eq hW hlt hc]

theorem defs_fresh_of_single (h : W.Adds W' k [some m]) (hW : W.Closed) (hm : m.index < W.size)
    (hc : (W.node m).kind.carries = true) (hk : k.defines = false) :
    W'.defs W.fresh = W.defs m := by
  ext d
  rw [h.mem_defs_fresh hW (by simpa using hm)]
  simp [hk, hc]

/-- A merge carries what its inputs carry. -/
theorem defs_fresh_of_pair (h : W.Adds W' k [some m, some n]) (hW : W.Closed)
    (hm : m.index < W.size) (hn : n.index < W.size) (hcm : (W.node m).kind.carries = true)
    (hcn : (W.node n).kind.carries = true) (hk : k.defines = false) :
    W'.defs W.fresh = W.defs m ∪ W.defs n := by
  ext d
  rw [h.mem_defs_fresh hW (by simp [hm, hn])]
  constructor
  · rintro (⟨-, hd⟩ | ⟨x, hx, -, hd⟩)
    · simp [hk] at hd
    · obtain rfl | rfl : x = m ∨ x = n := by simpa using hx
      · exact .inl hd
      · exact .inr hd
  · rintro (hd | hd)
    · exact .inr ⟨m, by simp, hcm, hd⟩
    · exact .inr ⟨n, by simp, hcn, hd⟩

end Adds

/-! ## The graph of a function -/

/-- The occurrences of a graph that stand in the program. -/
def occurrences (W : Web) (g : GraphId) : List NodeId :=
  (W.graph g).nodes.filter fun n => (W.node n).kind.isOccurrence

/-- Only one graph may have changed. -/
structure SameBut (W : Web) (g : GraphId) (W' : Web) : Prop where
  graphs : W'.graphs = W.graphs
  graph_eq : ∀ h, h ≠ g → W'.graph h = W.graph h

namespace SameBut

variable {g : GraphId}

theorem of_eq (hgs : W'.graphs = W.graphs) (hg : W'.graph = W.graph) : W.SameBut g W' :=
  ⟨hgs, fun h _ => by rw [hg]⟩

theorem trans (h : W.SameBut g W') (h' : W'.SameBut g W'') : W.SameBut g W'' :=
  ⟨h'.graphs.trans h.graphs, fun x hx => (h'.graph_eq x hx).trans (h.graph_eq x hx)⟩

theorem enter (h : W.SameBut g W') (n : NodeId) : W.SameBut g (W'.enter g n) :=
  ⟨h.graphs, fun x hx => (Web.enter_graph_of_ne hx n).trans (h.graph_eq x hx)⟩

end SameBut

/-- The graph of a function in which every occurrence has one input at most. -/
structure Tame (W : Web) (g : GraphId) : Prop where
  closed : W.Closed
  graph : g.index < W.graphs
  role : (W.graph g).isModule = false
  nodes : ∀ n ∈ (W.graph g).nodes, n.index < W.size
  symbols : ∀ n ∈ (W.graph g).symbols.values.flatten,
    n.index < W.size ∧ (W.node n).kind.carries = true ∧ (W.node n).ins.length ≤ 1
  joints : ∀ n ∈ (W.graph g).merges ++ (W.graph g).branches,
    n.index < W.size ∧ (W.node n).kind.carries = true ∧ (W.node n).kind.isOccurrence = false
  returns : (W.graph g).returns = []

variable {g : GraphId}

theorem Extends.occurrences_eq (h : W.Extends W') (hW : W.Tame g)
    (hg : W'.graph g = W.graph g) : W'.occurrences g = W.occurrences g := by
  unfold occurrences
  rw [hg]
  exact List.filter_congr fun n hn => h.isOccurrence_eq (hW.nodes n hn)

theorem occurrences_enter (hg : g.index < W.graphs) : (W.enter g n).occurrences g =
      W.occurrences g ++ if (W.node n).kind.isOccurrence then [n] else [] := by
  simp only [occurrences, enter_graph_self hg, Graph.enter_nodes, enter_node, List.filter_append]
  split <;> simp_all

namespace Tame

theorem extend (hW : W.Tame g) (h : W.Extends W') (hc : W'.Closed) (hg : W'.graph g = W.graph g)
    (hgs : W'.graphs = W.graphs) : W'.Tame g where
  closed := hc
  graph := hgs ▸ hW.graph
  role := hg ▸ hW.role
  nodes n hn := (hW.nodes n (hg ▸ hn)).trans_le h.size_le
  symbols n hn := by
    obtain ⟨hlt, hcar, hins⟩ := hW.symbols n (hg ▸ hn)
    exact ⟨hlt.trans_le h.size_le, h.carries_eq hlt ▸ hcar, h.ins_eq n hlt hcar ▸ hins⟩
  joints n hn := by
    obtain ⟨hlt, hcar, hocc⟩ := hW.joints n (hg ▸ hn)
    exact ⟨hlt.trans_le h.size_le, h.carries_eq hlt ▸ hcar, h.isOccurrence_eq hlt ▸ hocc⟩
  returns := hg ▸ hW.returns

/-- A node that is added to the graph keeps it tame. -/
theorem enter (hW : W.Tame g) (hn : n.index < W.size)
    (hsymbol : ∀ info, (W.node n).kind = .symbol info →
      (W.node n).ins.length ≤ 1 ∧ info.context ≠ "Return") : (W.enter g n).Tame g where
  closed := hW.closed
  graph := hW.graph
  role := by
    rw [enter_graph_self hW.graph, Graph.isModule, Graph.enter_role]
    exact hW.role
  nodes m hm := by
    rw [enter_graph_self hW.graph, Graph.enter_nodes, List.mem_append] at hm
    rcases hm with hm | hm
    · exact hW.nodes m hm
    · exact List.mem_singleton.mp hm ▸ hn
  symbols m hm := by
    rw [enter_graph_self hW.graph] at hm
    rcases Graph.mem_enter_symbols hm with hm | ⟨rfl, hm⟩
    · exact hW.symbols m hm
    · cases hk : (W.node m).kind with
      | symbol info => exact ⟨hn, by simp [hk, carries], (hsymbol info hk).1⟩
      | _ => simp [hk, symbol?] at hm
  joints m hm := by
    rw [enter_graph_self hW.graph] at hm
    rcases Graph.mem_enter_joints hm with hm | ⟨rfl, hm⟩
    · exact hW.joints m hm
    · refine ⟨hn, ?_⟩
      rw [enter_node]
      cases hk : (W.node m).kind <;>
        simp_all [isJoint, carries, isOccurrence]
  returns := by
    rw [enter_graph_self hW.graph, Graph.enter_returns, if_neg, hW.returns]
    rintro ⟨-, hm⟩
    cases hk : (W.node n).kind with
    | symbol info => exact (hsymbol info hk).2 (by simpa [hk, symbol?] using hm)
    | _ => simp [hk, symbol?] at hm

end Tame
end Web

/-! ## Variables with current nodes -/

/-- Every variable with a current node has been counted, each of them once, and the current nodes
carry definitions. -/
structure Variables.Sound (V : Variables) (W : Web) : Prop where
  counted : ∀ v, (V.latest.get? v).isSome → (V.counts.get? v).isSome
  nodup : V.counts.keys.Nodup
  current : ∀ v link, V.latest.get? v = some link →
    ∃ n, link = some n ∧ n.index < W.size ∧ (W.node n).kind.carries = true

/-- Variables are only added, and a variable whose count has not grown has the same node. -/
structure Variables.Touched (V V' : Variables) : Prop where
  latest : ∀ v, (V.latest.get? v).isSome → (V'.latest.get? v).isSome
  counts : ∀ v, (V.counts.get? v).isSome → (V'.counts.get? v).isSome
  grown : ∀ v c, (V.latest.get? v).isSome → V.counts.get? v = some c →
    ∃ c', V'.counts.get? v = some c' ∧ c ≤ c' ∧ (c = c' → V'.latest.get? v = V.latest.get? v)

/-- The current definitions of the variables of a function. -/
def Web.current (W : Web) (V : Variables) : Flow.Current NodeId := fun v =>
  match V.latest.get? v with
  | some (some n) => W.defs n
  | _ => ∅

namespace Variables

variable {V V' V'' : Variables} {W W' : Web} {v : String} {n : NodeId}

section

variable (hV : V.Sound W)

include hV

theorem Sound.extend (h : W.Extends W') : V.Sound W' where
  counted := hV.counted
  nodup := hV.nodup
  current v link hl := by
    obtain ⟨n, rfl, hn, hc⟩ := hV.current v link hl
    exact ⟨n, rfl, hn.trans_le h.size_le, h.carries_eq hn ▸ hc⟩

theorem Sound.current_eq (h : W.Extends W') (hW : W.Closed) : W'.current V = W.current V := by
  funext v
  unfold Web.current
  cases hl : V.latest.get? v with
  | none => rfl
  | some link =>
    obtain ⟨n, rfl, hn, hc⟩ := hV.current v link hl
    exact h.defs_eq hW hn hc

theorem Sound.sources_eq (v : String) : V.sources v = (V.latest.get? v).toList := by
  unfold Variables.sources
  cases hl : V.latest.get? v with
  | none => cases V.counts.get? v <;> rfl
  | some link =>
    obtain ⟨c, hc⟩ := Option.isSome_iff_exists.mp (hV.counted v (by simp [hl]))
    simp [hc]

theorem Sound.sources_lt (v : String) :
    ∀ link ∈ V.sources v, ∃ m, link = some m ∧ m.index < W.size := by
  intro link hl
  rw [hV.sources_eq, Option.mem_toList] at hl
  obtain ⟨n, rfl, hn, -⟩ := hV.current v link hl
  exact ⟨n, rfl, hn⟩

theorem Sound.length_sources_le (v : String) : (V.sources v).length ≤ 1 := by
  rw [hV.sources_eq]
  cases V.latest.get? v <;> simp

theorem Sound.carried (h : W.Extends W') (hW : W.Closed) {link : Link}
    (hl : V.latest.get? v = some link) : ∃ n, link = some n ∧ n.index < W'.size ∧
      (W'.node n).kind.carries = true ∧ W'.defs n = W.current V v := by
  obtain ⟨n, rfl, hn, hc⟩ := hV.current v link hl
  refine ⟨n, rfl, hn.trans_le h.size_le, h.carries_eq hn ▸ hc, ?_⟩
  rw [h.defs_eq hW hn hc]
  simp [Web.current, hl]

end

theorem Touched.refl (V : Variables) : V.Touched V :=
  ⟨fun _ h => h, fun _ h => h, fun _ c _ hc => ⟨c, hc, le_rfl, fun _ => rfl⟩⟩

theorem Touched.trans (h : V.Touched V') (h' : V'.Touched V'') : V.Touched V'' where
  latest v hv := h'.latest v (h.latest v hv)
  counts v hv := h'.counts v (h.counts v hv)
  grown v c hv hc := by
    obtain ⟨c', hc', hle, heq⟩ := h.grown v c hv hc
    obtain ⟨c'', hc'', hle', heq'⟩ := h'.grown v c' (h.latest v hv) hc'
    refine ⟨c'', hc'', hle.trans hle', ?_⟩
    rintro rfl
    obtain rfl : c = c' := le_antisymm hle hle'
    rw [heq' rfl, heq rfl]

theorem counts_occur (V : Variables) (v u : String) (order : Nat) (n : NodeId) :
    (V.occur v order n).counts.get? u = if v = u then some order else V.counts.get? u :=
  Table.get?_insert ..

theorem latest_occur (V : Variables) (v u : String) (order : Nat) (n : NodeId) :
    (V.occur v order n).latest.get? u = if v = u then some (some n) else V.latest.get? u :=
  Table.get?_insert ..

theorem Sound.occur (hV : V.Sound W) (hn : n.index < W.size)
    (hc : (W.node n).kind.carries = true) (order : Nat) : (V.occur v order n).Sound W where
  counted u hu := by
    rw [latest_occur] at hu
    rw [counts_occur]
    split at hu
    · simp_all
    · simp_all [hV.counted u]
  nodup := by
    change (V.counts.insert v order).keys.Nodup
    rw [Table.keys_insert]
    split
    · exact hV.nodup
    · exact List.nodup_append.mpr ⟨hV.nodup, by simp, by grind⟩
  current u link hl := by
    rw [latest_occur] at hl
    split at hl
    · exact ⟨n, (Option.some.inj hl).symm, hn, hc⟩
    · exact hV.current u link hl

/-- An occurrence touches its variable when its number is higher than those before. -/
theorem Touched.occur {order : Nat}
    (horder : ∀ c, (V.latest.get? v).isSome → V.counts.get? v = some c → c < order) :
    V.Touched (V.occur v order n) where
  latest u hu := by
    rw [latest_occur]
    split <;> simp_all
  counts u hu := by
    rw [counts_occur]
    split <;> simp_all
  grown u c hu hc := by
    rw [counts_occur, latest_occur]
    by_cases huv : v = u
    · subst huv
      have := horder c hu hc
      exact ⟨order, by simp, by omega, by omega⟩
    · exact ⟨c, by simp [huv, hc], le_rfl, by simp [huv]⟩

theorem current_occur (W : Web) (V : Variables) (v : String) (order : Nat) (n : NodeId) :
    W.current (V.occur v order n) = Function.update (W.current V) v (W.defs n) := by
  funext u
  unfold Web.current
  rw [latest_occur]
  by_cases huv : v = u
  · subst huv
    simp
  · simp [huv, Function.update_of_ne (Ne.symm huv)]

end Variables
end TypeFlow
