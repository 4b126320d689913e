import Mathlib.Data.List.Nodup
import TypeFlow.Proofs.Web

/-!
# How graphs file their nodes

A graph lists its nodes, files them by symbol and by operation, and gives a number to each node
that its module has not numbered. Listing a node that is not there yet keeps every table in step
with the list.
-/

namespace TypeFlow

open Store List Graph

/-- A table has the members of a list under their keys, in order. Members without a key are left
out. -/
structure Table.Files (t : Table String (List NodeId)) (l : List NodeId)
    (key : NodeId → Option String) : Prop where
  entry : ∀ k, (t.get? k).getD [] = l.filter (key · = some k)
  keys : t.keys.Nodup

namespace Table.Files

variable {t : Table String (List NodeId)} {l : List NodeId} {key : NodeId → Option String}
  {n : NodeId} {k : String}

theorem empty : Table.Files {} [] key := ⟨fun _ => rfl, nodup_nil⟩

section

variable (h : t.Files l key)

include h

theorem congr {key' : NodeId → Option String}
    (hkey : ∀ n ∈ l, key' n = key n) : t.Files l key' := by
  refine ⟨fun k => (h.entry k).trans (filter_congr fun n hn => ?_), h.keys⟩
  rw [hkey n hn]

/-- One more member under its key. -/
theorem index (hk : key n = some k) : (index t k n).Files (l ++ [n]) key := by
  constructor
  · intro j
    rw [Graph.index, get?_insert, List.filter_append]
    by_cases hj : k = j
    · subst hj
      simp [h.entry k, hk]
    · simp [hj, h.entry j, hk]
  · rw [Graph.index, keys_insert]
    split
    · exact h.keys
    · exact nodup_append.mpr ⟨h.keys, by simp, by grind⟩

theorem skip (hk : key n = none) : t.Files (l ++ [n]) key := by
  refine ⟨fun k => ?_, h.keys⟩
  simp [h.entry k, hk]

theorem mem_entry (hn : n ∈ l) (hk : key n = some k) : n ∈ (t.get? k).getD [] := by
  rw [h.entry]
  exact mem_filter.mpr ⟨hn, by simp [hk]⟩

theorem mem_flatten (hn : n ∈ l) (hk : key n = some k) : n ∈ t.values.flatten := by
  have hentry := h.mem_entry hn hk
  cases hget : t.get? k with
  | none => simp [hget] at hentry
  | some l' =>
    rw [hget] at hentry
    exact List.mem_flatten.mpr ⟨l', mem_values_of_get? hget, hentry⟩

theorem eq_filter {v : List NodeId} (hv : (k, v) ∈ t.entries) : v = l.filter (key · = some k) := by
  rw [← h.entry, get?_of_mem h.keys hv]
  rfl

end

/-- A table whose entries are right and that leaves no key out. -/
theorem of_entries (hkeys : t.keys.Nodup)
    (hentries : ∀ e ∈ t.entries, e.2 = l.filter (key · = some e.1))
    (hall : ∀ n ∈ l, ∀ k ∈ key n, k ∈ t.keys) : t.Files l key := by
  refine ⟨fun k => ?_, hkeys⟩
  by_cases hk : k ∈ t.keys
  · obtain ⟨⟨k, v⟩, hv, rfl⟩ := mem_map.mp hk
    rw [get?_of_mem hkeys hv]
    exact hentries _ hv
  · have hnone : l.filter (key · = some k) = [] :=
      filter_eq_nil_iff.mpr fun n hn h => hk (hall n hn k (of_decide_eq_true h))
    cases hget : t.get? k with
    | none => exact hnone.symm
    | some v => exact absurd (mem_keys_iff.mpr (hget ▸ rfl)) hk

/-- The members of a list that are filed are those that have a key. -/
theorem mem_flatten_iff (h : t.Files l key) :
    n ∈ t.values.flatten ↔ n ∈ l ∧ (key n).isSome = true := by
  constructor
  · intro hn
    obtain ⟨_, hv, hn⟩ := List.mem_flatten.mp hn
    obtain ⟨⟨k, v⟩, hentry, rfl⟩ := List.mem_map.mp hv
    rw [h.eq_filter hentry, mem_filter, decide_eq_true_eq] at hn
    exact ⟨hn.1, by rw [hn.2]; rfl⟩
  · rintro ⟨hn, hk⟩
    obtain ⟨k, hk⟩ := Option.isSome_iff_exists.mp hk
    exact h.mem_flatten hn hk

theorem nodup_flatten (h : t.Files l key) (hl : l.Nodup) : t.values.flatten.Nodup := by
  refine List.nodup_flatten.mpr ⟨fun v hv => ?_, List.pairwise_map.mpr ?_⟩
  · obtain ⟨⟨k, v⟩, hentry, rfl⟩ := List.mem_map.mp hv
    exact h.eq_filter hentry ▸ hl.filter _
  · refine (pairwise_map.mp h.keys).imp_of_mem ?_
    rintro ⟨j, u⟩ ⟨k, v⟩ hu hv hne n hnu hnv
    simp only [h.eq_filter hu, h.eq_filter hv, mem_filter, decide_eq_true_eq] at hnu hnv
    exact hne (Option.some.inj (hnu.2.symm.trans hnv.2))

end Table.Files

/-- What a graph files a node under. -/
structure Rubric where
  symbol? : Option SymbolInfo
  op? : Option String
  joint : Bool

/-- The rubric of a kind: a symbol, an operation, or a merge or branch. -/
def NodeKind.rubric (kind : NodeKind) : Rubric where
  symbol? := kind.symbol?
  op? := kind.operation?.map (·.op)
  joint := kind.isJoint

def Store.rubric (s : Store) (n : NodeId) : Rubric := (s.nodeAt n).kind.rubric

namespace Graph

variable {G : Graph} {n : NodeId} {kind : NodeKind}

theorem enter_symbols (hG : G.isModule = false) : (G.enter n kind).symbols =
    kind.symbol?.elim G.symbols fun info => index G.symbols info.symbol n := by
  have hrole : G.role ≠ .module := by simpa [isModule] using hG
  cases kind <;> simp [enter, note_eq, indexNode, indexSymbol, isModule, hrole, NodeKind.symbol?,
    apply_ite symbols]

theorem enter_operations : (G.enter n kind).operations =
    kind.operation?.elim G.operations fun info => index G.operations info.op n := by
  cases kind <;> simp [enter, note_eq, indexNode, indexSymbol, NodeKind.operation?,
    apply_ite operations]

theorem enter_arguments (hG : G.isModule = false) : (G.enter n kind).arguments =
    if kind.symbol?.any (·.context = "Arg") then G.arguments ++ [n] else G.arguments := by
  have hrole : G.role ≠ .module := by simpa [isModule] using hG
  cases kind <;> simp [enter, note_eq, indexNode, indexSymbol, isModule, hrole, NodeKind.symbol?,
    apply_ite arguments]

@[simp] theorem enter_name : (G.enter n kind).name = G.name := by
  cases kind <;> simp [enter, note_eq, indexNode, indexSymbol, apply_ite name]

/-- The tables of a graph are in step with its list of nodes, which has every node once. Handlers
note nodes that are listed. -/
structure Tidy (G : Graph) (rubric : NodeId → Rubric) : Prop where
  nodup : G.nodes.Nodup
  joints : ∀ n ∈ G.merges ++ G.branches, n ∈ G.nodes ∧ (rubric n).joint = true
  handled : ∀ writes ∈ G.exceptBuffer, ∀ n ∈ writes.values, n ∈ G.nodes
  symbols : G.isModule = false →
    G.symbols.Files G.nodes fun n => (rubric n).symbol?.map (·.symbol)
  operations : G.operations.Files G.nodes fun n => (rubric n).op?
  arguments : G.isModule = false →
    G.arguments = G.nodes.filter fun n => (rubric n).symbol?.any (·.context = "Arg")
  returns : G.isModule = false →
    G.returns = G.nodes.filter fun n => (rubric n).symbol?.any (·.context = "Return")

namespace Tidy

variable {rubric rubric' : NodeId → Rubric}

theorem congr (h : G.Tidy rubric) (hr : ∀ n ∈ G.nodes, rubric' n = rubric n) : G.Tidy rubric' where
  nodup := h.nodup
  joints n hn := ⟨(h.joints n hn).1, hr n (h.joints n hn).1 ▸ (h.joints n hn).2⟩
  handled := h.handled
  symbols hG := (h.symbols hG).congr fun n hn => by rw [hr n hn]
  operations := h.operations.congr fun n hn => by rw [hr n hn]
  arguments hG := (h.arguments hG).trans (filter_congr fun n hn => by rw [hr n hn])
  returns hG := (h.returns hG).trans (filter_congr fun n hn => by rw [hr n hn])

/-- One more node is listed. -/
theorem enter (h : G.Tidy rubric) (hn : n ∉ G.nodes) (hr : rubric n = kind.rubric) :
    (G.enter n kind).Tidy rubric := by
  have hsymbol : (rubric n).symbol? = kind.symbol? := by rw [hr]; rfl
  have hop : (rubric n).op? = kind.operation?.map (·.op) := by rw [hr]; rfl
  have hmodule : (G.enter n kind).isModule = G.isModule := by simp [isModule]
  constructor
  · rw [enter_nodes]
    exact nodup_append.mpr ⟨h.nodup, by simp, by grind⟩
  · intro m hm
    rw [enter_nodes, mem_append]
    rcases mem_enter_joints hm with hm | ⟨rfl, hjoint⟩
    · exact ⟨.inl (h.joints m hm).1, (h.joints m hm).2⟩
    · exact ⟨.inr (.head _), by rw [hr]; exact hjoint⟩
  · intro writes hwrites m hm
    rw [enter_exceptBuffer] at hwrites
    rw [enter_nodes, mem_append, mem_singleton]
    rcases mem_exceptNoted hwrites hm with ⟨old, hold, hm⟩ | rfl
    · exact .inl (h.handled old hold m hm)
    · exact .inr rfl
  · intro hG
    rw [hmodule] at hG
    rw [enter_symbols hG, enter_nodes]
    cases hk : kind.symbol? with
    | none => exact (h.symbols hG).skip (by simp [hsymbol, hk])
    | some info => exact (h.symbols hG).index (by simp [hsymbol, hk])
  · rw [enter_operations, enter_nodes]
    cases hk : kind.operation? with
    | none => exact h.operations.skip (by simp [hop, hk])
    | some info => exact h.operations.index (by simp [hop, hk])
  · intro hG
    rw [hmodule] at hG
    rw [enter_arguments hG, enter_nodes, filter_append, ← h.arguments hG]
    by_cases hc : kind.symbol?.any (·.context = "Arg") <;> simp [hsymbol, hc]
  · intro hG
    rw [hmodule] at hG
    rw [enter_returns, enter_nodes, filter_append, ← h.returns hG]
    by_cases hc : kind.symbol?.any (·.context = "Return") <;> simp [hsymbol, hc, hG]

end Tidy
end Graph

/-! ## Numbers -/

/-- A number shows the name of its graph and the place in the count. -/
theorem number_inj {a b : String} {j k : Nat}
    (h : a ++ "@" ++ toString j = b ++ "@" ++ toString k) : a = b ∧ j = k := by
  have hlist : (Nat.toDigits 10 j).reverse ++ '@' :: a.toList.reverse =
      (Nat.toDigits 10 k).reverse ++ '@' :: b.toList.reverse := by
    have hrev := congrArg (fun s => s.toList.reverse) h
    simpa [Nat.toString_eq_repr, Nat.repr_eq_ofList_toDigits] using hrev
  -- the last `@` is not among the digits
  have hdigits (n : Nat) (l : List Char) :
      ((Nat.toDigits 10 n).reverse ++ '@' :: l).takeWhile Char.isDigit =
        (Nat.toDigits 10 n).reverse := by
    rw [takeWhile_append_of_pos]
    · simp
    · intro c hc
      exact Nat.isDigit_of_mem_toDigits (by decide) (by decide) (mem_reverse.mp hc)
  have hjk : (Nat.toDigits 10 j).reverse = (Nat.toDigits 10 k).reverse := by
    rw [← hdigits j a.toList.reverse, hlist, hdigits]
  rw [hjk, append_cancel_left_eq, cons_eq_cons] at hlist
  refine ⟨String.toList_inj.mp (reverse_injective hlist.2), ?_⟩
  have hval := congrArg (fun l => Nat.ofDigitChars 10 l 0) (reverse_injective hjk)
  simpa [Nat.ofDigitChars_toDigits] using hval

theorem Graph.counted_enter (G : Graph) (n : NodeId) (kind : NodeKind) :
    (G.enter n kind).counted G.nextIndex = G.enter n kind := by
  have hnext : (G.enter n kind).nextIndex = G.nextIndex := by
    cases kind <;> simp [enter, note_eq, indexNode, indexSymbol, apply_ite nextIndex]
  rw [← hnext]
  rfl

namespace Store

variable {s : Store} {g h : GraphId} {n m : NodeId}

@[simp] theorem added_size : (s.added g n).nodes.size = s.nodes.size := by
  unfold added
  split <;> simp

@[simp] theorem added_graphs : (s.added g n).graphs.size = s.graphs.size := by
  unfold added
  split <;> simp

theorem added_graph_of_ne (hne : h ≠ g) : (s.added g n).graphAt h = s.graphAt h := by
  unfold added
  split
  · rw [graphAt_modify, if_neg fun hh => hne hh.1]
  · change graphAt { s with graphs := s.graphs.modify g.index _ } h = _
    rw [graphAt_modify, if_neg fun hh => hne hh.1]

theorem added_graph_self (hg : g.index < s.graphs.size) :
    (s.added g n).graphAt g = ((s.graphAt g).enter n (s.nodeAt n).kind).counted
      (if s.keepsNumber g n then (s.graphAt g).nextIndex else (s.graphAt g).nextIndex + 1) := by
  unfold added
  split
  · rw [graphAt_modify, if_pos ⟨rfl, hg⟩]
    exact (counted_enter ..).symm
  · change graphAt { s with graphs := s.graphs.modify g.index _ } g = _
    rw [graphAt_modify, if_pos ⟨rfl, hg⟩]

/-- Only the number of the node changes. -/
theorem added_node : (s.added g n).nodeAt m =
    if m = n ∧ n.index < s.nodes.size ∧ s.keepsNumber g n = false then
      { s.nodeAt n with graph := some g, id := s.nextNumber g }
    else s.nodeAt m := by
  unfold added
  cases hk : s.keepsNumber g n with
  | true => simp [nodeAt]
  | false =>
    change nodeAt { s with nodes := s.nodes.modify n.index _ } m = _
    rw [nodeAt_modify_of_any]
    simp

theorem added_wired : ((s.added g n).nodeAt m).wired = (s.nodeAt m).wired := by
  rw [added_node]
  split
  · rename_i h
    rw [h.1]
    rfl
  · rfl

@[simp] theorem added_kind : ((s.added g n).nodeAt m).kind = (s.nodeAt m).kind :=
  congrArg Wired.kind added_wired

@[simp] theorem added_ins : ((s.added g n).nodeAt m).ins = (s.nodeAt m).ins :=
  congrArg Wired.ins added_wired

@[simp] theorem added_rubric : (s.added g n).rubric = s.rubric := by
  funext m
  rw [rubric, rubric, added_kind]

section

variable (hg : g.index < s.graphs.size)

include hg

theorem added_nodes : ((s.added g n).graphAt h).nodes =
    if h = g then (s.graphAt h).nodes ++ [n] else (s.graphAt h).nodes := by
  split
  · rename_i heq
    rw [heq, added_graph_self hg]
    exact enter_nodes ..
  · rw [added_graph_of_ne ‹_›]

theorem added_eq {α : Type} (f : Graph → α)
    (hf : ∀ G n kind k, f ((enter G n kind).counted k) = f G) :
    f ((s.added g n).graphAt h) = f (s.graphAt h) := by
  by_cases heq : h = g
  · rw [heq, added_graph_self hg, hf]
  · rw [added_graph_of_ne heq]

theorem added_name : ((s.added g n).graphAt h).name = (s.graphAt h).name :=
  added_eq hg name fun _ _ _ _ => enter_name

theorem added_isModule : ((s.added g n).graphAt h).isModule = (s.graphAt h).isModule :=
  added_eq hg isModule fun _ _ _ _ => congrArg (· == GraphRole.module) (enter_role ..)

theorem added_nextIndex : ((s.added g n).graphAt h).nextIndex =
      if h = g ∧ s.keepsNumber g n = false then (s.graphAt h).nextIndex + 1
      else (s.graphAt h).nextIndex := by
  by_cases heq : h = g
  · rw [heq, added_graph_self hg]
    cases s.keepsNumber g n <;> simp [counted]
  · rw [added_graph_of_ne heq, if_neg fun h => heq h.1]

theorem added_functions : ((s.added g n).graphAt h).functions = (s.graphAt h).functions :=
  added_eq hg functions fun _ _ _ _ => enter_functions ..

end

end Store

/-! ## The graphs of one run -/

/-- Where a run starts: how many nodes and graphs were there before, and the name of the module. -/
structure Origin where
  nodes : Nat
  graphs : Nat
  name : String

namespace Origin

variable {o : Origin} {s t : Store} {g : GraphId} {n m : NodeId}

def Made (o : Origin) (s : Store) (n : NodeId) : Prop :=
  o.nodes ≤ n.index ∧ n.index < s.nodes.size

def Opened (o : Origin) (s : Store) (g : GraphId) : Prop :=
  o.graphs ≤ g.index ∧ g.index < s.graphs.size

/-- The graphs of the run list nodes of the run, and their tables are in step. -/
structure Filed (o : Origin) (s : Store) : Prop where
  size : o.nodes ≤ s.nodes.size
  made : ∀ g n, o.Opened s g → n ∈ (s.graphAt g).nodes → o.Made s n
  tidy : ∀ g, o.Opened s g → (s.graphAt g).Tidy s.rubric

/-- Every node that is listed has a number, and no graph gives the same number twice. -/
structure Numbered (o : Origin) (s : Store) : Prop where
  number : ∀ n g, o.Made s n → (s.nodeAt n).graph = some g → o.Opened s g ∧
    ∃ k < (s.graphAt g).nextIndex, (s.nodeAt n).id = (s.graphAt g).name ++ "@" ++ toString k
  distinct : ∀ n m g, o.Made s n → o.Made s m → (s.nodeAt n).graph = some g →
    (s.nodeAt m).graph = some g → (s.nodeAt n).id = (s.nodeAt m).id → n = m
  listed : ∀ g n, o.Opened s g → n ∈ (s.graphAt g).nodes → (s.nodeAt n).graph ≠ none

theorem Filed.added (h : o.Filed s) (hg : o.Opened s g) (hn : o.Made s n)
    (hnew : n ∉ (s.graphAt g).nodes) : o.Filed (s.added g n) := by
  constructor
  · exact Nat.le_trans h.size (Nat.le_of_eq added_size.symm)
  · intro k m hk hm
    rw [Opened, added_graphs] at hk
    rw [Made, added_size]
    rw [added_nodes hg.2] at hm
    split at hm
    · rcases mem_append.mp hm with hm | hm
      · exact h.made k m hk hm
      · exact mem_singleton.mp hm ▸ hn
    · exact h.made k m hk hm
  · intro k hk
    rw [Opened, added_graphs] at hk
    rw [added_rubric]
    by_cases heq : k = g
    · subst heq
      rw [added_graph_self hg.2]
      have htidy := (h.tidy k hk).enter hnew rfl
      exact { htidy with }
    · rw [added_graph_of_ne heq]
      exact h.tidy k hk

/-- A node that gets a number gets one that its graph has not given. -/
theorem Numbered.added (h : o.Numbered s) (hg : o.Opened s g) (hn : o.Made s n) :
    o.Numbered (s.added g n) := by
  have hopened (k : GraphId) : o.Opened (s.added g n) k ↔ o.Opened s k := by
    rw [Opened, Opened, added_graphs]
  have hmade (m : NodeId) : o.Made (s.added g n) m ↔ o.Made s m := by
    rw [Made, Made, added_size]
  -- a node has its old number, or it is the one that got the next number of the graph
  have hnode (m : NodeId) : (s.added g n).nodeAt m = s.nodeAt m ∨
      m = n ∧ s.keepsNumber g n = false ∧ ((s.added g n).nodeAt m).graph = some g ∧
        ((s.added g n).nodeAt m).id = s.nextNumber g := by
    rw [added_node]
    split
    · rename_i hm
      exact .inr ⟨hm.1, hm.2.2, rfl, rfl⟩
    · exact .inl rfl
  have hold {m : NodeId} {k : GraphId} (hm : o.Made s m)
      (hk : (s.nodeAt m).graph = some k) : (s.nodeAt m).id ≠ s.nextNumber k := by
    obtain ⟨-, i, hi, hid⟩ := h.number m k hm hk
    intro heq
    have := (number_inj (hid.symm.trans heq)).2
    omega
  constructor
  · intro m k hm hk
    rw [hmade] at hm
    rw [hopened, added_name hg.2, added_nextIndex hg.2]
    rcases hnode m with heq | ⟨rfl, hkeeps, hgraph, hid⟩
    · rw [heq] at hk ⊢
      obtain ⟨hk', i, hi, hid⟩ := h.number m k hm hk
      refine ⟨hk', i, ?_, hid⟩
      split <;> omega
    · obtain rfl : g = k := Option.some.inj (hgraph.symm.trans hk)
      exact ⟨hg, _, by simp [hkeeps], hid⟩
  · intro m m' k hm hm' hk hk' hid
    rw [hmade] at hm hm'
    rcases hnode m with heq | ⟨rfl, -, hgraph, hnum⟩
    · rw [heq] at hk hid
      rcases hnode m' with heq' | ⟨rfl, -, hgraph', hnum'⟩
      · rw [heq'] at hk' hid
        exact h.distinct m m' k hm hm' hk hk' hid
      · obtain rfl : g = k := Option.some.inj (hgraph'.symm.trans hk')
        exact absurd (hid.trans hnum') (hold hm hk)
    · rcases hnode m' with heq' | ⟨rfl, -⟩
      · rw [heq'] at hk' hid
        obtain rfl : g = k := Option.some.inj (hgraph.symm.trans hk)
        exact absurd (hid.symm.trans hnum) (hold hm' hk')
      · rfl
  · intro k m hk hm
    rw [hopened] at hk
    rcases hnode m with heq | ⟨-, -, hgraph, -⟩
    · rw [heq]
      rw [added_nodes hg.2] at hm
      split at hm
      · rcases mem_append.mp hm with hm | hm
        · exact h.listed k m hk hm
        · -- the node kept a number of the module
          intro hnone
          rw [mem_singleton] at hm
          subst hm
          have hkeeps : s.keepsNumber g m = false := by simp [keepsNumber, hnone]
          rw [added_node, if_pos ⟨rfl, hn.2, hkeeps⟩] at heq
          rw [← heq] at hnone
          cases hnone
      · exact h.listed k m hk hm
    · rw [hgraph]
      exact Option.some_ne_none g

end Origin

/-! ## Making and wiring nodes -/

/-- Nodes were made and wired, and none of them was listed. Only symbols that satisfy `T` may have
got several inputs. -/
structure Store.Rewires (T : NodeId → Prop) (s t : Store) : Prop where
  graphs : t.graphs = s.graphs
  size : s.nodes.size ≤ t.nodes.size
  rubric : ∀ n, n.index < s.nodes.size → t.rubric n = s.rubric n
  number : ∀ n, n.index < s.nodes.size →
    (t.nodeAt n).graph = (s.nodeAt n).graph ∧ (t.nodeAt n).id = (s.nodeAt n).id
  unnumbered : ∀ n, s.nodes.size ≤ n.index → (t.nodeAt n).graph = none
  fan : ∀ n, (t.rubric n).symbol?.isSome → 1 < (t.nodeAt n).ins.length →
    (t.nodeAt n).ins = (s.nodeAt n).ins ∨ T n

namespace Store

variable {s t u : Store} {T T' : NodeId → Prop}

theorem nodeAt_of_le {n : NodeId} (h : s.nodes.size ≤ n.index) : s.nodeAt n = default := by
  rw [nodeAt, Array.getD_eq_getD_getElem?, Array.getElem?_eq_none h]
  rfl

namespace Rewires

/-- Nodes are as they were, or they have changed in ways that graphs do not see. -/
theorem of_each (hgraphs : t.graphs = s.graphs) (hsize : s.nodes.size ≤ t.nodes.size)
    (h : ∀ n, t.nodeAt n = s.nodeAt n ∨
      (n.index < s.nodes.size → t.rubric n = s.rubric n ∧
        (t.nodeAt n).graph = (s.nodeAt n).graph ∧ (t.nodeAt n).id = (s.nodeAt n).id) ∧
      (s.nodes.size ≤ n.index → (t.nodeAt n).graph = none) ∧
      ((t.rubric n).symbol?.isSome → 1 < (t.nodeAt n).ins.length →
        (t.nodeAt n).ins = (s.nodeAt n).ins ∨ T n)) : s.Rewires T t := by
  refine ⟨hgraphs, hsize, fun n hn => ?_, fun n hn => ?_, fun n hn => ?_,
    fun n hsome hlen => ?_⟩ <;> rcases h n with heq | ⟨hkept, hfresh, hfan⟩
  · unfold Store.rubric
    rw [heq]
  · exact (hkept hn).1
  · rw [heq]
    exact ⟨rfl, rfl⟩
  · exact (hkept hn).2
  · rw [heq, nodeAt_of_le hn]
    rfl
  · exact hfresh hn
  · rw [heq]
    exact .inl rfl
  · exact hfan hsome hlen

theorem of_nodes (hnodes : t.nodes = s.nodes) (hgraphs : t.graphs = s.graphs) : s.Rewires T t :=
  .of_each hgraphs (Nat.le_of_eq (congrArg _ hnodes.symm)) fun n =>
    .inl (by simp only [nodeAt, hnodes])

theorem refl (s : Store) : s.Rewires T s := of_nodes rfl rfl

theorem trans (h : s.Rewires T t) (h' : t.Rewires T u) : s.Rewires T u where
  graphs := h'.graphs.trans h.graphs
  size := Nat.le_trans h.size h'.size
  rubric n hn := (h'.rubric n (Nat.lt_of_lt_of_le hn h.size)).trans (h.rubric n hn)
  number n hn := by
    have hn' := h'.number n (Nat.lt_of_lt_of_le hn h.size)
    exact ⟨hn'.1.trans (h.number n hn).1, hn'.2.trans (h.number n hn).2⟩
  unnumbered n hn := by
    by_cases hlt : n.index < t.nodes.size
    · exact (h'.number n hlt).1.trans (h.unnumbered n hn)
    · exact h'.unnumbered n (Nat.le_of_not_lt hlt)
  fan n hsymbol hlen := by
    rcases h'.fan n hsymbol hlen with heq | hT
    · by_cases hlt : n.index < t.nodes.size
      · rw [h'.rubric n hlt] at hsymbol
        rw [heq] at hlen ⊢
        exact h.fan n hsymbol hlen
      · rw [heq, nodeAt_of_le (Nat.le_of_not_lt hlt)] at hlen
        exact absurd hlen (by decide)
    · exact .inr hT

instance : IsPreorder Store (Rewires T) := { refl := refl, trans := fun _ _ _ => trans }

/-- A node has changed in ways that graphs do not see. -/
theorem modify {n : NodeId} {f : Node → Node} (hrubric : (f (s.nodeAt n)).kind.rubric = s.rubric n)
    (hnumber : (f (s.nodeAt n)).graph = (s.nodeAt n).graph ∧ (f (s.nodeAt n)).id = (s.nodeAt n).id)
    (hfan : (s.rubric n).symbol?.isSome → 1 < (f (s.nodeAt n)).ins.length →
      (f (s.nodeAt n)).ins = (s.nodeAt n).ins ∨ T n) :
    s.Rewires T { s with nodes := s.nodes.modify n.index f } := by
  refine .of_each rfl (Nat.le_of_eq Array.size_modify.symm) fun m => ?_
  unfold Store.rubric at hfan ⊢
  rw [nodeAt_modify_of_any]
  split
  · obtain ⟨rfl, -⟩ := ‹m = n ∧ _›
    refine .inr ⟨fun _ => ⟨hrubric, hnumber⟩, fun hm => ?_, by rwa [hrubric]⟩
    rw [hnumber.1, nodeAt_of_le hm]
    rfl
  · exact .inl rfl

theorem push {node : Node} (hgraph : node.graph = none) (hins : node.ins = []) :
    s.Rewires T { s with nodes := s.nodes.push node } := by
  refine .of_each rfl (by simp) fun m => ?_
  unfold Store.rubric
  rw [nodeAt_push]
  split
  · exact .inr ⟨fun hm => absurd hm (by omega), fun _ => hgraph, by simp [hins]⟩
  · exact .inl rfl

end Rewires
end Store

namespace Eval

variable {α : Type} {T : NodeId → Prop} (n : NodeId)

theorem meets_of_keeps {R : Store → Store → Prop} {x : Eval α} (h : Keeps R x) (s : Store) :
    x.Meets True s fun _ t => R s t := by
  unfold Meets
  split
  · exact h.rel ‹_›
  · trivial

instance keeps_typing (x : Typing α) : Keeps (Rewires T) x.run :=
  .of_grows (fun _ _ h => .of_nodes h.nodes h.graphs) x

theorem keeps_modifyNode {n : NodeId} {f : Node → Node}
    (hrubric : ∀ node, (f node).kind.rubric = node.kind.rubric)
    (hnumber : ∀ node, (f node).graph = node.graph ∧ (f node).id = node.id)
    (hfan : ∀ node, (f node).ins = node.ins ∨ (f node).ins.length ≤ 1 ∨ T n) :
    Keeps (Rewires T) (modifyNode n f) := by
  constructor
  intro s _ t h
  simp only [modifyNode_apply, EStateM.Result.ok.injEq, true_and] at h
  subst h
  refine .modify (hrubric _) (hnumber _) fun _ hlen => ?_
  rcases hfan (s.nodeAt n) with h | h | h
  · exact .inl h
  · omega
  · exact .inr h

instance keeps_makeNode (kind : NodeKind) (name : String) (types rejected : List Entry) :
    Keeps (Rewires T) (makeNode kind name types rejected) := by
  unfold makeNode
  have (node : Node) (hgraph : node.graph = none) (hins : node.ins = []) :
      Keeps (Rewires T) (newNode node) := by
    constructor
    intro s _ t h
    obtain ⟨-, rfl⟩ := EStateM.Result.ok.inj h
    exact .push hgraph hins
  refine Keeps.andThen fun types => Keeps.andThen fun rejected => ?_
  exact this _ rfl rfl

instance keeps_newSymbol (info : SymbolInfo) : Keeps (Rewires T) (newSymbol info) :=
  keeps_makeNode ..

instance keeps_newMerge (var : String) : Keeps (Rewires T) (newMerge var) :=
  keeps_makeNode ..

instance keeps_newOperation (op : String) (func attr : Option String) (splitIndex : Int) :
    Keeps (Rewires T) (newOperation op func attr splitIndex) := by
  unfold newOperation
  infer_instance

instance keeps_newKnown (e : Entry) : Keeps (Rewires T) (newKnown e) := by
  unfold newKnown
  split <;> infer_instance

instance keeps_newBranch (var : Option String) : Keeps (Rewires T) (newBranch var) := by
  unfold newBranch
  infer_instance

instance keeps_setPosition (pos : Position) : Keeps (Rewires T) (setPosition n pos) :=
  keeps_modifyNode (fun _ => rfl) (fun _ => ⟨rfl, rfl⟩) fun _ => .inl rfl

instance keeps_addOutput (link : Link) : Keeps (Rewires T) (addOutput n link) := by
  have : Keeps (Rewires T) (modifyNode n fun node => { node with outs := node.outs ++ [link] }) :=
    keeps_modifyNode (fun _ => rfl) (fun _ => ⟨rfl, rfl⟩) fun _ => .inl rfl
  unfold addOutput
  infer_instance

theorem keeps_addInput {n : NodeId} (hT : T n) (link : Link) :
    Keeps (Rewires T) (addInput n link) := by
  have : Keeps (Rewires T) (modifyNode n fun node => { node with ins := node.ins ++ [link] }) :=
    keeps_modifyNode (fun _ => rfl) (fun _ => ⟨rfl, rfl⟩) fun _ => .inr (.inr hT)
  unfold addInput
  infer_instance

theorem keeps_connect {source target : NodeId} (hT : T target) :
    Keeps (Rewires T) (connect source target) := by
  have := keeps_addInput hT (some source)
  unfold connect
  infer_instance

instance keeps_setOutTypes (row : RowId) : Keeps (Rewires T) (setOutTypes n row) := by
  constructor
  intro s _ t h
  unfold setOutTypes at h
  rw [liftM_eq_run, bind_of_ok (node_run n s)] at h
  cases hkind : (s.nodeAt n).kind with
  | branch var old =>
    rw [hkind] at h
    obtain ⟨-, rfl⟩ := EStateM.Result.ok.inj h
    refine .modify ?_ ⟨rfl, rfl⟩ fun _ _ => .inl rfl
    rw [rubric, hkind]
    rfl
  | _ =>
    rw [hkind] at h
    cases h

end Eval
end TypeFlow
