import TypeFlow.Proofs.Filing
import TypeFlow.Proofs.Nesting

/-!
# Nodes in hand

A node is made before it is added to a graph, and no graph may list it twice. A walk is orderly
when its graphs are in step with their lists, its numbers are distinct, and no symbol has several
inputs but those that may still take some. What a computation does to an orderly walk depends on
the nodes that are in hand, which are made but not yet listed, and on what is known of others.
-/

namespace TypeFlow

open Store List

variable {α β γ : Type} {w w' : Walk} {s t : Store} {p : Known}

/-! ## Orderly walks -/

/-- The graphs that a walk has opened: that of the module, those of the functions that have been
read and those of the functions that are being read. No two functions have the same name. -/
structure Origin.Framed (o : Origin) (w : Walk) (s : Store) : Prop where
  top : w.top = ⟨o.graphs⟩
  opened : o.Opened s w.top
  role : ∀ g, o.Opened s g → ((s.graphAt g).isModule = true ↔ g = w.top)
  frames : (w.functions.map (·.graph)).Nodup
  apart : ∀ g ∈ w.functions.map (·.graph),
    o.Opened s g ∧ g ≠ w.top ∧ g ∉ (s.graphAt w.top).functions
  finished : (s.graphAt w.top).functions.Nodup
  functions : ∀ g ∈ (s.graphAt w.top).functions, o.Opened s g ∧ g ≠ w.top
  visited : ∀ g, o.Opened s g → g ≠ w.top →
    (s.graphAt g).name ∈ w.visited ∧ '@' ∈ (s.graphAt g).name.toList
  names : ∀ g h, o.Opened s g → o.Opened s h → g ≠ w.top → h ≠ w.top →
    (s.graphAt g).name = (s.graphAt h).name → g = h
  topName : (s.graphAt w.top).name = o.name
  all : ∀ g, o.Opened s g →
    g = w.top ∨ g ∈ w.functions.map (·.graph) ∨ g ∈ (s.graphAt w.top).functions

/-- Only names, roles and functions of graphs matter. -/
theorem Origin.Framed.congr {o : Origin} (h : o.Framed w s)
    (hopened : ∀ g, o.Opened t g ↔ o.Opened s g)
    (hname : ∀ g, (t.graphAt g).name = (s.graphAt g).name)
    (hrole : ∀ g, (t.graphAt g).isModule = (s.graphAt g).isModule)
    (hfunctions : ∀ g, (t.graphAt g).functions = (s.graphAt g).functions) (htop : w'.top = w.top)
    (hframes : w'.functions.map (·.graph) = w.functions.map (·.graph))
    (hvisited : w'.visited = w.visited) : o.Framed w' t where
  top := htop.trans h.top
  opened := by
    rw [htop, hopened]
    exact h.opened
  role g hg := by
    rw [hrole, htop]
    exact h.role g ((hopened g).mp hg)
  frames := hframes ▸ h.frames
  apart g hg := by
    rw [hopened, htop, hfunctions]
    exact h.apart g (hframes ▸ hg)
  finished := by
    rw [htop, hfunctions]
    exact h.finished
  functions g hg := by
    rw [htop, hfunctions] at hg
    rw [hopened, htop]
    exact h.functions g hg
  visited g hg hne := by
    rw [hname, hvisited]
    exact h.visited g ((hopened g).mp hg) (htop ▸ hne)
  names g k hg hk hgtop hktop heq := by
    rw [hname, hname] at heq
    exact h.names g k ((hopened g).mp hg) ((hopened k).mp hk) (htop ▸ hgtop) (htop ▸ hktop) heq
  topName := by
    rw [htop, hname]
    exact h.topName
  all g hg := by
    rw [htop, hframes, hfunctions]
    exact h.all g ((hopened g).mp hg)

namespace Walk

/-- A node that may take several inputs: it is no symbol, its operands are being read, or it is
listed in the graph of a function that is being read. -/
def Takes (w : Walk) (s : Store) (n : NodeId) : Prop :=
  (n.index < s.nodes.size ∧ (s.rubric n).symbol? = none) ∨ n ∈ w.pending ∨
    ∃ g ∈ w.functions.map (·.graph), n ∈ (s.graphAt g).nodes

theorem mem_pending_of_consumer {w : Walk} {unused : Bool} {n : NodeId}
    (h : w.consumer unused = some n) : n ∈ w.pending := by
  unfold consumer at h
  split at h
  · cases h
  · exact mem_of_mem_head? h

/-- The graphs of a walk are in order. The current nodes of a function are listed in its graph. -/
structure Orderly (o : Origin) (w : Walk) (s : Store) : Prop where
  filed : o.Filed s
  numbered : o.Numbered s
  framed : o.Framed w s
  held : ∀ f ∈ w.functions, ∀ n, some n ∈ f.vars.latest.values → n ∈ (s.graphAt f.graph).nodes
  fans : ∀ n, o.Made s n → (s.rubric n).symbol?.isSome → 1 < (s.nodeAt n).ins.length →
    w.Takes s n

/-- The same functions, operations and classes are being read, with the same variables of
functions. -/
structure Stays (w w' : Walk) : Prop where
  level : w.Level w'
  functions : w'.functions = w.functions
  visited : w'.visited = w.visited

/-- A walk has gone on: what was listed is still listed, under the same rubrics. -/
structure Extends (w : Walk) (s : Store) (w' : Walk) (t : Store) : Prop where
  level : w.Level w'
  graphs : s.graphs.size ≤ t.graphs.size
  nodes : s.nodes.size ≤ t.nodes.size
  listed : ∀ g n, n ∈ (s.graphAt g).nodes → n ∈ (t.graphAt g).nodes
  rubric : ∀ n, n.index < s.nodes.size → t.rubric n = s.rubric n

variable {o : Origin} {w w' w'' : Walk} {s t u : Store} {n m : NodeId} {g : GraphId}

theorem Extends.refl (w : Walk) (s : Store) : w.Extends s w s :=
  ⟨.refl w, Nat.le_refl _, Nat.le_refl _, fun _ _ h => h, fun _ _ => rfl⟩

theorem Extends.trans (h : w.Extends s w' t) (h' : w'.Extends t w'' u) : w.Extends s w'' u where
  level := h.level.trans h'.level
  graphs := Nat.le_trans h.graphs h'.graphs
  nodes := Nat.le_trans h.nodes h'.nodes
  listed g n hn := h'.listed g n (h.listed g n hn)
  rubric n hn := (h'.rubric n (Nat.lt_of_lt_of_le hn h.nodes)).trans (h.rubric n hn)

theorem Takes.extend (h : w.Takes s n) (he : w.Extends s w' t) : w'.Takes t n := by
  rcases h with ⟨hlt, hsymbol⟩ | hpending | ⟨g, hg, hn⟩
  · exact .inl ⟨Nat.lt_of_lt_of_le hlt he.nodes, he.rubric n hlt ▸ hsymbol⟩
  · exact .inr (.inl (he.level.pending ▸ hpending))
  · exact .inr (.inr ⟨g, he.level.functions ▸ hg, he.listed g n hn⟩)

theorem Extends.of_level (h : w.Level w') : w.Extends s w' s :=
  ⟨h, Nat.le_refl _, Nat.le_refl _, fun _ _ h => h, fun _ _ => rfl⟩

theorem Extends.rewires {T : NodeId → Prop} (h : s.Rewires T t) : w.Extends s w t where
  level := .refl w
  graphs := Nat.le_of_eq (congrArg _ h.graphs.symm)
  nodes := h.size
  listed g n hn := by simpa only [graphAt, h.graphs] using hn
  rubric := h.rubric

theorem Extends.added (hg : g.index < s.graphs.size) : w.Extends s w (s.added g n) where
  level := .refl w
  graphs := Nat.le_of_eq added_graphs.symm
  nodes := Nat.le_of_eq added_size.symm
  listed k m hm := by
    rw [added_nodes hg]
    split
    · exact mem_append_left _ hm
    · exact hm
  rubric _ _ := by rw [added_rubric]

namespace Orderly

variable {V : Variables} {f : FunctionFrame}

section

variable (h : w.Orderly o s)

include h

/-- Nodes are made and wired. -/
theorem rewires {T : NodeId → Prop} (hr : s.Rewires T t)
    (hT : ∀ n, T n → w.Takes s n) : w.Orderly o t := by
  have hgraph (g : GraphId) : t.graphAt g = s.graphAt g := by simp only [graphAt, hr.graphs]
  have hopened (g : GraphId) : o.Opened t g ↔ o.Opened s g := by
    rw [Origin.Opened, Origin.Opened, hr.graphs]
  have hold {n : NodeId} (hn : o.Made t n) (hlt : n.index < s.nodes.size) : o.Made s n :=
    ⟨hn.1, hlt⟩
  have hnew {n : NodeId} {g : GraphId} (hn : (t.nodeAt n).graph = some g) :
      n.index < s.nodes.size := by
    by_contra hle
    rw [hr.unnumbered n (Nat.le_of_not_lt hle)] at hn
    cases hn
  constructor
  · constructor
    · exact Nat.le_trans h.filed.size hr.size
    · intro g n hg hn
      rw [hopened] at hg
      rw [hgraph] at hn
      have hmade := h.filed.made g n hg hn
      exact ⟨hmade.1, Nat.lt_of_lt_of_le hmade.2 hr.size⟩
    · intro g hg
      rw [hopened] at hg
      rw [hgraph]
      exact (h.filed.tidy g hg).congr fun n hn => hr.rubric n (h.filed.made g n hg hn).2
  · constructor
    · intro n g hn hng
      have hlt := hnew hng
      rw [hopened, hgraph, (hr.number n hlt).2]
      rw [(hr.number n hlt).1] at hng
      exact h.numbered.number n g (hold hn hlt) hng
    · intro n m g hn hm hng hmg hid
      have hnlt := hnew hng
      have hmlt := hnew hmg
      rw [(hr.number n hnlt).1] at hng
      rw [(hr.number m hmlt).1] at hmg
      rw [(hr.number n hnlt).2, (hr.number m hmlt).2] at hid
      exact h.numbered.distinct n m g (hold hn hnlt) (hold hm hmlt) hng hmg hid
    · intro g n hg hn
      rw [hopened] at hg
      rw [hgraph] at hn
      rw [(hr.number n (h.filed.made g n hg hn).2).1]
      exact h.numbered.listed g n hg hn
  · exact h.framed.congr hopened (fun g => by rw [hgraph]) (fun g => by rw [hgraph])
      (fun g => by rw [hgraph]) rfl rfl rfl
  · intro f hfm n hn
    rw [hgraph]
    exact h.held f hfm n hn
  · intro n hn hsymbol hlen
    refine Takes.extend ?_ (.rewires hr)
    rcases hr.fan n hsymbol hlen with heq | hTn
    · by_cases hlt : n.index < s.nodes.size
      · rw [hr.rubric n hlt] at hsymbol
        rw [heq] at hlen
        exact h.fans n (hold hn hlt) hsymbol hlen
      · rw [heq, nodeAt_of_le (Nat.le_of_not_lt hlt)] at hlen
        exact absurd hlen (by decide)
    · exact hT n hTn

/-- A node is added to a graph that does not list it. -/
theorem added (hg : o.Opened s g) (hn : o.Made s n)
    (hnew : n ∉ (s.graphAt g).nodes) : w.Orderly o (s.added g n) := by
  constructor
  · exact h.filed.added hg hn hnew
  · exact h.numbered.added hg hn
  · exact h.framed.congr (fun k => by rw [Origin.Opened, Origin.Opened, added_graphs])
      (fun _ => added_name hg.2) (fun _ => added_isModule hg.2)
      (fun _ => added_functions hg.2) rfl rfl rfl
  · intro f hf m hm
    exact (Extends.added (w := w) hg.2).listed f.graph m (h.held f hf m hm)
  · intro m hm hsymbol hlen
    rw [Origin.Made, added_size] at hm
    rw [added_rubric] at hsymbol
    rw [added_ins] at hlen
    exact (h.fans m hm hsymbol hlen).extend (.added hg.2)

theorem congr (hl : w.Level w') (hvisited : w'.visited = w.visited)
    (hheld : ∀ f ∈ w'.functions, ∀ n, some n ∈ f.vars.latest.values →
      n ∈ (s.graphAt f.graph).nodes) : w'.Orderly o s where
  filed := h.filed
  numbered := h.numbered
  framed := h.framed.congr (fun _ => .rfl) (fun _ => rfl) (fun _ => rfl) (fun _ => rfl) hl.top
    hl.functions hvisited
  held := hheld
  fans n hn hsymbol hlen := (h.fans n hn hsymbol hlen).extend (.of_level hl)

theorem pend {pending : List NodeId}
    (hT : ∀ n, w.Takes s n → ({ w with pending } : Walk).Takes s n) :
    ({ w with pending } : Walk).Orderly o s :=
  { h with
    framed := { h.framed with }
    fans := fun n hn hsymbol hlen => hT n (h.fans n hn hsymbol hlen) }

theorem stays (hw : w.Stays w') : w'.Orderly o s :=
  h.congr hw.level hw.visited (hw.functions ▸ h.held)

/-- The variables of a scope change. The current nodes of a function have to be listed. -/
theorem withVariables {t : Tier}
    (hV : t = .function → ∀ f ∈ w.functions.head?, ∀ n, some n ∈ V.latest.values →
      n ∈ (s.graphAt f.graph).nodes) :
    (Build.withVariables t V w).Orderly o s := by
  refine h.congr (.withVariables t V w) ?_ ?_
  · cases t <;> rfl
  · cases t with
    | module => exact h.held
    | class_ => exact h.held
    | function =>
      intro f hf n hn
      cases hw : w.functions with
      | nil => simp [Build.withVariables, hw] at hf
      | cons g rest =>
        simp only [Build.withVariables, hw, modifyHead_cons, mem_cons] at hf
        rcases hf with rfl | hf
        · exact hV rfl g (by simp [hw]) n hn
        · exact h.held f (by simp [hw, hf]) n hn

theorem held_head (hV : Build.vars? .function w = some V)
    (hf : f ∈ w.functions.head?) (hn : some n ∈ V.latest.values) :
    n ∈ (s.graphAt f.graph).nodes := by
  refine h.held f (mem_of_mem_head? hf) n ?_
  obtain rfl : f.vars = V := by simpa [Build.vars?, Option.mem_def.mp hf] using hV
  exact hn

theorem takes_held (hf : f ∈ w.functions) (hn : some n ∈ f.vars.latest.values) :
    w.Takes s n :=
  .inr (.inr ⟨f.graph, mem_map_of_mem hf, h.held f hf n hn⟩)

theorem restrict {t : Tier} {V' : Variables} (hV : Build.vars? t w = some V)
    (hsub : ∀ n, some n ∈ V'.latest.values → some n ∈ V.latest.values) :
    (Build.withVariables t V' w).Orderly o s := by
  refine h.withVariables ?_
  rintro rfl f hf n hn
  exact h.held_head hV hf (hsub n hn)

end

end Orderly
end Walk

/-- The store after a node was added to a graph, if there is one to add it to. -/
def Store.addedTo (s : Store) (g? : Option GraphId) (n : NodeId) : Store := g?.elim s (s.added · n)

/-- The graph to which nodes are added. Those of a class body belong to none. -/
def Walk.listing (w : Walk) : Option GraphId :=
  match w.functions.map (·.graph), w.classes.length with
  | g :: _, _ => some g
  | [], 0 => some w.top
  | [], _ + 1 => none

/-! ## What is in hand and what is known -/

/-- A node in hand, and where it may be added: to any graph, to the graph at hand, or to the graph
of the function at hand. -/
inductive Charge where
  | fresh (n : NodeId)
  | spare (n : NodeId)
  | inner (n : NodeId)

namespace Charge

def node : Charge → NodeId
  | fresh n | spare n | inner n => n

/-- No graph to which the node may be added lists it. -/
def Clear (o : Origin) (w : Walk) (s : Store) : Charge → Prop
  | fresh n => ∀ g, o.Opened s g → n ∉ (s.graphAt g).nodes
  | spare n => (∀ g, o.Opened s g → g ≠ w.top → n ∉ (s.graphAt g).nodes) ∧
      (w.functions = [] → n ∉ (s.graphAt w.top).nodes)
  | inner n => ∀ g, o.Opened s g → g ≠ w.top → n ∉ (s.graphAt g).nodes

variable {o : Origin} {w w' : Walk} {s t : Store} {e : Charge}

/-- The walk goes on, and no graph of before lists the node anew. -/
theorem Clear.extend (h : e.Clear o w s) (htop : w'.top = w.top)
    (hframes : w'.functions = [] → w.functions = [])
    (hlisted : ∀ g, o.Opened t g → e.node ∈ (t.graphAt g).nodes →
      o.Opened s g ∧ e.node ∈ (s.graphAt g).nodes) (hopened : o.Opened t w.top) :
    e.Clear o w' t := by
  cases e with
  | fresh n => exact fun g hg hn => h g (hlisted g hg hn).1 (hlisted g hg hn).2
  | spare n =>
    refine ⟨fun g hg hne hn => ?_, fun hw hn => ?_⟩
    · exact h.1 g (hlisted g hg hn).1 (htop ▸ hne) (hlisted g hg hn).2
    · rw [htop] at hn
      exact h.2 (hframes hw) (hlisted w.top hopened hn).2
  | inner n =>
    intro g hg hne hn
    exact h g (hlisted g hg hn).1 (htop ▸ hne) (hlisted g hg hn).2

end Charge

namespace Walk

variable {o : Origin} {w w' : Walk} {s t : Store} {n : NodeId} {g : GraphId} {e : Charge}
  {K : List Charge}

/-- An orderly walk with some nodes in hand. -/
structure Holds (o : Origin) (K : List Charge) (w : Walk) (s : Store) : Prop where
  orderly : w.Orderly o s
  made : ∀ e ∈ K, o.Made s e.node
  clear : ∀ e ∈ K, e.Clear o w s
  distinct : (K.map (·.node)).Nodup

namespace Holds

theorem drop {K' : List Charge} (h : w.Holds o (K' ++ K) s) : w.Holds o K s where
  orderly := h.orderly
  made e he := h.made e (mem_append_right _ he)
  clear e he := h.clear e (mem_append_right _ he)
  distinct := by
    have := h.distinct
    rw [map_append] at this
    exact this.of_append_right

theorem tail (h : w.Holds o (e :: K) s) : w.Holds o K s := drop (show w.Holds o ([e] ++ K) s from h)

/-- The walk changes, and the graphs do not. -/
theorem congr (h : w.Holds o K s) (hl : w.Level w') (hw : w'.Orderly o s) : w'.Holds o K s where
  orderly := hw
  made := h.made
  clear e he := by
    refine (h.clear e he).extend hl.top (fun hnil => ?_) (fun _ hg hn => ⟨hg, hn⟩)
      h.orderly.framed.opened
    have hmap := hl.functions
    rw [hnil] at hmap
    exact map_eq_nil_iff.mp hmap.symm
  distinct := h.distinct

theorem pend (h : w.Holds o K s) {pending : List NodeId}
    (hT : ∀ n, w.Takes s n → ({ w with pending } : Walk).Takes s n) :
    ({ w with pending } : Walk).Holds o K s :=
  ⟨h.orderly.pend hT, h.made, fun e he => (h.clear e he).extend rfl id (fun _ hg hn => ⟨hg, hn⟩)
    h.orderly.framed.opened, h.distinct⟩

/-- Nodes are made and wired. -/
theorem rewires {T : NodeId → Prop} (h : w.Holds o K s) (hr : s.Rewires T t)
    (hT : ∀ n, T n → w.Takes s n) : w.Holds o K t where
  orderly := h.orderly.rewires hr hT
  made e he := ⟨(h.made e he).1, Nat.lt_of_lt_of_le (h.made e he).2 hr.size⟩
  clear e he := by
    have hopened (g : GraphId) : o.Opened t g ↔ o.Opened s g := by
      rw [Origin.Opened, Origin.Opened, hr.graphs]
    refine (h.clear e he).extend rfl id (fun g hg hn => ?_)
      ((hopened _).mpr h.orderly.framed.opened)
    rw [graphAt, hr.graphs] at hn
    exact ⟨(hopened g).mp hg, hn⟩
  distinct := h.distinct

/-- A node that has just been made is in hand. -/
theorem fresh (h : w.Holds o K s) (ht : w.Holds o K t) (hr : t.graphs = s.graphs)
    (hle : s.nodes.size ≤ n.index) (hlt : n.index < t.nodes.size) :
    w.Holds o (.fresh n :: K) t where
  orderly := ht.orderly
  made e he := by
    rcases mem_cons.mp he with rfl | he
    · exact ⟨Nat.le_trans h.orderly.filed.size hle, hlt⟩
    · exact ht.made e he
  clear e he := by
    rcases mem_cons.mp he with rfl | he
    · intro g hg hn
      rw [graphAt, hr] at hn
      rw [Origin.Opened, hr] at hg
      exact absurd (h.orderly.filed.made g n hg hn).2 (Nat.not_lt.mpr hle)
    · exact ht.clear e he
  distinct := by
    rw [map_cons, nodup_cons]
    refine ⟨fun hn => ?_, h.distinct⟩
    obtain ⟨e, he, heq⟩ := mem_map.mp hn
    have := (h.made e he).2
    rw [heq] at this
    exact absurd this (Nat.not_lt.mpr hle)

/-- A node in hand is added to a graph that does not list it. -/
theorem list (h : w.Holds o (e :: K) s) (hg : o.Opened s g)
    (hnew : e.node ∉ (s.graphAt g).nodes) : w.Holds o K (s.added g e.node) where
  orderly := h.orderly.added hg (h.made e (.head _)) hnew
  made e' he := by
    rw [Origin.Made, added_size]
    exact h.made e' (.tail _ he)
  clear e' he := by
    have hne : e'.node ≠ e.node := by
      have := h.distinct
      rw [map_cons, nodup_cons] at this
      exact fun heq => this.1 (heq ▸ mem_map_of_mem he)
    refine (h.clear e' (.tail _ he)).extend rfl id (fun k hk hn => ?_) ?_
    · rw [Origin.Opened, added_graphs] at hk
      rw [added_nodes hg.2] at hn
      refine ⟨hk, ?_⟩
      split at hn
      · exact (mem_append.mp hn).resolve_right fun h => hne (mem_singleton.mp h)
      · exact hn
    · rw [Origin.Opened, added_graphs]
      exact h.orderly.framed.opened
  distinct := by
    have := h.distinct
    rw [map_cons] at this
    exact this.of_cons

/-- What may be added to more graphs may be added to fewer. -/
theorem weaken {e' : Charge} (h : w.Holds o (e :: K) s) (hnode : e'.node = e.node)
    (hclear : e'.Clear o w s) : w.Holds o (e' :: K) s where
  orderly := h.orderly
  made a ha := by
    rcases mem_cons.mp ha with rfl | ha
    · exact hnode ▸ h.made e (.head _)
    · exact h.made a (.tail _ ha)
  clear a ha := by
    rcases mem_cons.mp ha with rfl | ha
    · exact hclear
    · exact h.clear a (.tail _ ha)
  distinct := by simpa only [map_cons, hnode] using h.distinct

theorem perm {K' : List Charge} (h : w.Holds o K s) (hK : K.Perm K') : w.Holds o K' s where
  orderly := h.orderly
  made e he := h.made e (hK.mem_iff.mpr he)
  clear e he := h.clear e (hK.mem_iff.mpr he)
  distinct := (hK.map _).nodup_iff.mp h.distinct

/-- A node that was added to the graph of the module may be added to that of a function. -/
theorem listTop (h : w.Holds o (.fresh n :: K) s) :
    w.Holds o (.inner n :: K) (s.added w.top n) := by
  have hopened := h.orderly.framed.opened
  have hclear : (Charge.fresh n).Clear o w s := h.clear _ (.head _)
  have hlist := h.list hopened (hclear w.top hopened)
  refine ⟨hlist.orderly, fun e he => ?_, fun e he => ?_, h.distinct⟩
  · rcases mem_cons.mp he with rfl | he
    · rw [Origin.Made, added_size]
      exact h.made (.fresh n) (.head _)
    · exact hlist.made e he
  · rcases mem_cons.mp he with rfl | he
    · intro g hg hne hn
      rw [Origin.Opened, added_graphs] at hg
      rw [added_nodes hopened.2, if_neg hne] at hn
      exact hclear g hg hn
    · exact hlist.clear e he

end Holds
end Walk

/-- What is known of a walk and stays true: a node may take inputs, a node is listed in the graph
of the function at hand, or the current nodes of that function in a snapshot are. -/
inductive Known where
  | target (n : NodeId)
  | listed (n : NodeId)
  | taken (S : Build.Snapshot)

/-- The node is listed in the graph of the function at hand, if there is one. -/
def Walk.Lists (w : Walk) (s : Store) (n : NodeId) : Prop :=
  ∀ g ∈ (w.functions.map (·.graph)).head?, n ∈ (s.graphAt g).nodes

def Known.Holds (w : Walk) (s : Store) : Known → Prop
  | target n => w.Takes s n
  | listed n => w.Lists s n
  | taken S => ∀ V ∈ S.function, ∀ n, some n ∈ V.latest.values → w.Lists s n

theorem Known.forall_cons {P : List Known} (hp : p.Holds w s) (hP : ∀ q ∈ P, q.Holds w s) :
    ∀ q ∈ p :: P, q.Holds w s :=
  forall_mem_cons.mpr ⟨hp, hP⟩

theorem Walk.Lists.extend {n : NodeId} (h : w.Lists s n) (he : w.Extends s w' t) :
    w'.Lists t n := by
  intro g hg
  rw [he.level.functions] at hg
  exact he.listed g n (h g hg)

theorem Known.Holds.extend (h : p.Holds w s) (he : w.Extends s w' t) : p.Holds w' t := by
  cases p with
  | target n => exact Walk.Takes.extend h he
  | listed n => exact Walk.Lists.extend h he
  | taken S => exact fun V hV n hn => (h V hV n hn).extend he

end TypeFlow
