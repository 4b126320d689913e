import TypeFlow.Proofs.SteadyBodies

/-!
# Functions are steady

A function is read into a graph of its own. At its end, merges are put before the occurrences that
have several inputs, so that none is left with more than one.
-/

namespace TypeFlow

open List Store Eval

variable {α : Type} {s t : Store} {n : NodeId} {g : GraphId} {q : Option Bool} {K : List Charge}
  {o : Origin} {w w' : Walk} {outside : Bool} {G : Graph} {gs : List GraphId}

/-! ## Fewer inputs -/

theorem Graph.enter_symbols_of_none {kind : NodeKind}
    (h : kind.symbol? = none) : (G.enter n kind).symbols = G.symbols := by
  cases kind with
  | symbol info => cases h
  | _ => simp [enter, note_eq, indexNode, apply_ite Graph.symbols]

/-- Old symbols have at most one input if they had, and no graph files more symbols. -/
structure Store.Thins (s t : Store) : Prop where
  size : s.nodes.size ≤ t.nodes.size
  rubric : ∀ n, n.index < s.nodes.size → t.rubric n = s.rubric n
  narrow : ∀ n, n.index < s.nodes.size → (s.rubric n).symbol?.isSome →
    (s.nodeAt n).ins.length ≤ 1 → (t.nodeAt n).ins.length ≤ 1
  symbols : ∀ g, (t.graphAt g).symbols = (s.graphAt g).symbols

namespace Store.Thins

variable {u : Store}

theorem refl (s : Store) : s.Thins s :=
  ⟨Nat.le_refl _, fun _ _ => rfl, fun _ _ _ h => h, fun _ => rfl⟩

theorem trans (h : s.Thins t) (h' : t.Thins u) : s.Thins u where
  size := Nat.le_trans h.size h'.size
  rubric n hn := (h'.rubric n (Nat.lt_of_lt_of_le hn h.size)).trans (h.rubric n hn)
  narrow n hn hsymbol hlen := by
    refine h'.narrow n (Nat.lt_of_lt_of_le hn h.size) ?_ (h.narrow n hn hsymbol hlen)
    rw [h.rubric n hn]
    exact hsymbol
  symbols g := (h'.symbols g).trans (h.symbols g)

theorem of_rewires (h : s.Rewires (fun _ => False) t) : s.Thins t where
  size := h.size
  rubric := h.rubric
  narrow n hn hsymbol hlen := by
    by_contra hmany
    rw [← h.rubric n hn] at hsymbol
    rcases h.fan n hsymbol (by omega) with heq | hfalse
    · rw [heq] at hmany
      exact hmany hlen
    · exact hfalse
  symbols g := by simp only [graphAt, h.graphs]

theorem addedTo_ins (g? : Option GraphId) (m : NodeId) :
    ((s.addedTo g? n).nodeAt m).ins = (s.nodeAt m).ins := by
  cases g? with
  | none => rfl
  | some g => exact added_ins

/-- Nodes other than symbols are added. -/
theorem of_added (hn : (s.rubric n).symbol? = none) (g? : Option GraphId) :
    s.Thins (s.addedTo g? n) := by
  cases g? with
  | none => exact refl s
  | some g =>
    refine ⟨Nat.le_of_eq added_size.symm, fun m _ => congrFun added_rubric m,
      fun m _ _ hlen => ?_, fun k => ?_⟩
    · exact Nat.le_trans (Nat.le_of_eq (congrArg _ added_ins)) hlen
    · have hmodify (f : Graph → Graph) (hf : ∀ G, (f G).symbols = G.symbols) :
          (graphAt { s with graphs := s.graphs.modify g.index f } k).symbols =
            (s.graphAt k).symbols := by
        rw [graphAt_modify, apply_ite Graph.symbols, hf]
        split
        · rename_i hk
          rw [hk.1]
        · rfl
      change ((s.added g n).graphAt k).symbols = _
      unfold added
      split
      · exact hmodify _ fun _ => Graph.enter_symbols_of_none hn
      · exact hmodify _ fun _ => Graph.enter_symbols_of_none hn

end Store.Thins

namespace Build

open Program

variable {P : List Known}

set_option synthInstance.maxSize 1000

namespace Steady

/-! ## Parameters -/

instance visitParam (p : Param) : Steady q (visitParam p) := .of_builds (by
  unfold Build.visitParam
  infer_instance)

instance visitDefault (param : String) (default_ : Expr) (byClass : Bool) (visit : Build Unit)
    [Steady q visit] : Steady q (visitDefault param default_ byClass visit) := .of_builds (by
  unfold Build.visitDefault constantDefault computedDefault
  split
  · refine .andThen fun type => ?_
    cases type <;> infer_instance
  · infer_instance)

theorem visitParams {params : Params} {visit : Expr → Build Unit}
    (h : ∀ e ∈ params.initials, Steady q (visit e)) :
    Steady q (visitParams params visit) := .of_builds (by
  obtain ⟨positional, plain, variadic, keyword, keywordDefaults, mapping, defaults⟩ := params
  unfold Build.visitParams
  refine .andThen fun _ => .andThen fun _ => .andThen fun _ => .andThen fun _ => ?_
  refine .loopThen (fun e he _ => ?_) fun _ => .loopThen (fun e he _ => ?_) inferInstance
  · have := h e.2 (Params.mem_initials_of_align he)
    infer_instance
  · obtain ⟨p, default?⟩ := e
    cases default? with
    | none => infer_instance
    | some e =>
      have := h e (Params.mem_initials_of_zip he)
      infer_instance)

/-! ## Augmented assignments and imports -/

instance visitAugmented (op : BinaryOp) (pos : Position) (target value : Build Unit)
    [Steady q target] [Steady q value] :
    Steady q (visitAugmented op pos target value) := .of_builds (by
  have hflag (b : Bool) :
      Steady q (modify fun w : Walk => { w with augmented := b } : Build PUnit) :=
    modifies fun _ => ⟨⟨rfl, rfl, rfl, rfl⟩, rfl, rfl⟩
  unfold Build.visitAugmented
  infer_instance)

instance visitImport (names : List Import) : Steady q (visitImport names) :=
  modifies fun _ => ⟨⟨rfl, rfl, rfl, rfl⟩, rfl, rfl⟩

instance clearLatest : Steady q clearLatest := .of_builds (by
  have hclear (t : Tier) (ht : t ≠ .function) (v : Variables) :
      Steady q (setVariables t v) := of_walk fun _ w _ hw =>
    ⟨rfl, .withVariables t v w, hw.withVariables fun h => absurd h ht⟩
  unfold Build.clearLatest
  refine .loopThen (fun t ht _ => .andThen fun w => ?_) inferInstance
  have hne : t ≠ .function := by
    rintro rfl
    simp at ht
  have := hclear t hne
  split <;> infer_instance)

end Steady

/-! ## Results and classes -/

/-- The symbol of a result takes inputs while its value is read, and after that as a node of its
function. -/
instance Steady.visitReturn (pos : Position) (value : Build Unit) [hvalue : Steady q value] :
    Steady q (visitReturn pos value) := by
  have hlevel (loud : Bool) (h : loud ∈ q) : Levels loud (Build.visitReturn pos value) := by
    have := hvalue.level loud h
    unfold Build.visitReturn
    infer_instance
  refine ⟨?_, hlevel⟩
  intro o K w s hw
  unfold Build.visitReturn
  rw [meets_bind]
  cases hframes : w.functions with
  | nil =>
    unfold Build.resultSymbol
    simp [meets_bind, hframes]
  | cons f rest =>
    unfold Build.resultSymbol
    simp only [meets_bind, meets_get, hframes, meets_pure]
    refine ((Makes.newSymbol (q := q) _).run hw).imp fun n w₁ s₁ h₁ => ?_
    refine ((Steady.lift (q := q) (setPosition n pos)).run h₁.1).imp fun _ w₂ s₂ h₂ => ?_
    rw [meets_reading]
    refine (hvalue.run (h₂.1.pend fun _ => takes_waiting)).imp fun _ w₃ s₃ h₃ => ?_
    have hadds := addsAt_addNode n
    obtain ⟨hw₃, he, hlists⟩ := hadds.holds ((Offers.fresh_spare n []).offer h₃.1)
    have he₃ := h₃.2.trans he
    refine (meets_of_eq (hadds.apply (resumed w₃) s₃)).mpr
      ⟨hw₃.pend fun m hm => takes_resumed he₃ hm ?_,
        h₁.2.1.trans (h₂.2.trans (extends_resumed he₃))⟩
    have hlevel : w₃.functions.map (·.graph) = f.graph :: rest.map (·.graph) := by
      rw [he₃.level.functions]
      change w₂.functions.map (·.graph) = _
      rw [h₂.2.level.functions, h₁.2.1.level.functions, hframes]
      rfl
    have hmem : f.graph ∈ w₃.functions.map (·.graph) := hlevel ▸ .head _
    exact .inr (.inr ⟨f.graph, hmem, hlists f.graph (by rw [hlevel]; rfl)⟩)

theorem holds_withClasses (h : w.Holds o K s) (classes : List ClassFrame)
    (classNames : List String) : ({ w with classes, classNames } : Walk).Holds o K s where
  orderly := ⟨h.orderly.filed, h.orderly.numbered, { h.orderly.framed with }, h.orderly.held,
    h.orderly.fans⟩
  made := h.made
  clear e he := (h.clear e he).extend rfl id (fun _ hg hn => ⟨hg, hn⟩) h.orderly.framed.opened
  distinct := h.distinct

instance Steady.visitClass (name : String) (body : Build Unit) [hbody : Steady none body] :
    Steady none (visitClass name body) := by
  refine ⟨?_, fun _ h => absurd h (Option.not_mem_none _)⟩
  intro o K w s hw
  unfold Build.visitClass
  rw [meets_bind, meets_modify, meets_bind]
  refine (hbody.run (holds_withClasses hw _ _)).imp fun _ w' t h => ?_
  rw [meets_modify]
  refine ⟨holds_withClasses h.1 _ _, ⟨h.2.level.top, h.2.level.pending, h.2.level.functions, ?_⟩,
    h.2.graphs, h.2.nodes, h.2.listed, h.2.rubric⟩
  have hlength := h.2.level.classes
  rw [length_cons] at hlength
  rw [length_tail, hlength, Nat.add_sub_cancel]

/-! ## Functions -/

/-- A merge is put before a node that has several inputs. -/
theorem thins_mergeInputs (hw : w.Holds o K s) : Meets True (mergeInputs n) w s fun _ w' t =>
    (w'.Holds o K t ∧ w.Extends s w' t) ∧ s.Thins t ∧ (t.nodeAt n).ins.length ≤ 1 := by
  unfold mergeInputs
  rw [meets_bind, meets_liftTyping, meets_of_eq (node_run _ _)]
  dsimp only
  split
  · rw [meets_bind]
    refine meets_mergeName (fun _ => trivial) fun _ name => ?_
    refine meets_mergeWired (fun _ => ⟨rfl, rfl, rfl⟩) fun m t ht hm hlt hplain => ?_
    rw [meets_bind]
    refine ((Wires.loop (T := fun _ => False) fun link _ => ?_).run w t).imp ?_
    · cases link with
      | none => infer_instance
      | some i =>
        refine .andThen fun node => ?_
        have := keeps_modifyNode (T := fun _ => False) (n := i) (f := fun other =>
          { other with outs := node.outs.set (node.outs.idxOf (some n)) (some m) })
          (fun _ => rfl) (fun _ => ⟨rfl, rfl⟩) fun _ => .inl rfl
        split <;> infer_instance
    · rintro _ _ u ⟨rfl, hu⟩
      rw [meets_bind, meets_lift, meets_of_eq (modifyNode_apply ..)]
      have hone : u.Rewires (fun _ => False)
          { u with nodes := u.nodes.modify n.index fun node => { node with ins := [some m] } } :=
        .modify rfl ⟨rfl, rfl⟩ fun _ hlen => absurd hlen (Nat.lt_irrefl 1)
      have hrewires := (ht.trans hu).trans hone
      have hlt' := Nat.lt_of_lt_of_le hlt (hu.trans hone).size
      have hplain' := ((hu.trans hone).rubric m hlt).symm ▸ hplain
      have hfresh := hw.fresh (hw.rewires hrewires fun _ h => h.elim) hrewires.graphs
        (Nat.le_of_eq hm.symm) hlt'
      have hadds := addsAt_addNode m
      obtain ⟨hw', he, -⟩ := hadds.holds ((Offers.fresh_spare m []).offer hfresh)
      refine (meets_of_eq (hadds.apply _ _)).mpr ⟨⟨hw', .trans (.rewires hrewires) he⟩,
        .trans (.of_rewires hrewires) (.of_added hplain' _), ?_⟩
      rw [Thins.addedTo_ins, nodeAt_modify_of_any]
      split
      · exact Nat.le_refl 1
      · rename_i hout
        rw [nodeAt_of_le (Nat.not_lt.mp fun hlt => hout ⟨rfl, hlt⟩)]
        exact Nat.zero_le 1
  · exact ⟨⟨hw, .refl w s⟩, .refl s, by omega⟩

theorem thins_mergeEach {l : List NodeId} (hw : w.Holds o K s) :
    Meets True (l.forM mergeInputs) w s fun _ w' t => (w'.Holds o K t ∧ w.Extends s w' t) ∧
      s.Thins t ∧ ∀ n ∈ l, n.index < s.nodes.size → (s.rubric n).symbol?.isSome →
        (t.nodeAt n).ins.length ≤ 1 := by
  induction l generalizing w s with
  | nil => exact ⟨⟨hw, .refl w s⟩, .refl s, fun n hn => absurd hn not_mem_nil⟩
  | cons m rest ih =>
    refine meets_bind.mpr ((thins_mergeInputs hw).imp ?_)
    rintro _ w' t ⟨⟨hw', he⟩, ht, hm⟩
    refine (ih hw').imp ?_
    rintro _ w'' u ⟨⟨hw'', he'⟩, hu, hrest⟩
    refine ⟨⟨hw'', he.trans he'⟩, ht.trans hu, fun n hn hlt hsymbol => ?_⟩
    have hlt' := Nat.lt_of_lt_of_le hlt ht.size
    rw [← ht.rubric n hlt] at hsymbol
    rcases mem_cons.mp hn with rfl | hn
    · exact hu.narrow n hlt' hsymbol hm
    · exact hrest n hn hlt' hsymbol

/-- No occurrence in the graph of a function has several inputs in the end. -/
theorem thins_mergeAllInputs (hw : w.Holds o K s) (hg : o.Opened s g) :
    Meets True (mergeAllInputs g) w s fun _ w' t => (w'.Holds o K t ∧ w.Extends s w' t) ∧
      s.Thins t ∧ ∀ n ∈ (t.graphAt g).nodes, (t.rubric n).symbol?.isSome →
        (t.nodeAt n).ins.length ≤ 1 := by
  unfold mergeAllInputs
  rw [meets_bind, meets_liftTyping, meets_of_eq (graph_run _ _)]
  dsimp only
  split
  · trivial
  · rename_i hrole
    rw [meets_bind]
    refine (thins_mergeEach hw).imp ?_
    rintro _ w' t ⟨⟨hw', he⟩, ht, hmerged⟩
    refine (thins_mergeEach hw').imp ?_
    rintro _ w'' u ⟨⟨hw'', he'⟩, hu, -⟩
    have hsu := ht.trans hu
    refine ⟨⟨hw'', he.trans he'⟩, hsu, fun n hn hsymbol => ?_⟩
    have hgu : o.Opened u g := ⟨hg.1, Nat.lt_of_lt_of_le hg.2 (he.trans he').graphs⟩
    have hroleu : (u.graphAt g).isModule = false := by
      refine Bool.eq_false_iff.mpr fun h => hrole ((hw.orderly.framed.role g hg).mpr ?_)
      exact ((hw''.orderly.framed.role g hgu).mp h).trans (he.trans he').level.top
    -- the symbols that are filed in the end are those that were filed before
    have hfiles := (hw.orderly.filed.tidy g hg).symbols (by simpa using hrole)
    have hfilesu := (hw''.orderly.filed.tidy g hgu).symbols hroleu
    obtain ⟨info, hinfo⟩ := Option.isSome_iff_exists.mp hsymbol
    have hentry := hfilesu.mem_entry (k := info.symbol) hn (by simp [hinfo])
    rw [hsu.symbols, hfiles.entry] at hentry
    obtain ⟨hns, hkey⟩ := mem_filter.mp hentry
    have hlt := (hw.orderly.filed.made g n hg hns).2
    rw [hsu.rubric n hlt] at hsymbol
    refine hu.narrow n (Nat.lt_of_lt_of_le hlt ht.size) (ht.rubric n hlt ▸ hsymbol) ?_
    exact hmerged n (hfiles.mem_flatten hns (by simpa using hkey)) hlt hsymbol

end Build

/-! ## Entering and leaving functions -/

/-- Which graphs a node may be added to, wherever the walk is. -/
def Charge.settle (outside : Bool) : Charge → Charge
  | spare n => if outside then fresh n else inner n
  | e => e

namespace Charge

variable {e : Charge}

@[simp] theorem settle_node : (e.settle outside).node = e.node := by
  cases e <;> cases outside <;> rfl

theorem settle_clear (hopened : o.Opened s w.top) :
    (e.settle w.functions.isEmpty).Clear o w s ↔ e.Clear o w s := by
  cases e with
  | fresh n => exact Iff.rfl
  | inner n => exact Iff.rfl
  | spare n =>
    cases hframes : w.functions with
    | nil =>
      refine ⟨fun h => ⟨fun g hg _ => h g hg, fun _ => h _ hopened⟩, fun h g hg => ?_⟩
      by_cases htop : g = w.top
      · exact htop ▸ h.2 hframes
      · exact h.1 g hg htop
    | cons f rest =>
      refine ⟨fun h => ⟨h, fun hnil => ?_⟩, fun h => h.1⟩
      rw [hframes] at hnil
      cases hnil

/-- Other functions are being read. -/
theorem settle_reframe (h : (e.settle outside).Clear o w s) (htop : w'.top = w.top)
    (hlisted : ∀ g, o.Opened t g → e.node ∈ (t.graphAt g).nodes →
      o.Opened s g ∧ e.node ∈ (s.graphAt g).nodes) : (e.settle outside).Clear o w' t := by
  have hfresh {n : NodeId} (hn : n = e.node) (h : (fresh n).Clear o w s) :
      (fresh n).Clear o w' t := by
    subst hn
    exact fun g hg hn => h g (hlisted g hg hn).1 (hlisted g hg hn).2
  have hinner {n : NodeId} (hn : n = e.node) (h : (inner n).Clear o w s) :
      (inner n).Clear o w' t := by
    subst hn
    exact fun g hg hne hn => h g (hlisted g hg hn).1 (htop ▸ hne) (hlisted g hg hn).2
  cases e with
  | fresh n => exact hfresh rfl h
  | inner n => exact hinner rfl h
  | spare n =>
    cases outside with
    | true => exact hfresh rfl h
    | false => exact hinner rfl h

end Charge

namespace Walk

theorem holds_settle : w.Holds o (K.map (·.settle w.functions.isEmpty)) s ↔ w.Holds o K s := by
  have hnodes : (K.map (·.settle w.functions.isEmpty)).map (·.node) = K.map (·.node) := by
    simp
  constructor
  · intro h
    refine ⟨h.orderly, fun e he => ?_, fun e he => ?_, hnodes ▸ h.distinct⟩
    · simpa using h.made _ (mem_map_of_mem he)
    · exact (Charge.settle_clear h.orderly.framed.opened).mp (h.clear _ (mem_map_of_mem he))
  · intro h
    refine ⟨h.orderly, fun e he => ?_, fun e he => ?_, hnodes.symm ▸ h.distinct⟩
    · obtain ⟨e, hK, rfl⟩ := mem_map.mp he
      simpa using h.made e hK
    · obtain ⟨e, hK, rfl⟩ := mem_map.mp he
      exact (Charge.settle_clear h.orderly.framed.opened).mpr (h.clear e hK)

end Walk

def Store.opening (s : Store) (G : Graph) : Store := { s with graphs := s.graphs.push G }

/-- The store after a function was added to its module. -/
def Store.finishing (s : Store) (top g : GraphId) : Store :=
  { s with graphs := s.graphs.modify top.index fun G => { G with functions := G.functions ++ [g] } }

/-- The walk after the innermost function was left. -/
def Walk.left (w : Walk) : Walk := { w with functions := w.functions.tail }

/-- The walk inside of a function with a graph of its own. -/
def Walk.entered (w : Walk) (qualified name : String) (g : GraphId) : Walk :=
  { w with
    visited := w.visited ++ [qualified]
    functions := { name, graph := g } :: w.functions }

theorem Store.lt_of_listed (h : n ∈ (s.graphAt g).nodes) : g.index < s.graphs.size := by
  by_contra hle
  rw [graphAt, Array.getD_eq_getD_getElem?, Array.getElem?_eq_none (Nat.le_of_not_lt hle)] at h
  exact absurd h not_mem_nil

namespace Origin

theorem opening_self : (s.opening G).graphAt ⟨s.graphs.size⟩ = G := by
  rw [opening, graphAt_push, if_pos rfl]

theorem opening_of_opened (hg : o.Opened s g) : (s.opening G).graphAt g = s.graphAt g := by
  rw [opening, graphAt_push, if_neg (Nat.ne_of_lt hg.2)]

theorem Opened.opening (hg : o.Opened s g) : o.Opened (s.opening G) g :=
  ⟨hg.1, Nat.lt_of_lt_of_le hg.2 (Nat.le_of_lt (by simp [Store.opening]))⟩

theorem opened_opening (hg : o.Opened (s.opening G) g) : o.Opened s g ∨ g = ⟨s.graphs.size⟩ := by
  obtain ⟨i⟩ := g
  have hlt : i < s.graphs.size + 1 := by simpa [opening] using hg.2
  rcases Nat.lt_succ_iff_lt_or_eq.mp hlt with hlt | rfl
  · exact .inl ⟨hg.1, hlt⟩
  · exact .inr rfl

theorem Filed.opening (h : o.Filed s) (hnodes : G.nodes = []) (htidy : G.Tidy s.rubric) :
    o.Filed (s.opening G) where
  size := h.size
  made g n hg hn := by
    rcases opened_opening hg with hg | rfl
    · rw [opening_of_opened hg] at hn
      exact h.made g n hg hn
    · rw [opening_self, hnodes] at hn
      cases hn
  tidy g hg := by
    rcases opened_opening hg with hg | rfl
    · rw [opening_of_opened hg]
      exact h.tidy g hg
    · rw [opening_self]
      exact htidy

theorem Numbered.opening (h : o.Numbered s) (hnodes : G.nodes = []) : o.Numbered (s.opening G) where
  number n g hn hng := by
    obtain ⟨hg, hnumber⟩ := h.number n g hn hng
    rw [opening_of_opened hg]
    exact ⟨hg.opening, hnumber⟩
  distinct := h.distinct
  listed g n hg hn := by
    rcases opened_opening hg with hg | rfl
    · rw [opening_of_opened hg] at hn
      exact h.listed g n hg hn
    · rw [opening_self, hnodes] at hn
      cases hn

theorem Framed.entered (h : o.Framed w s) (hrole : G.isModule = false)
    (hname : '@' ∈ G.name.toList) (hnew : G.name ∉ w.visited) (name : String) :
    o.Framed (w.entered G.name name ⟨s.graphs.size⟩) (s.opening G) := by
  have hself : o.Opened (s.opening G) ⟨s.graphs.size⟩ :=
    ⟨Nat.le_trans h.opened.1 (Nat.le_of_lt h.opened.2), by simp [opening]⟩
  have hne {g : GraphId} (hg : o.Opened s g) : g ≠ ⟨s.graphs.size⟩ := by
    rintro rfl
    exact Nat.lt_irrefl _ hg.2
  have htop : (s.opening G).graphAt w.top = s.graphAt w.top := opening_of_opened h.opened
  constructor
  · exact h.top
  · exact h.opened.opening
  · intro g hg
    rcases opened_opening hg with hg | rfl
    · rw [opening_of_opened hg]
      exact h.role g hg
    · rw [opening_self, hrole]
      exact ⟨fun hf => absurd hf Bool.false_ne_true, fun heq => absurd heq.symm (hne h.opened)⟩
  · refine nodup_cons.mpr ⟨fun hmem => ?_, h.frames⟩
    exact hne (h.apart _ hmem).1 rfl
  · intro g hg
    change g ∈ (⟨s.graphs.size⟩ : GraphId) :: w.functions.map (·.graph) at hg
    change _ ∧ g ≠ w.top ∧ g ∉ ((s.opening G).graphAt w.top).functions
    rw [htop]
    rcases mem_cons.mp hg with rfl | hg
    · exact ⟨hself, (hne h.opened).symm, fun hmem => hne (h.functions _ hmem).1 rfl⟩
    · exact ⟨(h.apart g hg).1.opening, (h.apart g hg).2⟩
  · change ((s.opening G).graphAt w.top).functions.Nodup
    rw [htop]
    exact h.finished
  · intro g hg
    change g ∈ ((s.opening G).graphAt w.top).functions at hg
    rw [htop] at hg
    exact ⟨(h.functions g hg).1.opening, (h.functions g hg).2⟩
  · intro g hg hgtop
    rcases opened_opening hg with hg | rfl
    · rw [opening_of_opened hg]
      exact ⟨mem_append_left _ (h.visited g hg hgtop).1, (h.visited g hg hgtop).2⟩
    · rw [opening_self]
      exact ⟨mem_append_right _ (.head _), hname⟩
  · intro g k hg hk hgtop hktop heq
    -- names of functions that have been read are not taken again
    have hother {g : GraphId} (hg : o.Opened s g) (hgtop : g ≠ w.top) :
        (s.graphAt g).name ≠ G.name := fun heq => hnew (heq ▸ (h.visited g hg hgtop).1)
    rcases opened_opening hg with hg | rfl <;> rcases opened_opening hk with hk | rfl
    · rw [opening_of_opened hg, opening_of_opened hk] at heq
      exact h.names g k hg hk hgtop hktop heq
    · rw [opening_of_opened hg, opening_self] at heq
      exact absurd heq (hother hg hgtop)
    · rw [opening_of_opened hk, opening_self] at heq
      exact absurd heq.symm (hother hk hktop)
    · rfl
  · exact (congrArg _ htop).trans h.topName
  · intro g hg
    change g = w.top ∨ g ∈ (⟨s.graphs.size⟩ : GraphId) :: w.functions.map (·.graph) ∨
      g ∈ ((s.opening G).graphAt w.top).functions
    rw [htop, mem_cons]
    rcases opened_opening hg with hg | rfl
    · rcases h.all g hg with hg | hg | hg
      · exact .inl hg
      · exact .inr (.inl (.inr hg))
      · exact .inr (.inr hg)
    · exact .inr (.inl (.inl rfl))

theorem reopens_finishing (s : Store) (top g : GraphId) : s.Reopens (s.finishing top g) :=
  .modify (f := fun G => { G with functions := G.functions ++ [g] })
    (fun _ => ⟨rfl, fun _ h => h⟩) top

theorem finishing_functions (h : o.Framed w s) (g : GraphId) :
    ((s.finishing w.top g).graphAt w.top).functions = (s.graphAt w.top).functions ++ [g] := by
  rw [finishing, graphAt_modify, if_pos ⟨rfl, h.opened.2⟩]

/-- The innermost function is finished. -/
theorem Framed.left (h : o.Framed w s)
    (hframes : w.functions.map (·.graph) = g :: gs) : o.Framed w.left (s.finishing w.top g) := by
  have ht := reopens_finishing s w.top g
  have hfunctions := finishing_functions h g
  have hnodup := h.frames
  rw [hframes, nodup_cons] at hnodup
  obtain ⟨hopened, hne, hnew⟩ := h.apart g (hframes ▸ .head _)
  have htail : w.left.functions.map (·.graph) = gs := by
    change w.functions.tail.map (·.graph) = gs
    rw [map_tail, hframes, tail_cons]
  constructor
  · exact h.top
  · exact ht.opened.mpr h.opened
  · intro k hk
    rw [(ht.graph k).isModule]
    exact h.role k (ht.opened.mp hk)
  · exact htail ▸ hnodup.2
  · intro k hk
    rw [htail] at hk
    obtain ⟨hk₁, hk₂, hk₃⟩ := h.apart k (hframes ▸ .tail _ hk)
    refine ⟨ht.opened.mpr hk₁, hk₂, ?_⟩
    change k ∉ ((s.finishing w.top g).graphAt w.top).functions
    rw [hfunctions, mem_append, mem_singleton]
    rintro (hmem | rfl)
    · exact hk₃ hmem
    · exact hnodup.1 hk
  · change ((s.finishing w.top g).graphAt w.top).functions.Nodup
    rw [hfunctions]
    refine nodup_append.mpr ⟨h.finished, by simp, ?_⟩
    rintro a ha b hb rfl
    exact hnew (mem_singleton.mp hb ▸ ha)
  · intro k hk
    change k ∈ ((s.finishing w.top g).graphAt w.top).functions at hk
    rw [hfunctions, mem_append, mem_singleton] at hk
    rcases hk with hk | rfl
    · exact ⟨ht.opened.mpr (h.functions k hk).1, (h.functions k hk).2⟩
    · exact ⟨ht.opened.mpr hopened, hne⟩
  · intro k hk hktop
    rw [(ht.graph k).name]
    exact h.visited k (ht.opened.mp hk) hktop
  · intro k l hk hl hktop hltop heq
    rw [(ht.graph k).name, (ht.graph l).name] at heq
    exact h.names k l (ht.opened.mp hk) (ht.opened.mp hl) hktop hltop heq
  · exact ((ht.graph w.top).name).trans h.topName
  · intro k hk
    change k = w.top ∨ _ ∨ k ∈ ((s.finishing w.top g).graphAt w.top).functions
    rw [htail, hfunctions, mem_append, mem_singleton]
    rcases h.all k (ht.opened.mp hk) with hk | hk | hk
    · exact .inl hk
    · rw [hframes, mem_cons] at hk
      exact .inr (hk.elim (fun hk => .inr (.inr hk)) .inl)
    · exact .inr (.inr (.inl hk))

end Origin

namespace Walk

theorem Holds.entered (h : w.Holds o K s) (hnodes : G.nodes = []) (htidy : G.Tidy s.rubric)
    (hrole : G.isModule = false) (hname : '@' ∈ G.name.toList) (hnew : G.name ∉ w.visited)
    (name : String) : (w.entered G.name name ⟨s.graphs.size⟩).Holds o
      (K.map (·.settle w.functions.isEmpty)) (s.opening G) := by
  have hframe {f : FunctionFrame} (hf : f ∈ w.functions) :
      (s.opening G).graphAt f.graph = s.graphAt f.graph :=
    Origin.opening_of_opened (h.orderly.framed.apart _ (mem_map_of_mem hf)).1
  have hsettled := holds_settle.mpr h
  refine ⟨⟨h.orderly.filed.opening hnodes htidy, h.orderly.numbered.opening hnodes,
    h.orderly.framed.entered hrole hname hnew name, fun f hf n hn => ?_,
    fun n hn hsymbol hlen => ?_⟩, hsettled.made, fun e he => ?_, hsettled.distinct⟩
  · rcases mem_cons.mp hf with rfl | hf
    · cases hn
    · rw [hframe hf]
      exact h.orderly.held f hf n hn
  · rcases h.orderly.fans n hn hsymbol hlen with hplain | hpending | ⟨g, hg, hn⟩
    · exact .inl hplain
    · exact .inr (.inl hpending)
    · obtain ⟨f, hf, rfl⟩ := mem_map.mp hg
      refine .inr (.inr ⟨f.graph, .tail _ hg, ?_⟩)
      rw [hframe hf]
      exact hn
  · obtain ⟨e, hK, rfl⟩ := mem_map.mp he
    refine Charge.settle_reframe (hsettled.clear _ he) rfl fun g hg hn => ?_
    rcases Origin.opened_opening hg with hg | rfl
    · rw [Origin.opening_of_opened hg] at hn
      exact ⟨hg, hn⟩
    · rw [Origin.opening_self, hnodes] at hn
      cases hn

/-- No occurrence of a function that is left has several inputs. -/
theorem Holds.left (h : w.Holds o (K.map (·.settle outside)) s)
    (hframes : w.functions.map (·.graph) = g :: gs)
    (hthin : ∀ n ∈ (s.graphAt g).nodes, (s.rubric n).symbol?.isSome → (s.nodeAt n).ins.length ≤ 1) :
    w.left.Holds o (K.map (·.settle outside)) (s.finishing w.top g) := by
  have ht := Origin.reopens_finishing s w.top g
  refine ⟨⟨ht.filed h.orderly.filed, ht.numbered h.orderly.numbered, h.orderly.framed.left hframes,
    fun f hf n hn => ?_, fun n hn hsymbol hlen => ?_⟩, fun e he => ?_, fun e he => ?_, h.distinct⟩
  · rw [(ht.graph f.graph).nodes]
    exact h.orderly.held f (mem_of_mem_tail hf) n hn
  · rw [ht.rubric] at hsymbol
    rw [ht.nodeAt] at hlen
    rcases h.orderly.fans n (ht.made.mp hn) hsymbol hlen with hplain | hpending | ⟨k, hk, hnk⟩
    · rw [hplain.2] at hsymbol
      cases hsymbol
    · exact .inr (.inl hpending)
    · rw [hframes] at hk
      rcases mem_cons.mp hk with rfl | hk
      · exact absurd (hthin n hnk hsymbol) (Nat.not_le.mpr hlen)
      · refine .inr (.inr ⟨k, ?_, (ht.graph k).nodes ▸ hnk⟩)
        change k ∈ w.functions.tail.map (·.graph)
        rw [map_tail, hframes]
        exact hk
  · exact ht.made.mpr (h.made e he)
  · obtain ⟨e, hK, rfl⟩ := mem_map.mp he
    exact Charge.settle_reframe (h.clear _ he) rfl fun g hg hn =>
      ⟨ht.opened.mp hg, (ht.graph g).nodes ▸ hn⟩

end Walk

namespace Build

theorem newGraph_apply (G : Graph) (s : Store) :
    newGraph G s = .ok ⟨s.graphs.size⟩ (s.opening G) := rfl

theorem Steady.meets_then {β : Type} {x : Build α} {f : α → Build β}
    {Q : β → Walk → Store → Prop} (hx : Steady none x) (hw : w.Holds o K s)
    (h : ∀ a w' t, w'.Holds o K t → w.Extends s w' t → Meets True (f a) w' t Q) :
    Meets True (x >>= f) w s Q :=
  meets_bind.mpr ((hx.run hw).imp fun a w' t ht => h a w' t ht.1 ht.2)

/-- What is read inside of a function leaves the walk around it in order. -/
theorem meets_inside {q name : String} {params body : Build Unit}
    (hparams : Steady none params) (hbody : Steady none body) (hw : w.Holds o K s) (hG : G.name = q)
    (hnodes : G.nodes = []) (htidy : G.Tidy s.rubric) (hrole : G.isModule = false)
    (hat : '@' ∈ q.toList) (hnew : q ∉ w.visited) :
    Meets True (do
      clearLatest
      params
      body
      clearLatest
      mergeAllInputs ⟨s.graphs.size⟩
      addFunction (← get).top ⟨s.graphs.size⟩
      modify fun w => { w with functions := w.functions.tail })
      (w.entered q name ⟨s.graphs.size⟩) (s.opening G)
      fun _ w' t => w'.Holds o K t ∧ w.Extends s w' t := by
  subst hG
  have hclear : Steady none clearLatest := inferInstance
  refine hclear.meets_then (hw.entered hnodes htidy hrole hat hnew name) ?_
  intro _ w₁ s₁ hw₁ he₁
  refine hparams.meets_then hw₁ fun _ w₂ s₂ hw₂ he₂ => ?_
  refine hbody.meets_then hw₂ fun _ w₃ s₃ hw₃ he₃ => ?_
  refine hclear.meets_then hw₃ fun _ w₄ s₄ hw₄ he₄ => ?_
  have he := he₁.trans (he₂.trans (he₃.trans he₄))
  have hframes : w₄.functions.map (·.graph) = ⟨s.graphs.size⟩ :: w.functions.map (·.graph) :=
    he.level.functions
  have hopened := (hw₄.orderly.framed.apart ⟨s.graphs.size⟩ (hframes ▸ .head _)).1
  rw [meets_bind]
  refine (thins_mergeAllInputs hw₄ hopened).imp ?_
  rintro _ w₅ s₅ ⟨⟨hw₅, he₅⟩, -, hthin⟩
  rw [meets_bind, meets_get, meets_bind, meets_lift, addFunction,
    meets_of_eq (modifyGraph_apply ..), meets_modify]
  have hframes₅ := (he.trans he₅).level.functions
  have hleft := hw₅.left hframes₅ hthin
  have htail : w₅.left.functions.map (·.graph) = w.functions.map (·.graph) := by
    change w₅.functions.tail.map (·.graph) = _
    rw [map_tail, hframes₅]
    rfl
  have hempty : w₅.left.functions.isEmpty = w.functions.isEmpty := by
    simpa using congrArg isEmpty htail
  have hreopens := Origin.reopens_finishing s₅ w₅.top ⟨s.graphs.size⟩
  have hall := (he.trans he₅).trans (.reopens hreopens)
  refine ⟨Walk.holds_settle.mp (hempty ▸ hleft), ⟨hall.level.top, hall.level.pending, htail,
    hall.level.classes⟩, ?_, hall.nodes, fun g n hn => hall.listed g n ?_, hall.rubric⟩
  · exact Nat.le_trans (Nat.le_of_lt (by simp [opening])) hall.graphs
  · rw [opening, graphAt_push, if_neg (Nat.ne_of_lt (lt_of_listed hn))]
    exact hn

/-- A function is read in a graph of its own. -/
instance Steady.visitFunction (pos : Position) (name : String) (params body : Build Unit)
    [hparams : Steady none params] [hbody : Steady none body] :
    Steady none (visitFunction pos name params body) := by
  refine ⟨?_, fun _ h => absurd h (Option.not_mem_none _)⟩
  intro o K w s hw
  have hqualified : Meets True (qualifiedName name) w s fun q w' t =>
      '@' ∈ q.toList ∧ w' = w ∧ t = s := ⟨by simp, rfl, rfl⟩
  have hwanted (q : String) : Meets True (isWanted q) w s fun wanted w' t =>
      (wanted = true → q ∉ w.visited) ∧ w' = w ∧ t = s := by
    refine ⟨fun h => ?_, rfl, rfl⟩
    simpa using (Bool.and_eq_true_iff.mp h).2
  unfold Build.visitFunction
  rw [meets_bind]
  refine hqualified.imp ?_
  rintro q _ _ ⟨hat, rfl, rfl⟩
  rw [meets_bind]
  refine (hwanted q).imp ?_
  rintro wanted _ _ ⟨hnew, rfl, rfl⟩
  cases wanted with
  | false => exact ⟨hw, .refl _ _⟩
  | true =>
    simp only [if_true]
    rw [meets_bind, meets_get, meets_bind, meets_lift, meets_of_eq (newGraph_apply ..),
      meets_bind, meets_modify]
    exact meets_inside hparams hbody hw rfl rfl (.of_blank rfl rfl) rfl hat (hnew rfl)

/-- Every rule for expressions leaves the walk orderly. -/
theorem steady_exprs {around : Build Unit → Build Unit}
    (hvisit : ∀ {x}, Steady q x → Steady q (around x)) :
    ExprRules around (fun _ => True) (Steady q) where
  visit := hvisit
  skip := .of_builds inferInstance
  seq _ _ := .of_builds inferInstance
  choice h := .visitChoice h
  operation _ := inferInstance
  used _ := inferInstance
  lambda := inferInstance
  branching _ _ _ _ _ := inferInstance
  display _ := inferInstance
  clause _ _ _ := inferInstance
  comprehension _ _ := inferInstance
  yield _ := inferInstance
  comparisons _ := .visitComparisons
  call _ _ := inferInstance
  constant := inferInstance
  member _ _ := inferInstance
  subscript _ _ := inferInstance
  name _ := inferInstance
  sequence _ := inferInstance

end Build

end TypeFlow
