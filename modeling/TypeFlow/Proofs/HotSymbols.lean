import TypeFlow.Proofs.Dominance
import TypeFlow.Proofs.Filing

/-!
# Hot variables

The search for hot variables starts with all variables without types. Those that another one
dominates leave, and then those that the others dominate together. Each time they leave all at once,
and still the hot variables cover every variable without types (`hotSymbols_cover`).
-/

namespace TypeFlow

open List

variable {g : GraphId} {n : NodeId} {queue : List NodeId} {s : Store}

namespace Eval

open Store Classical

/-- A node's only type is `None`. -/
def IsOnlyNone (s : Store) (n : NodeId) : Prop :=
  ∃ t, s.rowAt (s.nodeAt n).types = [.type t] ∧ Text.lower (s.typeAt t).name = "none"

/-- A result of a function into which nothing flows. -/
def IsIdleReturn (s : Store) (n : NodeId) : Prop :=
  (s.nodeAt n).kind.symbol?.any (·.context = "Return") = true ∧ (s.nodeAt n).ins = []

theorem mem_withoutNodes {removed : List NodeId} (h : queue.Nodup) :
    n ∈ withoutNodes queue removed ↔ n ∈ queue ∧ n ∉ removed := by
  rw [withoutNodes, ← diff_eq_foldl, h.mem_sdiff_iff]

theorem nodup_withoutNodes (h : queue.Nodup) (removed : List NodeId) :
    (withoutNodes queue removed).Nodup := by
  rw [withoutNodes, ← diff_eq_foldl]
  exact h.diff

theorem isOnlyNone_run (hn : (s.nodeAt n).kind ≠ .base)
    (htypes : ∀ e ∈ s.rowAt (s.nodeAt n).types, ∃ t, e = .type t) :
    isOnlyNone n s = .ok (decide (IsOnlyNone s n)) s := by
  refine (bind_of_ok (typesAt_run hn) _).trans ?_
  unfold IsOnlyNone
  rcases hrow : s.rowAt (s.nodeAt n).types with _ | ⟨e, _ | ⟨e', rest⟩⟩
  · rw [decide_eq_false (by simp)]
    rfl
  · obtain ⟨t, rfl⟩ := htypes e (by simp [hrow])
    have hname : (Text.lower (s.typeAt t).name == "none") =
        decide (∃ t', [Entry.type t] = [.type t'] ∧ Text.lower (s.typeAt t').name = "none") :=
      Bool.eq_iff_iff.mpr (by simp)
    rw [← hname]
    rfl
  · rw [decide_eq_false (by simp)]
    rfl

/-- A loop that appends what is not there yet. -/
theorem mem_foldl_addNew {P : NodeId → Prop} (l queue : List NodeId) (h : queue.Nodup) :
    (l.foldl (fun queue n => if P n then if n ∈ queue then queue else queue ++ [n] else queue)
        queue).Nodup ∧
      ∀ n, n ∈ l.foldl (fun queue n => if P n then if n ∈ queue then queue else queue ++ [n]
        else queue) queue ↔ n ∈ queue ∨ n ∈ l ∧ P n := by
  induction l generalizing queue with
  | nil => simp [h]
  | cons a l ih =>
    rw [foldl_cons]
    by_cases ha : P a
    · by_cases hmem : a ∈ queue
      · rw [if_pos ha, if_pos hmem]
        grind
      · rw [if_pos ha, if_neg hmem]
        have hnodup : (queue ++ [a]).Nodup := by grind
        grind
    · rw [if_neg ha]
      grind

end Eval

namespace Store

/-- The graph of a function without cycles: its inputs and outputs describe the same edges, every
node is listed once, and symbols and parameters are filed as such. -/
structure IsFunctionDag (s : Store) (g : GraphId) : Prop extends s.IsDag g where
  function : (s.graphAt g).isModule = false
  nodup : (s.graphAt g).nodes.Nodup
  kinds : ∀ n ∈ (s.graphAt g).nodes, (s.nodeAt n).kind ≠ .base
  symbols : (s.graphAt g).symbols.Files (s.graphAt g).nodes fun n =>
    (s.nodeAt n).kind.symbol?.map (·.symbol)
  arguments : (s.graphAt g).arguments = (s.graphAt g).nodes.filter fun n =>
    (s.nodeAt n).kind.symbol?.any (·.context = "Arg")
  types : ∀ n ∈ (s.graphAt g).arguments, ∀ e ∈ s.rowAt (s.nodeAt n).types, ∃ t, e = .type t

/-- An occurrence of a variable without types. -/
structure IsUntypedSymbol (s : Store) (g : GraphId) (n : NodeId) : Prop where
  mem : n ∈ (s.graphAt g).nodes
  symbol : (s.nodeAt n).kind.symbol?.isSome = true
  untyped : s.IsUntyped n

end Store

namespace Eval

open Store Classical

/-- What the search for hot variables goes through: the variables without types, those of them that
no other one dominates, those that the others do not dominate together, and the hot ones. -/
structure HotStages (s : Store) (g : GraphId) (queue alone uncovered hot : List NodeId) : Prop where
  mem_queue : ∀ n, n ∈ queue ↔ s.IsUntypedSymbol g n
  mem_alone : ∀ n, n ∈ alone ↔ n ∈ queue ∧ ∀ a ∈ queue, a ≠ n → ¬Dominates s a n
  nodup_alone : alone.Nodup
  mem_uncovered : ∀ n, n ∈ uncovered ↔ n ∈ alone ∧ ¬SetDominates s (alone.erase n) n
  mem_hot : ∀ n, n ∈ hot ↔ (n ∈ uncovered ∨ n ∈ (s.graphAt g).arguments ∧ IsOnlyNone s n) ∧
    ¬IsIdleReturn s n

theorem emptySymbols_run (hg : s.IsFunctionDag g) : ∃ queue,
    (emptySymbols g).run s = .ok queue s ∧ queue.Nodup ∧
      ∀ n, n ∈ queue ↔ s.IsUntypedSymbol g n := by
  have hmem (n : NodeId) : n ∈ (s.graphAt g).symbols.values.flatten ↔
      n ∈ (s.graphAt g).nodes ∧ (s.nodeAt n).kind.symbol?.isSome = true := by
    rw [hg.symbols.mem_flatten_iff, Option.isSome_map]
  have hsymbols : (symbolNodes g).run s = .ok (s.graphAt g).symbols.values.flatten s := rfl
  have hempty := Typing.filterM_run_of_pure (f := isUntyped) (s := s) fun n hn =>
    isUntyped_run (hg.kinds n ((hmem n).mp hn).1)
  refine ⟨_, (bind_of_ok hsymbols _).trans hempty, (hg.symbols.nodup_flatten hg.nodup).filter _,
    fun n => ?_⟩
  rw [mem_filter, hmem, decide_eq_true_eq]
  exact ⟨fun h => ⟨h.1.1, h.1.2, h.2⟩, fun h => ⟨⟨h.mem, h.symbol⟩, h.untyped⟩⟩

/-- The variables that others dominate. -/
theorem dominated_run (hnodup : queue.Nodup)
    (hdominates : ∀ a ∈ queue, ∀ b ∈ queue, dominates a b 0 s = .ok (decide (Dominates s a b)) s) :
    ∃ removed, (forIn queue.zipIdx [] fun x removed => do
        let removed ← forIn queue.zipIdx removed fun y removed =>
          if x.2 ≠ y.2 then do
            if ← dominates x.1 y.1 then pure (ForInStep.yield (removed ++ [y.1]))
            else pure (ForInStep.yield removed)
          else pure (ForInStep.yield removed)
        pure (ForInStep.yield removed) : Eval (List NodeId)) s = .ok removed s ∧
      ∀ b, b ∈ removed ↔ b ∈ queue ∧ ∃ a ∈ queue, a ≠ b ∧ Dominates s a b := by
  let dominated (x y : NodeId × Nat) : List NodeId :=
    if x.2 ≠ y.2 ∧ Dominates s x.1 y.1 then [y.1] else []
  refine ⟨_, forIn_of_append (p := fun x => queue.zipIdx.flatMap (dominated x))
    (fun x hx removed => ?_) [], fun b => ?_⟩
  · refine bind_of_ok (forIn_of_append (p := dominated x) (fun y hy removed => ?_) removed) _
    by_cases hne : x.2 = y.2
    · simp [dominated, hne]
    · rw [if_pos hne, bind_of_ok (hdominates x.1 (fst_mem_of_mem_zipIdx hx) y.1
        (fst_mem_of_mem_zipIdx hy))]
      by_cases hdom : Dominates s x.1 y.1 <;> simp [dominated, hne, hdom]
  · have hindex {i j : Nat} {a b : NodeId} (ha : queue[i]? = some a) (hb : queue[j]? = some b) :
        i ≠ j ↔ a ≠ b := by
      obtain ⟨hi, rfl⟩ := List.getElem?_eq_some_iff.mp ha
      obtain ⟨hj, rfl⟩ := List.getElem?_eq_some_iff.mp hb
      exact not_congr (hnodup.getElem_inj_iff).symm
    simp only [nil_append, mem_flatMap, Prod.exists, mk_mem_zipIdx_iff_getElem?, dominated]
    constructor
    · rintro ⟨a, i, ha, c, j, hc, hb⟩
      split at hb
      · rename_i h
        obtain rfl := mem_singleton.mp hb
        exact ⟨mem_of_getElem? hc, a, mem_of_getElem? ha, (hindex ha hc).mp h.1, h.2⟩
      · cases hb
    · rintro ⟨hb, a, ha, hne, hdom⟩
      obtain ⟨i, hi⟩ := mem_iff_getElem?.mp ha
      obtain ⟨j, hj⟩ := mem_iff_getElem?.mp hb
      refine ⟨a, i, hi, b, j, hj, ?_⟩
      rw [if_pos ⟨(hindex hi hj).mpr hne, hdom⟩]
      exact .head _

theorem covered_run (queue : List NodeId) (hdominates : ∀ n ∈ queue,
      setDominates (queue.erase n) n 0 s = .ok (decide (SetDominates s (queue.erase n) n)) s) :
    ∃ covered, (queue.filterM fun n => setDominates (queue.erase n) n) s = .ok covered s ∧
      ∀ n, n ∈ covered ↔ n ∈ queue ∧ SetDominates s (queue.erase n) n :=
  ⟨_, filterM_of_pure hdominates, fun n => by rw [mem_filter, decide_eq_true_eq]⟩

/-- Parameters that are only known to be `None` are added. -/
theorem addArguments_run (hg : s.IsFunctionDag g) (hnodup : queue.Nodup) :
    ∃ full, (forIn (s.graphAt g).arguments queue fun n queue => do
        if ← isOnlyNone n then
          if (!queue.contains n) = true then pure (ForInStep.yield (queue ++ [n]))
          else pure (ForInStep.yield queue)
        else pure (ForInStep.yield queue) : Eval (List NodeId)) s = .ok full s ∧ full.Nodup ∧
      ∀ n, n ∈ full ↔ n ∈ queue ∨ n ∈ (s.graphAt g).arguments ∧ IsOnlyNone s n := by
  refine ⟨_, forIn_of_yield (fun n hn queue => ?_) queue,
    mem_foldl_addNew (P := IsOnlyNone s) _ queue hnodup⟩
  have hnode : n ∈ (s.graphAt g).nodes := mem_of_mem_filter (hg.arguments ▸ hn)
  rw [bind_of_ok (isOnlyNone_run (hg.kinds n hnode) (hg.types n hn))]
  by_cases h : IsOnlyNone s n <;> by_cases h' : n ∈ queue <;> simp [h, h']

theorem idleReturns_run (queue : List NodeId) (s : Store) : ∃ idle, (queue.filterM fun n => do
      let node ← (node n : Eval Node)
      pure (node.ins.isEmpty && node.kind.symbol?.any (·.context == "Return")) :
        Eval (List NodeId)) s = .ok idle s ∧
      ∀ n, n ∈ idle ↔ n ∈ queue ∧ IsIdleReturn s n := by
  refine ⟨_, filterM_of_pure fun n _ => bind_of_ok (node_run n s) _, fun n => ?_⟩
  rw [List.mem_filter, Bool.and_eq_true, List.isEmpty_iff, and_comm (a := (s.nodeAt n).ins = [])]
  rfl

theorem hotSymbols_stages (hg : s.IsFunctionDag g)
    (hpaths : ∀ n ∈ (s.graphAt g).nodes, s.PathsBelow g (maxDepth + 1) n) :
    ∃ queue alone uncovered hot, hotSymbols g s = .ok hot s ∧
      HotStages s g queue alone uncovered hot := by
  obtain ⟨queue, hqueue, hnodup, hmem⟩ := emptySymbols_run hg
  obtain ⟨removed, hremoved, hmem'⟩ := dominated_run hnodup fun a _ b hb =>
    dominates_run hg.toIsDag hg.kinds a ((hmem b).mp hb).mem (hpaths b ((hmem b).mp hb).mem)
  have halone (n : NodeId) : n ∈ withoutNodes queue removed ↔
      n ∈ queue ∧ ∀ a ∈ queue, a ≠ n → ¬Dominates s a n := by
    rw [mem_withoutNodes hnodup, hmem']
    grind
  have hnodup₁ := nodup_withoutNodes hnodup removed
  obtain ⟨covered, hcovered, hmem₂⟩ := covered_run (withoutNodes queue removed) fun n hn => by
      have hn := ((hmem n).mp ((halone n).mp hn).1).mem
      exact setDominates_run hg.toIsDag hg.kinds _ hn (hpaths n hn)
  have hnodup₂ := nodup_withoutNodes hnodup₁ covered
  obtain ⟨full, hfull, hnodup₃, hall⟩ := addArguments_run hg hnodup₂
  obtain ⟨idle, hidle, hmem₃⟩ := idleReturns_run full s
  refine ⟨queue, _, withoutNodes (withoutNodes queue removed) covered, withoutNodes full idle, ?_,
    hmem, halone, hnodup₁, fun n => ?_, fun n => ?_⟩
  · unfold hotSymbols
    refine (bind_of_ok (graph_run g s) _).trans ?_
    rw [if_neg (by simp [hg.function])]
    exact (bind_of_ok hqueue _).trans <| (bind_of_ok hremoved _).trans <|
      (bind_of_ok hcovered _).trans <| (bind_of_ok hfull _).trans (bind_of_ok hidle _)
  · rw [mem_withoutNodes hnodup₁, hmem₂]
    grind
  · rw [mem_withoutNodes hnodup₃, hmem₃, hall]
    grind

namespace HotStages

variable {alone uncovered hot : List NodeId}

section

variable (h : HotStages s g queue alone uncovered hot)

include h

theorem isUntypedSymbol_of_uncovered (hn : n ∈ uncovered) : s.IsUntypedSymbol g n :=
  (h.mem_queue n).mp ((h.mem_alone n).mp ((h.mem_uncovered n).mp hn).1).1

theorem isSymbol_of_hot (hg : s.IsFunctionDag g) (hn : n ∈ hot) :
    n ∈ (s.graphAt g).nodes ∧ (s.nodeAt n).kind.symbol?.isSome = true := by
  rcases ((h.mem_hot n).mp hn).1 with hn | ⟨hn, -⟩
  · have hsymbol := h.isUntypedSymbol_of_uncovered hn
    exact ⟨hsymbol.mem, hsymbol.symbol⟩
  · rw [hg.arguments, mem_filter, Option.any_eq_true] at hn
    obtain ⟨hmem, info, hinfo, -⟩ := hn
    exact ⟨hmem, Option.isSome_iff_exists.mpr ⟨info, hinfo⟩⟩

theorem covered_alone (hdag : s.IsDag g) (hn : n ∈ queue) : s.Covered (· ∈ alone) n := by
  refine covered_of_removed hdag (Q := (· ∈ queue)) (fun n hn => ((h.mem_queue n).mp hn).mem)
    (fun n hn hgone => ?_) hn
  obtain ⟨a, ha, hne, hdom⟩ : ∃ a ∈ queue, a ≠ n ∧ Dominates s a n := by
    by_contra hnone
    exact hgone ((h.mem_alone n).mpr ⟨hn, fun a ha hne hdom => hnone ⟨a, ha, hne, hdom⟩⟩)
  refine hdom.2.trans ?_
  rintro m rfl
  exact .member ⟨ha, hne⟩

theorem covered_uncovered (hdag : s.IsDag g) (hn : n ∈ queue) : s.Covered (· ∈ uncovered) n := by
  refine (h.covered_alone hdag hn).trans fun n hn => ?_
  refine covered_of_removed hdag (Q := (· ∈ alone))
    (fun n hn => ((h.mem_queue n).mp ((h.mem_alone n).mp hn).1).mem) (fun n hn hgone => ?_) hn
  have hdom : SetDominates s (alone.erase n) n := by
    by_contra hnot
    exact hgone ((h.mem_uncovered n).mpr ⟨hn, hnot⟩)
  exact hdom.2.trans fun m hm => .member (h.nodup_alone.mem_erase_iff.mp hm).symm

end

end HotStages

/-- Hot variables settle all others. In the graph of a function without cycles whose paths are short
and whose results feed nothing, every variable without types that is not hot waits only for hot
ones, unless it is a result into which nothing flows, and no hot variable without types dominates
another one. -/
theorem hotSymbols_cover (s : Store) (g : GraphId) (hg : s.IsFunctionDag g)
    (hpaths : ∀ path : List NodeId, path.IsChain (s.Feeds g) → path.length - 1 < 100)
    (hreturns : ∀ n ∈ (s.graphAt g).nodes,
      (s.nodeAt n).kind.symbol?.any (·.context = "Return") = true → (s.nodeAt n).outs = []) :
    ∃ hot, hotSymbols g s = .ok hot s ∧
      (∀ n ∈ hot, n ∈ (s.graphAt g).nodes ∧ (s.nodeAt n).kind.symbol?.isSome = true) ∧
      (∀ n, s.IsUntypedSymbol g n → n ∉ hot → ¬IsIdleReturn s n →
        setDominates hot n 0 s = .ok true s) ∧
      ∀ a ∈ hot, ∀ b ∈ hot, s.IsUntypedSymbol g a → s.IsUntypedSymbol g b → a ≠ b →
        dominates a b 0 s = .ok false s := by
  have hdag := hg.toIsDag
  have hbelow : ∀ n ∈ (s.graphAt g).nodes, s.PathsBelow g (maxDepth + 1) n := by
    intro n _ l hl
    have hlen := hpaths _ hl
    simp only [List.length_append, List.length_singleton] at hlen
    unfold maxDepth
    omega
  obtain ⟨queue, alone, uncovered, hot, hrun, h⟩ := hotSymbols_stages hg hbelow
  refine ⟨hot, hrun, fun n hn => h.isSymbol_of_hot hg hn, fun n hn hcold hidle => ?_,
    fun a ha b hb huntyped huntyped' hne => ?_⟩
  · have hnot : n ∉ uncovered := fun hmem => hcold ((h.mem_hot n).mpr ⟨.inl hmem, hidle⟩)
    have hcovered := (h.covered_uncovered hdag ((h.mem_queue n).mpr hn)).before hdag hn.mem hnot
    -- What leads to another node has outputs, so it is no result and stays in the queue.
    have hhot (m : NodeId) (hm : m ∈ uncovered ∧ Relation.TransGen (s.Feeds g) m n) :
        m ∈ hot ∧ (s.nodeAt m).outs ≠ [] := by
      have houts := outs_ne_nil_of_transGen hdag hm.2
      refine ⟨(h.mem_hot m).mpr ⟨.inl hm.1, ?_⟩, houts⟩
      rintro ⟨hreturn, -⟩
      exact houts (hreturns m (h.isUntypedSymbol_of_uncovered hm.1).mem hreturn)
    obtain ⟨m, hm⟩ := hcovered.exists_member
    rw [setDominates_run hdag hg.kinds hot hn.mem (hbelow n hn.mem), decide_eq_true]
    exact ⟨⟨m, hhot m hm⟩, hcovered.trans fun k hk => .member (hhot k hk).1⟩
  · rw [dominates_run hdag hg.kinds a huntyped'.mem (hbelow b huntyped'.mem), decide_eq_false]
    have huncovered : b ∈ uncovered := by
      refine ((h.mem_hot b).mp hb).1.resolve_right ?_
      rintro ⟨-, t, htypes, -⟩
      exact absurd (htypes.symm.trans huntyped'.untyped) (List.cons_ne_nil _ _)
    have halone := (h.mem_alone b).mp ((h.mem_uncovered b).mp huncovered).1
    exact halone.2 a ((h.mem_queue a).mpr huntyped) hne

/-- A function that adds its parameters and returns the sum on one of two ways. A third parameter
is only known to be `None`. -/
def adder : Store where
  types := #[{ name := "None", category := .builtin, elements := ⟨0⟩, keys := ⟨0⟩, values := ⟨0⟩ }]
  rows := #[[], [.type ⟨0⟩]]
  nodes := #[
    { kind := .symbol { symbol := "x", order := 0, context := "Arg" }, name := "x"
      outs := [some ⟨3⟩], types := ⟨0⟩, rejected := ⟨0⟩ },
    { kind := .symbol { symbol := "y", order := 0, context := "Arg" }, name := "y"
      outs := [some ⟨3⟩], types := ⟨0⟩, rejected := ⟨0⟩ },
    { kind := .symbol { symbol := "z", order := 0, context := "Arg" }, name := "z"
      types := ⟨1⟩, rejected := ⟨0⟩ },
    { kind := .operation { op := "+", rejectedInputs := ⟨0⟩ }, name := "+"
      ins := [some ⟨0⟩, some ⟨1⟩], outs := [some ⟨4⟩], types := ⟨0⟩, rejected := ⟨0⟩ },
    { kind := .symbol { symbol := "sum", order := 0, context := "Write" }, name := "sum"
      ins := [some ⟨3⟩], outs := [some ⟨5⟩], types := ⟨0⟩, rejected := ⟨0⟩ },
    { kind := .symbol { symbol := "f", order := 0, context := "Return" }, name := "f"
      ins := [some ⟨4⟩], types := ⟨0⟩, rejected := ⟨0⟩ },
    { kind := .symbol { symbol := "f", order := 1, context := "Return" }, name := "f"
      types := ⟨0⟩, rejected := ⟨0⟩ }]
  graphs := #[
    { name := "f", fileName := "m.py", role := .function none ⟨1⟩, userNames := []
      nodes := [⟨0⟩, ⟨1⟩, ⟨2⟩, ⟨3⟩, ⟨4⟩, ⟨5⟩, ⟨6⟩], arguments := [⟨0⟩, ⟨1⟩, ⟨2⟩]
      symbols := ⟨[("x", [⟨0⟩]), ("y", [⟨1⟩]), ("z", [⟨2⟩]), ("sum", [⟨4⟩]), ("f", [⟨5⟩, ⟨6⟩])]⟩ }]

theorem adder_isFunctionDag : adder.IsFunctionDag ⟨0⟩ where
  toIsDag := .of_index_lt (by decide) (by decide) (by decide) (by decide)
  function := rfl
  nodup := by decide
  kinds := by decide
  symbols := .of_entries (by decide) (by decide) (by decide)
  arguments := by decide
  types n hn e he := by
    have hall : ∀ n ∈ (adder.graphAt ⟨0⟩).arguments, ∀ e ∈ adder.rowAt (adder.nodeAt n).types,
      e = .type ⟨0⟩ := by decide
    exact ⟨_, hall n hn e he⟩

/-- The parameters of the function are hot, and the sum and what is returned are not. -/
theorem hotSymbols_adder : ∃ hot, hotSymbols ⟨0⟩ adder = .ok hot adder ∧
    (∀ n ∈ hot, n ∈ (adder.graphAt ⟨0⟩).nodes ∧
      (adder.nodeAt n).kind.symbol?.isSome = true) ∧
    (∀ n, adder.IsUntypedSymbol ⟨0⟩ n → n ∉ hot → ¬IsIdleReturn adder n →
      setDominates hot n 0 adder = .ok true adder) ∧
    ∀ a ∈ hot, ∀ b ∈ hot, adder.IsUntypedSymbol ⟨0⟩ a → adder.IsUntypedSymbol ⟨0⟩ b → a ≠ b →
      dominates a b 0 adder = .ok false adder :=
  hotSymbols_cover adder ⟨0⟩ adder_isFunctionDag
    (fun _ h => Nat.lt_of_le_of_lt (adder_isFunctionDag.path_length_le h) (by decide)) (by decide)

end Eval
end TypeFlow
