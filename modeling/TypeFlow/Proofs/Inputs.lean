import TypeFlow.Proofs.Identity
import TypeFlow.Proofs.Shape

/-!
# Inputs of symbols

The flow of types refuses symbols with more than one input. No program has such symbols, so on the
graphs of a program the flow has the same outcome whatever is done in place of the refusal.
-/

namespace TypeFlow

namespace Store

variable {s t u : Store}

/-- Symbols have one input at most. -/
def Narrow (s : Store) : Prop :=
  ∀ n, (s.nodeAt n).kind.symbol?.isSome → (s.nodeAt n).ins.length ≤ 1

/-- Inputs stay as they are, and no node becomes a symbol. -/
structure Sheds (s t : Store) : Prop where
  ins : ∀ n, (t.nodeAt n).ins = (s.nodeAt n).ins
  symbol : ∀ n, (t.nodeAt n).kind.symbol?.isSome → (s.nodeAt n).kind.symbol?.isSome

theorem Narrow.of_sheds (h : s.Narrow) (ht : s.Sheds t) : t.Narrow := by
  intro n hn
  rw [ht.ins]
  exact h n (ht.symbol n hn)

namespace Sheds

theorem refl (s : Store) : s.Sheds s := ⟨fun _ => rfl, fun _ h => h⟩

theorem trans (h : s.Sheds t) (h' : t.Sheds u) : s.Sheds u :=
  ⟨fun n => (h'.ins n).trans (h.ins n), fun n hn => h.symbol n (h'.symbol n hn)⟩

/-- A node is changed that keeps its inputs and does not become a symbol. -/
theorem modify (s : Store) (n : NodeId) {f : Node → Node} (hins : ∀ node, (f node).ins = node.ins)
    (hkind : ∀ node, (f node).kind = node.kind ∨ (f node).kind.symbol? = none) :
    s.Sheds { s with nodes := s.nodes.modify n.index f } := by
  have hnode (m : NodeId) : nodeAt { s with nodes := s.nodes.modify n.index f } m =
      f (s.nodeAt m) ∨ nodeAt { s with nodes := s.nodes.modify n.index f } m = s.nodeAt m := by
    rw [nodeAt_modify_of_any]
    split
    · rename_i h
      exact .inl (h.1 ▸ rfl)
    · exact .inr rfl
  constructor
  · intro m
    rcases hnode m with hm | hm <;> rw [hm]
    exact hins _
  · intro m hm
    rcases hnode m with heq | heq <;> rw [heq] at hm
    · rcases hkind (s.nodeAt m) with hk | hk <;> rw [hk] at hm
      · exact hm
      · cases hm
    · exact hm

instance : OverlooksLabels Sheds where
  refl := refl
  trans _ _ _ := trans
  grows {s t} h := by
    have hnode (n : NodeId) : t.nodeAt n = s.nodeAt n := by rw [nodeAt, nodeAt, h.nodes]
    exact ⟨fun n => by rw [hnode], fun n hn => hnode n ▸ hn⟩
  modify s n _ hmarks := modify s n fun node => congrArg (·.1) (hmarks node)
  label s n _ := modify s n (fun _ => rfl) fun _ => .inl rfl

end Sheds
end Store

namespace Eval

open Store

variable {α β : Type}

/-! ## The flow with another way to visit -/

section By

variable (visit : NodeId → Conflicts → Eval Visit)

/-- Visit a node if it is to be evaluated, and note whether this changed anything. -/
def evaluateBy (n : NodeId) (evaluated : Bool) (state : Visit) : Eval Visit :=
  if evaluated then do
    let v ← visit n state.conflicts
    return { v with changed := state.changed || v.changed }
  else return state

/-- Take a node up. -/
def turnBy (n : NodeId) (queue : List NodeId) (state : Visit) : Eval Turn := do
  setLabel n 2
  let queue ← waitForInputs n queue (← node n).ins
  let evaluated := (← node n).label == 2
  let state ← evaluateBy visit n evaluated state
  let queue ← queueOutputs queue (← node n).outs
  return { queue, state, evaluated }

/-- Take up the nodes of a queue. -/
def sweepBy : Nat → List NodeId → Visit → Eval Visit
  | 0, _, state => return state
  | _, [], state => return state
  | fuel + 1, n :: queue, state => do
    let t ← turnBy visit n queue state
    sweepBy fuel t.queue t.state

/-- One forward sweep over a graph. -/
def forwardBy (g : GraphId) (conflicts : Conflicts) : Eval Visit := do
  let queue ← sources g
  clearLabels g
  sweepBy visit maxVisits queue { conflicts }

/-- Sweep forward and backward until nothing changes. -/
def passBy (g : GraphId) : Nat → Eval Unit
  | 0 => return ()
  | fuel + 1 => do
    let v ← forwardBy visit g []
    backward g
    if v.changed then passBy g fuel

/-- Sweep forward until nothing changes, collecting conflicts. -/
def conflictsBy (g : GraphId) : Nat → Conflicts → Eval Conflicts
  | 0, conflicts => return conflicts
  | fuel + 1, conflicts => do
    let v ← forwardBy visit g conflicts
    if v.changed then conflictsBy g fuel v.conflicts else return v.conflicts

end By

/-! ## The refusal -/

/-- The refusal of symbols with more than one input. -/
def refusal : Fault := .rejectedValue "Symbol node should not have more than 1 input nodes."

/-- Visit a node, but do something else with symbols that have more than one input. -/
def visitOr (refuse : Eval Visit) (purpose : Purpose) (g : GraphId) (n : NodeId)
    (conflicts : Conflicts) : Eval Visit := do
  let node ← Eval.node n
  if node.kind.symbol?.isSome ∧ 1 < node.ins.length then refuse else visit purpose g n conflicts

/-- Pass types through a graph, but do something else with symbols that have more than one input. -/
def passTypesOr (refuse : Eval Visit) (g : GraphId) : Eval Unit :=
  passBy (visitOr refuse .pass g) g maxSweeps

/-- Count conflicts, but do something else with symbols that have more than one input. -/
def countConflictsOr (refuse : Eval Visit) (g : GraphId) : Eval (Nat × Nat) := do
  let conflicts ← conflictsBy (visitOr refuse .conflicts g) g maxSweeps []
  return ((← rejecting g).length, conflicts.length)

theorem visitOr_apply (refuse : Eval Visit) (purpose : Purpose) (g : GraphId) (n : NodeId)
    (conflicts : Conflicts) (s : Store) : visitOr refuse purpose g n conflicts s =
      if (s.nodeAt n).kind.symbol?.isSome ∧ 1 < (s.nodeAt n).ins.length then refuse s
      else visit purpose g n conflicts s := by
  unfold visitOr
  rw [liftM_eq_run, bind_of_ok (node_run n s)]
  split <;> rfl

/-- Visits throw the refusal at symbols with more than one input. -/
theorem visitOr_throw (purpose : Purpose) (g : GraphId) :
    visitOr (throw refusal) purpose g = visit purpose g := by
  funext n conflicts s
  rw [visitOr_apply]
  split
  · rename_i h
    obtain ⟨hsymbol, hwide⟩ := h
    unfold visit
    rw [liftM_eq_run, bind_of_ok (graph_run g s), liftM_eq_run, bind_of_ok (node_run n s)]
    cases hkind : (s.nodeAt n).kind with
    | symbol info =>
      dsimp only
      unfold visitSymbol
      rw [liftM_eq_run, bind_of_ok (node_run n s)]
      rcases hins : (s.nodeAt n).ins with _ | ⟨a, _ | ⟨b, links⟩⟩
      · simp [hins] at hwide
      · simp [hins] at hwide
      · rfl
    | _ => simp [hkind, NodeKind.symbol?] at hsymbol
  · rfl

/-! ## The flow without the refusal -/

/-- Two computations have the same outcome wherever symbols have one input at most. -/
def Agrees (x y : Eval α) : Prop := ∀ s : Store, s.Narrow → x s = y s

namespace Agrees

theorem refl (x : Eval α) : Agrees x x := fun _ _ => rfl

theorem bind {x y : Eval α} {f f' : α → Eval β} [hy : Keeps Sheds y] (h : Agrees x y)
    (hf : ∀ a, Agrees (f a) (f' a)) : Agrees (x >>= f) (y >>= f') := by
  intro s hs
  rw [bind_apply, bind_apply, h s hs]
  cases hrun : y s with
  | ok a t => exact hf a t (hs.of_sheds (hy.rel hrun))
  | error e t => rfl

theorem andThen {x : Eval α} {f f' : α → Eval β} [Keeps Sheds x] (hf : ∀ a, Agrees (f a) (f' a)) :
    Agrees (x >>= f) (x >>= f') := bind (refl x) hf

end Agrees

variable (refuse : Eval Visit) (purpose : Purpose) (g : GraphId)

theorem visitOr_agrees (n : NodeId) (conflicts : Conflicts) :
    Agrees (visitOr refuse purpose g n conflicts) (visit purpose g n conflicts) := by
  intro s hs
  rw [visitOr_apply, if_neg fun h => Nat.not_lt.mpr (hs n h.1) h.2]

theorem turnBy_agrees (n : NodeId) (queue : List NodeId) (state : Visit) :
    Agrees (turnBy (visitOr refuse purpose g) n queue state) (turn purpose g n queue state) := by
  have hevaluate (evaluated : Bool) :
      Agrees (evaluateBy (visitOr refuse purpose g) n evaluated state)
        (evaluate purpose g n evaluated state) := by
    cases evaluated with
    | true => exact .bind (visitOr_agrees refuse purpose g n state.conflicts) fun _ => .refl _
    | false => exact .refl _
  refine .andThen fun _ => .andThen fun _ => .andThen fun queue => .andThen fun source => ?_
  exact .bind (hevaluate _) fun _ => .refl _

theorem sweepBy_agrees (fuel : Nat) (queue : List NodeId) (state : Visit) :
    Agrees (sweepBy (visitOr refuse purpose g) fuel queue state)
      (sweep purpose g fuel queue state) := by
  induction fuel generalizing queue state with
  | zero => exact .refl _
  | succ fuel ih =>
    cases queue with
    | nil => exact .refl _
    | cons n queue =>
      exact .bind (turnBy_agrees refuse purpose g n queue state) fun t => ih t.queue t.state

theorem forwardBy_agrees (conflicts : Conflicts) :
    Agrees (forwardBy (visitOr refuse purpose g) g conflicts) (forward purpose g conflicts) := by
  exact .andThen fun queue => .andThen fun _ => sweepBy_agrees refuse purpose g maxVisits queue _

instance : Keeps Sheds (backward g) :=
  .mono (R := Alike Node.unrejected) (fun _ _ h => ⟨h.edges.ins_eq, fun n hn => h.kind_eq n ▸ hn⟩) _

theorem passBy_agrees (fuel : Nat) :
    Agrees (passBy (visitOr refuse .pass g) g fuel) (passFrom g fuel) := by
  induction fuel with
  | zero => exact .refl _
  | succ fuel ih =>
    refine .bind (forwardBy_agrees refuse .pass g []) fun v => .andThen fun _ => ?_
    split
    · exact ih
    · exact .refl _

theorem conflictsBy_agrees (fuel : Nat) (conflicts : Conflicts) :
    Agrees (conflictsBy (visitOr refuse .conflicts g) g fuel conflicts)
      (conflictsFrom g fuel conflicts) := by
  induction fuel generalizing conflicts with
  | zero => exact .refl _
  | succ fuel ih =>
    refine .bind (forwardBy_agrees refuse .conflicts g conflicts) fun v => ?_
    split
    · exact ih v.conflicts
    · exact .refl _

theorem passTypesOr_agrees : Agrees (passTypesOr refuse g) (passTypes g) :=
  passBy_agrees refuse g maxSweeps

theorem countConflictsOr_agrees : Agrees (countConflictsOr refuse g) (countConflicts g) :=
  .bind (conflictsBy_agrees refuse g maxSweeps []) fun _ => .refl _

end Eval

namespace Build

open Program

/-- Symbols of a program have one input at most, whichever graph lists them. -/
theorem narrow_of_graphsOf {o : BuildOptions} {program : Module} {w : Walk} {t : Store}
    (h : graphsOf o program {} = .ok w t) : t.Narrow := by
  obtain ⟨hpending, hfunctions, u, hw, hu⟩ := orderly_of_graphsOf h
  intro n hn
  rw [hu.kind] at hn
  rw [show (t.nodeAt n).ins = (u.nodeAt n).ins from congrArg (·.2.1) (hu.node n)]
  by_cases hsize : n.index < u.nodes.size
  · by_contra hwide
    -- only symbols that wait or that an open function lists may have more inputs
    rcases hw.fans n ⟨Nat.zero_le _, hsize⟩ hn (Nat.not_le.mp hwide) with h | h | ⟨g, h, -⟩
    · have hnone : (u.nodeAt n).kind.symbol? = none := h.2
      rw [hnone] at hn
      cases hn
    · simp [hpending] at h
    · simp [hfunctions] at h
  · rw [Store.nodeAt, Array.getD_eq_getD_getElem?, Array.getElem?_eq_none (Nat.not_lt.mp hsize)]
    exact Nat.zero_le _

/-- Symbols have at most one input. When the walk over a program comes to an end, no occurrence of a
variable in its graphs has more than one input. So the flow of types and the count of conflicts,
which refuse occurrences with more, never come to that point: they have the same outcome whatever is
done in place of the refusal. -/
theorem graphsOf_narrow (options : BuildOptions) (program : Module) (w : Walk) (t : Store)
    (h : graphsOf options program {} = .ok w t) :
    (∀ n info, (t.nodeAt n).kind = .symbol info → (t.nodeAt n).ins.length ≤ 1) ∧
    ∀ (refuse : Eval Eval.Visit) (g : GraphId),
      Eval.passTypesOr refuse g t = Eval.passTypes g t ∧
      Eval.countConflictsOr refuse g t = Eval.countConflicts g t := by
  have hnarrow := narrow_of_graphsOf h
  refine ⟨fun n info hn => hnarrow n ?_, fun refuse g => ⟨?_, ?_⟩⟩
  · rw [hn]
    rfl
  · exact Eval.passTypesOr_agrees refuse g t hnarrow
  · exact Eval.countConflictsOr_agrees refuse g t hnarrow

/-- A function that returns a variable of which two values reach it. -/
def eitherWay : Module :=
  let name (id : String) : Expr := .name default id .load
  let assign (value : Expr) : Stmt := .assign default [.name default "y" .store] value
  [.function default "f" (.mk [] [.mk default "x" none] none [] [] none [])
    [.if_ default (name "x") [assign (name "x")] [assign (.constant default .int)],
      .return_ default (some (name "y"))] [] none]

/-- Values that meet do so before the symbol that reads them. -/
theorem graphsOf_narrow_eitherWay : ∃ w t, graphsOf {} eitherWay {} = .ok w t ∧
    (∀ n info, (t.nodeAt n).kind = .symbol info → (t.nodeAt n).ins.length ≤ 1) ∧
    ∀ (refuse : Eval Eval.Visit) (g : GraphId),
      Eval.passTypesOr refuse g t = Eval.passTypes g t ∧
      Eval.countConflictsOr refuse g t = Eval.countConflicts g t := by
  have hend : comesToEnd {} eitherWay = true := by decide +kernel
  obtain ⟨w, t, hrun⟩ := exists_of_comesToEnd hend
  exact ⟨w, t, hrun, graphsOf_narrow {} eitherWay w t hrun⟩

end Build
end TypeFlow
