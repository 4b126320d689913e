import Mathlib
import TypeFlow.Proofs.HotSymbols

/-!
# Definition paths

The definition paths of a node are listed completely and without repetition, as long as paths are
short.
-/

namespace TypeFlow

open Relation List

variable {s : Store} {g : GraphId} {m n : NodeId}

namespace Store

theorem PathsBelow.acyclic {k : Nat} (h : s.PathsBelow g k n) : ¬TransGen (s.Feeds g) n n := by
  induction k generalizing n with
  | zero => exact absurd h.pos (Nat.lt_irrefl 0)
  | succ k ih =>
    intro hcycle
    obtain ⟨m, hpath, hlast⟩ := TransGen.tail'_iff.mp hcycle
    exact ih (h.step hlast) (.head' hlast hpath)

def IsCall (s : Store) (n : NodeId) : Prop :=
  ∃ info, (s.nodeAt n).kind = .operation info ∧ info.op = "call"

/-- A variable from outside of the function. -/
def IsForeign (s : Store) (n : NodeId) : Prop :=
  ∃ info, (s.nodeAt n).kind = .symbol info ∧ info.scope ≠ "local"

/-- A sequence of inputs that leads to a node. It starts at a node without inputs or at a call,
passes no other call, and comes through no variable from outside. -/
@[mk_iff]
structure IsDefinitionPath (s : Store) (n : NodeId) (path : List NodeId) : Prop where
  last : path.getLast? = some n
  linked : path.IsChain fun m n => some m ∈ (s.nodeAt n).ins
  start : ∀ m ∈ path.head?, (s.nodeAt m).ins = [] ∨ s.IsCall m
  calls : ∀ m ∈ path.tail, ¬s.IsCall m
  locals : ∀ m ∈ path.dropLast, ¬s.IsForeign m

theorem isDefinitionPath_concat {init : List NodeId} :
    s.IsDefinitionPath n (init ++ [m] ++ [n]) ↔ s.IsDefinitionPath m (init ++ [m]) ∧
      some m ∈ (s.nodeAt n).ins ∧ ¬s.IsForeign m ∧ ¬s.IsCall n := by
  simp [isDefinitionPath_iff, isChain_append, or_imp, forall_and]
  grind

/-- A path is a single start, or a path to one of the inputs with a last step. -/
theorem isDefinitionPath_iff_step {path : List NodeId} : s.IsDefinitionPath n path ↔
    (path = [n] ∧ ((s.nodeAt n).ins = [] ∨ s.IsCall n)) ∨
    ∃ m init, path = init ++ [n] ∧ s.IsDefinitionPath m init ∧ some m ∈ (s.nodeAt n).ins ∧
      ¬s.IsForeign m ∧ ¬s.IsCall n := by
  constructor
  · intro h
    obtain ⟨init, rfl⟩ := getLast?_eq_some_iff.mp h.last
    rcases eq_nil_or_concat' init with rfl | ⟨before, m, rfl⟩
    · exact .inl ⟨rfl, h.start n rfl⟩
    · exact .inr ⟨m, _, rfl, isDefinitionPath_concat.mp h⟩
  · rintro (⟨rfl, h⟩ | ⟨m, init, rfl, h, hstep⟩)
    · simpa [isDefinitionPath_iff] using h
    · obtain ⟨before, rfl⟩ := getLast?_eq_some_iff.mp h.last
      exact isDefinitionPath_concat.mpr ⟨h, hstep⟩

end Store

namespace Eval

open Store

theorem isPathStart_iff :
    isPathStart true (s.nodeAt n) = true ↔ (s.nodeAt n).ins = [] ∨ s.IsCall n := by
  unfold isPathStart IsCall
  cases (s.nodeAt n).kind <;> simp

theorem isPathStep_iff : isPathStep true (s.nodeAt n) = true ↔ ¬s.IsForeign n := by
  unfold isPathStep IsForeign
  cases (s.nodeAt n).kind <;> simp

/-- Listing all definition paths of a node, each of them once. -/
def ListsPaths (s : Store) (n : NodeId) (paths : List (List Link)) : Prop :=
  paths.Nodup ∧ ∀ p, p ∈ paths ↔ ∃ path, s.IsDefinitionPath n path ∧ p = path.map some

theorem ListsPaths.of_start (h : (s.nodeAt n).ins = [] ∨ s.IsCall n) :
    ListsPaths s n [[some n]] := by
  have hstart {path : List NodeId} : s.IsDefinitionPath n path ↔ path = [n] := by
    rw [isDefinitionPath_iff_step]
    grind
  exact ⟨nodup_singleton _, fun p => by simp [hstart]⟩

/-- The paths to a node are those to its inputs, each with the node at its end. -/
theorem ListsPaths.of_inputs (sub : Link → List (List Link))
    (hstart : ¬((s.nodeAt n).ins = [] ∨ s.IsCall n)) (hnodup : (s.nodeAt n).ins.Nodup)
    (hsub : ∀ link ∈ (s.nodeAt n).ins, ∃ m, link = some m ∧
      (s.IsForeign m → sub link = []) ∧ (¬s.IsForeign m → ListsPaths s m (sub link))) :
    ListsPaths s n (((s.nodeAt n).ins.flatMap sub).map (· ++ [some n])) := by
  have hmem (link : Link) (hlink : link ∈ (s.nodeAt n).ins) : (sub link).Nodup ∧ ∀ p,
      p ∈ sub link ↔ ∃ m path, link = some m ∧ ¬s.IsForeign m ∧ s.IsDefinitionPath m path ∧
        p = path.map some := by
    obtain ⟨m, rfl, hforeign, hlists⟩ := hsub link hlink
    by_cases hm : s.IsForeign m
    · simp [hforeign hm, hm]
    · simp [(hlists hm).1, (hlists hm).2, hm]
  constructor
  · refine .map (append_left_injective _) (nodup_flatMap.mpr ⟨fun l hl => (hmem l hl).1, ?_⟩)
    -- Paths to different inputs have different ends.
    refine hnodup.imp_of_mem fun {a b} ha hb hne p hpa hpb => ?_
    obtain ⟨m, path, rfl, -, hpath, rfl⟩ := ((hmem a ha).2 p).mp hpa
    obtain ⟨k, path', rfl, -, hpath', heq⟩ := ((hmem b hb).2 _).mp hpb
    have hlast := congrArg getLast? heq
    simp only [getLast?_map, hpath.last, hpath'.last, Option.map_some] at hlast
    exact hne (Option.some.inj hlast)
  · intro p
    simp only [mem_map, mem_flatMap]
    constructor
    · rintro ⟨p, ⟨link, hlink, hp⟩, rfl⟩
      obtain ⟨m, path, rfl, hforeign, hpath, rfl⟩ := ((hmem link hlink).2 p).mp hp
      refine ⟨path ++ [n], isDefinitionPath_iff_step.mpr (.inr ?_), by simp⟩
      exact ⟨m, path, rfl, hpath, hlink, hforeign, fun h => hstart (.inr h)⟩
    · rintro ⟨path, hpath, rfl⟩
      rcases isDefinitionPath_iff_step.mp hpath with ⟨-, h⟩ | ⟨m, init, rfl, hinit, hm, hforeign, -⟩
      · exact absurd h hstart
      · exact ⟨_, ⟨_, hm, ((hmem _ hm).2 _).mpr ⟨m, init, rfl, hforeign, hinit, rfl⟩⟩, by simp⟩

variable
  (hins : ∀ n ∈ (s.graphAt g).nodes, ∀ link ∈ (s.nodeAt n).ins,
    ∃ m ∈ (s.graphAt g).nodes, link = some m)
  (hnodup : ∀ n ∈ (s.graphAt g).nodes, (s.nodeAt n).ins.Nodup)

include hins hnodup

/-- The walk back from a node lists its paths. Nodes on the way are never met again. -/
theorem pathsTo_lists {fuel : Nat} (hn : n ∈ (s.graphAt g).nodes) (hbelow : s.PathsBelow g fuel n)
    {passed : List Link} (hpassed : ∀ m, some m ∈ passed → TransGen (s.Feeds g) n m) :
    ∃ paths, pathsTo true fuel (some n) passed s = .ok paths s ∧ ListsPaths s n paths := by
  induction fuel generalizing n passed with
  | zero => exact absurd hbelow.pos (Nat.lt_irrefl 0)
  | succ fuel ih =>
    have hnode : linkNode (some n) s = .ok (s.nodeAt n) s := rfl
    by_cases hstart : (s.nodeAt n).ins = [] ∨ s.IsCall n
    · refine ⟨_, (bind_of_ok hnode _).trans ?_, .of_start hstart⟩
      rw [if_pos (isPathStart_iff.mpr hstart)]
      rfl
    · have hsub : ∀ link ∈ (s.nodeAt n).ins, ∃ paths m, link = some m ∧ s.Feeds g m n ∧
          (s.IsForeign m → paths = []) ∧ (¬s.IsForeign m → ListsPaths s m paths ∧
            pathsTo true fuel link (passed ++ [some n]) s = .ok paths s) := by
        intro link hlink
        obtain ⟨m, hm, rfl⟩ := hins n hn link hlink
        have hfeeds : s.Feeds g m n := ⟨hm, hn, hlink⟩
        by_cases hforeign : s.IsForeign m
        · exact ⟨[], m, rfl, hfeeds, fun _ => rfl, absurd hforeign⟩
        have hpassed' : ∀ k, some k ∈ passed ++ [some n] → TransGen (s.Feeds g) m k := by
          intro k hk
          rcases mem_append.mp hk with hk | hk
          · exact .head hfeeds (hpassed k hk)
          · cases mem_singleton.mp hk
            exact .single hfeeds
        obtain ⟨paths, hrun, hlists⟩ := ih hm (hbelow.step hfeeds) hpassed'
        exact ⟨paths, m, rfl, hfeeds, fun h => absurd h hforeign, fun _ => ⟨hlists, hrun⟩⟩
      choose! sub hsub using hsub
      refine ⟨_, (bind_of_ok hnode _).trans ?_, .of_inputs sub hstart (hnodup n hn)
        fun link hlink => ?_⟩
      · rw [if_neg (mt isPathStart_iff.mp hstart)]
        refine bind_of_ok (forIn_of_append (p := sub) (fun link hlink found => ?_) []) _
        obtain ⟨m, rfl, hfeeds, hforeign, hlists⟩ := hsub link hlink
        have hnew : some m ∉ passed := fun h => hbelow.acyclic (.tail (hpassed m h) hfeeds)
        rw [if_neg hnew]
        refine (bind_of_ok (node_run m s) _).trans ?_
        by_cases hm : s.IsForeign m
        · simp [Bool.eq_false_iff.mpr fun h => isPathStep_iff.mp h hm, hforeign hm]
        · simp only [isPathStep_iff.mpr hm]
          exact bind_of_ok (hlists hm).2 _
      · obtain ⟨m, rfl, -, hforeign, hlists⟩ := hsub link hlink
        exact ⟨m, rfl, hforeign, fun h => (hlists h).1⟩

/-- In the graph of a function whose paths are short and whose nodes have no input twice, all
definition paths of a node are listed, each of them once, and nothing else is. -/
theorem pathsTo_exact
    (hpaths : ∀ path : List NodeId, path.IsChain (s.Feeds g) → path.length - 1 ≤ 100)
    (n : NodeId) (hn : n ∈ (s.graphAt g).nodes) :
    ∃ paths, pathsTo true (maxDepth + 1) (some n) [] s = .ok paths s ∧ paths.Nodup ∧
      ∀ p, p ∈ paths ↔ ∃ path, s.IsDefinitionPath n path ∧ p = path.map some := by
  refine pathsTo_lists hins hnodup hn (fun l hl => ?_) fun m hm => absurd hm not_mem_nil
  have hlength := hpaths _ hl
  rw [length_append, length_singleton, Nat.add_sub_cancel] at hlength
  exact Nat.lt_succ_of_le hlength

omit hins hnodup in
/-- What a function returns depends on both of its parameters. -/
theorem pathsTo_adder : ∃ paths, pathsTo true (maxDepth + 1) (some ⟨5⟩) [] adder = .ok paths adder ∧
    paths.Nodup ∧ ∀ p, p ∈ paths ↔ ∃ path, adder.IsDefinitionPath ⟨5⟩ path ∧ p = path.map some :=
  pathsTo_exact adder_isFunctionDag.ins (by decide)
    (fun _ h => (adder_isFunctionDag.path_length_le h).trans (by decide)) ⟨5⟩ (by decide)

end Eval
end TypeFlow
