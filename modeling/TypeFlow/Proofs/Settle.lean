import TypeFlow.Proofs.Shape
import TypeFlow.Proofs.Trim

/-!
# Settling rejected types at a node

A node that is settled takes its rejected types back from its types, passes them to inputs and is
left with none. Settling takes types away and adds none, and the only nodes that get rejected
types are the inputs.

Nodes keep their rejected types in rows of their own; `Store.Kept` says what this means when a
branch keeps one row for each of its sides.
-/

set_option synthInstance.maxSize 2000

namespace TypeFlow

open Keeps

variable {s : Store} {g : GraphId} {m : NodeId} {p r : RowId} {kind : NodeKind}

def Entry.row? : Entry → Option RowId
  | .group r => some r
  | _ => none

namespace Store

variable {t : Store} {n : NodeId}

/-- The rows in which a kind of node keeps what `r` is for: a branch has one for each side. -/
def parts (s : Store) (kind : NodeKind) (r : RowId) : List RowId :=
  if kind.isBranch then (s.rowAt r).filterMap Entry.row? else [r]

/-- The rows in which a node keeps its types. -/
def typeParts (s : Store) (n : NodeId) : List RowId :=
  s.parts (s.nodeAt n).kind (s.nodeAt n).types

/-- The rows in which a node keeps its rejected types. -/
def rejectedParts (s : Store) (n : NodeId) : List RowId :=
  s.parts (s.nodeAt n).kind (s.nodeAt n).rejected

/-- A node has rejected types. -/
def Pending (s : Store) (n : NodeId) : Prop := ∃ p ∈ s.rejectedParts n, s.rowAt p ≠ []

/-- The row of a branch of a graph that lists the rows of its types. -/
def IsOuter (s : Store) (g : GraphId) (r : RowId) : Prop :=
  ∃ b ∈ (s.graphAt g).nodes, (s.nodeAt b).kind.isBranch = true ∧ r = (s.nodeAt b).types

/-- The rows of the nodes of a graph are in the store. Rows for rejected types belong to one node
and are used for nothing else, and the rows that list the types of a branch are used for nothing
else either. -/
structure Kept (s : Store) (g : GraphId) : Prop where
  types_stored : ∀ n ∈ (s.graphAt g).nodes, (s.nodeAt n).types.index < s.rows.size ∧
    ∀ p ∈ s.typeParts n, p.index < s.rows.size
  rejected_stored : ∀ n ∈ (s.graphAt g).nodes, (s.nodeAt n).rejected.index < s.rows.size ∧
    ∀ p ∈ s.rejectedParts n, p.index < s.rows.size
  sides_le : ∀ n ∈ (s.graphAt g).nodes, (s.nodeAt n).kind.isBranch = true →
    (s.rowAt (s.nodeAt n).rejected).length ≤ 2
  rejected_own : ∀ m ∈ (s.graphAt g).nodes, ∀ n ∈ (s.graphAt g).nodes,
    ∀ p ∈ s.rejectedParts m, p ∈ s.rejectedParts n → m = n
  rejected_apart : ∀ m ∈ (s.graphAt g).nodes, ∀ n ∈ (s.graphAt g).nodes,
    ∀ p ∈ s.rejectedParts m, p ∉ s.typeParts n ∧
      ((s.nodeAt n).kind.isBranch = true → p ≠ (s.nodeAt n).rejected)
  outer_apart : ∀ r, s.IsOuter g r →
    (∀ n ∈ (s.graphAt g).nodes, r ∉ s.typeParts n ∧ r ∉ s.rejectedParts n) ∧
    ∀ t, r ≠ (s.typeAt t).elements ∧ r ≠ (s.typeAt t).keys ∧ r ≠ (s.typeAt t).values

def BranchesFeedSymbols (s : Store) (g : GraphId) : Prop :=
  ∀ b ∈ (s.graphAt g).nodes, (s.nodeAt b).kind.isBranch = true →
    ∀ n, some n ∈ (s.nodeAt b).outs → (s.nodeAt n).kind.symbol?.isSome = true

/-- Graphs through which rejected types can be passed backward. -/
structure Orderly (s : Store) (g : GraphId) : Prop where
  dag : s.IsDag g
  kept : s.Kept g
  branches : s.BranchesFeedSymbols g

theorem Alike.types_eq (h : s.Alike Node.unrejected t) (n : NodeId) :
    (t.nodeAt n).types = (s.nodeAt n).types :=
  (congrArg Node.types (h.view_nodeAt n) :)

theorem mem_parts_of_not_branch (h : kind.isBranch = false) : p ∈ s.parts kind r ↔ p = r := by
  simp [parts, h]

theorem mem_parts_of_branch (h : kind.isBranch = true) :
    p ∈ s.parts kind r ↔ Entry.group p ∈ s.rowAt r := by
  simp only [parts, h, if_true, List.mem_filterMap]
  constructor
  · rintro ⟨e, he, heq⟩
    cases e <;> simp_all [Entry.row?]
  · exact fun hp => ⟨.group p, hp, rfl⟩

theorem parts_subset_of_sublist (h : kind.isBranch = true → (t.rowAt r).Sublist (s.rowAt r)) :
    t.parts kind r ⊆ s.parts kind r := by
  intro p hp
  cases hb : kind.isBranch with
  | false => exact (mem_parts_of_not_branch hb).mpr ((mem_parts_of_not_branch hb).mp hp)
  | true => exact (mem_parts_of_branch hb).mpr ((h hb).subset ((mem_parts_of_branch hb).mp hp))

end Store

namespace Limits

open Eval

variable {l : Limits} {α : Type} {types : RowId} (n : NodeId)

instance (sides : RowId) (i : Nat) : Keeps l.Within (sideRow sides i).run := by
  refine run_andThen fun entries => ?_
  split <;> infer_instance

instance (kind : NodeKind) : Keeps l.Within (noneRejected kind).run := by
  unfold noneRejected emptySides
  infer_instance

instance : Keeps l.Within (typesRow n).run := by
  refine run_andThen fun node => ?_
  split <;> infer_instance

instance : Keeps l.Within (typesAt n).run := by
  unfold typesAt
  infer_instance

instance (source target : NodeId) : Keeps l.Within (flowRow source target).run := by
  unfold flowRow sideFor
  infer_instance

/-- A side of a branch is one of those that it had at the beginning. -/
theorem gives_sideRow {sides : RowId} (hstored : sides.index < l.base.rows.size)
    (hgrow : ¬ l.growing sides) (i : Nat) :
    l.Gives (sideRow sides i) fun r => Entry.group r ∈ l.base.rowAt sides := by
  refine ⟨fun {s r t} hs hrun => ?_⟩
  simp only [sideRow, Typing.run_bind, bind_of_ok (row_run sides s)] at hrun
  cases hget : (s.rowAt sides)[i]? with
  | none => simp [hget] at hrun
  | some e =>
    cases e with
    | group r' =>
      simp only [hget, Typing.run_pure, pure_apply, EStateM.Result.ok.injEq] at hrun
      obtain ⟨rfl, rfl⟩ := hrun
      exact ⟨hs, (hs.trimmed sides hstored hgrow).subset (List.mem_of_getElem? hget)⟩
    | type | text | absent => simp [hget] at hrun

theorem gives_elementAt (as : List α) (i : Int) : l.Gives (elementAt as i) (· ∈ as) := by
  unfold elementAt
  split
  · rename_i a ha
    refine Gives.pure ?_
    unfold at? at ha
    split_ifs at ha <;> exact List.mem_of_getElem? ha
  · exact Gives.throw _ _

theorem keeps_append (hr : l.growing r) (e : Entry) : Keeps l.Within (append r e).run :=
  keeps_modifyRow ⟨l.growing_not_fixed r hr, .inr (.inl hr)⟩

theorem keeps_removeSame (h : ¬ l.fixed types) (e : Entry) :
    Keeps l.Within (removeSame types e).run := by
  have (found : Entry) : Keeps l.Within (modifyRow types (·.erase found)).run :=
    keeps_modifyRow ⟨h, .inl fun _ => List.erase_sublist⟩
  refine run_andThen fun entries => run_andThen fun found => ?_
  cases found <;> infer_instance

theorem keeps_takeBack (h : ¬ l.fixed types) (entries : List Entry) :
    Keeps l.Within (takeBack types entries).run := by
  have (e : Entry) := keeps_removeSame h e
  unfold takeBack
  infer_instance

theorem keeps_takeBackEnded (info : SymbolInfo) (h : ¬ l.fixed types) (entries : List Entry) :
    Keeps l.Within (takeBackEnded info types entries).run := by
  have hstep (ended : List Entry) (e : Entry) :
      Keeps l.Within (takeBackNoting info types ended e).run := by
    have := keeps_removeSame h e
    refine run_andThen fun found => ?_
    cases found <;> infer_instance
  exact run_foldlM entries [] _

end Limits

/-- Limits for settling a node: only the inputs get rejected types. -/
def Limits.settle {s : Store} {g : GraphId} {n : NodeId} (h : s.Orderly g)
    (hn : n ∈ (s.graphAt g).nodes) : Limits where
  base := s
  fixed := s.IsOuter g
  growing p := ∃ m, some m ∈ (s.nodeAt n).ins ∧ p ∈ s.rejectedParts m
  fixed_stored := by
    rintro r ⟨b, hb, -, rfl⟩
    exact (h.kept.types_stored b hb).1
  growing_not_fixed := by
    rintro p ⟨m, hm, hp⟩ hfixed
    exact ((h.kept.outer_apart p hfixed).1 m (h.dag.mem_of_ins hn hm)).2 hp

namespace Limits

open Eval Store

section Settle

variable {n : NodeId} {h : s.Orderly g} {hn : n ∈ (s.graphAt g).nodes} {link : Link}
  (users : List Document)

theorem settle_node (m : NodeId) : (settle h hn).Gives (node m) (· = s.nodeAt m) := gives_node m

theorem settle_holds : (settle h hn).Holds s where
  nodes := rfl
  stored := Nat.le_refl _
  free c := ⟨fun hr => ((h.kept.outer_apart _ hr).2 c).1 rfl,
    fun hr => ((h.kept.outer_apart _ hr).2 c).2.1 rfl,
    fun hr => ((h.kept.outer_apart _ hr).2 c).2.2 rfl⟩
  same _ _ := rfl
  trimmed _ _ _ := .refl _

theorem settle_typePart (hp : p ∈ s.typeParts n) : ¬ (settle h hn).fixed p :=
  fun hfixed => ((h.kept.outer_apart p hfixed).1 n hn).1 hp

variable (h hn) in
theorem settle_types (hb : (s.nodeAt n).kind.isBranch = false) :
    ¬ (settle h hn).fixed (s.nodeAt n).types :=
  settle_typePart ((mem_parts_of_not_branch hb).mpr rfl)

theorem settle_input (hm : some m ∈ (s.nodeAt n).ins) (hp : p ∈ s.rejectedParts m) :
    (settle h hn).growing p := ⟨m, hm, hp⟩

theorem settle_outer (hm : m ∈ (s.graphAt g).nodes) (hb : (s.nodeAt m).kind.isBranch = true) :
    ¬ (settle h hn).growing (s.nodeAt m).rejected := by
  rintro ⟨k, hk, hp⟩
  exact (h.kept.rejected_apart k (h.dag.mem_of_ins hn hk) m hm _ hp).2 hb rfl

/-- The row to which an edge of a node leads back belongs to the input. -/
theorem gives_rejectedRow (hm : some m ∈ (s.nodeAt n).ins) :
    (settle h hn).Gives (rejectedRow m n) (settle h hn).growing := by
  have hmem := h.dag.mem_of_ins hn hm
  refine (settle_node m).bind ?_
  rintro node rfl
  split
  · rename_i hb
    refine (gives_of_keeps inferInstance).bind fun i _ => ?_
    refine (gives_sideRow (h.kept.rejected_stored m hmem).1 (settle_outer hmem hb) i).imp ?_
    exact fun r hr => settle_input hm ((mem_parts_of_branch hb).mpr hr)
  · rename_i hb
    exact Gives.pure (settle_input hm ((mem_parts_of_not_branch (by simpa using hb)).mpr rfl))

theorem keeps_passBack (ended : List Entry) (hm : some m ∈ (s.nodeAt n).ins) (e : Entry) :
    Keeps (settle h hn).Within (passBack ended m n e).run := by
  have hreject : Keeps (settle h hn).Within (do append (← rejectedRow m n) e).run :=
    (gives_rejectedRow hm).andThen fun r hr => keeps_append hr e
  unfold passBack
  infer_instance

theorem settle_rejected (hsymbol : (s.nodeAt n).kind.symbol? = none)
    (hm : some m ∈ (s.nodeAt n).ins) : (settle h hn).growing (s.nodeAt m).rejected := by
  refine settle_input hm ((mem_parts_of_not_branch ?_).mpr rfl)
  have hmem := h.dag.mem_of_ins hn hm
  by_contra hb
  have := h.branches m hmem (by simpa using hb) n ((h.dag.same m hmem n hn).mp hm)
  simp [hsymbol] at this

theorem keeps_passTo (hlink : link ∈ (s.nodeAt n).ins)
    (hsymbol : (s.nodeAt n).kind.symbol? = none) (e : Entry) :
    Keeps (settle h hn).Within (passTo link e).run := by
  cases link with
  | none => exact ⟨fun h => by cases h⟩
  | some m =>
    have hreject : Keeps (settle h hn).Within (do append (← node m).rejected e).run := by
      refine (settle_node m).andThen ?_
      rintro node rfl
      exact keeps_append (settle_rejected hsymbol hlink) e
    refine run_andThen (x := typesAt m) fun entries => ?_
    infer_instance

theorem keeps_rejectAtSymbol (info : SymbolInfo) (hkind : (s.nodeAt n).kind = .symbol info) :
    Keeps (settle h hn).Within (rejectAtSymbol n info (s.nodeAt n)).run := by
  refine run_andThen fun entries => ?_
  have := keeps_takeBackEnded info (settle_types h hn (by rw [hkind]; rfl)) entries
  refine run_andThen fun ended => ?_
  split
  · rename_i link hins
    cases link with
    | none => exact ⟨fun h => by cases h⟩
    | some m =>
      have (e : Entry) : Keeps (settle h hn).Within (passBack ended m n e).run :=
        keeps_passBack ended (hins ▸ .head _) e
      exact run_forM entries (passBack ended m n)
  · infer_instance

theorem keeps_rejectAtKnown (node : Node) :
    Keeps (settle h hn).Within (rejectAtKnown node).run := by
  unfold rejectAtKnown
  infer_instance

theorem keeps_rejectRow (hlink : link ∈ (s.nodeAt n).ins)
    (hsymbol : (s.nodeAt n).kind.symbol? = none) (r : RowId) :
    Keeps (settle h hn).Within (rejectRow r link).run := by
  cases link with
  | none => exact ⟨fun h => by cases h⟩
  | some m =>
    change Keeps _ (do
      let target ← node m
      let entries ← row r
      modifyRow target.rejected (· ++ entries)).run
    refine (settle_node m).andThen ?_
    rintro node rfl
    have hgrow : (settle h hn).growing (s.nodeAt m).rejected := settle_rejected hsymbol hlink
    refine run_andThen fun entries => ?_
    exact keeps_modifyRow ⟨growing_not_fixed _ _ hgrow, .inr (.inl hgrow)⟩

theorem keeps_rejectAtOperation (info : OperationInfo)
    (hkind : (s.nodeAt n).kind = .operation info) :
    Keeps (settle h hn).Within (rejectAtOperation users n info (s.nodeAt n)).run := by
  have hinfo : Keeps (settle h hn).Within (operationAt n).run := by
    unfold operationAt
    infer_instance
  have hmiscount (info : OperationInfo) (line : Int) :
      Keeps (settle h hn).Within (miscount info " " line).run := by
    unfold miscount
    dsimp only
    infer_instance
  have hon (operands : List Operand) (traversal : Bool) : Keeps (settle h hn).Within
      (performRejectionOn n operands (some users) traversal).run := by
    refine run_andThen fun _ => (settle_node n).andThen ?_
    rintro source rfl
    refine run_andThen fun rows => ?_
    have hpass : Keeps (settle h hn).Within
        ((rows.zip (s.nodeAt n).ins).forM fun p => rejectRow p.1 p.2).run :=
      run_forM_of_mem fun p hp =>
        keeps_rejectRow (List.of_mem_zip hp).2 (by rw [hkind]; rfl) p.1
    dsimp only
    infer_instance
  unfold rejectAtOperation performRejection
  infer_instance

theorem keeps_rejectAtBranch (hb : (s.nodeAt n).kind.isBranch = true) :
    Keeps (settle h hn).Within (rejectAtBranch (s.nodeAt n)).run := by
  have houter : (settle h hn).fixed (s.nodeAt n).types := ⟨n, hn, hb, rfl⟩
  have hremove (i : Nat) (e : Entry) : Keeps (settle h hn).Within
      (do let _ ← removeSame (← sideRow (s.nodeAt n).types i) e : Typing Unit).run := by
    refine (gives_sideRow (fixed_stored _ _ houter)
      (fun hgrow => growing_not_fixed _ _ hgrow houter) i).andThen fun types htypes => ?_
    have hside : ¬ (settle h hn).fixed types :=
      settle_typePart ((mem_parts_of_branch hb).mpr htypes)
    have := keeps_removeSame hside e
    infer_instance
  have hside (i : Nat) : Keeps (settle h hn).Within (takeBackSide (s.nodeAt n) i).run := by
    unfold takeBackSide
    infer_instance
  have hto {link : Link} (hlink : link ∈ (s.nodeAt n).ins) (e : Entry) :
      Keeps (settle h hn).Within (passTo link e).run := by
    refine keeps_passTo hlink ?_ e
    cases hkind : (s.nodeAt n).kind <;> simp_all [NodeKind.isBranch, NodeKind.symbol?]
  have hfirst (e : Entry) : Keeps (settle h hn).Within
      (do passTo (← elementAt (s.nodeAt n).ins 0) e).run :=
    (gives_elementAt _ 0).andThen fun link hlink => hto hlink e
  have hsecond (e : Entry) : Keeps (settle h hn).Within (passToSecond (s.nodeAt n) e).run := by
    unfold passToSecond
    split
    · rename_i hins
      exact hto (hins ▸ .tail _ (.head _)) e
    · infer_instance
  unfold rejectAtBranch
  infer_instance

theorem keeps_rejectAtMerge (var : String) (hkind : (s.nodeAt n).kind = .merge var) :
    Keeps (settle h hn).Within (rejectAtMerge (s.nodeAt n)).run := by
  refine run_andThen fun entries => ?_
  have := keeps_takeBack (settle_types h hn (by rw [hkind]; rfl)) entries
  refine run_andThen fun _ => run_forM_of_mem fun link hlink => ?_
  have (e : Entry) : Keeps (settle h hn).Within (passTo link e).run :=
    keeps_passTo hlink (by rw [hkind]; rfl) e
  infer_instance

/-- Settling a node stays within limits. -/
theorem keeps_passRejected :
    Keeps (settle h hn).Within (passRejected users n (s.nodeAt n)).run := by
  unfold passRejected
  split
  · rename_i info hkind
    exact keeps_rejectAtSymbol info hkind
  · exact keeps_rejectAtKnown _
  · rename_i info hkind
    exact keeps_rejectAtOperation users info hkind
  · rename_i hkind
    exact keeps_rejectAtBranch (by rw [hkind]; rfl)
  · rename_i var hkind
    exact keeps_rejectAtMerge var hkind
  · infer_instance

end Settle

end Limits

namespace Eval

open Store

variable {t : Store} {n : NodeId} {users : List Document} {entries : List Entry}

structure Settled (s : Store) (g : GraphId) (n : NodeId) (t : Store) : Prop where
  alike : s.Alike Node.unrejected t
  stored : s.rows.size ≤ t.rows.size
  free : ∀ r, s.IsOuter g r → ∀ c,
    r ≠ (t.typeAt c).elements ∧ r ≠ (t.typeAt c).keys ∧ r ≠ (t.typeAt c).values
  typeParts_eq : ∀ m ∈ (s.graphAt g).nodes, t.typeParts m = s.typeParts m
  types_trimmed : ∀ m ∈ (s.graphAt g).nodes, ∀ p ∈ s.typeParts m,
    (t.rowAt p).Sublist (s.rowAt p)
  rejected_eq : ∀ m, m ≠ n → (t.nodeAt m).rejected = (s.nodeAt m).rejected
  rejected_trimmed : ∀ m ∈ (s.graphAt g).nodes, m ≠ n → (s.nodeAt m).kind.isBranch = true →
    (t.rowAt (s.nodeAt m).rejected).Sublist (s.rowAt (s.nodeAt m).rejected)
  fed : ∀ m ∈ (s.graphAt g).nodes, m ≠ n → t.Pending m → s.Pending m ∨ s.Feeds g m n
  rejected_new : s.rows.size ≤ (t.nodeAt n).rejected.index ∧
    (t.nodeAt n).rejected.index < t.rows.size
  sides_new : (t.nodeAt n).kind.isBranch = true → (t.rowAt (t.nodeAt n).rejected).length ≤ 2
  rejectedParts_new : ∀ p ∈ t.rejectedParts n, s.rows.size ≤ p.index ∧ p.index < t.rows.size ∧
    t.rowAt p = [] ∧ ((t.nodeAt n).kind.isBranch = true → p ≠ (t.nodeAt n).rejected)

namespace Settled

section

variable (h : Settled s g n t)

include h

theorem isOuter_iff (r : RowId) : t.IsOuter g r ↔ s.IsOuter g r := by
  simp only [IsOuter, h.alike.graphAt_eq, h.alike.kind_eq, h.alike.types_eq]

theorem not_pending : ¬ t.Pending n := fun ⟨p, hp, hne⟩ =>
  hne (h.rejectedParts_new p hp).2.2.1

theorem rejectedParts_subset (hm : m ∈ (s.graphAt g).nodes) (hne : m ≠ n) :
    t.rejectedParts m ⊆ s.rejectedParts m := by
  intro p hp
  rw [rejectedParts, h.alike.kind_eq, h.rejected_eq m hne] at hp
  exact parts_subset_of_sublist (h.rejected_trimmed m hm hne) hp

variable (ho : s.Orderly g)

include ho

theorem new_or_old (hm : m ∈ (s.graphAt g).nodes) (hp : p ∈ t.rejectedParts m) :
    (m = n ∧ s.rows.size ≤ p.index) ∨ (m ≠ n ∧ p ∈ s.rejectedParts m ∧ p.index < s.rows.size) := by
  by_cases hne : m = n
  · exact .inl ⟨hne, (h.rejectedParts_new p (hne ▸ hp)).1⟩
  · have hp' := h.rejectedParts_subset hm hne hp
    exact .inr ⟨hne, hp', (ho.kept.rejected_stored m hm).2 p hp'⟩

theorem rejected_new_or_old (hm : m ∈ (s.graphAt g).nodes) :
    (m = n ∧ s.rows.size ≤ (t.nodeAt m).rejected.index) ∨
      (m ≠ n ∧ (t.nodeAt m).rejected = (s.nodeAt m).rejected ∧
        (t.nodeAt m).rejected.index < s.rows.size) := by
  by_cases hne : m = n
  · exact .inl ⟨hne, hne ▸ h.rejected_new.1⟩
  · have heq := h.rejected_eq m hne
    exact .inr ⟨hne, heq, heq ▸ (ho.kept.rejected_stored m hm).1⟩

theorem rejected_apart {k : NodeId}
    (hm : m ∈ (s.graphAt g).nodes) (hk : k ∈ (s.graphAt g).nodes) (hp : p ∈ t.rejectedParts m) :
    p ∉ s.typeParts k ∧ ((s.nodeAt k).kind.isBranch = true → p ≠ (t.nodeAt k).rejected) := by
  rcases h.new_or_old ho hm hp with ⟨rfl, hnew⟩ | ⟨-, hp', hlt⟩
  · refine ⟨fun htypes => ?_, fun hb heq => ?_⟩
    · have := (ho.kept.types_stored k hk).2 p htypes
      omega
    · rcases h.rejected_new_or_old ho hk with ⟨rfl, -⟩ | ⟨-, -, hlt⟩
      · exact (h.rejectedParts_new p hp).2.2.2 (h.alike.kind_eq k ▸ hb) heq
      · rw [← heq] at hlt
        omega
  · obtain ⟨htypes, hrejected⟩ := ho.kept.rejected_apart m hm k hk p hp'
    refine ⟨htypes, fun hb heq => ?_⟩
    rcases h.rejected_new_or_old ho hk with ⟨-, hnew⟩ | ⟨-, hold, -⟩
    · rw [← heq] at hnew
      omega
    · exact hrejected hb (hold ▸ heq)

/-- Settling a node leaves every row with its owner. -/
theorem kept : t.Kept g := by
  have hgraph := h.alike.graphAt_eq g
  have hgrown := h.stored
  refine ⟨?_, ?_, ?_, ?_, ?_, ?_⟩
  · intro m hm
    rw [hgraph] at hm
    rw [h.alike.types_eq, h.typeParts_eq m hm]
    obtain ⟨htypes, hparts⟩ := ho.kept.types_stored m hm
    exact ⟨Nat.lt_of_lt_of_le htypes hgrown, fun p hp => Nat.lt_of_lt_of_le (hparts p hp) hgrown⟩
  · intro m hm
    rw [hgraph] at hm
    constructor
    · rcases h.rejected_new_or_old ho hm with ⟨rfl, -⟩ | ⟨-, -, hlt⟩
      · exact h.rejected_new.2
      · exact Nat.lt_of_lt_of_le hlt hgrown
    · intro p hp
      rcases h.new_or_old ho hm hp with ⟨rfl, -⟩ | ⟨-, -, hlt⟩
      · exact (h.rejectedParts_new p hp).2.1
      · exact Nat.lt_of_lt_of_le hlt hgrown
  · intro m hm hb
    rw [hgraph] at hm
    by_cases hne : m = n
    · subst hne
      exact h.sides_new hb
    · rw [h.alike.kind_eq] at hb
      rw [h.rejected_eq m hne]
      exact (h.rejected_trimmed m hm hne hb).length_le.trans (ho.kept.sides_le m hm hb)
  · intro m hm k hk p hp hp'
    rw [hgraph] at hm hk
    rcases h.new_or_old ho hm hp with ⟨rfl, hnew⟩ | ⟨-, hpm, hlt⟩ <;>
      rcases h.new_or_old ho hk hp' with ⟨rfl, hnew'⟩ | ⟨-, hpk, hlt'⟩
    · rfl
    · omega
    · omega
    · exact ho.kept.rejected_own m hm k hk p hpm hpk
  · intro m hm k hk p hp
    rw [hgraph] at hm hk
    rw [h.typeParts_eq k hk, h.alike.kind_eq]
    exact h.rejected_apart ho hm hk hp
  · intro r hr
    have hr' := (h.isOuter_iff r).mp hr
    refine ⟨fun m hm => ?_, h.free r hr'⟩
    rw [hgraph] at hm
    rw [h.typeParts_eq m hm]
    obtain ⟨htypes, hrejected⟩ := (ho.kept.outer_apart r hr').1 m hm
    refine ⟨htypes, fun hp => ?_⟩
    rcases h.new_or_old ho hm hp with ⟨-, hnew⟩ | ⟨-, hp', -⟩
    · obtain ⟨b, hb, -, rfl⟩ := hr'
      have := (ho.kept.types_stored b hb).1
      omega
    · exact hrejected hp'

theorem orderly : t.Orderly g := by
  refine ⟨ho.dag.of_alike h.alike.edges, h.kept ho, fun b hb hbranch k hk => ?_⟩
  rw [h.alike.graphAt_eq] at hb
  rw [h.alike.kind_eq] at hbranch ⊢
  exact ho.branches b hb hbranch k (h.alike.edges.outs_eq b ▸ hk)

end

end Settled

/-- The rows for what a node without rejected types keeps are new and empty. -/
theorem noneRejected_eq_ok (h : (noneRejected kind).run s = .ok entries t) :
    (∀ p, Entry.group p ∈ entries → s.rows.size ≤ p.index ∧ p.index < t.rows.size ∧
      t.rowAt p = []) ∧ entries.length ≤ 2 ∧ (kind.isBranch = false → entries = []) := by
  unfold noneRejected at h
  split at h
  · rename_i hb
    simp only [emptySides, Typing.run_bind, Typing.run_pure, bind_eq_ok, newRow_run, pure_apply,
      EStateM.Result.ok.injEq] at h
    obtain ⟨a, _, ⟨rfl, rfl⟩, b, _, ⟨rfl, rfl⟩, rfl, rfl⟩ := h
    refine ⟨fun p hp => ?_, Nat.le_refl 2, by simp [hb]⟩
    simp only [List.mem_cons, Entry.group.injEq, List.not_mem_nil, or_false] at hp
    have hold : s.rows.size < ((s.rows.push []).push []).size := by
      rw [Array.size_push, Array.size_push]
      omega
    rcases hp with rfl | rfl
    · exact ⟨Nat.le_refl _, hold, by simp [rowAt, Array.getD, Array.getElem_push]⟩
    · exact ⟨by simp, by simp, by simp [rowAt, Array.getD, Array.getElem_push]⟩
  · cases h
    rename_i hb
    exact ⟨by simp, by simp, fun _ => rfl⟩

theorem setRejected_eq_ok (hn : n.index < s.nodes.size) (h : setRejected n entries s = .ok () t) :
    t.rows.size = s.rows.size + 1 ∧ (∀ c, t.typeAt c = s.typeAt c) ∧
      (∀ p, t.rowAt p = if p.index = s.rows.size then entries else s.rowAt p) ∧
      ∀ m, t.nodeAt m =
        if m = n then { s.nodeAt n with rejected := ⟨s.rows.size⟩ } else s.nodeAt m := by
  simp only [setRejected, liftM_eq_run, bind_of_ok (newRow_run entries s), modifyNode_apply,
    EStateM.Result.ok.injEq, true_and] at h
  subst h
  exact ⟨Array.size_push _, fun _ => rfl, rowAt_push s entries, nodeAt_modify hn _⟩

/-- Settling a node takes types away and passes rejected types to inputs only. -/
theorem reject_settles (ho : s.Orderly g) (hn : n ∈ (s.graphAt g).nodes)
    (h : reject users n s = .ok () t) : Settled s g n t := by
  have halike : s.Alike Node.unrejected t := rel h
  simp only [reject, liftM_eq_run, bind_eq_ok, node_run, EStateM.Result.ok.injEq] at h
  obtain ⟨_, _, ⟨rfl, rfl⟩, ⟨⟩, u, hpass, entries, v, hnone, hset⟩ := h
  let l := Limits.settle ho hn
  have hu : l.Holds u := (Limits.keeps_passRejected users).rel hpass Limits.settle_holds
  have hv : l.Holds v := rel (R := l.Within) hnone hu
  obtain ⟨hempty, hsides, hnone⟩ := noneRejected_eq_ok hnone
  have hnv : ∀ m, v.nodeAt m = s.nodeAt m := fun m => by rw [nodeAt, nodeAt, hv.nodes]; rfl
  have hsize : n.index < v.nodes.size := by
    rw [hv.nodes]
    exact ho.dag.stored n hn
  obtain ⟨hrows, htypes, hrow, hnode⟩ := setRejected_eq_ok hsize hset
  simp only [hnv] at hnode
  have hstored : s.rows.size ≤ v.rows.size := hv.stored
  have hold (p : RowId) (hp : p.index < s.rows.size) : t.rowAt p = v.rowAt p := by
    rw [hrow, if_neg (by omega)]
  have hother (m : NodeId) (hm : m ≠ n) : t.nodeAt m = s.nodeAt m := by rw [hnode, if_neg hm]
  have htrim (p : RowId) (hp : p.index < s.rows.size) (hgrow : ¬ l.growing p) :
      (t.rowAt p).Sublist (s.rowAt p) := by
    rw [hold p hp]
    exact hv.trimmed p hp hgrow
  have hrejected (m : NodeId) (hm : m ∈ (s.graphAt g).nodes)
      (hb : (s.nodeAt m).kind.isBranch = true) :
      (t.rowAt (s.nodeAt m).rejected).Sublist (s.rowAt (s.nodeAt m).rejected) :=
    htrim _ (ho.kept.rejected_stored m hm).1 (Limits.settle_outer hm hb)
  exact {
    alike := halike
    stored := by omega
    free := fun r hr c => by
      obtain ⟨he, hk, hvalues⟩ := hv.free c
      rw [htypes]
      exact ⟨fun h => he (h ▸ hr), fun h => hk (h ▸ hr), fun h => hvalues (h ▸ hr)⟩
    typeParts_eq := fun m hm => by
      rw [typeParts, typeParts, halike.kind_eq, halike.types_eq, parts, parts]
      split
      · rename_i hb
        rw [hold _ (ho.kept.types_stored m hm).1, hv.same _ ⟨m, hm, hb, rfl⟩]
        rfl
      · rfl
    types_trimmed := fun m hm p hp => by
      refine htrim p ((ho.kept.types_stored m hm).2 p hp) ?_
      rintro ⟨k, hk, hp'⟩
      exact (ho.kept.rejected_apart k (ho.dag.mem_of_ins hn hk) m hm p hp').1 hp
    rejected_eq := fun m hm => by rw [hother m hm]
    rejected_trimmed := fun m hm _ hb => hrejected m hm hb
    fed := by
      rintro m hm hne ⟨p, hp, hpending⟩
      have hp' : p ∈ s.rejectedParts m := by
        rw [rejectedParts, hother m hne] at hp
        exact parts_subset_of_sublist (hrejected m hm) hp
      by_cases hgrow : l.growing p
      · obtain ⟨k, hk, hpk⟩ := hgrow
        have hmem := ho.dag.mem_of_ins hn hk
        obtain rfl := ho.kept.rejected_own k hmem m hm p hpk hp'
        exact .inr (ho.dag.feeds_of_ins hn hk)
      · refine .inl ⟨p, hp', fun hnil => hpending ?_⟩
        have hsub := htrim p ((ho.kept.rejected_stored m hm).2 p hp') hgrow
        exact List.sublist_nil.mp (hnil ▸ hsub)
    rejected_new := by
      rw [hnode, if_pos rfl]
      exact ⟨hstored, by simp [hrows]⟩
    sides_new := fun _ => by
      rw [hnode, if_pos rfl, hrow, if_pos rfl]
      exact hsides
    rejectedParts_new := by
      intro p hp
      rw [rejectedParts, hnode, if_pos rfl] at hp
      rw [hnode, if_pos rfl]
      cases hb : (s.nodeAt n).kind.isBranch with
      | false =>
        obtain rfl := (mem_parts_of_not_branch hb).mp hp
        exact ⟨hstored, by simp [hrows], by simp [hrow, hnone hb], by simp⟩
      | true =>
        have hp' := (mem_parts_of_branch hb).mp hp
        rw [hrow, if_pos rfl] at hp'
        obtain ⟨hle, hlt, hnil⟩ := hempty p hp'
        have hne : p.index ≠ v.rows.size := Nat.ne_of_lt hlt
        have hgrown : s.rows.size ≤ u.rows.size := hu.stored
        refine ⟨by omega, by omega, by rw [hrow, if_neg hne, hnil], fun _ heq => ?_⟩
        exact hne (congrArg RowId.index heq) }

end Eval
end TypeFlow
