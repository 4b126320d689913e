import TypeFlow.Proofs.Discard
import TypeFlow.Rejection
import TypeFlow.Type.Print

/-!
# Working on types only takes entries away

Comparing, copying, simplifying and printing types makes new rows and takes entries away from
old ones; no old row gains an entry. `Limits` names the store at which the work begins, rows that
have to stay exactly as they are, and rows that may nevertheless be extended. The work stays
within these limits as long as no fixed row belongs to the contents of a type.
-/

set_option synthInstance.maxSize 2000

namespace TypeFlow

open Eval Keeps Rejection EStateM.Result

/-- Limits for the changes of rows. -/
structure Limits where
  /-- The store at which the work begins. -/
  base : Store
  /-- Rows that stay as they are. -/
  fixed : RowId → Prop
  /-- Rows that may gain entries. -/
  growing : RowId → Prop
  fixed_stored : ∀ r, fixed r → r.index < base.rows.size
  growing_not_fixed : ∀ r, growing r → ¬ fixed r

namespace Limits

variable {l : Limits} {α β : Type} {r : RowId} {s : Store} {x : Typing α} {Q : α → Prop} {a : α}
  {f : α → Typing β} {Q' : β → Prop} (entries : List Entry) (t : TypeId) (n : Nat) (e : Entry)
  (o : Operand) (outs : List Entry) (left : Operand) (right : Operand)

/-- The contents of a type are in rows that may change. -/
def Free (l : Limits) (c : TypeCell) : Prop :=
  ¬ l.fixed c.elements ∧ ¬ l.fixed c.keys ∧ ¬ l.fixed c.values

/-- The rows of a store have changed within limits. -/
structure Holds (l : Limits) (s : Store) : Prop where
  nodes : s.nodes = l.base.nodes
  stored : l.base.rows.size ≤ s.rows.size
  free : ∀ t, l.Free (s.typeAt t)
  same : ∀ r, l.fixed r → s.rowAt r = l.base.rowAt r
  trimmed : ∀ r, r.index < l.base.rows.size → ¬ l.growing r →
    (s.rowAt r).Sublist (l.base.rowAt r)

/-- Work that leaves the rows within limits. -/
def Within (l : Limits) (s t : Store) : Prop := l.Holds s → l.Holds t

instance : IsPreorder Store l.Within where
  refl _ := id
  trans _ _ _ h₁ h₂ h := h₂ (h₁ h)

theorem not_fixed_of_new (h : l.base.rows.size ≤ r.index) : ¬ l.fixed r :=
  fun hr => Nat.not_le_of_lt (l.fixed_stored r hr) h

/-- Changes of a row that is not fixed: entries may go, and new or growing rows may gain some. -/
def Allows (l : Limits) (r : RowId) (f : List Entry → List Entry) : Prop :=
  ¬ l.fixed r ∧
    ((∀ entries, (f entries).Sublist entries) ∨ l.growing r ∨ l.base.rows.size ≤ r.index)

theorem keeps_modifyRow {f : List Entry → List Entry} (h : l.Allows r f) :
    Keeps l.Within (modifyRow r f).run := by
  refine .of_ends fun s => ⟨_, _, rfl, fun hs => ?_⟩
  refine ⟨hs.nodes, by simpa using hs.stored, hs.free, fun p hp => ?_, fun p hp hgrow => ?_⟩
  · rw [Store.rowAt_modify, if_neg (fun hpr : p = r ∧ _ => h.1 (hpr.1 ▸ hp))]
    exact hs.same p hp
  · rw [Store.rowAt_modify]
    split
    · rename_i hpr
      obtain ⟨rfl, -⟩ := hpr
      rcases h.2 with hsub | hgrow' | hnew
      · exact (hsub _).trans (hs.trimmed p hp hgrow)
      · exact absurd hgrow' hgrow
      · exact absurd hp (Nat.not_lt_of_le hnew)
    · exact hs.trimmed p hp hgrow

theorem keeps_modifyType {t : TypeId} {f : TypeCell → TypeCell}
    (hf : ∀ c, l.Free c → l.Free (f c)) : Keeps l.Within (modifyType t f).run := by
  refine .of_ends fun s => ⟨_, _, rfl, fun hs => ?_⟩
  refine ⟨hs.nodes, hs.stored, fun p => ?_, hs.same, hs.trimmed⟩
  rw [Store.typeAt_modify]
  split
  · exact hf _ (hs.free t)
  · exact hs.free p

theorem keeps_newCell {c : TypeCell} (hc : l.Free c) : Keeps l.Within (newCell c).run := by
  refine .of_ends fun s => ⟨_, _, rfl, fun hs => ?_⟩
  refine ⟨hs.nodes, hs.stored, fun p => ?_, hs.same, hs.trimmed⟩
  rw [Store.typeAt_push]
  split
  · exact hc
  · exact hs.free p

theorem holds_push (hs : l.Holds s) (entries : List Entry) :
    l.Holds { s with rows := s.rows.push entries } := by
  have hold (p : RowId) (hp : p.index < l.base.rows.size) :
      Store.rowAt { s with rows := s.rows.push entries } p = s.rowAt p := by
    rw [Store.rowAt_push, if_neg (Nat.ne_of_lt (Nat.lt_of_lt_of_le hp hs.stored))]
  refine ⟨hs.nodes, ?_, hs.free, fun p hp => ?_, fun p hp hgrow => ?_⟩
  · simpa using Nat.le_succ_of_le hs.stored
  · rw [hold p (l.fixed_stored p hp)]
    exact hs.same p hp
  · rw [hold p hp]
    exact hs.trimmed p hp hgrow

/-- Rows that were not there at the beginning. -/
def New (l : Limits) (r : RowId) : Prop := l.base.rows.size ≤ r.index

/-- Work within limits whose result meets a condition. -/
structure Gives (l : Limits) (x : Typing α) (Q : α → Prop) : Prop where
  rel : ∀ {s a t}, l.Holds s → x.run s = .ok a t → l.Holds t ∧ Q a

theorem Gives.keeps (h : l.Gives x Q) : Keeps l.Within x.run :=
  ⟨fun hrun hs => (h.rel hs hrun).1⟩

theorem gives_of_keeps (h : Keeps l.Within x.run) : l.Gives x fun _ => True :=
  ⟨fun hs hrun => ⟨h.rel hrun hs, trivial⟩⟩

theorem Gives.of_ends (h : ∀ s, l.Holds s → Ends x.run s fun a t => l.Holds t ∧ Q a) :
    l.Gives x Q := ⟨fun hs hrun => (h _ hs).of_ok hrun⟩

theorem Gives.pure (h : Q a) : l.Gives (pure a) Q := .of_ends fun s hs => ⟨a, s, rfl, hs, h⟩

theorem Gives.throw (e : Fault) (Q : α → Prop) : l.Gives (throw e) Q :=
  ⟨fun _ hrun => by cases hrun⟩

theorem Gives.bind (hx : l.Gives x Q) (hf : ∀ a, Q a → l.Gives (f a) Q') :
    l.Gives (x >>= f) Q' := by
  refine ⟨fun hs hrun => ?_⟩
  obtain ⟨a, u, h₁, h₂⟩ := bind_eq_ok.mp hrun
  obtain ⟨hu, ha⟩ := hx.rel hs h₁
  exact (hf a ha).rel hu h₂

theorem Gives.imp {Q' : α → Prop} (hx : l.Gives x Q) (h : ∀ a, Q a → Q' a) :
    l.Gives x Q' := ⟨fun hs hrun => (hx.rel hs hrun).imp_right (h _)⟩

theorem Gives.andThen (hx : l.Gives x Q) (hf : ∀ a, Q a → Keeps l.Within (f a).run) :
    Keeps l.Within (x >>= f).run :=
  (hx.bind fun a ha => gives_of_keeps (hf a ha)).keeps

theorem gives_newRow : l.Gives (newRow entries) l.New :=
  .of_ends fun _ hs => ⟨_, _, rfl, holds_push hs entries, hs.stored⟩

instance : Keeps l.Within (newRow entries).run := (gives_newRow entries).keeps

theorem gives_type : l.Gives (type t) l.Free :=
  .of_ends fun s hs => ⟨_, s, rfl, hs, hs.free t⟩

theorem gives_node (n : NodeId) : l.Gives (node n) (· = l.base.nodeAt n) :=
  .of_ends fun s hs => ⟨_, s, rfl, hs, by rw [Store.nodeAt, Store.nodeAt, hs.nodes]⟩

/-! ### Copies -/

/-- Copies have been made into new rows. -/
def AllNew (l : Limits) (c : Copies) : Prop := ∀ p ∈ c.rows, l.New p.2

/-- Copying within limits with a result that meets a condition. -/
def Copied (l : Limits) (x : Copying α) (Q : α → Prop) : Prop :=
  ∀ c, l.AllNew c → l.Gives (x.run c) fun p => Q p.1 ∧ l.AllNew p.2

theorem Copied.bind {x : Copying α} {f : α → Copying β} (hx : l.Copied x Q)
    (hf : ∀ a, Q a → l.Copied (f a) Q') : l.Copied (x >>= f) Q' :=
  fun c hc => (hx c hc).bind fun p hp => hf p.1 hp.1 p.2 hp.2

theorem Copied.pure (h : Q a) : l.Copied (pure a) Q :=
  fun _ hc => Gives.pure ⟨h, hc⟩

theorem copied_lift (h : l.Gives x Q) : l.Copied (liftM x : Copying α) Q :=
  fun _ hc => h.bind fun _ ha => Gives.pure ⟨ha, hc⟩

theorem copied_get : l.Copied (get : Copying Copies) l.AllNew :=
  fun _ hc => Gives.pure ⟨hc, hc⟩

theorem copied_modify {f : Copies → Copies} (hf : ∀ c, l.AllNew c → l.AllNew (f c)) :
    l.Copied (modify f : Copying PUnit) fun _ => True :=
  fun c hc => Gives.pure ⟨trivial, hf c hc⟩

theorem copied_forM {entries : List Entry} {f : Entry → Copying PUnit}
    (hf : ∀ e, l.Copied (f e) fun _ => True) : l.Copied (entries.forM f) fun _ => True := by
  induction entries with
  | nil => exact Copied.pure trivial
  | cons e rest ih => exact (hf e).bind fun _ _ => ih

mutual

theorem copied_typeTo (n : Nat) (t : TypeId) : l.Copied (Copying.typeTo n t) fun _ => True := by
  match n with
  | 0 => exact fun _ _ => Gives.throw _ _
  | n + 1 =>
    refine copied_get.bind fun c _ => ?_
    split
    · exact Copied.pure trivial
    refine (copied_lift (gives_type t)).bind fun cell hcell => ?_
    refine (copied_lift (gives_of_keeps (keeps_newCell hcell))).bind fun copy _ => ?_
    refine (copied_modify fun c hc => ?_).bind fun _ _ => ?_
    · exact hc
    refine (copied_rowTo n cell.elements).bind fun elements he => ?_
    refine (copied_rowTo n cell.keys).bind fun keys hk => ?_
    refine (copied_rowTo n cell.values).bind fun values hv => ?_
    refine (copied_lift (gives_of_keeps (keeps_modifyType fun _ _ => ?_))).bind fun _ _ =>
      Copied.pure trivial
    exact ⟨not_fixed_of_new he, not_fixed_of_new hk, not_fixed_of_new hv⟩

theorem copied_rowTo (n : Nat) (r : RowId) : l.Copied (Copying.rowTo n r) l.New := by
  match n with
  | 0 => exact fun _ _ => Gives.throw _ _
  | n + 1 =>
    refine copied_get.bind fun c hc => ?_
    split
    · rename_i copy hlookup
      exact Copied.pure (hc (r, copy) (mem_of_lookup hlookup))
    refine (copied_lift (gives_of_keeps inferInstance)).bind fun entries _ => ?_
    refine (copied_lift (gives_newRow [])).bind fun copy hcopy => ?_
    refine (copied_modify fun c hc => ?_).bind fun _ _ => ?_
    · exact List.forall_mem_cons.mpr ⟨hcopy, hc⟩
    refine (copied_forM fun e => ?_).bind fun _ _ => Copied.pure hcopy
    have hentry : l.Copied (Copying.entryWith (Copying.typeTo n) (Copying.rowTo n) e)
        fun _ => True := by
      cases e with
      | type t => exact (copied_typeTo n t).bind fun _ _ => Copied.pure trivial
      | group g => exact (copied_rowTo n g).bind fun _ _ => Copied.pure trivial
      | text | absent => exact Copied.pure trivial
    refine hentry.bind fun e' _ => copied_lift (gives_of_keeps ?_)
    exact keeps_modifyRow ⟨not_fixed_of_new hcopy, .inr (.inr hcopy)⟩

end

theorem gives_copyContents (r : RowId) : l.Gives (copyContents r) l.New := by
  have hcopy (n : Nat) : l.Gives ((Copying.rowTo n r).run {}) fun p => l.New p.1 ∧ l.AllNew p.2 :=
    copied_rowTo n r {} fun _ hp => by cases hp
  exact (gives_of_keeps inferInstance).bind fun s _ => (hcopy s.depth).bind fun p hp =>
    Gives.pure hp.1

/-! ### Comparison -/

theorem keeps_discardForeign (hr : ¬ l.fixed r) : Keeps l.Within (discardForeign r).run :=
  keeps_modifyRow ⟨hr, .inl fun _ => List.filter_sublist⟩

theorem Holds.rows_unfoldType (hs : l.Holds s) (n : Nat) (t : TypeId) :
    (s.unfoldType n t).Rows (¬ l.fixed ·) :=
  Store.rows_unfoldType (q := (¬ l.fixed ·)) hs.free n t

theorem gives_treeOfEntry : l.Gives (treeOfEntry e) fun i => Item.Rows (¬ l.fixed ·) [i] := by
  refine ⟨fun {s} i t hs hrun => ?_⟩
  cases hrun
  refine ⟨hs, ?_⟩
  cases e with
  | type t => exact ⟨hs.rows_unfoldType _ t, trivial⟩
  | text | absent | group => trivial

theorem gives_trees : l.Gives (trees entries) fun items => Item.Rows (¬ l.fixed ·) items := by
  refine ⟨fun {s} items t hs hrun => ?_⟩
  cases hrun
  refine ⟨hs, Item.rows_iff.mpr fun i hi => ?_⟩
  obtain ⟨e, -, rfl⟩ := List.mem_map.mp hi
  cases e with
  | type t => exact ⟨hs.rows_unfoldType _ t, trivial⟩
  | text | absent | group => trivial

instance (entries : List Entry) : Keeps l.Within (existSame e entries).run :=
  (gives_treeOfEntry e).andThen fun _ hi => (gives_trees entries).andThen fun _ hitems =>
    Ty.keeps_existSame (fun _ => keeps_discardForeign) hi hitems

instance (entries : List Entry) : Keeps l.Within (findSame e entries).run := by
  refine (gives_treeOfEntry e).andThen fun _ hi => (gives_trees entries).andThen fun _ hitems => ?_
  have := Ty.keeps_findSame (R := l.Within) (fun _ => keeps_discardForeign) hi hitems
  infer_instance

/-! ### Simplification -/

section Simplify

variable {simplify : TypeId → Typing Unit} [hs : ∀ t, Keeps l.Within (simplify t).run]

instance (entries : List Entry) : Keeps l.Within (distinctBy simplify entries).run := by
  have hstep (outs : List Entry) (e : Entry) : Keeps l.Within (do
      match e with
      | .type t => simplify t
      | _ => pure ()
      if ← existSame e outs then return outs else return outs ++ [e] :
        Typing (List Entry)).run := by
    cases e <;> infer_instance
  exact run_foldlM entries [] _

omit hs in
instance (n : Nat) (entries : List Entry) : Keeps l.Within (dropIncluded n entries).run := by
  induction n generalizing entries with
  | zero => exact run_pure entries
  | succ n ih =>
    refine (gives_trees entries).andThen fun items hitems => ?_
    have := Ty.keeps_lastIncluded (R := l.Within) (fun _ => keeps_discardForeign) hitems
    refine run_andThen fun found => ?_
    cases found <;> infer_instance

instance (entries : List Entry) : Keeps l.Within (maximalBy simplify entries).run := by
  unfold maximalBy
  infer_instance

end Simplify

instance : Keeps l.Within (findNone entries).run := by
  induction entries with
  | nil => exact run_pure none
  | cons e rest ih =>
    unfold findNone
    infer_instance

instance (t : TypeId) : Keeps l.Within (simplifyTo n t).run := by
  induction n generalizing t with
  | zero => exact run_throw _
  | succ n ih =>
    unfold simplifyTo
    refine run_andThen fun c => ?_
    dsimp only
    split
    · refine run_andThen fun entries => run_andThen fun outs => ?_
      exact (gives_newRow outs).andThen fun elements he =>
        keeps_modifyType fun c hc => ⟨not_fixed_of_new he, hc.2⟩
    split
    · refine run_andThen fun entries => run_andThen fun outs => ?_
      refine (gives_newRow outs).andThen fun keys hk => ?_
      have : Keeps l.Within (modifyType t fun c => { c with keys }).run :=
        keeps_modifyType fun c hc => ⟨hc.1, not_fixed_of_new hk, hc.2.2⟩
      refine run_andThen fun _ => run_andThen fun entries =>
        run_andThen fun outs => ?_
      exact (gives_newRow outs).andThen fun values hv =>
        keeps_modifyType fun c hc => ⟨hc.1, hc.2.1, not_fixed_of_new hv⟩
    split
    · refine run_andThen fun entries => run_andThen fun outs => ?_
      refine (gives_newRow outs).andThen fun elements he => ?_
      have : Keeps l.Within (modifyType t fun c => { c with elements }).run :=
        keeps_modifyType fun c hc => ⟨not_fixed_of_new he, hc.2⟩
      refine run_andThen fun _ => run_andThen fun found => ?_
      split
      · exact keeps_modifyRow ⟨not_fixed_of_new he, .inr (.inr he)⟩
      · infer_instance
    · infer_instance

instance : Keeps l.Within (simplify t).run := by
  unfold simplify
  infer_instance

instance : Keeps l.Within (distinct entries).run := by
  unfold distinct
  infer_instance

instance (t : TypeId) : Keeps l.Within (tidyTo n t).run := by
  induction n generalizing t with
  | zero => exact run_throw _
  | succ n ih =>
    refine run_andThen fun c => run_andThen fun es => run_andThen fun _ => ?_
    refine (gives_newRow _).andThen fun elements he => ?_
    have : Keeps l.Within (modifyType t fun c => { c with elements }).run :=
      keeps_modifyType fun c hc => ⟨not_fixed_of_new he, hc.2⟩
    refine run_andThen fun _ => run_andThen fun ks => run_andThen fun _ => ?_
    refine (gives_newRow _).andThen fun keys hk => ?_
    have : Keeps l.Within (modifyType t fun c => { c with keys }).run :=
      keeps_modifyType fun c hc => ⟨hc.1, not_fixed_of_new hk, hc.2.2⟩
    infer_instance

instance : Keeps l.Within (tidy t).run := by
  unfold tidy
  infer_instance

/-! ### Printing -/

section Print

variable {print : Entry → Typing String} [hp : ∀ e, Keeps l.Within (print e).run]
  (entries : List Entry)

instance : Keeps l.Within (printedList print entries).run := by
  unfold printedList
  infer_instance

instance : Keeps l.Within (printSide print entries).run := by
  unfold printSide
  split <;> infer_instance

omit hp in
instance (e : Entry) : Keeps l.Within (nameOf e).run := by
  unfold nameOf
  infer_instance

instance : Keeps l.Within (printElements print entries).run := by
  unfold printElements
  split
  · dsimp only
    infer_instance
  · infer_instance

instance (t : TypeId) : Keeps l.Within (printCell print t).run := by
  unfold printCell
  dsimp only
  refine run_andThen fun c => ?_
  split
  · infer_instance
  split
  · infer_instance
  · refine run_andThen fun elements => run_andThen fun keys =>
      run_andThen fun values => ?_
    have helements (form : String) : Keeps l.Within (match elements with
        | [e] => do return form ++ "[" ++ (← print e) ++ "]"
        | _ => do return form ++ "[typing.Union[" ++
            (← printedList print elements) ++ "]" : Typing String).run := by
      split <;> infer_instance
    infer_instance

end Print

instance : Keeps l.Within (printTo n e).run := by
  induction n generalizing e with
  | zero => cases e <;> exact run_throw _
  | succ n ih =>
    cases e with
    | text | absent | group => exact run_throw _
    | type t =>
      unfold printTo
      infer_instance

instance : Keeps l.Within (print e).run := by
  unfold print
  infer_instance

/-! ### Rejection rules -/

instance : Keeps l.Within o.asNode.run := by
  cases o <;> unfold Operand.asNode <;> infer_instance

instance : Keeps l.Within o.row.run := by
  refine run_andThen fun n => ?_
  split <;> infer_instance

instance : Keeps l.Within o.rejected.run := by
  unfold Operand.rejected
  infer_instance

instance (operands : List Operand) : Keeps l.Within (keep operands).run := by
  unfold keep
  infer_instance

theorem keeps_extend (hr : l.New r) (entries : List Entry) :
    Keeps l.Within (Rule.extend r entries).run :=
  keeps_modifyRow ⟨not_fixed_of_new hr, .inr (.inr hr)⟩

theorem keeps_widen (hr : l.New r) (entries : List Entry) :
    Keeps l.Within (widen r entries).run := by
  have := keeps_extend hr entries
  unfold widen
  infer_instance

theorem keeps_copy_rejected {o : Operand} {f : RowId → Typing α}
    (hf : ∀ r, l.New r → Keeps l.Within (f r).run) :
    Keeps l.Within (do f (← copyContents (← o.rejected))).run :=
  run_andThen fun r => (gives_copyContents r).andThen hf

instance (o : Operand) : Keeps l.Within (passBack outs o).run :=
  keeps_copy_rejected fun _ hr => keeps_widen hr outs

instance : Keeps l.Within (passBackBoth outs left right).run := by
  refine run_andThen fun _ => run_andThen fun _ => ?_
  refine keeps_copy_rejected fun p hp => keeps_copy_rejected fun r hr => ?_
  have := keeps_extend hp outs
  have := keeps_extend hr outs
  have := keeps_widen hp []
  have := keeps_widen hr []
  infer_instance

instance : Keeps l.Within (product outs left right).run := by
  refine run_andThen fun _ => run_andThen fun _ => ?_
  refine keeps_copy_rejected fun p hp => keeps_copy_rejected fun r _ => ?_
  have := keeps_widen hp outs
  infer_instance

instance : Keeps l.Within (appended outs left right).run := by
  refine keeps_copy_rejected fun p hp => keeps_copy_rejected fun r _ => ?_
  have := keeps_widen hp outs
  infer_instance

instance : Keeps l.Within (arithmetic outs left right).run := by
  refine run_andThen fun _ => run_andThen fun _ => ?_
  refine keeps_copy_rejected fun p hp => keeps_copy_rejected fun r hr => ?_
  have (others : List Entry) := keeps_extend hp others
  have (others : List Entry) := keeps_extend hr others
  have := keeps_widen hp []
  have := keeps_widen hr []
  unfold Rule.cellOf
  infer_instance

instance (operands : List Operand) : Keeps l.Within (toFirst outs operands).run := by
  unfold toFirst Rule.first
  infer_instance

instance (o : Operation) (outs : List Entry) (operands : List Operand) :
    Keeps l.Within (call o outs operands).run := by
  have huser : Keeps l.Within (Rule.isUserName o.func o.userNames).run := by
    unfold Rule.isUserName
    split <;> infer_instance
  refine run_andThen fun isUser => ?_
  split
  · infer_instance
  · split <;> infer_instance

instance : Keeps l.Within (choose.signed outs left).run := by
  unfold choose.signed
  infer_instance

theorem keeps_choose (o : Operation) (outs : List Entry) (operands : List Operand)
    {leading : Typing (Operand × Operand)} (hleading : Keeps l.Within leading.run) :
    Keeps l.Within (choose o outs operands leading).run := by
  unfold choose Rule.first
  dsimp only
  split <;> infer_instance

/-- Every rejection rule stays within limits. -/
instance (o : Operation) (n : NodeId) (operands : List Operand) (traversal : Bool) :
    Keeps l.Within (apply o n operands traversal).run := by
  have hleading : Keeps l.Within (Rule.leading operands).run := by
    unfold Rule.leading
    dsimp only
    infer_instance
  have hchoose (leading : Typing (Operand × Operand)) (h : Keeps l.Within leading.run) :
      Keeps l.Within (do
        choose o (← row (← node n).rejected) operands leading).run :=
    run_andThen fun _ => run_andThen fun outs => keeps_choose o outs operands h
  have hpure {x : Typing (Operand × Operand)} (h : Keeps l.Within x.run) :
      l.Gives (pure x) fun x => Keeps l.Within x.run := Gives.pure h
  cases traversal with
  | true => exact (hpure (run_throw _)).andThen hchoose
  | false => exact run_andThen fun pair => (hpure (run_pure pair)).andThen hchoose

end Limits
end TypeFlow
