import TypeFlow.Proofs.Run
import TypeFlow.Type.Compare

/-!
# What a comparison of types does to rows

A comparison discards entries from rows, and only from rows that belong to the contents of the
compared types. So it keeps whatever discarding from those rows keeps. `Ty.Rows q` says that a
condition `q` holds of all rows in the contents of a type.
-/

set_option synthInstance.maxSize 2000
set_option linter.unusedSectionVars false

namespace TypeFlow

variable {q : RowId → Prop} {i : Item}

mutual

/-- A condition holds of every row in the contents of a type. -/
def Ty.Rows (q : RowId → Prop) : Ty → Prop
  | .mk _ _ _ elements keys values => elements.Rows q ∧ keys.Rows q ∧ values.Rows q
termination_by structural t => t

/-- A condition holds of a row and of every row in the contents of its types. -/
def Row.Rows (q : RowId → Prop) : Row → Prop
  | .mk id items => q id ∧ Item.Rows q items
termination_by structural r => r

/-- A condition holds of every row in the contents of the types among items. -/
def Item.Rows (q : RowId → Prop) : List Item → Prop
  | [] => True
  | .type t :: rest => t.Rows q ∧ Item.Rows q rest
  | .text _ :: rest | .absent :: rest | .group _ :: rest => Item.Rows q rest
termination_by structural items => items

end

theorem Row.Rows.items {r : Row} (h : r.Rows q) : Item.Rows q r.items := by
  cases r
  exact h.2

theorem Item.rows_cons {rest : List Item} :
    Item.Rows q (i :: rest) ↔ Item.Rows q [i] ∧ Item.Rows q rest := by
  cases i <;> simp [Item.Rows]

theorem Item.rows_iff {items : List Item} : Item.Rows q items ↔ ∀ i ∈ items, Item.Rows q [i] := by
  induction items with
  | nil => simp [Item.Rows]
  | cons i rest ih => rw [Item.rows_cons, ih, List.forall_mem_cons]

mutual

theorem Store.rows_unfoldType {s : Store} {q : RowId → Prop}
    (h : ∀ t, q (s.typeAt t).elements ∧ q (s.typeAt t).keys ∧ q (s.typeAt t).values) (n : Nat)
    (t : TypeId) : (s.unfoldType n t).Rows q := by
  match n with
  | 0 => exact ⟨⟨(h t).1, trivial⟩, ⟨(h t).2.1, trivial⟩, ⟨(h t).2.2, trivial⟩⟩
  | n + 1 =>
    exact ⟨rows_unfoldRow h n _ (h t).1, rows_unfoldRow h n _ (h t).2.1,
      rows_unfoldRow h n _ (h t).2.2⟩

theorem Store.rows_unfoldRow {s : Store} {q : RowId → Prop}
    (h : ∀ t, q (s.typeAt t).elements ∧ q (s.typeAt t).keys ∧ q (s.typeAt t).values) (n : Nat)
    (r : RowId) (hr : q r) : (s.unfoldRow n r).Rows q := by
  match n with
  | 0 => exact ⟨hr, trivial⟩
  | n + 1 =>
    refine ⟨hr, Item.rows_iff.mpr fun i hi => ?_⟩
    obtain ⟨e, -, rfl⟩ := List.mem_map.mp hi
    cases e with
    | type t => exact ⟨rows_unfoldType h n t, trivial⟩
    | text | absent | group => trivial

end

namespace Ty

variable {R : Store → Store → Prop} [IsPreorder Store R] {discard : RowId → Typing Unit} {l : Item}
  {rs : List Item}

instance (name : String) : Keeps R (rank name : Typing Nat).run := by
  unfold rank
  split <;> infer_instance

instance (i : Item) : Keeps R (ofItem i : Typing Ty).run := by
  cases i <;> unfold ofItem <;> infer_instance

instance (l r : Ty) : Keeps R (similar l r : Typing Bool).run := by
  unfold similar
  dsimp only
  infer_instance

omit [IsPreorder Store R] in
theorem keeps_ofItem_bind {α : Type} {f : Ty → Typing α} (hi : Item.Rows q [i])
    (hf : ∀ t : Ty, t.Rows q → Keeps R (f t).run) : Keeps R (ofItem i >>= f).run := by
  cases i with
  | type t => exact hf t hi.1
  | text | absent | group => exact ⟨fun h => by cases h⟩

instance (l : Item) (rs : List Item) : Keeps R (existOptional l rs : Typing Bool).run := by
  induction rs with
  | nil => exact Keeps.run_pure false
  | cons r rest ih =>
    refine Keeps.run_andThen fun r => ?_
    split
    · split <;> infer_instance
    · exact ih

theorem keeps_anyIncludes {test : Ty → Typing (Option Bool)}
    (htest : ∀ t : Ty, t.Rows q → Keeps R (test t).run) (hr : Item.Rows q rs) :
    Keeps R (anyIncludes test rs).run := by
  induction rs with
  | nil => exact Keeps.run_pure false
  | cons r rest ih =>
    cases r with
    | type r =>
      have := htest r hr.1
      have := ih hr.2
      unfold anyIncludes
      infer_instance
    | text | absent | group => exact Keeps.run_throw _

variable (hd : ∀ r, q r → Keeps R (discard r).run)

include hd

mutual

theorem keeps_identical (l r : Ty) (hl : l.Rows q)
    (hr : r.Rows q) : Keeps R (identical discard l r).run := by
  match l, r with
  | .mk li ln lc le lk lv, .mk ri rn rc re rk rv =>
    have := keeps_identicalRows le re hl.1 hr.1
    have := keeps_identicalRows lk rk hl.2.1 hr.2.1
    have := keeps_identicalRows lv rv hl.2.2 hr.2.2
    rw [identical.eq_def]
    dsimp only
    split
    · infer_instance
    split
    · infer_instance
    split
    · split
      · exact keeps_identical _ _ hl.1.2.1 hr
      · infer_instance
    split
    · split
      · exact keeps_identical _ _ hr.1.2.1 hl
      · infer_instance
    · infer_instance
termination_by sizeOf l + sizeOf r

theorem keeps_identicalRows (l r : Row) (hl : l.Rows q)
    (hr : r.Rows q) : Keeps R (identicalRows discard l r).run := by
  match l, r with
  | .mk li ls, .mk ri rs =>
    have := hd li hl.1
    have := hd ri hr.1
    have := keeps_coveredBy ls rs hl.2 hr.2
    have := keeps_coveredBy rs ls hr.2 hl.2
    rw [identicalRows]
    dsimp only
    have hanswer (o : Option Bool) : Keeps R (match o with
        | some answer => pure answer
        | none => do return (← coveredBy discard rs ls).getD true : Typing Bool).run := by
      cases o <;> infer_instance
    infer_instance
termination_by sizeOf l + sizeOf r

theorem keeps_coveredBy (ls rs : List Item)
    (hl : Item.Rows q ls) (hr : Item.Rows q rs) : Keeps R (coveredBy discard ls rs).run := by
  match ls with
  | [] =>
    rw [coveredBy]
    infer_instance
  | .type t :: rest =>
    rw [coveredBy]
    have := keeps_identicalToSome t rs hl.1 hr
    have := keeps_coveredBy rest rs hl.2 hr
    infer_instance
  | .text _ :: rest | .absent :: rest | .group _ :: rest =>
    rw [coveredBy]
    exact keeps_coveredBy rest rs hl hr
termination_by sizeOf ls + sizeOf rs

theorem keeps_identicalToSome (t : Ty) (rs : List Item) (ht : t.Rows q) (hr : Item.Rows q rs) :
    Keeps R (identicalToSome discard t rs).run := by
  match rs with
  | [] =>
    rw [identicalToSome]
    infer_instance
  | .type r :: rest =>
    rw [identicalToSome]
    have := keeps_identical t r ht hr.1
    have := keeps_identicalToSome t rest ht hr.2
    infer_instance
  | .text _ :: rest | .absent :: rest | .group _ :: rest =>
    rw [identicalToSome]
    exact keeps_identicalToSome t rest ht hr
termination_by sizeOf t + sizeOf rs

end

theorem keeps_existSame (hl : Item.Rows q [l])
    (hr : Item.Rows q rs) : Keeps R (existSame discard l rs).run := by
  induction rs with
  | nil => exact Keeps.run_pure false
  | cons r rest ih =>
    obtain ⟨hr, hrest⟩ := Item.rows_cons.mp hr
    have := ih hrest
    have hsame : Keeps R (do
        if ← identical discard (← ofItem l) (← ofItem r) then return true
        else existSame discard l rest).run := by
      refine keeps_ofItem_bind hl fun l' hl' => keeps_ofItem_bind hr fun r' hr' => ?_
      have := keeps_identical hd l' r' hl' hr'
      infer_instance
    cases r with
    | text s =>
      unfold existSame
      infer_instance
    | type | absent | group => exact hsame

theorem keeps_findSame (hl : Item.Rows q [l])
    (hr : Item.Rows q rs) : Keeps R (findSame discard l rs).run := by
  induction rs with
  | nil => exact Keeps.run_pure none
  | cons r rest ih =>
    obtain ⟨hr, hrest⟩ := Item.rows_cons.mp hr
    have := ih hrest
    cases r with
    | text s =>
      unfold findSame
      infer_instance
    | type t =>
      refine keeps_ofItem_bind hl fun l' hl' => ?_
      have := keeps_identical hd l' t hl' hr.1
      infer_instance
    | absent | group => exact this

mutual

theorem keeps_inclusion (l r : Ty) (hl : l.Rows q)
    (hr : r.Rows q) : Keeps R (inclusion discard l r).run := by
  match l, r with
  | .mk li ln lc le lk lv, .mk ri rn rc re rk rv =>
    have := keeps_includedRow le re hl.1 hr.1
    have := keeps_includedRow lk rk hl.2.1 hr.2.1
    have := keeps_includedRow lv rv hl.2.2 hr.2.2
    unfold inclusion
    dsimp only
    infer_instance

theorem keeps_includedRow (l r : Row) (hl : l.Rows q)
    (hr : r.Rows q) : Keeps R (includedRow discard l r).run := by
  match l with
  | .mk li ls => exact keeps_includedItems ls r.items hl.2 hr.items

theorem keeps_includedItems (ls rs : List Item)
    (hl : Item.Rows q ls) (hr : Item.Rows q rs) : Keeps R (includedItems discard ls rs).run := by
  match ls with
  | [] => exact Keeps.run_pure true
  | l :: rest =>
    obtain ⟨hl, hrest⟩ := Item.rows_cons.mp hl
    have := keeps_existSame hd hl hr
    have := keeps_existIncluded l rs hl hr
    have := keeps_includedItems rest rs hrest hr
    unfold includedItems
    infer_instance

theorem keeps_existIncluded (l : Item) (rs : List Item)
    (hl : Item.Rows q [l]) (hr : Item.Rows q rs) : Keeps R (existIncluded discard l rs).run := by
  match l with
  | .type t => exact keeps_anyIncludes (fun r h => keeps_inclusion t r hl.1 h) hr
  | .text _ | .absent | .group _ =>
    cases rs with
    | nil => exact Keeps.run_pure false
    | cons r rest => exact Keeps.run_throw _

end

theorem keeps_lastIncluded {items : List Item}
    (h : Item.Rows q items) : Keeps R (lastIncluded discard items).run := by
  rw [Item.rows_iff] at h
  have hinner (i : Nat) (l : Item) (hl : Item.Rows q [l]) (rs : List (Item × Nat))
      (hr : ∀ r ∈ rs, Item.Rows q [r.1]) : Keeps R (lastIncluded.inner discard i l rs).run := by
    induction rs with
    | nil => exact Keeps.run_pure false
    | cons r rest ih =>
      have := ih fun r hr' => hr r (.tail _ hr')
      unfold lastIncluded.inner
      split
      · exact this
      refine keeps_ofItem_bind hl fun l' hl' => ?_
      refine keeps_ofItem_bind (hr r (.head _)) fun r' hr' => ?_
      have := keeps_inclusion hd l' r' hl' hr'
      unfold included
      infer_instance
  have hgo (n : Nat) (found : Option Nat) :
      Keeps R (lastIncluded.go discard items n found).run := by
    induction n generalizing found with
    | zero => exact Keeps.run_pure found
    | succ n ih =>
      have hitem (i : Nat) : Item.Rows q [items.getD i .absent] := by
        rw [List.getD_eq_getElem?_getD]
        cases hget : items[i]? with
        | none => trivial
        | some item => exact h item (List.mem_of_getElem? hget)
      have hzip : ∀ r ∈ items.zipIdx, Item.Rows q [r.1] := fun r hr =>
        h r.1 (List.fst_mem_of_mem_zipIdx hr)
      have (i : Nat) := hinner i _ (hitem i) _ hzip
      unfold lastIncluded.go
      dsimp only
      infer_instance
  exact hgo items.length none

end Ty
end TypeFlow
