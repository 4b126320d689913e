import TypeFlow.Proofs.Simple
import TypeFlow.Type.Shape

/-!
# Shapes in the store

A type of the store has a shape when its cell and those of its contents spell the shape out. The
cells it takes are listed, so that a shape without sharing is one whose cells are all different.
What does not touch these cells keeps the shape, and making the cells of a shape gives new ones.
-/

namespace TypeFlow

open List

/-- Induction over a shape and the shapes of its contents. -/
@[elab_as_elim]
theorem Shape.induction {P : Shape → Prop}
    (mk : ∀ name category elements keys values, (∀ a ∈ elements, P a) → (∀ a ∈ keys, P a) →
      (∀ a ∈ values, P a) → P (.mk name category elements keys values)) (a : Shape) : P a := by
  refine @Shape.rec P (fun as => ∀ a ∈ as, P a) mk ?_ ?_ a
  · intro a ha
    exact absurd ha not_mem_nil
  · intro b as hb has
    exact forall_mem_cons.mpr ⟨hb, has⟩

namespace Store

variable {s u w : Store} {e : Entry} {es : List Entry} {ids jds : List TypeId} {a : Shape}
  {as : List Shape}

/-- Rows that were there are as before, and so are the types other than the listed ones. -/
structure Frame (ids : List TypeId) (s u : Store) : Prop where
  types_le : s.types.size ≤ u.types.size
  rows_le : s.rows.size ≤ u.rows.size
  typeAt_eq : ∀ t ∉ ids, t.index < s.types.size → u.typeAt t = s.typeAt t
  rowAt_eq : ∀ r : RowId, r.index < s.rows.size → u.rowAt r = s.rowAt r

namespace Frame

theorem refl (ids : List TypeId) (s : Store) : Frame ids s s :=
  ⟨Nat.le_refl _, Nat.le_refl _, fun _ _ _ => rfl, fun _ _ => rfl⟩

theorem trans (h₁ : Frame ids s u) (h₂ : Frame ids u w) : Frame ids s w where
  types_le := Nat.le_trans h₁.types_le h₂.types_le
  rows_le := Nat.le_trans h₁.rows_le h₂.rows_le
  typeAt_eq t ht hlt :=
    (h₂.typeAt_eq t ht (Nat.lt_of_lt_of_le hlt h₁.types_le)).trans (h₁.typeAt_eq t ht hlt)
  rowAt_eq r hr := (h₂.rowAt_eq r (Nat.lt_of_lt_of_le hr h₁.rows_le)).trans (h₁.rowAt_eq r hr)

theorem mono (h : Frame ids s u) (hsub : ids ⊆ jds) : Frame jds s u :=
  { h with typeAt_eq := fun t ht => h.typeAt_eq t fun hmem => ht (hsub hmem) }

theorem of_extends (h : s.Extends u) : Frame ids s u :=
  ⟨h.types_le, h.rows_le, fun t _ => h.typeAt_eq t, h.rowAt_eq⟩

theorem pushRow (s : Store) (entries : List Entry) :
    Frame ids s { s with rows := s.rows.push entries } := of_extends (Extends.pushRow s entries)

theorem modifyType {t : TypeId} (ht : t ∈ ids) (f : TypeCell → TypeCell) :
    Frame ids s { s with types := s.types.modify t.index f } where
  types_le := by simp
  rows_le := Nat.le_refl _
  typeAt_eq p hp _ := by
    rw [typeAt_modify, if_neg]
    rintro ⟨rfl, -⟩
    exact hp ht
  rowAt_eq _ _ := rfl

end Frame

mutual

/-- A type of the store has a shape, and takes the listed cells. -/
def Shows (s : Store) : Shape → Entry → List TypeId → Prop
  | .mk name category elements keys values, e, ids =>
    ∃ t es ks vs, e = .type t ∧ ids = t :: (es ++ (ks ++ vs)) ∧ t.index < s.types.size ∧
      (∀ r ∈ s.contents t, r.index < s.rows.size) ∧
      (s.typeAt t).name = name ∧ (s.typeAt t).category = category ∧
      s.ShowsAll elements (s.rowAt (s.typeAt t).elements) es ∧
      s.ShowsAll keys (s.rowAt (s.typeAt t).keys) ks ∧
      s.ShowsAll values (s.rowAt (s.typeAt t).values) vs

def ShowsAll (s : Store) : List Shape → List Entry → List TypeId → Prop
  | [], es, ids => es = [] ∧ ids = []
  | a :: as, es, ids =>
    ∃ e rest first others, es = e :: rest ∧ ids = first ++ others ∧ s.Shows a e first ∧
      s.ShowsAll as rest others

end

theorem Shows.exists_type (h : s.Shows a e ids) : ∃ t, e = .type t ∧ t ∈ ids := by
  cases a
  rw [Shows] at h
  obtain ⟨t, es, ks, vs, rfl, rfl, -⟩ := h
  exact ⟨t, rfl, mem_cons_self⟩

theorem Shows.name_eq {t : TypeId} (h : s.Shows a (.type t) ids) : (s.typeAt t).name = a.name := by
  cases a
  rw [Shows] at h
  obtain ⟨_, _, _, _, ⟨⟩, -, -, -, hname, -⟩ := h
  exact hname

theorem showsAll_nil : s.ShowsAll [] [] [] := by
  rw [ShowsAll]
  exact ⟨rfl, rfl⟩

theorem ShowsAll.cons (ha : s.Shows a e ids) (has : s.ShowsAll as es jds) :
    s.ShowsAll (a :: as) (e :: es) (ids ++ jds) := by
  rw [ShowsAll]
  exact ⟨e, es, ids, jds, rfl, rfl, ha, has⟩

/-- Induction over entries with their shapes and the cells that they take. -/
@[elab_as_elim] theorem ShowsAll.induction {motive : ∀ es ids as, s.ShowsAll as es ids → Prop}
    (nil : motive [] [] [] showsAll_nil)
    (cons : ∀ a as e es first others (ha : s.Shows a e first) (has : s.ShowsAll as es others),
      motive es others as has → motive (e :: es) (first ++ others) (a :: as) (.cons ha has))
    (h : s.ShowsAll as es ids) : motive es ids as h := by
  induction as generalizing es ids with
  | nil =>
    rw [ShowsAll] at h
    obtain ⟨rfl, rfl⟩ := h
    exact nil
  | cons a as ih =>
    rw [ShowsAll] at h
    obtain ⟨e, es, first, others, rfl, rfl, ha, has⟩ := h
    exact cons a as e es first others ha has (ih has)

theorem showsAll_singleton : s.ShowsAll [a] es ids ↔ ∃ e, es = [e] ∧ s.Shows a e ids := by
  simp only [ShowsAll]
  constructor
  · rintro ⟨e, _, first, _, rfl, rfl, ha, rfl, rfl⟩
    exact ⟨e, rfl, by rwa [append_nil]⟩
  · rintro ⟨e, rfl, ha⟩
    exact ⟨e, [], ids, [], rfl, (append_nil ids).symm, ha, rfl, rfl⟩

theorem ShowsAll.length_eq (h : s.ShowsAll as es ids) : es.length = as.length := by
  induction h using ShowsAll.induction with
  | nil => rfl
  | cons a as e es first others _ _ ih => rw [length_cons, length_cons, ih]

/-- Entries keep their shapes when each of them does. -/
theorem ShowsAll.imp (h : s.ShowsAll as es ids)
    (himp : ∀ a ∈ as, ∀ e first, first ⊆ ids → s.Shows a e first → u.Shows a e first) :
    u.ShowsAll as es ids := by
  induction h using ShowsAll.induction with
  | nil => exact showsAll_nil
  | cons a as e es first others ha _ ih =>
    refine .cons ?_ (ih ?_)
    · exact himp a mem_cons_self e first (subset_append_left _ _) ha
    · intro b hb e ids hsub
      exact himp b (mem_cons_of_mem _ hb) e ids (Subset.trans hsub (subset_append_right _ _))

/-- A shape stays where its cells are left alone. -/
theorem Shows.frame (h : s.Shows a e ids) (hframe : Frame jds s u) (hdisjoint : ids.Disjoint jds) :
    u.Shows a e ids := by
  induction a using Shape.induction generalizing e ids with
  | mk name category elements keys values helements hkeys hvalues =>
    rw [Shows] at h ⊢
    obtain ⟨t, es, ks, vs, rfl, rfl, hlt, hrows, hname, hcategory, hes, hks, hvs⟩ := h
    have hcell : u.typeAt t = s.typeAt t :=
      hframe.typeAt_eq t (hdisjoint mem_cons_self) hlt
    have hrow (r : RowId) (hr : r ∈ s.contents t) : u.rowAt r = s.rowAt r :=
      hframe.rowAt_eq r (hrows r hr)
    refine ⟨t, es, ks, vs, rfl, rfl, Nat.lt_of_lt_of_le hlt hframe.types_le, ?_, ?_⟩
    · intro r hr
      rw [contents, hcell] at hr
      exact Nat.lt_of_lt_of_le (hrows r hr) hframe.rows_le
    · rw [hcell, hrow _ (by simp [contents]), hrow _ (by simp [contents]),
        hrow _ (by simp [contents])]
      refine ⟨hname, hcategory, hes.imp fun a ha e first hsub h => ?_,
        hks.imp fun a ha e first hsub h => ?_, hvs.imp fun a ha e first hsub h => ?_⟩
      · exact helements a ha h fun i hi => hdisjoint (by simp [hsub hi])
      · exact hkeys a ha h fun i hi => hdisjoint (by simp [hsub hi])
      · exact hvalues a ha h fun i hi => hdisjoint (by simp [hsub hi])

theorem ShowsAll.frame (h : s.ShowsAll as es ids) (hframe : Frame jds s u)
    (hdisjoint : ids.Disjoint jds) : u.ShowsAll as es ids :=
  h.imp fun _ _ _ _ hsub ha =>
    ha.frame hframe (disjoint_of_subset_left hsub hdisjoint)

theorem ShowsAll.forall_mem {P : TypeId → Prop} (h : s.ShowsAll as es ids)
    (hP : ∀ a ∈ as, ∀ e first, s.Shows a e first → ∀ t ∈ first, P t) : ∀ t ∈ ids, P t := by
  induction h using ShowsAll.induction with
  | nil => simp
  | cons a as e es first others ha _ ih =>
    rw [forall_mem_append]
    exact ⟨hP a mem_cons_self e first ha, ih fun b hb => hP b (mem_cons_of_mem _ hb)⟩

theorem Shows.index_lt (h : s.Shows a e ids) : ∀ t ∈ ids, t.index < s.types.size := by
  induction a using Shape.induction generalizing e ids with
  | mk name category elements keys values helements hkeys hvalues =>
    rw [Shows] at h
    obtain ⟨t, es, ks, vs, rfl, rfl, hlt, -, -, -, hes, hks, hvs⟩ := h
    simp only [forall_mem_cons, forall_mem_append]
    exact ⟨hlt, hes.forall_mem fun a ha _ _ h => helements a ha h,
      hks.forall_mem fun a ha _ _ h => hkeys a ha h,
      hvs.forall_mem fun a ha _ _ h => hvalues a ha h⟩

theorem ShowsAll.index_lt (h : s.ShowsAll as es ids) : ∀ t ∈ ids, t.index < s.types.size :=
  h.forall_mem fun _ _ _ _ ha => ha.index_lt

theorem Shows.extend (h : s.Shows a e ids) (hext : s.Extends u) : u.Shows a e ids := by
  have hframe : Frame [] s u := Frame.of_extends hext
  exact h.frame hframe (disjoint_nil_right _)

theorem ShowsAll.extend (h : s.ShowsAll as es ids) (hext : s.Extends u) :
    u.ShowsAll as es ids := h.imp fun _ _ _ _ _ ha => ha.extend hext

theorem ShowsAll.append {bs : List Shape} {ds : List Entry} (h₁ : s.ShowsAll as es ids)
    (h₂ : s.ShowsAll bs ds jds) : s.ShowsAll (as ++ bs) (es ++ ds) (ids ++ jds) := by
  induction h₁ using ShowsAll.induction with
  | nil => exact h₂
  | cons a as e es first others ha _ ih =>
    rw [append_assoc]
    exact .cons ha ih

/-- The listed types are new and all different, and what was there is as before. -/
structure Adds (ids : List TypeId) (s u : Store) : Prop where
  keeps : s.Extends u
  nodup : ids.Nodup
  new : ∀ t ∈ ids, s.types.size ≤ t.index ∧ t.index < u.types.size

namespace Adds

theorem nil (h : s.Extends u) : Adds [] s u := ⟨h, nodup_nil, by simp⟩

/-- Types that are added one after the other are all different. -/
theorem append (h₁ : Adds ids s u) (h₂ : Adds jds u w) : Adds (ids ++ jds) s w where
  keeps := h₁.keeps.trans h₂.keeps
  nodup := by
    rw [nodup_append]
    refine ⟨h₁.nodup, h₂.nodup, ?_⟩
    rintro t ht _ ht' rfl
    have hold := h₁.new t ht
    have hnew := h₂.new t ht'
    omega
  new := by
    rw [forall_mem_append]
    have htypes := h₁.keeps.types_le
    have htypes' := h₂.keeps.types_le
    refine ⟨fun t ht => ?_, fun t ht => ?_⟩
    · have hold := h₁.new t ht
      omega
    · have hnew := h₂.new t ht
      omega

/-- A type is added after those it is made of. -/
theorem cons (h : Adds ids s u) (cell : TypeCell) :
    Adds (⟨u.types.size⟩ :: ids) s { u with types := u.types.push cell } where
  keeps := h.keeps.trans (Extends.pushType u cell)
  nodup := nodup_cons.mpr ⟨fun hmem => Nat.lt_irrefl _ (h.new _ hmem).2, h.nodup⟩
  new := by
    have htypes := h.keeps.types_le
    simp only [forall_mem_cons, Array.size_push]
    refine ⟨⟨htypes, Nat.lt_succ_self _⟩, fun t ht => ?_⟩
    have := h.new t ht
    omega

end Adds
end Store

namespace Shape

open Store Eval

variable {as : List Shape}

/-- A computation adds types of given shapes. -/
def Makes (as : List Shape) (s : Store) (es : List Entry) (u : Store) : Prop :=
  ∃ ids, Adds ids s u ∧ u.ShowsAll as es ids

theorem allocAll_ends_of_mem
    (h : ∀ a ∈ as, ∀ s, Ends (alloc a).run s fun t u =>
      ∃ ids, Adds ids s u ∧ u.Shows a (.type t) ids)
    (s : Store) : Ends (allocAll as).run s (Makes as s) := by
  induction as generalizing s with
  | nil =>
    rw [allocAll]
    exact Ends.of_eq rfl ⟨[], Adds.nil (Extends.refl s), showsAll_nil⟩
  | cons a as ih =>
    obtain ⟨ha, has⟩ := forall_mem_cons.mp h
    rw [allocAll]
    apply (ha s).bind
    rintro t u ⟨ids, hu, hshows⟩
    apply (ih has u).bind
    rintro es w ⟨jds, hw, hshows'⟩
    refine Ends.of_eq rfl ⟨ids ++ jds, hu.append hw, ?_⟩
    rw [ShowsAll]
    exact ⟨_, es, ids, jds, rfl, rfl, hshows.extend hw.keeps, hshows'⟩

/-- A row of new types. -/
theorem allocRow_ends (h : ∀ s, Ends (allocAll as).run s (Makes as s)) (s : Store) :
    Ends (allocRow as).run s fun r u =>
      r.index < u.rows.size ∧ Makes as s (u.rowAt r) u := by
  rw [allocRow]
  apply (h s).bind
  rintro es u ⟨ids, hu, hshows⟩
  have hpush := Extends.pushRow u es
  have hrow := rowAt_push u es ⟨u.rows.size⟩
  rw [if_pos rfl] at hrow
  refine Ends.of_eq (newRow_run es u) ⟨by simp, ids, ?_, ?_⟩
  · simpa using hu.append (Adds.nil hpush)
  · rw [hrow]
    exact hshows.extend hpush

/-- Making the cells of a shape adds a type of that shape. -/
theorem alloc_ends (a : Shape) (s : Store) :
    Ends (alloc a).run s fun t u => ∃ ids, Adds ids s u ∧ u.Shows a (.type t) ids := by
  induction a using Shape.induction generalizing s with
  | mk name category elements keys values helements hkeys hvalues =>
    rw [alloc]
    apply (allocRow_ends (allocAll_ends_of_mem helements) s).bind
    rintro er u ⟨her, es, hu, hes⟩
    apply (allocRow_ends (allocAll_ends_of_mem hkeys) u).bind
    rintro kr w ⟨hkr, ks, hw, hks⟩
    apply (allocRow_ends (allocAll_ends_of_mem hvalues) w).bind
    rintro vr x ⟨hvr, vs, hx, hvs⟩
    let cell : TypeCell :=
      { name, category, elements := er, keys := kr, values := vr
        compatible := TypeCell.compatibleNames name }
    let y : Store := { x with types := x.types.push cell }
    have hpush : x.Extends y := Extends.pushType x cell
    have hwy : w.Extends y := hx.keeps.trans hpush
    have huy : u.Extends y := hw.keeps.trans hwy
    have hcell : y.typeAt ⟨x.types.size⟩ = cell := by rw [typeAt_push, if_pos rfl]
    refine Ends.of_eq (newCell_run cell x)
      ⟨⟨x.types.size⟩ :: (es ++ (ks ++ vs)), (hu.append (hw.append hx)).cons cell, ?_⟩
    rw [Shows]
    refine ⟨_, es, ks, vs, rfl, rfl, by simp, ?_, ?_⟩
    · have hrows := huy.rows_le
      have hrows' := hwy.rows_le
      have hrows'' := hpush.rows_le
      rw [contents, hcell]
      simp only [forall_mem_cons, cell]
      exact ⟨Nat.lt_of_lt_of_le her hrows, Nat.lt_of_lt_of_le hkr hrows',
        Nat.lt_of_lt_of_le hvr hrows'', by simp⟩
    · rw [hcell]
      refine ⟨rfl, rfl, ?_, ?_, ?_⟩
      · rw [huy.rowAt_eq er her]
        exact hes.extend huy
      · rw [hwy.rowAt_eq kr hkr]
        exact hks.extend hwy
      · rw [hpush.rowAt_eq vr hvr]
        exact hvs.extend hpush

theorem allocAll_ends (as : List Shape) (s : Store) : Ends (allocAll as).run s (Makes as s) :=
  allocAll_ends_of_mem (fun a _ => alloc_ends a) s

end Shape
end TypeFlow
