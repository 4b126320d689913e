import Mathlib.Data.List.Nodup
import Mathlib.Data.List.Perm.Subperm
import TypeFlow.Proofs.Printed

/-!
# Types without sharing

Tidying and simplifying change a type in place. A type whose cells are all different stays one:
what is done to one of its contents changes no cell of another, and a row that is replaced holds
some of the entries of the row it replaces. So whatever is done to a printable type leaves a
printable type of the same name, made of some of its cells, and nothing else changes.
-/

namespace TypeFlow

open Text Store Eval List Function Ends Shape

variable {t : TypeId} {x : TypeId → Typing Unit} {name : String} {category : Category}
  {part : Side → List Shape} {ids : List TypeId} {a : Shape} {cells : Side → List TypeId} {n : Nat}
  {outs : List Entry}

namespace TypeCell

variable (c : TypeCell) (r : RowId) (side : Side)

def row (c : TypeCell) : Side → RowId := Side.pick c.elements c.keys c.values

def setRow (c : TypeCell) (r : RowId) : Side → TypeCell
  | .elements => { c with elements := r }
  | .keys => { c with keys := r }
  | .values => { c with values := r }

theorem row_setRow (other : Side) :
    (c.setRow r side).row other = if other = side then r else c.row other := by
  cases side <;> cases other <;> rfl

@[simp] theorem name_setRow : (c.setRow r side).name = c.name := by
  cases side <;> rfl

@[simp] theorem category_setRow : (c.setRow r side).category = c.category := by
  cases side <;> rfl

end TypeCell

namespace Shape

def ofParts (name : String) (category : Category) (part : Side → List Shape) : Shape :=
  .mk name category (part .elements) (part .keys) (part .values)

/-- A printable type stays one when its contents are replaced by printable ones and no row that
was empty gets any. -/
theorem Printable.replace {part' : Side → List Shape} (h : (ofParts name category part).Printable)
    (hnew : ∀ side, ∀ a ∈ part' side, a.Printable)
    (hnil : ∀ side, part side = [] → part' side = []) :
    (ofParts name category part').Printable := by
  generalize ha : ofParts name category part = a at h
  rw [ofParts] at ha ⊢
  cases h with
  | plain hname =>
    obtain ⟨rfl, rfl, he, hk, hv⟩ := mk.inj ha
    rw [hnil _ he, hnil _ hk, hnil _ hv]
    exact .plain hname
  | user n hname =>
    obtain ⟨rfl, rfl, he, hk, hv⟩ := mk.inj ha
    rw [hnil _ he, hnil _ hk, hnil _ hv]
    exact .user n hname
  | container hname =>
    obtain ⟨rfl, rfl, -, hk, hv⟩ := mk.inj ha
    rw [hnil _ hk, hnil _ hv]
    exact .container hname (hnew .elements)
  | mapping =>
    obtain ⟨rfl, rfl, he, -, -⟩ := mk.inj ha
    rw [hnil _ he]
    exact .mapping (hnew .keys) (hnew .values)

theorem Printable.contents (h : (ofParts name category part).Printable) (side : Side) :
    ∀ a ∈ part side, a.Printable := by
  generalize ha : ofParts name category part = a at h
  rw [ofParts] at ha
  have hnil {as : List Shape} (h : as = []) : ∀ a ∈ as, a.Printable := by simp [h]
  cases h with
  | plain | user =>
    obtain ⟨-, -, he, hk, hv⟩ := mk.inj ha
    cases side
    · exact hnil he
    · exact hnil hk
    · exact hnil hv
  | container _ helements =>
    obtain ⟨-, -, he, hk, hv⟩ := mk.inj ha
    cases side
    · exact he ▸ helements
    · exact hnil hk
    · exact hnil hv
  | mapping hkeys hvalues =>
    obtain ⟨-, -, he, hk, hv⟩ := mk.inj ha
    cases side
    · exact hnil he
    · exact hk ▸ hkeys
    · exact hv ▸ hvalues

end Shape

namespace Store

variable {s u w : Store} {e : Entry} {es : List Entry} {jds kds : List TypeId} {b c : Shape}
  {as bs cs : List Shape} (side : Side)

def allCells (t : TypeId) (cells : Side → List TypeId) : List TypeId :=
  t :: (cells .elements ++ (cells .keys ++ cells .values))

/-- A type with its name and category, the shapes in its rows and the cells that these take. -/
structure Built (s : Store) (t : TypeId) (name : String) (category : Category)
    (part : Side → List Shape) (cells : Side → List TypeId) : Prop where
  index_lt : t.index < s.types.size
  rows_lt : ∀ side, ((s.typeAt t).row side).index < s.rows.size
  name_eq : (s.typeAt t).name = name
  category_eq : (s.typeAt t).category = category
  shows : ∀ side, s.ShowsAll (part side) (s.rowAt ((s.typeAt t).row side)) (cells side)

theorem Built.shows_type (h : s.Built t name category part cells) :
    s.Shows (.ofParts name category part) (.type t) (allCells t cells) := by
  rw [ofParts, Shows]
  refine ⟨t, _, _, _, rfl, rfl, h.index_lt, ?_, h.name_eq, h.category_eq, h.shows .elements,
    h.shows .keys, h.shows .values⟩
  simp only [contents, forall_mem_cons]
  exact ⟨h.rows_lt .elements, h.rows_lt .keys, h.rows_lt .values, by simp⟩

theorem Shows.exists_built (h : s.Shows a (.type t) ids) :
    ∃ part cells, a = .ofParts a.name a.category part ∧ ids = allCells t cells ∧
      s.Built t a.name a.category part cells := by
  obtain ⟨name, category, es, ks, vs⟩ := a
  rw [Shows] at h
  obtain ⟨_, eids, kids, vids, ⟨⟩, rfl, hlt, hrows, hname, hcategory, hes, hks, hvs⟩ := h
  simp only [contents, forall_mem_cons] at hrows
  refine ⟨Side.pick es ks vs, Side.pick eids kids vids, rfl, rfl, hlt, ?_, hname, hcategory, ?_⟩
  · intro side
    cases side
    · exact hrows.1
    · exact hrows.2.1
    · exact hrows.2.2.1
  · intro side
    cases side
    · exact hes
    · exact hks
    · exact hvs

/-! ## Cells that are all different -/

theorem subset_allCells : cells side ⊆ allCells t cells := by
  intro c hc
  cases side <;> simp [allCells, hc]

section

variable (h : (allCells t cells).Nodup)

include h

theorem not_mem_cells (side : Side) : t ∉ cells side := by
  rw [allCells, nodup_cons] at h
  intro ht
  refine h.1 ?_
  cases side <;> simp [ht]

theorem nodup_cells (side : Side) : (cells side).Nodup := by
  rw [allCells, nodup_cons, nodup_append, nodup_append] at h
  cases side
  · exact h.2.1
  · exact h.2.2.1.1
  · exact h.2.2.1.2.1

theorem disjoint_cells {side other : Side} (hne : other ≠ side) :
    (cells other).Disjoint (cells side) := by
  rw [allCells, nodup_cons, nodup_append, nodup_append] at h
  obtain ⟨-, -, ⟨-, -, hkv⟩, hekv⟩ := h
  intro c hc hc'
  cases side <;> cases other <;>
    first
    | exact hne rfl
    | exact hkv c ‹_› c ‹_› rfl
    | exact hekv c ‹_› c (by simp [*]) rfl

end

theorem allCells_update (h : jds.Sublist (cells side)) :
    (allCells t (update cells side jds)).Sublist (allCells t cells) := by
  cases side
  · exact (h.append_right _).cons_cons t
  · exact ((h.append_right _).append_left _).cons_cons t
  · exact ((h.append_left _).append_left _).cons_cons t

/-- Types that are all different are no more than the store has. -/
theorem length_le_of_nodup (hnodup : ids.Nodup) (h : ∀ t ∈ ids, t.index < n) : ids.length ≤ n := by
  have hinjective : Injective TypeId.index := by
    rintro ⟨a⟩ ⟨b⟩ rfl
    rfl
  have hindices : (ids.map TypeId.index).Nodup := hnodup.map hinjective
  have hsub : ids.map TypeId.index ⊆ range n := by
    intro i hi
    obtain ⟨t, ht, rfl⟩ := mem_map.mp hi
    exact mem_range.mpr (h t ht)
  simpa using (Nodup.subperm hindices hsub).length_le

section

variable (h : s.ShowsAll as es ids)

include h

theorem ShowsAll.usable (hnodup : ids.Nodup) (has : ∀ a ∈ as, a.Printable) : s.Usable es := by
  have hlength := length_le_of_nodup hnodup h.index_lt
  have hhas : Item.Has (es.map (unfoldItem (s.unfoldType s.depth) (s.unfoldRow s.depth))) as :=
    h.has (by rw [depth]; omega) fun _ _ _ _ ha hn => ha.has hn
  rw [Usable, Item.usable_iff]
  intro i hi
  obtain ⟨t, rfl, a, ha, hta⟩ := hhas.exists_shape hi
  exact ⟨(has a ha).usable.orderly.ty hta, trivial⟩

theorem ShowsAll.exists_mem : ∀ e ∈ es, ∃ c ∈ ids, e = .type c := by
  induction h using ShowsAll.induction with
  | nil => simp
  | cons a as e es first others ha _ ih =>
    obtain ⟨c, rfl, hc⟩ := ha.exists_type
    rw [forall_mem_cons]
    refine ⟨⟨c, mem_append_left _ hc, rfl⟩, fun e he => ?_⟩
    obtain ⟨c, hc, heq⟩ := ih e he
    exact ⟨c, mem_append_right _ hc, heq⟩

theorem ShowsAll.forall_type : ∀ e ∈ es, ∃ c, e = .type c :=
  fun e he => (h.exists_mem e he).imp fun _ hc => hc.2

/-- Some of the entries take some of the cells. -/
theorem ShowsAll.sublist (houts : outs.Sublist es) :
    ∃ bs jds, bs.Sublist as ∧ jds.Sublist ids ∧ s.ShowsAll bs outs jds := by
  induction h using ShowsAll.induction generalizing outs with
  | nil =>
    obtain rfl := sublist_nil.mp houts
    exact ⟨[], [], Sublist.refl _, Sublist.refl _, showsAll_nil⟩
  | cons a as e es first others ha _ ih =>
    cases houts with
    | cons _ houts =>
      obtain ⟨bs, jds, hbs, hjds, hshows⟩ := ih houts
      exact ⟨bs, jds, hbs.cons a, hjds.trans (sublist_append_right _ _), hshows⟩
    | cons_cons _ houts =>
      obtain ⟨bs, jds, hbs, hjds, hshows⟩ := ih houts
      exact ⟨a :: bs, first ++ jds, hbs.cons_cons a, hjds.append_left first, .cons ha hshows⟩

end

/-! ## Types that are rebuilt -/

/-- A type `t` in the course of being rebuilt out of the listed cells. -/
structure Holding (a : Shape) (ids : List TypeId) (s u : Store) (t : TypeId)
    (part : Side → List Shape) (cells : Side → List TypeId) : Prop where
  frame : Frame ids s u
  built : u.Built t a.name a.category part cells
  sub : (allCells t cells).Sublist ids

namespace Holding

variable {side : Side}

section

variable (h : Holding a ids s u t part cells)

include h

theorem mem : t ∈ ids := h.sub.subset mem_cons_self

theorem length_cells (hn : ids.length ≤ n + 1) (side : Side) : (cells side).length ≤ n := by
  have hle := h.sub.length_le
  simp only [allCells, length_cons, length_append] at hle
  cases side <;> omega

/-- The contents in one row are rebuilt. -/
theorem contents (hnodup : ids.Nodup)
    (hframe : Frame (cells side) u w) (hshows : w.ShowsAll bs (u.rowAt ((u.typeAt t).row side)) jds)
    (hjds : jds.Sublist (cells side)) : w.typeAt t = u.typeAt t ∧
      Holding a ids s w t (update part side bs) (update cells side jds) := by
  have hcells := h.sub.nodup hnodup
  have hcell : w.typeAt t = u.typeAt t :=
    hframe.typeAt_eq t (not_mem_cells hcells side) h.built.index_lt
  refine ⟨hcell, ?_, ?_, (allCells_update side hjds).trans h.sub⟩
  · exact h.frame.trans (hframe.mono (Subset.trans (subset_allCells side) h.sub.subset))
  refine ⟨Nat.lt_of_lt_of_le h.built.index_lt hframe.types_le, fun other => ?_, ?_, ?_,
    fun other => ?_⟩
  · rw [hcell]
    exact Nat.lt_of_lt_of_le (h.built.rows_lt other) hframe.rows_le
  · rw [hcell, h.built.name_eq]
  · rw [hcell, h.built.category_eq]
  · rw [hcell, hframe.rowAt_eq _ (h.built.rows_lt other)]
    by_cases hother : other = side
    · subst hother
      simpa using hshows
    · rw [update_of_ne hother, update_of_ne hother]
      exact (h.built.shows other).frame hframe (disjoint_cells hcells hother)

/-- A row is replaced by one with other entries. -/
theorem put (hnodup : ids.Nodup) (hshows : u.ShowsAll bs outs jds) (hjds : jds.Sublist (cells side))
    (hw : w = { u with types := u.types.modify t.index (·.setRow ⟨u.rows.size⟩ side),
                       rows := u.rows.push outs }) :
    w.typeAt t = (u.typeAt t).setRow ⟨u.rows.size⟩ side ∧
      Holding a ids s w t (update part side bs) (update cells side jds) := by
  have ht (other : Side) : t ∉ cells other := not_mem_cells (h.sub.nodup hnodup) other
  have hcell : w.typeAt t = (u.typeAt t).setRow ⟨u.rows.size⟩ side := by
    rw [hw]
    exact (typeAt_modify _ t _ t).trans (if_pos ⟨rfl, h.built.index_lt⟩)
  have hframe : Frame [t] u w := by
    rw [hw]
    exact (Frame.pushRow u outs).trans (Frame.modifyType mem_cons_self _)
  have hnew : w.rowAt ⟨u.rows.size⟩ = outs := by
    rw [hw]
    exact (rowAt_push u outs _).trans (if_pos rfl)
  have hsize : w.rows.size = u.rows.size + 1 := by simp [hw]
  refine ⟨hcell, ?_, ?_, (allCells_update side hjds).trans h.sub⟩
  · exact h.frame.trans (hframe.mono (by simpa using h.mem))
  refine ⟨Nat.lt_of_lt_of_le h.built.index_lt hframe.types_le, fun other => ?_, ?_, ?_,
    fun other => ?_⟩
  · rw [hcell, TypeCell.row_setRow, hsize]
    split
    · exact Nat.lt_succ_self _
    · exact Nat.lt_succ_of_lt (h.built.rows_lt other)
  · rw [hcell, TypeCell.name_setRow, h.built.name_eq]
  · rw [hcell, TypeCell.category_setRow, h.built.category_eq]
  · rw [hcell, TypeCell.row_setRow]
    by_cases hother : other = side
    · subst hother
      rw [if_pos rfl, hnew, update_self, update_self]
      refine hshows.frame hframe ?_
      simpa using fun hmem => ht other (hjds.subset hmem)
    · rw [if_neg hother, hframe.rowAt_eq _ (h.built.rows_lt other), update_of_ne hother,
        update_of_ne hother]
      refine (h.built.shows other).frame hframe ?_
      simpa using ht other

end

end Holding

/-- A type is rebuilt out of its cells: it is printable and has its name, and nothing else has
changed. -/
structure Becomes (a : Shape) (ids : List TypeId) (s u : Store) (e : Entry) (b : Shape)
    (jds : List TypeId) : Prop where
  frame : Frame ids s u
  shows : u.Shows b e jds
  cells : jds.Sublist ids
  printable : b.Printable
  name_eq : b.name = a.name

/-- Types are rebuilt out of their cells. -/
structure BecomesAll (as : List Shape) (ids : List TypeId) (s u : Store) (es : List Entry)
    (bs : List Shape) (jds : List TypeId) : Prop where
  frame : Frame ids s u
  shows : u.ShowsAll bs es jds
  cells : jds.Sublist ids
  printable : ∀ b ∈ bs, b.Printable
  names_eq : bs.map Shape.name = as.map Shape.name

theorem Becomes.refl (h : s.Shows a e ids) (ha : a.Printable) : Becomes a ids s s e a ids :=
  ⟨Frame.refl ids s, h, Sublist.refl ids, ha, rfl⟩

theorem Becomes.trans (h₁ : Becomes a ids s u e b jds) (h₂ : Becomes b jds u w e c kds) :
    Becomes a ids s w e c kds where
  frame := h₁.frame.trans (h₂.frame.mono h₁.cells.subset)
  shows := h₂.shows
  cells := h₂.cells.trans h₁.cells
  printable := h₂.printable
  name_eq := h₂.name_eq.trans h₁.name_eq

namespace BecomesAll

theorem refl (h : s.ShowsAll as es ids) (has : ∀ a ∈ as, a.Printable) :
    BecomesAll as ids s s es as ids :=
  ⟨Frame.refl ids s, h, Sublist.refl ids, has, rfl⟩

theorem trans (h₁ : BecomesAll as ids s u es bs jds) (h₂ : BecomesAll bs jds u w es cs kds) :
    BecomesAll as ids s w es cs kds where
  frame := h₁.frame.trans (h₂.frame.mono h₁.cells.subset)
  shows := h₂.shows
  cells := h₂.cells.trans h₁.cells
  printable := h₂.printable
  names_eq := h₂.names_eq.trans h₁.names_eq

theorem singleton (h : Becomes a ids s u e b jds) : BecomesAll [a] ids s u [e] [b] jds where
  frame := h.frame
  shows := showsAll_singleton.mpr ⟨e, rfl, h.shows⟩
  cells := h.cells
  printable := by simpa using h.printable
  names_eq := by simp [h.name_eq]

/-- The first type is rebuilt, and then the others. -/
theorem cons {rest : List Entry} (hnodup : (ids ++ jds).Nodup) {ids' jds' : List TypeId}
    (h₁ : Becomes a ids s u e b ids') (h₂ : BecomesAll as jds u w rest bs jds') :
    BecomesAll (a :: as) (ids ++ jds) s w (e :: rest) (b :: bs) (ids' ++ jds') where
  frame := (h₁.frame.mono (subset_append_left _ _)).trans (h₂.frame.mono (subset_append_right _ _))
  shows := by
    have hdisjoint : ids'.Disjoint jds := disjoint_of_subset_left h₁.cells.subset
      (disjoint_of_nodup_append hnodup)
    exact .cons (h₁.shows.frame h₂.frame hdisjoint) h₂.shows
  cells := h₁.cells.append h₂.cells
  printable := forall_mem_cons.mpr ⟨h₁.printable, h₂.printable⟩
  names_eq := by rw [map_cons, map_cons, h₁.name_eq, h₂.names_eq]

/-- What is done to one of several types leaves the others as they are. -/
theorem of_member {α : Type} {x : Typing α} (h : s.ShowsAll as es ids) (hnodup : ids.Nodup)
    (has : ∀ a ∈ as, a.Printable) (he : e ∈ es)
    (hx : ∀ a first, s.Shows a e first → first.Sublist ids → a.Printable →
      Ends x.run s fun _ u => ∃ b jds, Becomes a first s u e b jds) :
    Ends x.run s fun _ u => ∃ bs jds, BecomesAll as ids s u es bs jds := by
  induction h using ShowsAll.induction with
  | nil => exact absurd he not_mem_nil
  | cons a as e' es first others ha hothers ih =>
    obtain ⟨hpa, hpas⟩ := forall_mem_cons.mp has
    obtain rfl | he := mem_cons.mp he
    · refine (hx a first ha (sublist_append_left _ _) hpa).imp ?_
      rintro _ u ⟨b, jds, hbecomes⟩
      have hrest := hothers.frame hbecomes.frame fun _ hi hi' =>
        disjoint_of_nodup_append hnodup hi' hi
      exact ⟨b :: as, jds ++ others, cons hnodup hbecomes (refl hrest hpas)⟩
    · have hsub := sublist_append_right first others
      refine (ih (hsub.nodup hnodup) hpas he fun b l hb hl => hx b l hb (hl.trans hsub)).imp ?_
      rintro _ u ⟨bs, jds, hbecomes⟩
      exact ⟨a :: bs, first ++ jds, cons hnodup (Becomes.refl ha hpa) hbecomes⟩

end BecomesAll

/-- A computation rebuilds every printable type that takes a limited number of cells. -/
def Rebuilds (n : Nat) (x : TypeId → Typing Unit) : Prop :=
  ∀ (t : TypeId) (a : Shape) (ids : List TypeId) (s : Store), s.Shows a (.type t) ids →
    ids.Nodup → a.Printable → ids.length ≤ n →
    Ends (x t).run s fun _ u => ∃ b jds, Becomes a ids s u (.type t) b jds

theorem Rebuilds.member (hx : Rebuilds n x) (hnodup : ids.Nodup)
    (hn : ids.length ≤ n) (ht : .type t ∈ es) (h : ∃ bs jds, BecomesAll as ids s u es bs jds) :
    Ends (x t).run u fun _ w => ∃ bs jds, BecomesAll as ids s w es bs jds := by
  obtain ⟨bs, jds, h⟩ := h
  refine (BecomesAll.of_member h.shows (h.cells.nodup hnodup) h.printable ht ?_).imp ?_
  · intro b first hb hfirst hpb
    refine hx t b first u hb ((hfirst.trans h.cells).nodup hnodup) hpb ?_
    exact Nat.le_trans (hfirst.trans h.cells).length_le hn
  · rintro _ w ⟨cs, kds, h'⟩
    exact ⟨cs, kds, h.trans h'⟩

theorem rebuilds_zero (x : TypeId → Typing Unit) : Rebuilds 0 x := by
  intro t a ids s h _ _ hn
  obtain ⟨_, -, ht⟩ := h.exists_type
  rw [eq_nil_of_length_eq_zero (Nat.le_zero.mp hn)] at ht
  exact absurd ht not_mem_nil

/-- A printable type in the course of being rebuilt. -/
structure Held (a : Shape) (ids : List TypeId) (s u : Store) (t : TypeId)
    (part : Side → List Shape) (cells : Side → List TypeId) : Prop
    extends Holding a ids s u t part cells where
  printable : (Shape.ofParts a.name a.category part).Printable

namespace Held

theorem start (h : s.Shows a (.type t) ids) (ha : a.Printable) :
    ∃ part cells, a = .ofParts a.name a.category part ∧ Held a ids s s t part cells := by
  obtain ⟨part, cells, hparts, rfl, hbuilt⟩ := h.exists_built
  exact ⟨part, cells, hparts, ⟨Frame.refl _ s, hbuilt, Sublist.refl _⟩, hparts ▸ ha⟩

section

variable (h : Held a ids s u t part cells)

include h

theorem becomes :
    Becomes a ids s u (.type t) (.ofParts a.name a.category part) (allCells t cells) :=
  ⟨h.frame, h.built.shows_type, h.sub, h.printable, rfl⟩

/-- The contents of one row are replaced by printable ones. -/
theorem printable_update {side : Side}
    (hbs : ∀ b ∈ bs, b.Printable) (hnil : part side = [] → bs = []) :
    (ofParts a.name a.category (update part side bs)).Printable := by
  refine h.printable.replace (fun other => ?_) fun other hother' => ?_
  all_goals by_cases hother : other = side
  · subst hother
    simpa using hbs
  · rw [update_of_ne hother]
    exact h.printable.contents other
  · subst hother
    simpa using hnil hother'
  · rw [update_of_ne hother, hother']

theorem contents (hnodup : ids.Nodup) (side : Side)
    (hrow : BecomesAll (part side) (cells side) u w (u.rowAt ((u.typeAt t).row side)) bs jds) :
    w.typeAt t = u.typeAt t ∧
      Held a ids s w t (update part side bs) (update cells side jds) := by
  obtain ⟨hcell, hholding⟩ := h.toHolding.contents hnodup hrow.frame hrow.shows hrow.cells
  refine ⟨hcell, hholding, h.printable_update hrow.printable fun hnil => ?_⟩
  simpa [hnil] using hrow.names_eq

/-- A row is replaced by one with some of its entries. -/
theorem put (hnodup : ids.Nodup) (side : Side)
    (houts : outs.Sublist (u.rowAt ((u.typeAt t).row side)))
    (hw : w = { u with types := u.types.modify t.index (·.setRow ⟨u.rows.size⟩ side),
                       rows := u.rows.push outs }) :
    w.typeAt t = (u.typeAt t).setRow ⟨u.rows.size⟩ side ∧
      ∃ bs jds, Held a ids s w t (update part side bs) (update cells side jds) := by
  obtain ⟨bs, jds, hbs, hjds, hshows⟩ := (h.built.shows side).sublist houts
  obtain ⟨hcell, hholding⟩ := h.toHolding.put hnodup hshows hjds hw
  refine ⟨hcell, bs, jds, hholding, h.printable_update (fun b hb => ?_) fun hnil => ?_⟩
  · exact h.printable.contents side b (hbs.subset hb)
  · rw [hnil] at hbs
    exact sublist_nil.mp hbs

end

end Held

end Store
namespace Eval

variable {s u w : Store}

/-- The rows of a type that are simplified. -/
def simplifiedSides (name : String) : List Side :=
  if lower name ∈ simplifiedContainers then [.elements]
  else if lower name = "dict" then [.keys, .values]
  else if lower name = "optional" then [.elements]
  else []

/-- Simplify one row of a type, read from a store. -/
def simplifyRow (simplify : TypeId → Typing Unit) (u : Store) (t : TypeId) (side : Side) :
    Typing Unit := do
  let outs ← maximalBy simplify (u.rowAt ((u.typeAt t).row side))
  let r ← newRow outs
  modifyType t (·.setRow r side)

/-- Simplifying a type simplifies its rows one after the other. -/
theorem simplifyTo_succ_ends {P : List Side → Store → Prop}
    (hname : (s.typeAt t).name = name) (hs : P [] s)
    (hoptional : lower name = "optional" → s.rowAt (s.typeAt t).elements = [])
    (hstep : ∀ side ∈ simplifiedSides name, ∀ done u, P done u →
      Ends (simplifyRow (simplifyTo n) u t side).run u fun _ w => P (side :: done) w ∧
        ∀ other, other ≠ side → (w.typeAt t).row other = (u.typeAt t).row other) :
    Ends (simplifyTo (n + 1) t).run s fun _ u => P (simplifiedSides name).reverse u := by
  rw [simplifyTo]
  refine step (type_run t s) ?_
  dsimp only
  rw [hname]
  split
  · rename_i hcontainer
    rw [simplifiedSides, if_pos hcontainer] at hstep ⊢
    exact step (row_run _ s) ((hstep _ (.head _) _ s hs).imp fun _ u hu => hu.1)
  split
  · rename_i hcontainer hdict
    rw [simplifiedSides, if_neg hcontainer, if_pos hdict] at hstep ⊢
    have hvalues (u : Store) (hu : P [.keys] u ∧
        ∀ other, other ≠ Side.keys → (u.typeAt t).row other = (s.typeAt t).row other) :
        Ends (do
          let values ← newRow (← maximalBy (simplifyTo n) (← row (s.typeAt t).values))
          modifyType t fun c => { c with values }).run u fun _ w => P [.values, .keys] w := by
      have hrow : (u.typeAt t).row .values = (s.typeAt t).values := hu.2 .values (by decide)
      rw [← hrow]
      exact step (row_run _ u) ((hstep .values (.tail _ (.head _)) _ u hu.1).imp fun _ w hw => hw.1)
    have hboth := (hstep .keys (.head _) [] s hs).bind fun _ u hu => hvalues u hu
    simp only [simplifyRow, Typing.run_bind, bind_assoc] at hboth
    exact step (row_run _ s) hboth
  split
  · rename_i hcontainer hdict hlower
    rw [simplifiedSides, if_neg hcontainer, if_neg hdict, if_pos hlower] at hstep ⊢
    have helements := hstep .elements (.head _) [] s hs
    have hrow : s.rowAt ((s.typeAt t).row .elements) = [] := hoptional hlower
    rw [simplifyRow, hrow] at helements
    refine step (row_run _ s) ?_
    rw [hoptional hlower]
    obtain ⟨_, u, hrun, hu, -⟩ := helements
    exact ⟨(), u, hrun, hu⟩
  · rename_i hcontainer hdict hlower
    rw [simplifiedSides, if_neg hcontainer, if_neg hdict, if_neg hlower]
    exact of_eq rfl hs

theorem simplifyRow_ends (h : Held a ids s u t part cells) (hnodup : ids.Nodup)
    (hn : ids.length ≤ n + 1) (side : Side) {simplify : TypeId → Typing Unit}
    (hsimplify : Rebuilds n simplify) :
    Ends (simplifyRow simplify u t side).run u fun _ w =>
      (∃ part cells, Held a ids s w t part cells) ∧
        ∀ other, other ≠ side → (w.typeAt t).row other = (u.typeAt t).row other := by
  have hcells := nodup_cells (h.sub.nodup hnodup) side
  have hlength := h.length_cells hn side
  have hstart := BecomesAll.refl (h.built.shows side) (h.printable.contents side)
  apply (maximalBy_ends (fun c hc _ hI => hsimplify.member hcells hlength hc hI) ?_
    ⟨_, _, hstart⟩).bind
  · rintro outs v ⟨⟨bs, jds, hv⟩, houts⟩
    obtain ⟨hcell, hheld⟩ := h.contents hnodup side hv
    have hrow : v.rowAt ((v.typeAt t).row side) = u.rowAt ((u.typeAt t).row side) := by
      rw [hcell]
      exact hv.frame.rowAt_eq _ (h.built.rows_lt side)
    obtain ⟨hw, _, _, hheld⟩ := hheld.put hnodup side (hrow ▸ houts) rfl
    refine step (newRow_run outs v) (of_eq (modifyType_run t _ _)
      ⟨⟨_, _, hheld⟩, fun other hother => ?_⟩)
    rw [hw, TypeCell.row_setRow, if_neg hother, hcell]
  · rintro v ⟨bs, jds, hv⟩
    exact hv.shows.usable (hv.cells.nodup hcells) hv.printable

theorem rebuilds_simplifyTo (n : Nat) : Rebuilds n (simplifyTo n) := by
  induction n with
  | zero => exact rebuilds_zero _
  | succ n ih =>
    intro t a ids s h hnodup ha hn
    obtain ⟨part, cells, -, hheld⟩ := Held.start h ha
    refine (simplifyTo_succ_ends (P := fun _ u => ∃ part cells, Held a ids s u t part cells)
      hheld.built.name_eq ⟨_, _, hheld⟩ (fun hoptional => ?_) fun side _ _ u hu => ?_).imp
      fun _ u hu => ?_
    · have hshows := hheld.built.shows .elements
      rw [hheld.printable.elements_optional hoptional, ShowsAll] at hshows
      exact hshows.1
    · obtain ⟨_, _, hu⟩ := hu
      exact simplifyRow_ends hu hnodup hn side ih
    · obtain ⟨_, _, hu⟩ := hu
      exact ⟨_, _, hu.becomes⟩

/-- Tidy the contents in one row. -/
theorem forIn_ends_held (h : Held a ids s u t part cells) (hnodup : ids.Nodup)
    (hn : ids.length ≤ n + 1) (side : Side) (hx : Rebuilds n x) :
    Ends (forIn (typesOf (u.rowAt ((u.typeAt t).row side))) PUnit.unit fun c _ => do
      x c
      pure (ForInStep.yield PUnit.unit)).run u fun _ w =>
        w.typeAt t = u.typeAt t ∧
          w.rowAt ((w.typeAt t).row side) = u.rowAt ((u.typeAt t).row side) ∧
          ∃ part cells, Held a ids s w t part cells := by
  have hcells := nodup_cells (h.sub.nodup hnodup) side
  have hlength := h.length_cells hn side
  have hstart := BecomesAll.refl (h.built.shows side) (h.printable.contents side)
  have htypes := typesOf_eq (h.built.shows side).forall_type
  let P (v : Store) : Prop := ∃ bs jds,
    BecomesAll (part side) (cells side) u v (u.rowAt ((u.typeAt t).row side)) bs jds
  refine (Typing.forIn_ends (P := P) (fun c hc v hv => ?_) ⟨_, _, hstart⟩).imp ?_
  · have hmem : Entry.type c ∈ u.rowAt ((u.typeAt t).row side) := by
      rw [← htypes]
      exact mem_map_of_mem hc
    exact hx.member hcells hlength hmem hv
  · rintro _ w ⟨bs, jds, hw⟩
    obtain ⟨hcell, hheld⟩ := h.contents hnodup side hw
    refine ⟨hcell, ?_, _, _, hheld⟩
    rw [hcell]
    exact hw.frame.rowAt_eq _ (h.built.rows_lt side)

theorem rebuilds_tidyTo (n : Nat) : Rebuilds n (tidyTo n) := by
  induction n with
  | zero => exact rebuilds_zero _
  | succ n ih =>
    intro t a ids s h hnodup ha hn
    obtain ⟨part, cells, -, hs⟩ := Held.start h ha
    have htypes {u v : Store} {part : Side → List Shape} {cells : Side → List TypeId} {side : Side}
        (hu : Held a ids s u t part cells)
        (hrow : v.rowAt ((v.typeAt t).row side) = u.rowAt ((u.typeAt t).row side)) :
        ((typesOf (u.rowAt ((u.typeAt t).row side))).map Entry.type).Sublist
          (v.rowAt ((v.typeAt t).row side)) := by
      rw [hrow, typesOf_eq (hu.built.shows side).forall_type]
    rw [tidyTo]
    refine step (type_run t s) (step (row_run _ s) ?_)
    apply (forIn_ends_held hs hnodup hn .elements ih).bind
    rintro _ u ⟨hcell, hrow, _, _, hu⟩
    obtain ⟨hput, _, _, hu'⟩ := hu.put hnodup .elements (htypes hs hrow) rfl
    refine step (newRow_run _ u) (step (modifyType_run t _ _) ?_)
    -- the rows of keys and values are still those of the cell that was read first
    have hkeys : (s.typeAt t).keys = ((s.typeAt t).setRow ⟨u.rows.size⟩ .elements).row .keys := rfl
    have hvalues : (s.typeAt t).values =
        ((s.typeAt t).setRow ⟨u.rows.size⟩ .elements).row .values := rfl
    rw [hcell] at hput
    rw [hkeys, hvalues, ← hput]
    refine step (row_run _ _) ?_
    apply (forIn_ends_held hu' hnodup hn .keys ih).bind
    rintro _ w ⟨hcell', hrow', _, _, hw⟩
    obtain ⟨hput', _, _, hw'⟩ := hw.put hnodup .keys (htypes hu' hrow') rfl
    refine step (newRow_run _ w) (step (modifyType_run t _ _) ?_)
    have hvalues' := congrArg (·.row .values) hput'
    rw [hcell'] at hvalues'
    rw [TypeCell.row_setRow, if_neg (by decide)] at hvalues'
    rw [← hvalues']
    refine step (row_run _ _) ?_
    apply (forIn_ends_held hw' hnodup hn .values ih).bind
    rintro _ v ⟨-, -, _, _, hv⟩
    exact of_eq rfl ⟨_, _, hv.becomes⟩

theorem ends_at_depth {x : Nat → TypeId → Typing Unit} (hx : ∀ n, Rebuilds n (x n))
    (h : s.Shows a (.type t) ids) (hnodup : ids.Nodup) (ha : a.Printable) :
    Ends (do x (← store).depth t : Typing Unit).run s fun _ u =>
      ∃ b jds, Becomes a ids s u (.type t) b jds := by
  have hlength := length_le_of_nodup hnodup h.index_lt
  exact step (store_run s) (hx s.depth t a ids s h hnodup ha (by rw [depth]; omega))

end Eval
end TypeFlow
