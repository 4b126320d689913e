import TypeFlow.Proofs.Safety

/-!
# Shapes that denote the same type

Two shapes are alike when all types of these shapes are identical to one another, in both
directions. Shapes of containers are alike when their contents are, as sets: each member of one
side has its like on the other. Whether a type has a shape is read off its tree, and a type of the
store has the shape that its cells show.
-/

namespace TypeFlow

open Text Store List

variable {as : List Shape} {t : Ty} {a : Shape} {discard : RowId → Typing Unit} {s : Store}
  {name : String} {category : Category} {n : Nat} {r : Row}

mutual

/-- The tree of a type has a shape. -/
def Ty.Has : Ty → Shape → Prop
  | .mk _ name category elements keys values, .mk name' category' elements' keys' values' =>
    name = name' ∧ category = category' ∧ elements.Has elements' ∧ keys.Has keys' ∧
      values.Has values'
termination_by structural t => t

def Row.Has : Row → List Shape → Prop
  | .mk _ items, as => Item.Has items as
termination_by structural r => r

def Item.Has : List Item → List Shape → Prop
  | [], as => as = []
  | .type t :: rest, as => ∃ a more, as = a :: more ∧ t.Has a ∧ Item.Has rest more
  | .text _ :: _, _ | .absent :: _, _ | .group _ :: _, _ => False
termination_by structural items => items

end

namespace Item

variable {items : List Item}

theorem Has.of_nil (h : Has items []) : items = [] := by
  obtain _ | ⟨_ | _ | _ | _, rest⟩ := items <;> simp_all [Has]

theorem Has.of_cons (h : Has items (a :: as)) :
    ∃ t rest, items = .type t :: rest ∧ t.Has a ∧ Has rest as := by
  cases items with
  | nil => cases h
  | cons i rest =>
    cases i with
    | type t =>
      obtain ⟨b, more, heq, ht, hrest⟩ := h
      obtain ⟨rfl, rfl⟩ := cons.inj heq
      exact ⟨t, rest, rfl, ht, hrest⟩
    | text | absent | group => exact h.elim

theorem Has.exists_shape (h : Item.Has items as) {i : Item} (hi : i ∈ items) :
    ∃ t, i = .type t ∧ ∃ a ∈ as, t.Has a := by
  induction as generalizing items with
  | nil =>
    rw [h.of_nil] at hi
    exact absurd hi not_mem_nil
  | cons a as ih =>
    obtain ⟨t, rest, rfl, ht, hrest⟩ := h.of_cons
    obtain rfl | hi := mem_cons.mp hi
    · exact ⟨t, rfl, a, mem_cons_self, ht⟩
    · obtain ⟨t, rfl, b, hb, ht⟩ := ih hrest hi
      exact ⟨t, rfl, b, mem_cons_of_mem _ hb, ht⟩

theorem Has.exists_type (h : Item.Has items as) (ha : a ∈ as) : ∃ t, .type t ∈ items ∧ t.Has a := by
  induction as generalizing items with
  | nil => exact absurd ha not_mem_nil
  | cons b as ih =>
    obtain ⟨t, rest, rfl, ht, hrest⟩ := h.of_cons
    obtain rfl | ha := mem_cons.mp ha
    · exact ⟨t, mem_cons_self, ht⟩
    · obtain ⟨t, ht, hta⟩ := ih hrest ha
      exact ⟨t, mem_cons_of_mem _ ht, hta⟩

end Item

theorem Row.Has.items (h : r.Has as) : Item.Has r.items as := by
  cases r
  exact h

theorem Ty.Has.of_leaf (h : t.Has (.leaf name category)) :
    t.name = name ∧ t.category = category ∧ t.elements.items = [] := by
  obtain ⟨id, n, c, elements, keys, values⟩ := t
  obtain ⟨rfl, rfl, helements, -⟩ := h
  exact ⟨rfl, rfl, helements.items.of_nil⟩

theorem Row.Has.usable (hr : r.Has as) (has : ∀ a ∈ as, ∀ {t : Ty}, t.Has a → t.Usable) :
    r.Usable := by
  obtain ⟨id, items⟩ := r
  rw [Row.Usable, Item.usable_iff]
  intro i hi
  obtain ⟨t, rfl, a, ha, hta⟩ := hr.items.exists_shape hi
  exact ⟨has a ha hta, trivial⟩

/-- The three rows of a type. -/
inductive Side where
  | elements
  | keys
  | values
deriving DecidableEq

/-- One thing for each row. -/
def Side.pick {α : Type} (e k v : α) : Side → α
  | .elements => e
  | .keys => k
  | .values => v

namespace Shape

/-- The shapes in a row of a type. -/
def side : Shape → Side → List Shape
  | .mk _ _ elements keys values => Side.pick elements keys values

/-- Built-in types that have a rank and user types, at every depth; no optional type has
elements. -/
inductive Orderly : Shape → Prop
  | mk {a : Shape}
      (cell : a.category = .builtin ∧ (Vocabulary.rank? (lower a.name)).isSome ∨ a.category = .user)
      (optional : lower a.name = "optional" → a.side .elements = [])
      (contents : ∀ side, ∀ b ∈ a.side side, Orderly b) : Orderly a

/-- Types of orderly shapes can be compared. -/
theorem Orderly.ty (ha : a.Orderly) (ht : t.Has a) : t.Usable := by
  induction ha generalizing t with
  | @mk a cell optional _ ih =>
    obtain ⟨name, category, elements, keys, values⟩ := a
    obtain ⟨id, name', category', elements', keys', values'⟩ := t
    obtain ⟨rfl, rfl, hes, hks, hvs⟩ := ht
    refine ⟨fun hbuiltin => ?_, fun hoptional => ?_, hes.usable (ih .elements),
      hks.usable (ih .keys), hvs.usable (ih .values)⟩
    · obtain ⟨-, hrank⟩ | huser := cell
      · exact hrank
      · exact absurd (hbuiltin.symm.trans huser) (by decide)
    · have hnil : elements = [] := optional hoptional
      rw [hnil] at hes
      exact hes.items.of_nil

theorem Usable.orderly (h : a.Usable) : a.Orderly := by
  induction h with
  | mk cell optional _ _ _ helements hkeys hvalues =>
    refine .mk (cell.imp (fun h => ⟨h.1, Vocabulary.rank?_standard h.2⟩) And.left) optional ?_
    intro side
    cases side
    · exact helements
    · exact hkeys
    · exact hvalues

end Shape

namespace Ty

variable {ls rs : List Item} {l r : Ty}

/-- A comparison finds two types identical, whatever the store. -/
def Same (discard : RowId → Typing Unit) (l r : Ty) : Prop :=
  ∀ s, (identical discard l r).run s = .ok true s

theorem identicalToSome_of_same (ht : t.Usable) (hr : Item.Usable rs)
    (h : ∃ r, .type r ∈ rs ∧ Same discard t r) :
    (identicalToSome discard t rs).run s = .ok true s := by
  obtain ⟨r, hmem, hsame⟩ := h
  obtain ⟨found, hrun, hfound⟩ := (Searches.identicalToSome discard t).run hr
    (fun _ h => answers_identical discard ht h) s
  rw [hrun, hfound.mpr ⟨r, hmem, hsame s⟩]

/-- Types that each have their like leave the question to the other direction. -/
theorem coveredBy_of_same (hl : Item.Usable ls) (hr : Item.Usable rs)
    (h : ∀ t, .type t ∈ ls → ∃ r, .type r ∈ rs ∧ Same discard t r) :
    ∃ o, (coveredBy discard ls rs).run s = .ok o s ∧ o ≠ some false := by
  induction ls with
  | nil =>
    rw [coveredBy]
    exact ⟨none, rfl, by simp⟩
  | cons i rest ih =>
    obtain ⟨hi, hrest⟩ := Item.usable_cons.mp hl
    obtain ⟨t, rfl, ht⟩ := hi.exists_type
    rw [coveredBy]
    by_cases hany : t.lowerName = "any"
    · rw [if_pos hany]
      exact ⟨some true, rfl, by simp⟩
    · obtain ⟨o, ho, hne⟩ := ih hrest fun t ht => h t (mem_cons_of_mem _ ht)
      have hsome := identicalToSome_of_same (s := s) ht hr (h t mem_cons_self)
      rw [if_neg hany]
      exact ⟨o, (Eval.bind_of_ok hsome _).trans ho, hne⟩

theorem identicalRows_of_same {l r : Row} (hl : l.Usable) (hr : r.Usable)
    (hlr : ∀ t, .type t ∈ l.items → ∃ u, .type u ∈ r.items ∧ Same discard t u)
    (hrl : ∀ t, .type t ∈ r.items → ∃ u, .type u ∈ l.items ∧ Same discard t u) :
    (identicalRows discard l r).run s = .ok true s := by
  obtain ⟨o, ho, hne⟩ := coveredBy_of_same (s := s) hl.items hr.items hlr
  obtain ⟨o', ho', hne'⟩ := coveredBy_of_same (s := s) hr.items hl.items hrl
  rw [identicalRows_of_coveredBy discard hl.ranked.items.any_isForeign
    hr.ranked.items.any_isForeign ho ho']
  obtain _ | _ | _ := o <;> obtain _ | _ | _ := o' <;> simp_all

/-- User types of one name are identical. -/
theorem same_user (hl : l.category = .user) (hr : r.category = .user) (hname : l.name = r.name) :
    Same discard l r := by
  intro s
  obtain ⟨li, ln, lc, le, lk, lv⟩ := l
  obtain ⟨ri, rn, rc, re, rk, rv⟩ := r
  obtain rfl : lc = .user := hl
  obtain rfl : rc = .user := hr
  obtain rfl : ln = rn := hname
  rw [identical.eq_def]
  simp [show Category.user ≠ Category.builtin by decide]

/-- A user type and a standard type without elements are compared by their short names. -/
theorem identical_shortName
    (hcategory : l.category = .user ∧ r.category = .builtin ∨
      l.category = .builtin ∧ r.category = .user)
    (hl : l.elements.items = []) (hr : r.elements.items = []) :
    (identical discard l r).run s = .ok (sameShortName l.name r.name) s := by
  obtain ⟨li, ln, lc, le, lk, lv⟩ := l
  obtain ⟨ri, rn, rc, re, rk, rv⟩ := r
  have hle : le.items.length ≠ 1 := by rw [show le.items = [] from hl]; decide
  have hre : re.items.length ≠ 1 := by rw [show re.items = [] from hr]; decide
  have hdifferent : Category.user ≠ Category.builtin := by decide
  rw [identical.eq_def]
  obtain ⟨hlc, hrc⟩ | ⟨hlc, hrc⟩ := hcategory
  · obtain rfl : lc = .user := hlc
    obtain rfl : rc = .builtin := hrc
    simp [hdifferent, hle, hre, name]
  · obtain rfl : lc = .builtin := hlc
    obtain rfl : rc = .user := hrc
    simp [hdifferent, hle, hre, name]

/-- Standard types of one rank are identical if the contents that count are. -/
theorem same_builtin (hl : l.category = .builtin) (hr : r.category = .builtin)
    (hln : Vocabulary.rank? l.lowerName = some n) (hrn : Vocabulary.rank? r.lowerName = some n)
    (hdict : l.lowerName = "dict" → ∀ s, (identicalRows discard l.keys r.keys).run s = .ok true s ∧
      (identicalRows discard l.values r.values).run s = .ok true s)
    (hcontainer : l.lowerName ∈ elementContainers → ∀ s,
      (identicalRows discard l.elements r.elements).run s = .ok true s) : Same discard l r := by
  intro s
  rw [identical_builtin discard hl hr hln hrn, if_pos rfl]
  split
  · rename_i h
    obtain ⟨hkeys, hvalues⟩ := hdict h s
    exact (Eval.bind_of_ok hkeys _).trans hvalues
  · split
    · rename_i h
      exact hcontainer h s
    · rfl

end Ty

namespace Shape

variable {bs es ks vs : List Shape}

/-- All types of two shapes are identical to one another. -/
def Alike (a b : Shape) : Prop :=
  ∀ discard (l r : Ty), l.Has a → r.Has b → Ty.Same discard l r ∧ Ty.Same discard r l

/-- Each member of one list has its like in the other. -/
def AlikeRows (as bs : List Shape) : Prop :=
  (∀ a ∈ as, ∃ b ∈ bs, Alike a b) ∧ ∀ b ∈ bs, ∃ a ∈ as, Alike a b

theorem alikeRows_nil : AlikeRows [] [] := by simp [AlikeRows]

theorem AlikeRows.cons {b : Shape} (hab : Alike a b) (h : AlikeRows as bs) :
    AlikeRows (a :: as) (b :: bs) := by
  constructor
  · simp only [forall_mem_cons]
    refine ⟨⟨b, mem_cons_self, hab⟩, fun x hx => ?_⟩
    obtain ⟨y, hy, hxy⟩ := h.1 x hx
    exact ⟨y, mem_cons_of_mem _ hy, hxy⟩
  · simp only [forall_mem_cons]
    refine ⟨⟨a, mem_cons_self, hab⟩, fun y hy => ?_⟩
    obtain ⟨x, hx, hxy⟩ := h.2 y hy
    exact ⟨x, mem_cons_of_mem _ hx, hxy⟩

theorem alike_user (name : String) : Alike (leaf name .user) (leaf name .user) := by
  intro discard l r hl hr
  obtain ⟨li, ln, lc, le, lk, lv⟩ := l
  obtain ⟨ri, rn, rc, re, rk, rv⟩ := r
  obtain ⟨rfl, rfl, -⟩ := hl
  obtain ⟨rfl, rfl, -⟩ := hr
  exact ⟨Ty.same_user rfl rfl rfl, Ty.same_user rfl rfl rfl⟩

/-- A user type is alike to a standard type of the same short name. -/
theorem alike_shortName {name' : String} (h : Ty.sameShortName name name' = true) :
    Alike (leaf name .user) (leaf name' .builtin) := by
  have hsymm : Ty.sameShortName name' name = true := by
    rw [Ty.sameShortName, beq_iff_eq] at h ⊢
    exact h.symm
  intro discard l r hl hr
  obtain ⟨hln, hlc, hle⟩ := hl.of_leaf
  obtain ⟨hrn, hrc, hre⟩ := hr.of_leaf
  constructor
  · intro s
    rw [Ty.identical_shortName (.inl ⟨hlc, hrc⟩) hle hre, hln, hrn, h]
  · intro s
    rw [Ty.identical_shortName (.inr ⟨hrc, hlc⟩) hre hle, hln, hrn, hsymm]

theorem AlikeRows.symm (h : AlikeRows as bs) : AlikeRows bs as := by
  have hsymm {a b : Shape} (hab : Alike a b) : Alike b a := fun discard l r hl hr =>
    (hab discard r l hr hl).symm
  exact ⟨fun b hb => (h.2 b hb).imp fun _ ha => ⟨ha.1, hsymm ha.2⟩,
    fun a ha => (h.1 a ha).imp fun _ hb => ⟨hb.1, hsymm hb.2⟩⟩

theorem AlikeRows.identical (h : AlikeRows as bs) (has : ∀ a ∈ as, a.Usable)
    (hbs : ∀ b ∈ bs, b.Usable) {l r : Row} (hl : l.Has as)
    (hr : r.Has bs) (s : Store) : (Ty.identicalRows discard l r).run s = .ok true s := by
  have hlike {as bs : List Shape} {l r : Row} (h : AlikeRows as bs) (hl : l.Has as) (hr : r.Has bs)
      (t : Ty) (ht : .type t ∈ l.items) : ∃ u, .type u ∈ r.items ∧ Ty.Same discard t u := by
    obtain ⟨_, ⟨⟩, a, ha, hta⟩ := hl.items.exists_shape ht
    obtain ⟨b, hb, hab⟩ := h.1 a ha
    obtain ⟨u, hu, hub⟩ := hr.items.exists_type hb
    exact ⟨u, hu, (hab discard t u hta hub).1⟩
  exact Ty.identicalRows_of_same (hl.usable fun a ha _ => (has a ha).orderly.ty)
    (hr.usable fun b hb _ => (hbs b hb).orderly.ty) (hlike h hl hr) (hlike h.symm hr hl)

theorem Usable.contents (h : Usable (.mk name category es ks vs)) :
    (∀ a ∈ es, a.Usable) ∧ (∀ a ∈ ks, a.Usable) ∧ ∀ a ∈ vs, a.Usable := by
  cases h with
  | mk _ _ hes hks hvs => exact ⟨hes, hks, hvs⟩

/-- Standard types of one rank are identical if their contents are alike. -/
theorem same_of_alikeRows {l r : String} {es' ks' vs' : List Shape}
    (hl : Vocabulary.rank? (lower l) = some n) (hr : Vocabulary.rank? (lower r) = some n)
    (hlu : Usable (.mk l .builtin es ks vs)) (hru : Usable (.mk r .builtin es' ks' vs'))
    (hes : AlikeRows es es') (hks : AlikeRows ks ks') (hvs : AlikeRows vs vs') {u : Ty}
    (ht : t.Has (.mk l .builtin es ks vs)) (hu : u.Has (.mk r .builtin es' ks' vs')) :
    Ty.Same discard t u := by
  obtain ⟨li, ln, lc, le, lk, lv⟩ := t
  obtain ⟨ri, rn, rc, re, rk, rv⟩ := u
  obtain ⟨rfl, rfl, hle, hlk, hlv⟩ := ht
  obtain ⟨rfl, rfl, hre, hrk, hrv⟩ := hu
  obtain ⟨heu, hku, hvu⟩ := hlu.contents
  obtain ⟨heu', hku', hvu'⟩ := hru.contents
  exact Ty.same_builtin rfl rfl hl hr
    (fun _ s => ⟨hks.identical hku hku' hlk hrk s, hvs.identical hvu hvu' hlv hrv s⟩)
    fun _ => hes.identical heu heu' hle hre

end Shape

namespace Store

variable {e : Entry} {es : List Entry} {ids : List TypeId}

/-- Types of the store have the shapes that their cells show, unfolded far enough. -/
theorem ShowsAll.has (h : s.ShowsAll as es ids) (hn : 2 * ids.length ≤ n) {rowOf : RowId → Row}
    (hshape : ∀ a ∈ as, ∀ t first, s.Shows a (.type t) first → 2 * first.length ≤ n →
      (s.unfoldType n t).Has a) : Item.Has (es.map (unfoldItem (s.unfoldType n) rowOf)) as := by
  induction h using ShowsAll.induction with
  | nil => rfl
  | cons a as e es first others ha _ ih =>
    rw [length_append] at hn
    obtain ⟨t, rfl, -⟩ := ha.exists_type
    exact ⟨a, as, rfl, hshape a mem_cons_self t first ha (by omega),
      ih (by omega) fun b hb => hshape b (mem_cons_of_mem _ hb)⟩

theorem Shows.has {t : TypeId} (h : s.Shows a (.type t) ids)
    (hn : 2 * ids.length ≤ n) : (s.unfoldType n t).Has a := by
  induction a using Shape.induction generalizing t ids n with
  | mk name category elements keys values helements hkeys hvalues =>
    rw [Shows] at h
    obtain ⟨_, es, ks, vs, ⟨⟩, rfl, -, -, rfl, rfl, hes, hks, hvs⟩ := h
    simp only [length_cons, length_append] at hn
    obtain ⟨n, rfl⟩ : ∃ m, n = m + 2 := ⟨n - 2, by omega⟩
    exact ⟨rfl, rfl, hes.has (by omega) fun a ha _ _ h hn => helements a ha h hn,
      hks.has (by omega) fun a ha _ _ h hn => hkeys a ha h hn,
      hvs.has (by omega) fun a ha _ _ h hn => hvalues a ha h hn⟩

end Store

end TypeFlow
