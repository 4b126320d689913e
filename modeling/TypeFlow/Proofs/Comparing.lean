import TypeFlow.Proofs.Trees

/-!
# Comparisons see shapes only

Two types are compared by names, categories and contents, wherever their cells are. So identity
and inclusion are relations of shapes, and a comparison of types in any store answers for the
shapes that the types have. Shapes are orderly when such a comparison always gives an answer.
-/

namespace TypeFlow

open Text Store Eval Item List

variable {items rs : List Item} {a : Shape} {as bs : List Shape} {discard : RowId → Typing Unit}

/-! ## Trees of one shape -/

namespace Item

theorem Has.any_isForeign (h : Has items as) : items.any isForeign = false := by
  rw [any_eq_false]
  intro i hi
  obtain ⟨t, rfl, -⟩ := h.exists_shape hi
  simp [isForeign]

theorem Has.length_eq (h : Has items as) : items.length = as.length := by
  induction as generalizing items with
  | nil => rw [h.of_nil]; rfl
  | cons a as ih =>
    obtain ⟨t, rest, rfl, -, hrest⟩ := h.of_cons
    rw [length_cons, length_cons, ih hrest]

theorem Has.getElem? (h : Has items as) {i : Nat} (hi : as[i]? = some a) :
    ∃ t, items[i]? = some (.type t) ∧ t.Has a := by
  induction as generalizing items i with
  | nil => cases hi
  | cons b as ih =>
    obtain ⟨t, rest, rfl, ht, hrest⟩ := h.of_cons
    cases i with
    | zero =>
      cases hi
      exact ⟨t, rfl, ht⟩
    | succ i => exact ih hrest hi

end Item

/-- Rows of one shape hold one type each, or neither of them does. -/
theorem Row.Has.single_or {r r' : Row} (h : r.Has as) (h' : r'.Has as) :
    (∃ i i' t t' a, a ∈ as ∧ r = .mk i [.type t] ∧ r' = .mk i' [.type t'] ∧ t.Has a ∧ t'.Has a) ∨
      r.items.length ≠ 1 ∧ r'.items.length ≠ 1 := by
  by_cases hone : as.length = 1
  · obtain ⟨a, rfl⟩ := length_eq_one_iff.mp hone
    obtain ⟨i, items⟩ := r
    obtain ⟨i', items'⟩ := r'
    obtain ⟨t, rest, rfl, ht, hrest⟩ := Has.of_cons h
    obtain ⟨t', rest', rfl, ht', hrest'⟩ := Has.of_cons h'
    rw [hrest.of_nil, hrest'.of_nil]
    exact .inl ⟨i, i', t, t', a, mem_cons_self, rfl, rfl, ht, ht'⟩
  · rw [h.items.length_eq, h'.items.length_eq]
    exact .inr ⟨hone, hone⟩

namespace Ty

variable {t : Ty} {rs' : List Item}

theorem Has.eq_mk {name : String} {category : Category} {es ks vs : List Shape}
    (h : t.Has (.mk name category es ks vs)) :
    ∃ id e k v, t = .mk id name category e k v ∧ e.Has es ∧ k.Has ks ∧ v.Has vs := by
  obtain ⟨id, name', category', e, k, v⟩ := t
  obtain ⟨rfl, rfl, hes, hks, hvs⟩ := h
  exact ⟨id, e, k, v, rfl, hes, hks, hvs⟩

theorem Has.name_eq (h : t.Has a) : t.name = a.name := by
  cases a
  obtain ⟨_, _, _, _, rfl, -⟩ := h.eq_mk
  rfl

theorem Has.category_eq (h : t.Has a) : t.category = a.category := by
  cases a
  obtain ⟨_, _, _, _, rfl, -⟩ := h.eq_mk
  rfl

mutual

theorem identical_congr (a b : Shape) {l l' r r' : Ty} (hl : l.Has a) (hl' : l'.Has a)
    (hr : r.Has b) (hr' : r'.Has b) : identical discard l r = identical discard l' r' := by
  match a, b with
  | .mk an ac ae ak av, .mk bn bc be bk bv =>
    obtain ⟨li, le, lk, lv, rfl, hle, hlk, hlv⟩ := hl.eq_mk
    obtain ⟨li', le', lk', lv', rfl, hle', hlk', hlv'⟩ := hl'.eq_mk
    obtain ⟨ri, re, rk, rv, rfl, hre, hrk, hrv⟩ := hr.eq_mk
    obtain ⟨ri', re', rk', rv', rfl, hre', hrk', hrv'⟩ := hr'.eq_mk
    rw [identical.eq_def, identical.eq_def discard (.mk li' _ _ _ _ _)]
    dsimp only
    rw [identicalRows_congr ae be hle hle' hre hre', identicalRows_congr ak bk hlk hlk' hrk hrk',
      identicalRows_congr av bv hlv hlv' hrv hrv']
    -- the only content of one type may be compared with the other type as a whole
    obtain ⟨i, i', t, t', c, hc, rfl, rfl, ht, ht'⟩ | ⟨hne, hne'⟩ := hle.single_or hle' <;>
      obtain ⟨j, j', u, u', d, hd, rfl, rfl, hu, hu'⟩ | ⟨hme, hme'⟩ := hre.single_or hre'
    · have hsize := sizeOf_lt_of_mem hc
      have hsize' := sizeOf_lt_of_mem hd
      simp only [identical_congr c _ ht ht' hr hr', identical_congr d _ hu hu' hl hl']
      rfl
    · have hsize := sizeOf_lt_of_mem hc
      simp only [identical_congr c _ ht ht' hr hr', hme, hme', and_false, if_false]
      rfl
    · have hsize := sizeOf_lt_of_mem hd
      simp only [identical_congr d _ hu hu' hl hl', hne, hne', and_false, if_false]
      rfl
    · simp only [hne, hne', hme, hme', and_false, if_false]
termination_by sizeOf a + sizeOf b
decreasing_by all_goals simp only [Shape.mk.sizeOf_spec]; omega

theorem identicalRows_congr (as bs : List Shape) {l l' r r' : Row} (hl : l.Has as)
    (hl' : l'.Has as) (hr : r.Has bs) (hr' : r'.Has bs) :
    identicalRows discard l r = identicalRows discard l' r' := by
  obtain ⟨li, ls⟩ := l
  obtain ⟨li', ls'⟩ := l'
  obtain ⟨ri, rs⟩ := r
  obtain ⟨ri', rs'⟩ := r'
  have hls : ls.any isForeign = false := hl.items.any_isForeign
  have hls' : ls'.any isForeign = false := hl'.items.any_isForeign
  have hrs : rs.any isForeign = false := hr.items.any_isForeign
  have hrs' : rs'.any isForeign = false := hr'.items.any_isForeign
  rw [identicalRows, identicalRows, hls, hls', hrs, hrs', coveredBy_congr as bs hl hl' hr hr',
    coveredBy_congr bs as hr hr' hl hl']
  rfl
termination_by sizeOf as + sizeOf bs + 1
decreasing_by all_goals omega

theorem coveredBy_congr (as bs : List Shape) {ls ls' rs rs' : List Item} (hl : Item.Has ls as)
    (hl' : Item.Has ls' as) (hr : Item.Has rs bs) (hr' : Item.Has rs' bs) :
    coveredBy discard ls rs = coveredBy discard ls' rs' := by
  match as with
  | [] =>
    rw [hl.of_nil, hl'.of_nil, coveredBy, coveredBy]
  | a :: as =>
    obtain ⟨t, rest, rfl, ht, hrest⟩ := hl.of_cons
    obtain ⟨t', rest', rfl, ht', hrest'⟩ := hl'.of_cons
    rw [coveredBy, coveredBy, lowerName, lowerName, ht.name_eq, ht'.name_eq,
      identicalToSome_congr a bs ht ht' hr hr', coveredBy_congr as bs hrest hrest' hr hr']
termination_by sizeOf as + sizeOf bs
decreasing_by all_goals simp only [cons.sizeOf_spec]; omega

theorem identicalToSome_congr (a : Shape) (bs : List Shape) {t t' : Ty} {rs rs' : List Item}
    (ht : t.Has a) (ht' : t'.Has a) (hr : Item.Has rs bs) (hr' : Item.Has rs' bs) :
    identicalToSome discard t rs = identicalToSome discard t' rs' := by
  match bs with
  | [] =>
    rw [hr.of_nil, hr'.of_nil, identicalToSome, identicalToSome]
  | b :: bs =>
    obtain ⟨r, rest, rfl, hb, hrest⟩ := hr.of_cons
    obtain ⟨r', rest', rfl, hb', hrest'⟩ := hr'.of_cons
    rw [identicalToSome, identicalToSome, identical_congr a b ht ht' hb hb',
      identicalToSome_congr a bs ht ht' hrest hrest']
termination_by sizeOf a + sizeOf bs
decreasing_by all_goals simp only [cons.sizeOf_spec]; omega

end

/-- No optional type has elements. -/
theorem existOptional_eq {l : Item} (h : Item.Usable rs) :
    (existOptional l rs : Typing Bool) = pure false := by
  induction rs with
  | nil => rfl
  | cons r rest ih =>
    obtain ⟨hr, hrest⟩ := Item.usable_cons.mp h
    obtain ⟨r, rfl, hr'⟩ := hr.exists_type
    rw [existOptional]
    change (if r.lowerName = "optional" then _ else existOptional l rest) = _
    split
    · rename_i hname
      rw [hr'.optional_empty hname]
      exact ih hrest
    · exact ih hrest

/-- Searches agree where their tests do. -/
theorem Searches.congr {β : Type} [DecidableEq β] {test test' : Ty → Typing β} {wanted : β}
    {search search' : List Item → Typing Bool} (h : Searches test wanted search)
    (h' : Searches test' wanted search') (hr : Item.Has rs bs) (hr' : Item.Has rs' bs)
    (htest : ∀ b ∈ bs, ∀ r r' : Ty, r.Has b → r'.Has b → test r = test' r') :
    search rs = search' rs' := by
  induction bs generalizing rs rs' with
  | nil => rw [hr.of_nil, hr'.of_nil, h.nil, h'.nil]
  | cons b bs ih =>
    obtain ⟨r, rest, rfl, hb, hrest⟩ := hr.of_cons
    obtain ⟨r', rest', rfl, hb', hrest'⟩ := hr'.of_cons
    rw [h.cons, h'.cons, htest b mem_cons_self r r' hb hb',
      ih hrest hrest' fun b hb => htest b (mem_cons_of_mem _ hb)]

end Ty

/-! ## Orderly shapes -/

namespace Shape

variable {b : Shape}

@[simp] theorem side_ofParts (name : String) (category : Category) (part : Side → List Shape) :
    (ofParts name category part).side = part := by
  funext side
  cases side <;> rfl

theorem ofParts_side (a : Shape) : ofParts a.name a.category a.side = a := by
  cases a
  rfl

namespace Orderly

/-- A type is identical to every type of its shape. -/
theorem same_self (ha : a.Orderly) {l r : Ty} (hl : l.Has a) (hr : r.Has a)
    (discard : RowId → Typing Unit) : Ty.Same discard l r := by
  induction ha generalizing l r with
  | @mk a cell _ contents ih =>
    have hrow (side : Side) {x y : Row} (hx : x.Has (a.side side)) (hy : y.Has (a.side side))
        (s : Store) : (Ty.identicalRows discard x y).run s = .ok true s := by
      have hlike {x y : Row} (hx : x.Has (a.side side)) (hy : y.Has (a.side side)) (t : Ty)
          (ht : .type t ∈ x.items) : ∃ u, .type u ∈ y.items ∧ Ty.Same discard t u := by
        obtain ⟨_, ⟨⟩, b, hb, htb⟩ := hx.items.exists_shape ht
        obtain ⟨u, hu, hub⟩ := hy.items.exists_type hb
        exact ⟨u, hu, ih side b hb htb hub⟩
      have husable {x : Row} (hx : x.Has (a.side side)) : x.Usable :=
        hx.usable fun b hb _ => (contents side b hb).ty
      exact Ty.identicalRows_of_same (husable hx) (husable hy) (hlike hx hy) (hlike hy hx)
    obtain ⟨hbuiltin, hrank⟩ | huser := cell
    · obtain ⟨n, hn⟩ := Option.isSome_iff_exists.mp hrank
      have hln : Vocabulary.rank? l.lowerName = some n := by rw [Ty.lowerName, hl.name_eq, hn]
      have hrn : Vocabulary.rank? r.lowerName = some n := by rw [Ty.lowerName, hr.name_eq, hn]
      obtain ⟨name, category, elements, keys, values⟩ := a
      obtain ⟨_, le, lk, lv, rfl, hle, hlk, hlv⟩ := hl.eq_mk
      obtain ⟨_, re, rk, rv, rfl, hre, hrk, hrv⟩ := hr.eq_mk
      refine Ty.same_builtin (hl.category_eq.trans hbuiltin) (hr.category_eq.trans hbuiltin) hln
        hrn (fun _ s => ?_) fun _ s => ?_
      · exact ⟨hrow .keys hlk hrk s, hrow .values hlv hrv s⟩
      · exact hrow .elements hle hre s
    · exact Ty.same_user (hl.category_eq.trans huser) (hr.category_eq.trans huser)
        (hl.name_eq.trans hr.name_eq.symm)

end Orderly

end Shape

namespace Ty

theorem includedItems_congr (hbs : ∀ b ∈ bs, b.Orderly)
    (hin : ∀ a ∈ as, ∀ b ∈ bs, ∀ l l' r r' : Ty, l.Has a → l'.Has a → r.Has b → r'.Has b →
      inclusion discard l r = inclusion discard l' r') {ls ls' rs' : List Item}
    (hl : Item.Has ls as) (hl' : Item.Has ls' as) (hr : Item.Has rs bs) (hr' : Item.Has rs' bs) :
    includedItems discard ls rs = includedItems discard ls' rs' := by
  have husable {rs : List Item} (hr : Item.Has rs bs) : Item.Usable rs := by
    have hrow : Row.Has (.mk ⟨0⟩ rs) bs := hr
    exact hrow.usable fun b hb _ => (hbs b hb).ty
  induction as generalizing ls ls' with
  | nil => rw [hl.of_nil, hl'.of_nil, includedItems, includedItems]
  | cons a as ih =>
    obtain ⟨l, rest, rfl, ha, hrest⟩ := hl.of_cons
    obtain ⟨l', rest', rfl, ha', hrest'⟩ := hl'.of_cons
    have hsame : existSame discard (.type l) rs = existSame discard (.type l') rs' :=
      (Searches.existSame discard l).congr (.existSame discard l') hr hr'
        fun b _ _ _ => identical_congr a b ha ha'
    have hincludes : existIncluded discard (.type l) rs = existIncluded discard (.type l') rs' :=
      (Searches.anyIncludes _).congr (.anyIncludes _) hr hr'
        fun b hb r r' => hin a mem_cons_self b hb l l' r r' ha ha'
    have hmore := ih (fun a ha => hin a (mem_cons_of_mem _ ha)) hrest hrest'
    rw [includedItems, includedItems, hsame, existOptional_eq (husable hr),
      existOptional_eq (husable hr'), hincludes, hmore]

theorem inclusion_congr {b : Shape} (hb : b.Orderly) {l l' r r' : Ty} (hl : l.Has a)
    (hl' : l'.Has a) (hr : r.Has b) (hr' : r'.Has b) :
    inclusion discard l r = inclusion discard l' r' := by
  induction a using Shape.induction generalizing b l l' r r' with
  | mk name category elements keys values helements hkeys hvalues =>
    have hplain {id : TypeId} {name : String} {category : Category} {e k v : Row}
        (h : Ty.Usable (.mk id name category e k v)) :
        ¬ (name = "Optional" ∧ e.items.length = 1) := by
      rintro ⟨rfl, hlen⟩
      rw [h.2.1 (by decide +kernel)] at hlen
      exact absurd hlen (by decide)
    have hrow {as bs : List Shape} (hbs : ∀ b ∈ bs, b.Orderly)
        (has : ∀ a ∈ as, ∀ {b : Shape}, b.Orderly → ∀ {l l' r r' : Ty}, l.Has a → l'.Has a →
          r.Has b → r'.Has b → inclusion discard l r = inclusion discard l' r') {x x' y y' : Row}
        (hx : x.Has as) (hx' : x'.Has as) (hy : y.Has bs) (hy' : y'.Has bs) :
        includedRow discard x y = includedRow discard x' y' := by
      cases x
      cases x'
      exact includedItems_congr hbs (fun a ha b hb _ _ _ _ => has a ha (hbs b hb)) hx hx' hy.items
        hy'.items
    have hru := hb.ty hr
    have hru' := hb.ty hr'
    obtain ⟨-, -, contents⟩ := hb
    obtain ⟨bname, bcategory, belements, bkeys, bvalues⟩ := b
    obtain ⟨li, le, lk, lv, rfl, hle, hlk, hlv⟩ := hl.eq_mk
    obtain ⟨li', le', lk', lv', rfl, hle', hlk', hlv'⟩ := hl'.eq_mk
    obtain ⟨ri, re, rk, rv, rfl, hre, hrk, hrv⟩ := hr.eq_mk
    obtain ⟨ri', re', rk', rv', rfl, hre', hrk', hrv'⟩ := hr'.eq_mk
    unfold inclusion
    simp only [if_neg (hplain hru), if_neg (hplain hru'),
      hrow (contents .elements) helements hle hle' hre hre',
      hrow (contents .keys) hkeys hlk hlk' hrk hrk',
      hrow (contents .values) hvalues hlv hlv' hrv hrv']

end Ty

/-! ## Relations of shapes -/

namespace Shape

variable {b : Shape} {l r : Ty}

/-- Types of two shapes are identical. -/
def Same (a b : Shape) : Prop := ∃ l r : Ty, l.Has a ∧ r.Has b ∧ Ty.Same discardForeign l r

/-- Types of a shape are included in types of another one. -/
def Within (a b : Shape) : Prop :=
  ∃ l r : Ty, l.Has a ∧ r.Has b ∧ ∀ s, (Ty.inclusion discardForeign l r).run s = .ok (some true) s

theorem identical_run (ha : a.Orderly) (hb : b.Orderly) (hl : l.Has a) (hr : r.Has b) (s : Store) :
    ∃ x, (Ty.identical discardForeign l r).run s = .ok x s ∧ (x = true ↔ a.Same b) := by
  obtain ⟨x, hx⟩ := (Ty.answers_identical discardForeign (ha.ty hl) (hb.ty hr)).exists_answer
  refine ⟨x, hx s, fun h => ⟨l, r, hl, hr, fun s => h ▸ hx s⟩, ?_⟩
  rintro ⟨l', r', hl', hr', hsame⟩
  have hrun := hsame s
  rw [Ty.identical_congr a b hl' hl hr' hr, hx s] at hrun
  cases hrun
  rfl

theorem inclusion_run (ha : a.Orderly) (hb : b.Orderly) (hl : l.Has a) (hr : r.Has b) (s : Store) :
    ∃ o, (Ty.inclusion discardForeign l r).run s = .ok o s ∧ (o = some true ↔ a.Within b) := by
  obtain ⟨o, ho⟩ := (Ty.answers_inclusion discardForeign l r (ha.ty hl) (hb.ty hr)).exists_answer
  refine ⟨o, ho s, fun h => ⟨l, r, hl, hr, fun s => h ▸ ho s⟩, ?_⟩
  rintro ⟨l', r', hl', hr', hwithin⟩
  have hrun := hwithin s
  rw [Ty.inclusion_congr hb hl' hl hr' hr, ho s] at hrun
  cases hrun
  rfl

theorem existSame_run (ha : a.Orderly) (hbs : ∀ b ∈ bs, b.Orderly) (hl : l.Has a)
    (hr : Has rs bs) (s : Store) :
    ∃ x, (Ty.existSame discardForeign (.type l) rs).run s = .ok x s ∧
      (x = true ↔ ∃ b ∈ bs, a.Same b) := by
  induction bs generalizing rs with
  | nil =>
    rw [hr.of_nil]
    exact ⟨false, rfl, by simp⟩
  | cons b bs ih =>
    obtain ⟨r, rest, rfl, hb, hrest⟩ := hr.of_cons
    obtain ⟨hob, hobs⟩ := forall_mem_cons.mp hbs
    obtain ⟨x, hx, hsame⟩ := identical_run ha hob hl hb s
    have hbind : (Ty.existSame discardForeign (.type l) (.type r :: rest)).run s =
        (if x then pure true else Ty.existSame discardForeign (.type l) rest : Typing Bool).run s :=
      bind_of_ok hx _
    rw [hbind]
    cases x with
    | true => exact ⟨true, rfl, by simp [hsame.mp rfl]⟩
    | false =>
      obtain ⟨y, hy, hmore⟩ := ih hobs hrest
      refine ⟨y, hy, ?_⟩
      have hnot : ¬ a.Same b := fun h => absurd (hsame.mpr h) (by decide)
      simp [hmore, hnot]

/-- The shape at a position is within the one at another position. -/
def Overlaps (bs : List Shape) (i : Nat) : Prop :=
  ∃ j a b, j ≠ i ∧ bs[i]? = some a ∧ bs[j]? = some b ∧ a.Within b

theorem inner_run (ha : a.Orderly) (hbs : ∀ b ∈ bs, b.Orderly) (hl : l.Has a)
    (hr : Has rs bs) (i k : Nat) (s : Store) :
    ∃ x, (Ty.lastIncluded.inner discardForeign i (.type l) (rs.zipIdx k)).run s = .ok x s ∧
      (x = true ↔ ∃ j b, k + j ≠ i ∧ bs[j]? = some b ∧ a.Within b) := by
  induction bs generalizing rs k with
  | nil =>
    rw [hr.of_nil]
    exact ⟨false, rfl, by simp⟩
  | cons b bs ih =>
    obtain ⟨r, rest, rfl, hb, hrest⟩ := hr.of_cons
    obtain ⟨hob, hobs⟩ := forall_mem_cons.mp hbs
    obtain ⟨y, hy, hmore⟩ := ih hobs hrest (k + 1)
    have hsplit : (∃ j c, k + j ≠ i ∧ (b :: bs)[j]? = some c ∧ a.Within c) ↔
        (k ≠ i ∧ a.Within b) ∨ y = true := by
      rw [hmore]
      constructor
      · rintro ⟨j, c, hne, hj, hwithin⟩
        cases j with
        | zero =>
          cases hj
          exact .inl ⟨hne, hwithin⟩
        | succ j => exact .inr ⟨j, c, by omega, hj, hwithin⟩
      · rintro (⟨hne, hwithin⟩ | ⟨j, c, hne, hj, hwithin⟩)
        · exact ⟨0, b, hne, rfl, hwithin⟩
        · exact ⟨j + 1, c, by omega, hj, hwithin⟩
    rw [zipIdx_cons, Ty.lastIncluded.inner, hsplit]
    split
    · rename_i hik
      exact ⟨y, hy, by simp [hik]⟩
    · rename_i hik
      obtain ⟨o, ho, hwithin⟩ := inclusion_run ha hob hl hb s
      have hbind : (Ty.included discardForeign l r).run s = .ok (o.getD false) s :=
        bind_of_ok ho _
      refine ⟨o.getD false || y, ?_, ?_⟩
      · refine (bind_of_ok hbind _).trans ?_
        cases o.getD false
        · exact hy
        · rfl
      · rw [Bool.or_eq_true, ← hwithin]
        obtain _ | _ | _ := o <;> simp [Ne.symm hik]

/-- The search for an included type finds one if there is one. -/
theorem lastIncluded_run (hbs : ∀ b ∈ bs, b.Orderly) (hr : Has rs bs) (s : Store) :
    ∃ o, (Ty.lastIncluded discardForeign rs).run s = .ok o s ∧
      (∀ i, o = some i → Overlaps bs i) ∧ (o = none → ∀ i, ¬ Overlaps bs i) := by
  have hlength := hr.length_eq
  have hgo (n : Nat) (hn : n ≤ rs.length) (found : Option Nat) :
      ∃ o, (Ty.lastIncluded.go discardForeign rs n found).run s = .ok o s ∧
        (∀ i, o = some i → found = some i ∨ Overlaps bs i) ∧
        (o = none → found = none ∧ ∀ i, rs.length - n ≤ i → ¬ Overlaps bs i) := by
    induction n generalizing found with
    | zero =>
      refine ⟨found, rfl, fun i hi => .inl hi, fun hnone => ⟨hnone, fun i hi => ?_⟩⟩
      rintro ⟨j, a, b, -, ha, -⟩
      have hlt := (List.getElem?_eq_some_iff.mp ha).1
      omega
    | succ n ih =>
      have hlt : rs.length - (n + 1) < bs.length := by omega
      have hget := getElem?_eq_getElem hlt
      obtain ⟨l, hitem, hl⟩ := hr.getElem? hget
      obtain ⟨x, hx, hoverlaps⟩ := inner_run (hbs _ (getElem_mem hlt)) hbs hl hr
        (rs.length - (n + 1)) 0 s
      have hiff : x = true ↔ Overlaps bs (rs.length - (n + 1)) := by
        rw [hoverlaps]
        simp [Overlaps, hget]
      rw [Ty.lastIncluded.go, getD_eq_getElem?_getD, hitem]
      obtain ⟨o, ho, hsome, hnone⟩ :=
        ih (by omega) (if x then some (rs.length - (n + 1)) else found)
      refine ⟨o, (bind_of_ok hx _).trans ?_, fun i hi => ?_, fun hi => ?_⟩
      · cases x <;> exact ho
      · obtain h | h := hsome i hi
        · cases x with
          | true =>
            cases h
            exact .inr (hiff.mp rfl)
          | false => exact .inl h
        · exact .inr h
      · obtain ⟨hfound, hrest⟩ := hnone hi
        cases x with
        | true => cases hfound
        | false =>
          refine ⟨hfound, fun i hi => ?_⟩
          obtain heq | hlater := Nat.eq_or_lt_of_le hi
          · exact fun h => absurd (hiff.mpr (heq ▸ h)) (by decide)
          · exact hrest i (by omega)
  obtain ⟨o, ho, hsome, hnone⟩ := hgo rs.length (Nat.le_refl _) none
  refine ⟨o, ho, fun i hi => ?_, fun h i => (hnone h).2 i (by omega)⟩
  exact (hsome i hi).resolve_left (by simp)

end Shape
end TypeFlow
