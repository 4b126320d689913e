import TypeFlow.Proofs.Answers
import TypeFlow.Proofs.Simple

/-!
# Comparison in both directions

Two questions decide whether the order of a comparison matters. A row that holds `Any` is taken for
identical to every row as soon as that entry is reached, and it is reached only if the types before
it have their like; so the row that is read first counts. And of two types of one rank, the first
one says whether contents count; iterators and generators share a rank, but only the contents of
generators count. Trees without `Any` inside, of which none has an iterator or none a generator, are
compared with the same answer in both directions.
-/

namespace TypeFlow

open Vocabulary Item

variable {odd : String} (P : Ty → Prop) (t : Ty)

namespace Vocabulary

variable {n : Nat} {a b : String}

theorem mem_ranks {name : String} (h : rank? name = some n) :
    (name, n) ∈ sharedRanks ∨ (name, n) ∈ ownRanks := by
  have hmem : (name, n) ∈ ranks := mem_of_lookup h
  exact List.mem_append.mp hmem

theorem eq_of_mem_ownRanks (ha : (a, n) ∈ ownRanks) (hb : (b, n) ∈ ownRanks) : a = b := by
  obtain ⟨-, ha⟩ := List.mk_mem_zipIdx_iff_le_and_getElem?_sub.mp ha
  obtain ⟨-, hb⟩ := List.mk_mem_zipIdx_iff_le_and_getElem?_sub.mp hb
  exact Option.some.inj (ha.symm.trans hb)

theorem le_of_mem_ownRanks (ha : (a, n) ∈ ownRanks) : 1000 ≤ n :=
  (List.mk_mem_zipIdx_iff_le_and_getElem?_sub.mp ha).1

theorem not_mem_sharedRanks (ha : (a, n) ∈ ownRanks) : (b, n) ∉ sharedRanks := by
  have hlow : ∀ p ∈ sharedRanks, p.2 < 1000 := by decide
  exact fun hb => absurd (hlow _ hb) (Nat.not_lt.mpr (le_of_mem_ownRanks ha))

/-- Of the names that share a rank, only iterators and generators differ in which contents
count. -/
theorem sharedRanks_contents : ∀ odd ∈ ["iterator", "generator"], ∀ p ∈ sharedRanks,
    ∀ q ∈ sharedRanks, p.2 = q.2 → p.1 ≠ odd → q.1 ≠ odd → (p.1 = "dict" ↔ q.1 = "dict") ∧
        (p.1 ∈ Ty.elementContainers ↔ q.1 ∈ Ty.elementContainers) := by
  decide +kernel

theorem rank?_contents (hodd : odd ∈ ["iterator", "generator"])
    (ha : rank? a = some n) (hb : rank? b = some n) (hane : a ≠ odd) (hbne : b ≠ odd) :
    (a = "dict" ↔ b = "dict") ∧ (a ∈ Ty.elementContainers ↔ b ∈ Ty.elementContainers) := by
  obtain ha | ha := mem_ranks ha <;> obtain hb | hb := mem_ranks hb
  · exact sharedRanks_contents odd hodd _ ha _ hb rfl hane hbne
  · exact absurd ha (not_mem_sharedRanks hb)
  · exact absurd hb (not_mem_sharedRanks ha)
  · obtain rfl := eq_of_mem_ownRanks ha hb
    exact ⟨Iff.rfl, Iff.rfl⟩

end Vocabulary

mutual

theorem Ty.Every.mono {P Q : Ty → Prop} (h : ∀ t, P t → Q t) (t : Ty) (ht : t.Every P) :
    t.Every Q := by
  match t with
  | .mk _ _ _ elements keys values =>
    obtain ⟨hself, helements, hkeys, hvalues⟩ := ht
    exact ⟨h _ hself, Row.Every.mono h elements helements, Row.Every.mono h keys hkeys,
      Row.Every.mono h values hvalues⟩

theorem Row.Every.mono {P Q : Ty → Prop} (h : ∀ t, P t → Q t) (r : Row) (hr : r.Every P) :
    r.Every Q := by
  match r with
  | .mk _ items => exact Item.Every.mono h items hr

theorem Item.Every.mono {P Q : Ty → Prop} (h : ∀ t, P t → Q t) (items : List Item)
    (hitems : Every P items) : Every Q items := by
  match items with
  | [] => trivial
  | .type t :: rest =>
    exact ⟨Ty.Every.mono h t hitems.1, Item.Every.mono h rest hitems.2⟩

end

mutual

def Ty.decidableEvery (P : Ty → Prop) [DecidablePred P] : (t : Ty) → Decidable (t.Every P)
  | .mk id name category elements keys values =>
    have := elements.decidableEvery P
    have := keys.decidableEvery P
    have := values.decidableEvery P
    inferInstanceAs (Decidable (P (.mk id name category elements keys values) ∧
      elements.Every P ∧ keys.Every P ∧ values.Every P))
termination_by structural t => t

def Row.decidableEvery (P : Ty → Prop) [DecidablePred P] : (r : Row) → Decidable (r.Every P)
  | .mk _ items => Item.decidableEvery P items
termination_by structural r => r

def Item.decidableEvery (P : Ty → Prop) [DecidablePred P] :
    (items : List Item) → Decidable (Every P items)
  | [] => .isTrue trivial
  | .type t :: rest =>
    have := t.decidableEvery P
    have := Item.decidableEvery P rest
    inferInstanceAs (Decidable (t.Every P ∧ Item.Every P rest))
  | .text _ :: _ | .absent :: _ | .group _ :: _ => .isFalse id
termination_by structural items => items

end

instance [DecidablePred P] : Decidable (t.Every P) := t.decidableEvery P

instance [DecidablePred P] (r : Row) : Decidable (r.Every P) := r.decidableEvery P

theorem Ty.Every.self {P : Ty → Prop} {t : Ty} (h : t.Every P) : P t := by
  cases t
  exact h.1

/-- A type named `Any`. -/
def Item.isAny : Item → Bool
  | .type t => t.lowerName == "any"
  | _ => false

/-- None of the items is named `Any`. -/
def Item.Definite (items : List Item) : Prop := ∀ i ∈ items, i.isAny = false
deriving Decidable

/-- A built-in type has a rank and another name than a given one, and nothing in a type is named
`Any`. -/
def Ty.Balanced (odd : String) (t : Ty) : Prop :=
  (t.category = .builtin → (rank? t.lowerName).isSome ∧ t.lowerName ≠ odd) ∧
    Definite t.elements.items ∧ Definite t.keys.items ∧ Definite t.values.items
deriving Decidable

theorem Ty.Balanced.ranked (h : t.Balanced odd) : t.Ranked :=
  fun hbuiltin => (h.1 hbuiltin).1

/-- A row of types that can be compared, none of them named `Any`. -/
structure Row.Settled (r : Row) : Prop where
  ranked : r.Every Ty.Ranked
  definite : Definite r.items

theorem Ty.Every.settled {t : Ty} (h : t.Every (Balanced odd)) :
    t.elements.Settled ∧ t.keys.Settled ∧ t.values.Settled := by
  obtain ⟨-, helements, hkeys, hvalues⟩ := h.self
  cases t
  obtain ⟨-, hranked⟩ := h.mono Balanced.ranked
  exact ⟨⟨hranked.1, helements⟩, ⟨hranked.2.1, hkeys⟩, ⟨hranked.2.2, hvalues⟩⟩

namespace Ty

variable (discard : RowId → Typing Unit) {s : Store} {x y : Typing Bool} (l : String)

/-- Two comparisons give one answer and leave the store as it is. -/
def Agree (s : Store) (x y : Typing Bool) : Prop := ∃ b, x.run s = .ok b s ∧ y.run s = .ok b s

theorem Agree.of_answers (h : Answers x) : Agree s x x := by
  obtain ⟨b, hb⟩ := h.exists_ok s
  exact ⟨b, hb, hb⟩

theorem Agree.symm (h : Agree s x y) : Agree s y x := by
  obtain ⟨b, hx, hy⟩ := h
  exact ⟨b, hy, hx⟩

theorem agree_pure {a b : Bool} (h : a = b) : Agree s (pure a) (pure b) := ⟨b, h ▸ rfl, rfl⟩

theorem Agree.bind {f g : Bool → Typing Bool} (hxy : Agree s x y) (hfg : ∀ b, Agree s (f b) (g b)) :
    Agree s (x >>= f) (y >>= g) := by
  obtain ⟨b, hx, hy⟩ := hxy
  obtain ⟨c, hf, hg⟩ := hfg b
  exact ⟨c, (Eval.bind_of_ok hx _).trans hf, (Eval.bind_of_ok hy _).trans hg⟩

/-- Without `Any` in a row, only a type without its like decides the question. -/
theorem exists_coveredBy {ls rs : List Item} (hl : Item.Every Ranked ls)
    (hr : Item.Every Ranked rs) (hdefinite : Item.Definite ls) :
    ∃ o, (coveredBy discard ls rs).run s = .ok o s ∧ o ≠ some true := by
  induction ls with
  | nil =>
    rw [coveredBy]
    exact ⟨none, rfl, by simp⟩
  | cons i rest ih =>
    obtain ⟨t, rfl, ht⟩ := hl.exists_type List.mem_cons_self
    obtain ⟨b, hb⟩ := (answers_identicalToSome discard t rs ht hr).exists_ok s
    have hany : t.lowerName ≠ "any" := by simpa [isAny] using hdefinite _ List.mem_cons_self
    rw [coveredBy, if_neg hany]
    cases b with
    | true =>
      obtain ⟨o, ho, hne⟩ := ih hl.2 fun u hu => hdefinite u (List.mem_cons_of_mem _ hu)
      exact ⟨o, (Eval.bind_of_ok hb _).trans ho, hne⟩
    | false => exact ⟨some false, Eval.bind_of_ok hb _, by simp⟩

theorem agree_identicalRows {l r : Row} (hl : l.Settled) (hr : r.Settled) :
    Agree s (identicalRows discard l r) (identicalRows discard r l) := by
  obtain ⟨o, ho, hne⟩ :=
    exists_coveredBy discard (s := s) hl.ranked.items hr.ranked.items hl.definite
  obtain ⟨o', ho', hne'⟩ := exists_coveredBy discard (s := s) hr.ranked.items hl.ranked.items
    hr.definite
  have hcomm : o'.getD (o.getD true) = o.getD (o'.getD true) := by
    obtain _ | _ | _ := o <;> obtain _ | _ | _ := o' <;> simp_all
  have hls := hl.ranked.items.any_isForeign
  have hrs := hr.ranked.items.any_isForeign
  exact ⟨_, identicalRows_of_coveredBy discard hls hrs ho ho',
    hcomm ▸ identicalRows_of_coveredBy discard hrs hls ho' ho⟩

theorem looselyEqual_comm (a : Nat) (r : String) (b : Nat) :
    looselyEqual l a r b = looselyEqual r b l a := by
  unfold looselyEqual
  grind

theorem sameShortName_comm (r : String) : sameShortName l r = sameShortName r l := by
  unfold sameShortName
  exact BEq.comm

theorem agree_builtin (hodd : odd ∈ ["iterator", "generator"]) {l r : Ty}
    (hl : l.Every (Balanced odd)) (hr : r.Every (Balanced odd)) (hlc : l.category = .builtin)
    (hrc : r.category = .builtin) : Agree s (identical discard l r) (identical discard r l) := by
  obtain ⟨hlrank, hlodd⟩ := hl.self.1 hlc
  obtain ⟨hrrank, hrodd⟩ := hr.self.1 hrc
  obtain ⟨hles, hlks, hlvs⟩ := hl.settled
  obtain ⟨hres, hrks, hrvs⟩ := hr.settled
  obtain ⟨a, ha⟩ := Option.isSome_iff_exists.mp hlrank
  obtain ⟨b, hb⟩ := Option.isSome_iff_exists.mp hrrank
  unfold Agree
  rw [identical_builtin discard hlc hrc ha hb, identical_builtin discard hrc hlc hb ha]
  by_cases hab : a = b
  · subst hab
    obtain ⟨hdict, hcontainer⟩ := rank?_contents hodd ha hb hlodd hrodd
    simp only [if_true, hdict, hcontainer]
    split
    · refine (agree_identicalRows discard hlks hrks).bind fun same => ?_
      cases same with
      | true => exact agree_identicalRows discard hlvs hrvs
      | false => exact agree_pure rfl
    · split
      · exact agree_identicalRows discard hles hres
      · exact agree_pure rfl
  · rw [if_neg hab, if_neg (Ne.symm hab)]
    exact agree_pure (looselyEqual_comm _ _ _ _)

/-- The type `Type[t]` is compared to a user type as `t` is, from whichever side. -/
theorem identical_unpack {l r t : Ty} {id : RowId} (hl : l.category = .builtin)
    (hr : r.category = .user) (hname : l.lowerName = "type")
    (helements : l.elements = .mk id [.type t]) :
    identical discard l r = identical discard t r ∧
      identical discard r l = identical discard t r := by
  obtain ⟨li, ln, lc, le, lk, lv⟩ := l
  obtain ⟨ri, rn, rc, re, rk, rv⟩ := r
  obtain rfl : lc = .builtin := hl
  obtain rfl : rc = .user := hr
  obtain rfl : le = .mk id [.type t] := helements
  have hname : Text.lower ln = "type" := hname
  have hdifferent : Category.user ≠ Category.builtin := by decide
  rw [identical.eq_def, identical.eq_def discard (.mk ri rn .user re rk rv)]
  constructor <;> simp [hdifferent, hname, Row.items]

/-- A user type is compared to another type by its name, unless that one is `Type[t]`. -/
theorem agree_named {l r : Ty} (hbuiltin : ¬ (l.category = .builtin ∧ r.category = .builtin))
    (hl : ¬ (l.category = .builtin ∧ r.category = .user ∧ l.lowerName = "type" ∧
      l.elements.items.length = 1))
    (hr : ¬ (r.category = .builtin ∧ l.category = .user ∧ r.lowerName = "type" ∧
      r.elements.items.length = 1)) : Agree s (identical discard l r) (identical discard r l) := by
  obtain ⟨li, ln, lc, le, lk, lv⟩ := l
  obtain ⟨ri, rn, rc, re, rk, rv⟩ := r
  change ¬ (lc = .builtin ∧ rc = .builtin) at hbuiltin
  change ¬ (lc = .builtin ∧ rc = .user ∧ Text.lower ln = "type" ∧ le.items.length = 1) at hl
  change ¬ (rc = .builtin ∧ lc = .user ∧ Text.lower rn = "type" ∧ re.items.length = 1) at hr
  rw [identical.eq_def, identical.eq_def discard (.mk ri rn rc re rk rv)]
  have hbuiltin' : ¬ (rc = .builtin ∧ lc = .builtin) := fun h => hbuiltin h.symm
  simp only [if_neg hbuiltin, if_neg hbuiltin', if_neg hl, if_neg hr]
  by_cases hneither : lc ≠ .builtin ∧ rc ≠ .builtin
  · rw [if_pos hneither, if_pos hneither.symm, sameShortName_comm ln, BEq.comm (a := ln)]
    apply agree_pure
    by_cases hcategory : lc = rc
    · rw [hcategory]
    · simp only [beq_false_of_ne hcategory, beq_false_of_ne (Ne.symm hcategory), Bool.false_and]
  · rw [if_neg hneither, if_neg fun h => hneither h.symm, sameShortName_comm ln, Bool.or_comm]
    exact agree_pure rfl

theorem agree_identical (hodd : odd ∈ ["iterator", "generator"]) {l r : Ty}
    (hl : l.Every (Balanced odd)) (hr : r.Every (Balanced odd)) :
    Agree s (identical discard l r) (identical discard r l) := by
  -- `Type[t]` against a user type asks the same question from both sides
  have hunpack {l r : Ty} (hl : l.Every (Balanced odd)) (hr : r.Every (Balanced odd))
      (h : l.category = .builtin ∧ r.category = .user ∧ l.lowerName = "type" ∧
        l.elements.items.length = 1) :
      Agree s (identical discard l r) (identical discard r l) := by
    obtain ⟨hlc, hrc, hname, hlen⟩ := h
    obtain ⟨id, t, helements⟩ := hl.settled.1.ranked.exists_single hlen
    obtain ⟨hlr, hrl⟩ := identical_unpack discard hlc hrc hname helements
    have ht : (Row.mk id [.type t]).Every Ranked := helements ▸ hl.settled.1.ranked
    rw [hlr, hrl]
    exact Agree.of_answers (answers_identical_ranked discard t r ht.1 (hr.mono Balanced.ranked))
  by_cases hbuiltin : l.category = .builtin ∧ r.category = .builtin
  · exact agree_builtin discard hodd hl hr hbuiltin.1 hbuiltin.2
  by_cases hleft : l.category = .builtin ∧ r.category = .user ∧ l.lowerName = "type" ∧
      l.elements.items.length = 1
  · exact hunpack hl hr hleft
  by_cases hright : r.category = .builtin ∧ l.category = .user ∧ r.lowerName = "type" ∧
      r.elements.items.length = 1
  · exact (hunpack hr hl hright).symm
  exact agree_named discard hbuiltin hleft hright

/-- An integer is not identical to `Any`. -/
theorem identical_int_any {l r : Ty} (hl : l.category = .builtin) (hr : r.category = .builtin)
    (hln : l.lowerName = "int") (hrn : r.lowerName = "any") :
    (identical discard l r).run s = .ok false s := by
  have hstandard : "Any" ∈ builtinNames ++ errorNames ++
      warningNames ++ typingNames ++ collectionNames ++
      abstractNames := by
    decide +kernel
  have hlower : Text.lower "Any" = "any" := by decide +kernel
  obtain ⟨n, hn⟩ := Option.isSome_iff_exists.mp (rank?_isSome hstandard)
  rw [hlower, ← hrn] at hn
  have hone : rank? l.lowerName = some 1 := by
    rw [hln]
    decide +kernel
  have hown : (r.lowerName, n) ∈ ownRanks := by
    refine (mem_ranks hn).resolve_left ?_
    simp [hrn, sharedRanks]
  have hne : 1 ≠ n := by
    have := le_of_mem_ownRanks hown
    omega
  rw [identical_builtin discard hl hr hone hn, if_neg hne, hln, hrn]
  simp [looselyEqual]

end Ty

theorem Eval.identicalRows_eq (s : Store) (l r : RowId) : (identicalRows l r).run s =
      (Ty.identicalRows discardForeign (s.unfoldRow s.depth l) (s.unfoldRow s.depth r)).run s :=
  rfl

/-- The order of a comparison does not matter: types and rows without `Any` inside, of which none
holds an iterator or none a generator, are compared with the same answer from both sides, and the
store stays as it is. -/
theorem Eval.identical_comm {odd : String} (hodd : odd ∈ ["iterator", "generator"]) (s : Store) :
    (∀ l r : TypeId, (s.unfoldType s.depth l).Every (Ty.Balanced odd) →
      (s.unfoldType s.depth r).Every (Ty.Balanced odd) →
      ∃ b, (identical (.type l) (.type r)).run s = .ok b s ∧
        (identical (.type r) (.type l)).run s = .ok b s) ∧
    ∀ l r : RowId, (s.unfoldRow s.depth l).Every (Ty.Balanced odd) →
      (s.unfoldRow s.depth r).Every (Ty.Balanced odd) →
      Item.Definite (s.unfoldRow s.depth l).items → Item.Definite (s.unfoldRow s.depth r).items →
      ∃ b, (identicalRows l r).run s = .ok b s ∧ (identicalRows r l).run s = .ok b s := by
  constructor
  · intro l r hl hr
    exact Ty.agree_identical discardForeign hodd hl hr
  · intro l r hl hr hdl hdr
    exact Ty.agree_identicalRows discardForeign ⟨hl.mono Ty.Balanced.ranked, hdl⟩
      ⟨hr.mono Ty.Balanced.ranked, hdr⟩

/-- Cells of `Dict[Text, Iterator[int]]` and `dict[str, Iterator]`, and a row of each. -/
def twoDicts : Store :=
  let cell (name : String) (elements keys values : Nat) : TypeCell :=
    { name, category := .builtin, elements := ⟨elements⟩, keys := ⟨keys⟩, values := ⟨values⟩ }
  { types := #[cell "Dict" 0 1 2, cell "Text" 0 0 0, cell "Iterator" 3 0 0, cell "int" 0 0 0,
      cell "dict" 0 4 5, cell "str" 0 0 0, cell "Iterator" 0 0 0]
    rows := #[[], [.type ⟨1⟩], [.type ⟨2⟩], [.type ⟨3⟩], [.type ⟨5⟩], [.type ⟨6⟩], [.type ⟨0⟩],
      [.type ⟨4⟩]] }

theorem Eval.identical_comm_twoDicts :
    (∃ b, (identical (.type ⟨0⟩) (.type ⟨4⟩)).run twoDicts = .ok b twoDicts ∧
      (identical (.type ⟨4⟩) (.type ⟨0⟩)).run twoDicts = .ok b twoDicts) ∧
    ∃ b, (identicalRows ⟨6⟩ ⟨7⟩).run twoDicts = .ok b twoDicts ∧
      (identicalRows ⟨7⟩ ⟨6⟩).run twoDicts = .ok b twoDicts := by
  obtain ⟨htypes, hrows⟩ :=
    Eval.identical_comm (show "generator" ∈ ["iterator", "generator"] by decide) twoDicts
  constructor
  · exact htypes ⟨0⟩ ⟨4⟩ (by decide +kernel) (by decide +kernel)
  · exact hrows ⟨6⟩ ⟨7⟩ (by decide +kernel) (by decide +kernel) (by decide +kernel)
      (by decide +kernel)

/-- The cells of `Any` and `int`, and a row of each. -/
def anyAndInt : Store :=
  let cell (name : String) : TypeCell :=
    { name, category := .builtin, elements := ⟨0⟩, keys := ⟨0⟩, values := ⟨0⟩ }
  { types := #[cell "Any", cell "int"], rows := #[[], [.type ⟨0⟩], [.type ⟨1⟩]] }

/-- `Any` is looked for in the first row before the second. -/
theorem Eval.identicalRows_any :
    (identicalRows ⟨1⟩ ⟨2⟩).run anyAndInt = .ok true anyAndInt ∧
      (identicalRows ⟨2⟩ ⟨1⟩).run anyAndInt = .ok false anyAndInt := by
  let leaf (id : Nat) (name : String) : Ty :=
    .mk ⟨id⟩ name .builtin (.mk ⟨0⟩ []) (.mk ⟨0⟩ []) (.mk ⟨0⟩ [])
  have hany : (leaf 0 "Any").lowerName = "any" := by decide +kernel
  have hint : (leaf 1 "int").lowerName = "int" := by decide +kernel
  have hdifferent := Ty.identical_int_any discardForeign (s := anyAndInt) (l := leaf 1 "int")
    (r := leaf 0 "Any") rfl rfl hint hany
  have hleft : anyAndInt.unfoldRow anyAndInt.depth ⟨1⟩ = .mk ⟨1⟩ [.type (leaf 0 "Any")] := rfl
  have hright : anyAndInt.unfoldRow anyAndInt.depth ⟨2⟩ = .mk ⟨2⟩ [.type (leaf 1 "int")] := rfl
  rw [identicalRows_eq, identicalRows_eq, hleft, hright]
  constructor
  · rw [Ty.identicalRows, Ty.coveredBy, if_pos hany]
    rfl
  · have hsome : (Ty.identicalToSome discardForeign (leaf 1 "int")
        [.type (leaf 0 "Any")]).run anyAndInt = .ok false anyAndInt := by
      rw [Ty.identicalToSome, Ty.identicalToSome]
      exact Eval.bind_of_ok hdifferent _
    have hcovered : (Ty.coveredBy discardForeign [.type (leaf 1 "int")]
        [.type (leaf 0 "Any")]).run anyAndInt = .ok (some false) anyAndInt := by
      rw [Ty.coveredBy, hint, if_neg (by decide)]
      exact Eval.bind_of_ok hsome _
    rw [Ty.identicalRows]
    exact Eval.bind_of_ok hcovered _

end TypeFlow
