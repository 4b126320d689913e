import Mathlib.Data.List.Forall2
import TypeFlow.Proofs.Answers
import TypeFlow.Type.Copy

/-!
# Simple types

Simple types are the built-in types without contents. They fall into classes by the rank of their
names. Comparisons of simple types depend on the classes only and leave the store as it is, and a
copy of a row of simple types has the classes of the row.
-/

namespace TypeFlow

open List Item Vocabulary

variable {entries : List Entry} {n : Nat} {k : RowId} {name : String} {s t u : Store}

namespace Vocabulary

/-- Every standard name has a rank. -/
theorem rank?_isSome
    (h : name ∈ builtinNames ++ errorNames ++ warningNames ++ typingNames ++ collectionNames ++
      abstractNames) : (rank? (Text.lower name)).isSome := by
  rw [rank?, find?, ranks, lookup_append, Option.isSome_or]
  cases hshared : sharedRanks.lookup (Text.lower name) with
  | some n => rfl
  | none =>
    have hmem : Text.lower name ∈ (((builtinNames ++ errorNames ++ warningNames ++ typingNames ++
        collectionNames ++ abstractNames).map Text.lower).filter
          fun n => (sharedRanks.lookup n).isNone).eraseDups := by
      rw [mem_eraseDups, mem_filter]
      exact ⟨mem_map_of_mem h, by simp [hshared]⟩
    obtain ⟨i, hi⟩ := getElem?_of_mem hmem
    rw [Option.isSome_none, Bool.false_or, lookup_isSome_iff]
    exact ⟨(_, 1000 + i), mk_add_mem_zipIdx_iff_getElem?.mpr hi, beq_self_eq_true _⟩

/-- Names of the built-in types without contents. -/
def simpleNames : List String := ["int", "float", "complex", "bool", "str", "Text", "bytes", "None"]

theorem simpleNames_ranked (h : name ∈ simpleNames) : (rank? (Text.lower name)).isSome := by
  refine rank?_isSome ?_
  revert name
  decide +kernel

theorem simpleNames_plain : ∀ name ∈ simpleNames,
    Text.lower name ∉ "any" :: "dict" :: "literal" :: "iterable" :: Ty.elementContainers := by
  decide +kernel

end Vocabulary

/-- Built-in types with the name of a simple type. -/
structure Ty.IsSimple (t : Ty) : Prop where
  category : t.category = .builtin
  name : t.name ∈ simpleNames

def Ty.class? (t : Ty) : Option Nat := rank? t.lowerName

def Item.IsSimple : Item → Prop
  | .type t => t.IsSimple
  | _ => False

def Item.class? : Item → Option Nat
  | .type t => t.class?
  | _ => none

theorem Item.IsSimple.exists_type {i : Item} (h : i.IsSimple) : ∃ t, i = .type t ∧ t.IsSimple := by
  cases i with
  | type t => exact ⟨t, rfl, h⟩
  | text | absent | group => exact h.elim

theorem Item.not_any_isForeign {l : List Item} (hl : ∀ i ∈ l, i.IsSimple) :
    l.any isForeign = false := by
  rw [any_eq_false]
  intro i hi
  obtain ⟨t, rfl, -⟩ := (hl i hi).exists_type
  simp [isForeign]

namespace Ty

variable {l r : Ty} {ls rs : List Item} (discard : RowId → Typing Unit)

theorem rank_run (h : rank? (Text.lower name) = some n)
    (s : Store) : (rank name : Typing Nat).run s = .ok n s := by
  simp [rank, h]

/-- Built-in types are compared by rank and, if the first one says so, by their contents. -/
theorem identical_builtin {l r : Ty} {a b : Nat} (hl : l.category = .builtin)
    (hr : r.category = .builtin) (ha : rank? l.lowerName = some a)
    (hb : rank? r.lowerName = some b) :
    (identical discard l r).run s = (if a = b then
      if l.lowerName = "dict" then do
        if ← identicalRows discard l.keys r.keys then identicalRows discard l.values r.values
        else return false
      else if l.lowerName ∈ elementContainers then identicalRows discard l.elements r.elements
      else return true
    else return looselyEqual l.lowerName a r.lowerName b : Typing Bool).run s := by
  obtain ⟨li, ln, lc, le, lk, lv⟩ := l
  obtain ⟨ri, rn, rc, re, rk, rv⟩ := r
  obtain rfl : lc = .builtin := hl
  obtain rfl : rc = .builtin := hr
  rw [identical.eq_def]
  simp only [ne_eq, not_true_eq_false, and_self, if_false, if_true]
  exact (Eval.bind_of_ok (rank_run ha s) _).trans (Eval.bind_of_ok (rank_run hb s) _)

/-- Simple types are identical when they have one class. -/
theorem identical_run (hl : l.IsSimple) (hr : r.IsSimple) (s : Store) :
    (identical discard l r).run s = .ok (decide (l.class? = r.class?)) s := by
  have hln : l.lowerName ∉ _ := simpleNames_plain _ hl.name
  have hrn : r.lowerName ∉ _ := simpleNames_plain _ hr.name
  simp only [mem_cons, not_or] at hln hrn
  obtain ⟨a, ha⟩ := Option.isSome_iff_exists.mp (simpleNames_ranked hl.name)
  obtain ⟨b, hb⟩ := Option.isSome_iff_exists.mp (simpleNames_ranked hr.name)
  have hcl : l.class? = some a := ha
  have hcr : r.class? = some b := hb
  rw [identical_builtin discard hl.category hr.category ha hb, hcl, hcr]
  by_cases hab : a = b
  · simp [hab, hln]
  · simp [hab, looselyEqual, hln, hrn]

/-- A row of simple types has one that is identical to a type when it has its class. -/
theorem Searches.run_simple {search : List Item → Typing Bool}
    (h : Searches (identical discard l) true search) (hl : l.IsSimple)
    (hrs : ∀ i ∈ rs, i.IsSimple) (s : Store) :
    (search rs).run s = .ok (decide (l.class? ∈ rs.map Item.class?)) s := by
  induction rs with
  | nil => simp [h.nil]
  | cons i rest ih =>
    obtain ⟨hi, hrest⟩ := forall_mem_cons.mp hrs
    obtain ⟨r, rfl, hr⟩ := hi.exists_type
    rw [h.cons, Typing.run_bind, Eval.bind_of_ok (identical_run discard hl hr s)]
    by_cases heq : l.class? = r.class?
    · simp [heq, Item.class?]
    · simp [heq, Item.class?, ih hrest]

theorem coveredBy_run (hls : ∀ i ∈ ls, i.IsSimple) (hrs : ∀ i ∈ rs, i.IsSimple) (s : Store) :
    (coveredBy discard ls rs).run s =
      .ok (if ls.map Item.class? ⊆ rs.map Item.class? then none else some false) s := by
  induction ls with
  | nil => simp [coveredBy]
  | cons i rest ih =>
    obtain ⟨hi, hrest⟩ := forall_mem_cons.mp hls
    obtain ⟨l, rfl, hl⟩ := hi.exists_type
    have hany : l.lowerName ≠ "any" := fun h =>
      simpleNames_plain _ hl.name (h ▸ .head _)
    rw [coveredBy, if_neg hany, Typing.run_bind,
      Eval.bind_of_ok ((Searches.identicalToSome discard l).run_simple discard hl hrs s)]
    by_cases hmem : l.class? ∈ rs.map Item.class?
    · simp [hmem, Item.class?, ih hrest]
    · simp [hmem, Item.class?]

/-- Rows of simple types are identical when they have the same classes. -/
theorem identicalRows_run (hls : ∀ i ∈ ls, i.IsSimple) (hrs : ∀ i ∈ rs, i.IsSimple) (li ri : RowId)
    (s : Store) :
    (identicalRows discard (.mk li ls) (.mk ri rs)).run s =
      .ok (decide (ls.map Item.class? ⊆ rs.map Item.class? ∧
        rs.map Item.class? ⊆ ls.map Item.class?)) s := by
  rw [identicalRows_of_coveredBy discard (l := .mk li ls) (r := .mk ri rs)
    (not_any_isForeign hls) (not_any_isForeign hrs) (coveredBy_run discard hls hrs s)
    (coveredBy_run discard hrs hls s)]
  by_cases hsub : ls.map Item.class? ⊆ rs.map Item.class? <;>
    by_cases hsup : rs.map Item.class? ⊆ ls.map Item.class? <;> simp [hsub, hsup]

end Ty

namespace Store

variable {c : TypeId}

@[irreducible] def classOf (s : Store) : Entry → Option Nat
  | .type t => rank? (Text.lower (s.typeAt t).name)
  | _ => none

/-- The rows in which a type keeps its contents. -/
def contents (s : Store) (t : TypeId) : List RowId :=
  [(s.typeAt t).elements, (s.typeAt t).keys, (s.typeAt t).values]

/-- Built-in types with the name of a simple type and without contents. -/
structure IsSimple (s : Store) (t : TypeId) : Prop where
  category : (s.typeAt t).category = .builtin
  name : (s.typeAt t).name ∈ simpleNames
  contents : ∀ r ∈ s.contents t, r.index < s.rows.size ∧ s.rowAt r = []

def AllSimple (s : Store) (entries : List Entry) : Prop :=
  ∀ e ∈ entries, ∃ t, e = .type t ∧ s.IsSimple t

/-- The same classes occur in two lists of types. -/
def SameClasses (s : Store) (ls rs : List Entry) : Prop :=
  ls.map s.classOf ⊆ rs.map s.classOf ∧ rs.map s.classOf ⊆ ls.map s.classOf

instance (s : Store) (ls rs : List Entry) : Decidable (s.SameClasses ls rs) :=
  inferInstanceAs (Decidable (_ ∧ _))

/-- Types and rows that were there are as before. -/
structure Extends (s t : Store) : Prop where
  types_le : s.types.size ≤ t.types.size
  rows_le : s.rows.size ≤ t.rows.size
  typeAt_eq : ∀ c : TypeId, c.index < s.types.size → t.typeAt c = s.typeAt c
  rowAt_eq : ∀ r : RowId, r.index < s.rows.size → t.rowAt r = s.rowAt r

namespace Extends

theorem refl (s : Store) : s.Extends s :=
  ⟨Nat.le_refl _, Nat.le_refl _, fun _ _ => rfl, fun _ _ => rfl⟩

theorem trans (h₁ : s.Extends t) (h₂ : t.Extends u) : s.Extends u where
  types_le := Nat.le_trans h₁.types_le h₂.types_le
  rows_le := Nat.le_trans h₁.rows_le h₂.rows_le
  typeAt_eq c hc := (h₂.typeAt_eq c (Nat.lt_of_lt_of_le hc h₁.types_le)).trans (h₁.typeAt_eq c hc)
  rowAt_eq r hr := (h₂.rowAt_eq r (Nat.lt_of_lt_of_le hr h₁.rows_le)).trans (h₁.rowAt_eq r hr)

theorem of_eq (htypes : t.types = s.types) (hrows : t.rows = s.rows) : s.Extends t :=
  ⟨Nat.le_of_eq (by rw [htypes]), Nat.le_of_eq (by rw [hrows]),
    fun c _ => by rw [typeAt, typeAt, htypes], fun r _ => by rw [rowAt, rowAt, hrows]⟩

theorem pushRow (s : Store) (entries : List Entry) :
    s.Extends { s with rows := s.rows.push entries } where
  types_le := Nat.le_refl _
  rows_le := by simp
  typeAt_eq _ _ := rfl
  rowAt_eq r hr := by rw [rowAt_push, if_neg (Nat.ne_of_lt hr)]

theorem pushType (s : Store) (cell : TypeCell) :
    s.Extends { s with types := s.types.push cell } where
  types_le := by simp
  rows_le := Nat.le_refl _
  typeAt_eq c hc := by rw [typeAt_push, if_neg (Nat.ne_of_lt hc)]
  rowAt_eq _ _ := rfl

theorem modifyRow (h : s.Extends t) {r : RowId} (hr : s.rows.size ≤ r.index)
    (f : List Entry → List Entry) : s.Extends { t with rows := t.rows.modify r.index f } where
  types_le := h.types_le
  rows_le := by simpa using h.rows_le
  typeAt_eq := h.typeAt_eq
  rowAt_eq p hp := by
    rw [rowAt_modify, if_neg (fun hpr => by rw [hpr.1] at hp; omega), h.rowAt_eq p hp]

theorem modifyType (h : s.Extends t) {c : TypeId} (hc : s.types.size ≤ c.index)
    (f : TypeCell → TypeCell) : s.Extends { t with types := t.types.modify c.index f } where
  types_le := by simpa using h.types_le
  rows_le := h.rows_le
  typeAt_eq p hp := by
    rw [typeAt_modify, if_neg (fun hpc => by rw [hpc.1] at hp; omega), h.typeAt_eq p hp]
  rowAt_eq := h.rowAt_eq

end Extends

theorem IsSimple.index_lt (h : s.IsSimple c) : c.index < s.types.size := by
  refine Nat.lt_of_not_le fun hc => ?_
  have hname : (s.typeAt c).name = "" := by
    rw [typeAt, Array.getD_eq_getD_getElem?, Array.getElem?_eq_none hc]
    rfl
  exact absurd (hname ▸ h.name) (by decide)

theorem IsSimple.of_cell {a b : TypeId} (h : s.IsSimple a)
    (hcategory : (t.typeAt b).category = (s.typeAt a).category)
    (hname : (t.typeAt b).name = (s.typeAt a).name)
    (hcontents : ∀ r ∈ t.contents b, r.index < t.rows.size ∧ t.rowAt r = []) : t.IsSimple b :=
  ⟨hcategory.trans h.category, hname ▸ h.name, hcontents⟩

theorem IsSimple.extend (h : s.IsSimple c) (he : s.Extends t) : t.IsSimple c := by
  have hcell := he.typeAt_eq c h.index_lt
  refine h.of_cell (by rw [hcell]) (by rw [hcell]) fun r hr => ?_
  rw [Store.contents, hcell] at hr
  obtain ⟨hlt, hempty⟩ := h.contents r hr
  exact ⟨Nat.lt_of_lt_of_le hlt he.rows_le, by rw [he.rowAt_eq r hlt, hempty]⟩

theorem AllSimple.extend (h : s.AllSimple entries) (he : s.Extends t) : t.AllSimple entries := by
  intro e hmem
  obtain ⟨c, heq, hc⟩ := h e hmem
  exact ⟨c, heq, hc.extend he⟩

theorem AllSimple.map_classOf (h : s.AllSimple entries) (he : s.Extends t) :
    entries.map t.classOf = entries.map s.classOf := by
  refine map_congr_left fun e hmem => ?_
  obtain ⟨c, rfl, hc⟩ := h e hmem
  rw [classOf, classOf, he.typeAt_eq c hc.index_lt]

theorem IsSimple.unfoldType {t : TypeId} (h : s.IsSimple t) (n : Nat) :
    (s.unfoldType (n + 1) t).IsSimple := ⟨h.category, h.name⟩

theorem AllSimple.unfold (h : s.AllSimple entries) (n : Nat) (rowOf : RowId → Row) :
    ∀ i ∈ entries.map (unfoldItem (s.unfoldType (n + 1)) rowOf), i.IsSimple := by
  intro i hi
  obtain ⟨e, he, rfl⟩ := mem_map.mp hi
  obtain ⟨t, rfl, ht⟩ := h e he
  exact ht.unfoldType n

theorem class?_unfoldType (s : Store) (n : Nat) (t : TypeId) :
    (s.unfoldType (n + 1) t).class? = s.classOf (.type t) := by
  rw [Ty.class?, Ty.lowerName, unfoldType, Ty.name, classOf]

theorem class?_unfold (s : Store) (entries : List Entry) (n : Nat) (rowOf : RowId → Row) :
    (entries.map (unfoldItem (s.unfoldType (n + 1)) rowOf)).map class? = entries.map s.classOf := by
  rw [map_map]
  refine map_congr_left fun e _ => ?_
  cases e with
  | type t => rw [Function.comp_apply, unfoldItem, class?, class?_unfoldType]
  | text | absent | group => simp [unfoldItem, class?, classOf]

end Store

namespace Eval

open Store

variable {l r : RowId} {e : Entry}

theorem forall₂_of_mapM {α β : Type} {f : α → Eval β} {R : α → β → Prop}
    (hf : ∀ a s b t, f a s = .ok b t → R a b) {l : List α} {r : List β}
    (h : l.mapM f s = .ok r t) : Forall₂ R l r := by
  induction l generalizing s r with
  | nil =>
    cases h
    exact .nil
  | cons a l ih =>
    rw [mapM_cons, bind_eq_ok] at h
    obtain ⟨b, u, hb, h⟩ := h
    obtain ⟨rest, v, hrest, h⟩ := bind_eq_ok.mp h
    cases h
    exact .cons (hf a s b u hb) (ih hrest)

theorem identicalRows_run (hl : s.AllSimple (s.rowAt l)) (hr : s.AllSimple (s.rowAt r)) :
    (identicalRows l r).run s = .ok (decide (s.SameClasses (s.rowAt l) (s.rowAt r))) s := by
  obtain ⟨n, hn⟩ : ∃ n, s.depth = n + 2 := ⟨_, rfl⟩
  have hrun := Ty.identicalRows_run discardForeign (hl.unfold n (s.unfoldRow (n + 1)))
    (hr.unfold n (s.unfoldRow (n + 1))) l r s
  rw [class?_unfold, class?_unfold] at hrun
  change (Ty.identicalRows discardForeign (s.unfoldRow s.depth l) (s.unfoldRow s.depth r)).run s = _
  rw [hn, unfoldRow, unfoldRow]
  exact hrun

theorem existSame_run (he : s.AllSimple [e]) (hentries : s.AllSimple entries) :
    (existSame e entries).run s = .ok (decide (s.classOf e ∈ entries.map s.classOf)) s := by
  obtain ⟨n, hn⟩ : ∃ n, s.depth = n + 1 := ⟨_, rfl⟩
  obtain ⟨t, rfl, ht⟩ := he e (.head _)
  have hrun := (Ty.Searches.existSame discardForeign _).run_simple discardForeign (ht.unfoldType n)
    (hentries.unfold n (s.unfoldRow (n + 1))) s
  rw [class?_unfold, class?_unfoldType, ← hn] at hrun
  exact hrun

end Eval

/-! ### Copies -/

/-- Types that hold types only, at most to a given depth. -/
def Store.Nested (s : Store) : Nat → TypeId → Prop
  | 0, _ => False
  | n + 1, t => t.index < s.types.size ∧ ∀ r ∈ s.contents t, r.index < s.rows.size ∧
      ∀ e ∈ s.rowAt r, ∃ x, e = .type x ∧ s.Nested n x

namespace Copying

open Eval Store

variable {s₀ : Store} {c c' : Copies} {l l' : List Entry} {depth : Nat} {r : RowId}

/-- The entries of a row and those of its copy. -/
def Pairs (c : Copies) : List Entry → List Entry → Prop :=
  Forall₂ fun e e' => ∃ q ∈ c.types, e = .type q.1 ∧ e' = .type q.2

theorem Pairs.mono (h : Pairs c l l') (hsub : c.types ⊆ c'.types) : Pairs c' l l' :=
  h.imp fun _ _ ⟨q, hq, heq⟩ => ⟨q, hsub hq, heq⟩

/-- The cell of a type and that of its copy, which keeps copies of the contents. -/
def Mirrors (c : Copies) (cell copy : TypeCell) : Prop :=
  ∃ elements keys values, copy = { cell with elements, keys, values } ∧
    (cell.elements, elements) ∈ c.rows ∧ (cell.keys, keys) ∈ c.rows ∧ (cell.values, values) ∈ c.rows

/-- Copies of cells of the store `s₀` have been made, and are there. -/
structure Ready (s₀ : Store) (c : Copies) (s : Store) : Prop where
  old : s₀.Extends s
  types : ∀ q ∈ c.types, q.2.index < s.types.size
  rows : ∀ q ∈ c.rows, q.2.index < s.rows.size

/-- More copies have been made. The new ones are complete; those that were there before may still
be in the making. -/
structure Copied (s₀ : Store) (c : Copies) (s : Store) (c' : Copies) (u : Store) : Prop where
  keeps : s.Extends u
  types_sub : c.types ⊆ c'.types
  rows_sub : c.rows ⊆ c'.rows
  types : ∀ q ∈ c'.types, q ∈ c.types ∨ (∀ p ∈ c.types, p.2 ≠ q.2) ∧ q.2.index < u.types.size ∧
    Mirrors c' (s₀.typeAt q.1) (u.typeAt q.2)
  rows : ∀ q ∈ c'.rows, q ∈ c.rows ∨ (∀ p ∈ c.rows, p.2 ≠ q.2) ∧ q.2.index < u.rows.size ∧
    Pairs c' (s₀.rowAt q.1) (u.rowAt q.2)

theorem Mirrors.mono {cell copy : TypeCell} (h : Mirrors c cell copy) (hsub : c.rows ⊆ c'.rows) :
    Mirrors c' cell copy := by
  obtain ⟨elements, keys, values, hcopy, he, hk, hv⟩ := h
  exact ⟨elements, keys, values, hcopy, hsub he, hsub hk, hsub hv⟩

namespace Copied

theorem refl (h : s.Extends u) : Copied s₀ c s c u :=
  ⟨h, fun _ => id, fun _ => id, fun _ => .inl, fun _ => .inl⟩

theorem trans {c'' : Copies} (h₁ : Copied s₀ c s c' t) (h₂ : Copied s₀ c' t c'' u) :
    Copied s₀ c s c'' u where
  keeps := h₁.keeps.trans h₂.keeps
  types_sub := Subset.trans h₁.types_sub h₂.types_sub
  rows_sub := Subset.trans h₁.rows_sub h₂.rows_sub
  types q hq := by
    obtain hq' | ⟨hnew, hlt, hcell⟩ := h₂.types q hq
    · refine (h₁.types q hq').imp_right fun ⟨hnew, hlt, hcell⟩ => ?_
      refine ⟨hnew, Nat.lt_of_lt_of_le hlt h₂.keeps.types_le, ?_⟩
      rw [h₂.keeps.typeAt_eq _ hlt]
      exact hcell.mono h₂.rows_sub
    · exact .inr ⟨fun p hp => hnew p (h₁.types_sub hp), hlt, hcell⟩
  rows q hq := by
    obtain hq' | ⟨hnew, hlt, hrow⟩ := h₂.rows q hq
    · refine (h₁.rows q hq').imp_right fun ⟨hnew, hlt, hrow⟩ => ?_
      refine ⟨hnew, Nat.lt_of_lt_of_le hlt h₂.keeps.rows_le, ?_⟩
      rw [h₂.keeps.rowAt_eq _ hlt]
      exact hrow.mono h₂.types_sub
    · exact .inr ⟨fun p hp => hnew p (h₁.rows_sub hp), hlt, hrow⟩

theorem ready (h : Copied s₀ c s c' u) (hs : Ready s₀ c s) : Ready s₀ c' u where
  old := hs.old.trans h.keeps
  types q hq := (h.types q hq).elim
    (fun hq => Nat.lt_of_lt_of_le (hs.types q hq) h.keeps.types_le) fun hq => hq.2.1
  rows q hq := (h.rows q hq).elim
    (fun hq => Nat.lt_of_lt_of_le (hs.rows q hq) h.keeps.rows_le) fun hq => hq.2.1

/-- The copy of a row grows while the types in the row are copied. -/
theorem append {r : RowId} (h : Copied s₀ { c with rows := (r, k) :: c.rows } s c' u)
    (hk : s.rows.size ≤ k.index) (e : Entry) :
    Copied s₀ { c with rows := (r, k) :: c.rows } s c'
      { u with rows := u.rows.modify k.index (· ++ [e]) } where
  keeps := h.keeps.modifyRow hk _
  types_sub := h.types_sub
  rows_sub := h.rows_sub
  types := h.types
  rows q hq := by
    refine (h.rows q hq).imp_right fun ⟨hnew, hlt, hrow⟩ => ⟨hnew, by simpa using hlt, ?_⟩
    rw [rowAt_modify, if_neg fun heq => hnew _ mem_cons_self heq.1.symm]
    exact hrow

/-- The copy of a row is complete when all types in the row have been copied. -/
theorem close_row {r : RowId} (h : Copied s₀ { c with rows := (r, k) :: c.rows } s c' u)
    (hnew : ∀ p ∈ c.rows, p.2 ≠ k) (hk : k.index < u.rows.size)
    (hpairs : Pairs c' (s₀.rowAt r) (u.rowAt k)) : Copied s₀ c s c' u :=
  { h with
    rows_sub := Subset.trans (subset_cons_self _ _) h.rows_sub
    rows := fun q hq => by
      obtain hq' | ⟨hnot, hq'⟩ := h.rows q hq
      · obtain rfl | hq' := mem_cons.mp hq'
        · exact .inr ⟨hnew, hk, hpairs⟩
        · exact .inl hq'
      · exact .inr ⟨fun p hp => hnot p (.tail _ hp), hq'⟩ }

/-- The copy of a type is complete when it has been given copies of the contents. -/
theorem close_type {a k : TypeId} (h : Copied s₀ { c with types := (a, k) :: c.types } s c' u)
    (hnew : ∀ p ∈ c.types, p.2 ≠ k) (hk : s.types.size ≤ k.index) (hlt : k.index < u.types.size)
    (hcell : u.typeAt k = s₀.typeAt a) {elements keys values : RowId}
    (he : ((s₀.typeAt a).elements, elements) ∈ c'.rows) (hks : ((s₀.typeAt a).keys, keys) ∈ c'.rows)
    (hv : ((s₀.typeAt a).values, values) ∈ c'.rows) :
    Copied s₀ c s c' { u with
      types := u.types.modify k.index (fun cell => { cell with elements, keys, values }) } where
  keeps := h.keeps.modifyType hk _
  types_sub := Subset.trans (subset_cons_self _ _) h.types_sub
  rows_sub := h.rows_sub
  rows := h.rows
  types q hq := by
    simp only [Array.size_modify]
    obtain hq' | ⟨hnot, hqlt, hmirrors⟩ := h.types q hq
    · obtain rfl | hq' := mem_cons.mp hq'
      · refine .inr ⟨hnew, hlt, elements, keys, values, ?_, he, hks, hv⟩
        rw [typeAt_modify, if_pos ⟨rfl, hlt⟩, hcell]
      · exact .inl hq'
    · refine .inr ⟨fun p hp => hnot p (.tail _ hp), hqlt, ?_⟩
      rw [typeAt_modify, if_neg fun heq => hnot _ mem_cons_self heq.1.symm]
      exact hmirrors

end Copied

variable {α β : Type} {Q : β → Copies → Store → Prop}

/-- Copying comes to an end, and what it leaves meets a condition. -/
def Ends (x : Copying α) (c : Copies) (s : Store) (Q : α → Copies → Store → Prop) : Prop :=
  Eval.Ends (x.run c).run s fun q u => Q q.1 q.2 u

namespace Ends

theorem bind {x : Copying α} {f : α → Copying β} {P : α → Copies → Store → Prop}
    (hx : x.Ends c s P) (hf : ∀ a c' u, P a c' u → (f a).Ends c' u Q) : Ends (x >>= f) c s Q :=
  Eval.Ends.bind hx fun q u hq => hf q.1 q.2 u hq

theorem pure {b : β} (h : Q b c s) : Ends (Pure.pure b) c s Q := ⟨(b, c), s, rfl, h⟩

theorem get_bind {f : Copies → Copying β} (h : (f c).Ends c s Q) : Ends (get >>= f) c s Q := h

theorem modify_bind {f : Copies → Copies} {g : PUnit → Copying β} (h : (g ⟨⟩).Ends (f c) s Q) :
    Ends (modify f >>= g) c s Q := h

theorem lift_bind {x : Typing α} {f : α → Copying β} {a : α} (hx : x.run s = .ok a t)
    (h : (f a).Ends c t Q) : Ends (liftM x >>= f) c s Q :=
  bind (P := fun b c' u => b = a ∧ c' = c ∧ u = t)
    ⟨(a, c), t, Eval.bind_of_ok hx _, rfl, rfl, rfl⟩ fun _ _ _ hb => by
      obtain ⟨rfl, rfl, rfl⟩ := hb
      exact h

end Ends

/-- Copying types to a depth ends with complete copies of them. -/
def CopiesTypes (s₀ : Store) (n depth : Nat) : Prop :=
  ∀ t, s₀.Nested n t → ∀ c s, Ready s₀ c s →
    (typeTo depth t).Ends c s fun k c' u => Copied s₀ c s c' u ∧ (t, k) ∈ c'.types

/-- The types of a row are copied one after the other. -/
theorem forM_ends (htypes : CopiesTypes s₀ n depth) (hs : s₀.Extends s) (hk : s.rows.size ≤ k.index)
    (hl : ∀ e ∈ l, ∃ t, e = .type t ∧ s₀.Nested n t) (done : List Entry)
    (hu : Copied s₀ { c with rows := (r, k) :: c.rows } s c' u) (hready : Ready s₀ c' u)
    (hdone : Pairs c' done (u.rowAt k)) :
    Ends (l.forM fun e => do Eval.append k (← entryWith (typeTo depth) (rowTo depth) e)) c' u
      fun _ c'' w => Copied s₀ { c with rows := (r, k) :: c.rows } s c'' w ∧ Ready s₀ c'' w ∧
        Pairs c'' (done ++ l) (w.rowAt k) := by
  induction l generalizing done c' u with
  | nil => exact .pure ⟨hu, hready, by simpa using hdone⟩
  | cons e l ih =>
    obtain ⟨⟨t, rfl, ht⟩, hrest⟩ := forall_mem_cons.mp hl
    have hlt : k.index < u.rows.size := hready.rows _ (hu.rows_sub mem_cons_self)
    refine .bind (P := fun _ c'' w => Copied s₀ { c with rows := (r, k) :: c.rows } s c'' w ∧
      Ready s₀ c'' w ∧ Pairs c'' (done ++ [.type t]) (w.rowAt k)) ?_ ?_
    · refine .bind (P := fun e c'' w => Copied s₀ c' u c'' w ∧
        ∃ q ∈ c''.types, .type t = Entry.type q.1 ∧ e = .type q.2) ?_ ?_
      · refine (htypes t ht c' u hready).bind ?_
        rintro copy c'' w ⟨hw, hmem⟩
        exact .pure ⟨hw, (t, copy), hmem, rfl, rfl⟩
      · rintro e c'' w ⟨hw, hpair⟩
        have hwk : k.index < w.rows.size := Nat.lt_of_lt_of_le hlt hw.keeps.rows_le
        have hready' := hw.ready hready
        have hgrown := (hu.trans hw).append hk e
        refine ⟨((), c''), _, rfl, hgrown, ⟨hs.trans hgrown.keeps, hready'.types, ?_⟩, ?_⟩
        · simpa using hready'.rows
        · rw [rowAt_modify, if_pos ⟨rfl, hwk⟩, hw.keeps.rowAt_eq k hlt]
          exact rel_append (hdone.mono hw.types_sub) (.cons hpair .nil)
    · rintro - c'' w ⟨hw, hready', hpairs⟩
      rw [append_cons]
      exact ih hrest _ hw hready' hpairs

theorem rowTo_ends (htypes : CopiesTypes s₀ n depth) (hr : r.index < s₀.rows.size)
    (hrow : ∀ e ∈ s₀.rowAt r, ∃ t, e = .type t ∧ s₀.Nested n t) (h : Ready s₀ c s) :
    (rowTo (depth + 1) r).Ends c s fun k c' u => Copied s₀ c s c' u ∧ (r, k) ∈ c'.rows := by
  rw [rowTo]
  refine .get_bind ?_
  split
  · rename_i copy hlookup
    exact .pure ⟨.refl (.refl s), mem_of_lookup hlookup⟩
  · refine .lift_bind (row_run r s) (.lift_bind (newRow_run [] s) (.modify_bind ?_))
    rw [h.old.rowAt_eq r hr]
    refine (forM_ends (c := c) (r := r) (k := ⟨s.rows.size⟩) htypes h.old (Nat.le_refl _) hrow []
      (.refl (.pushRow s [])) ⟨h.old.trans (.pushRow s []), h.types, ?_⟩ ?_).bind ?_
    · simp only [forall_mem_cons, Array.size_push]
      exact ⟨Nat.lt_succ_self _, fun q hq => Nat.lt_succ_of_lt (h.rows q hq)⟩
    · rw [rowAt_push, if_pos rfl]
      exact .nil
    · rintro - c' u ⟨hu, hready, hpairs⟩
      have hmem := hu.rows_sub mem_cons_self
      refine .pure ⟨hu.close_row (fun p hp heq => ?_) (hready.rows _ hmem) hpairs, hmem⟩
      exact Nat.ne_of_lt (h.rows p hp) (congrArg RowId.index heq)

theorem typeTo_ends (s₀ : Store) (n m : Nat) : CopiesTypes s₀ n (m + 2 * n) := by
  induction n with
  | zero => exact fun t ht => ht.elim
  | succ n ih =>
    intro t ⟨hlt, hcontents⟩ c s h
    have hrow (r : RowId) (hr : r ∈ s₀.contents t) {c : Copies} {s : Store} (h : Ready s₀ c s) :=
      rowTo_ends ih (hcontents r hr).1 (hcontents r hr).2 h
    rw [Nat.mul_succ, ← Nat.add_assoc, typeTo]
    refine .get_bind ?_
    split
    · rename_i copy hlookup
      exact .pure ⟨.refl (.refl s), mem_of_lookup hlookup⟩
    · refine .lift_bind (type_run t s) (.lift_bind (newCell_run _ s) (.modify_bind ?_))
      rw [h.old.typeAt_eq t hlt]
      have hpush := Extends.pushType s (s₀.typeAt t)
      have h₀ : Ready s₀ { c with types := (t, ⟨s.types.size⟩) :: c.types }
          { s with types := s.types.push (s₀.typeAt t) } := by
        refine ⟨h.old.trans hpush, ?_, h.rows⟩
        simp only [forall_mem_cons, Array.size_push]
        exact ⟨Nat.lt_succ_self _, fun q hq => Nat.lt_succ_of_lt (h.types q hq)⟩
      refine (hrow _ (.head _) h₀).bind ?_
      rintro elements c₁ s₁ ⟨h₁, he⟩
      refine (hrow _ (.tail _ (.head _)) (h₁.ready h₀)).bind ?_
      rintro keys c₂ s₂ ⟨h₂, hk⟩
      have h₁₂ := h₁.trans h₂
      refine (hrow _ (.tail _ (.tail _ (.head _))) (h₁₂.ready h₀)).bind ?_
      rintro values c₃ s₃ ⟨h₃, hv⟩
      have hall := h₁₂.trans h₃
      have hsize := hall.keeps.types_le
      have hmem := hall.types_sub mem_cons_self
      have hcell := hall.keeps.typeAt_eq ⟨s.types.size⟩ (by simp)
      rw [typeAt_push, if_pos rfl] at hcell
      have hdone := Copied.trans (.refl hpush) hall
      refine .lift_bind (modifyType_run _ _ s₃) (.pure ⟨hdone.close_type (fun p hp heq => ?_)
        (Nat.le_refl _) ((hall.ready h₀).types _ hmem) hcell (h₃.rows_sub (h₂.rows_sub he))
        (h₃.rows_sub hk) hv, hmem⟩)
      exact Nat.ne_of_lt (h.types p hp) (congrArg TypeId.index heq)

variable (h : Copied s {} s c u)

include h

theorem Copied.row_complete (hk : (r, k) ∈ c.rows) :
    k.index < u.rows.size ∧ Pairs c (s.rowAt r) (u.rowAt k) :=
  ((h.rows _ hk).resolve_left (by simp)).2

theorem Copied.type_complete {t k : TypeId} (hk : (t, k) ∈ c.types) :
    k.index < u.types.size ∧ Mirrors c (s.typeAt t) (u.typeAt k) :=
  ((h.types _ hk).resolve_left (by simp)).2

theorem Copied.isSimple {t k : TypeId} (hk : (t, k) ∈ c.types)
    (ht : s.IsSimple t) : u.IsSimple k ∧ (u.typeAt k).name = (s.typeAt t).name := by
  obtain ⟨-, es, ks, vs, hcell, he, hks, hv⟩ := h.type_complete hk
  have hempty {p p' : RowId} (hp : p ∈ s.contents t) (hmem : (p, p') ∈ c.rows) :
      p'.index < u.rows.size ∧ u.rowAt p' = [] := by
    obtain ⟨hlt, hpairs⟩ := h.row_complete hmem
    rw [(ht.contents p hp).2] at hpairs
    exact ⟨hlt, forall₂_nil_left_iff.mp hpairs⟩
  refine ⟨ht.of_cell (by rw [hcell]) (by rw [hcell]) ?_, by rw [hcell]⟩
  rw [Store.contents, hcell]
  simp only [forall_mem_cons]
  exact ⟨hempty (.head _) he, hempty (.tail _ (.head _)) hks,
    hempty (.tail _ (.tail _ (.head _))) hv, by simp⟩

theorem Copied.allSimple (hp : Pairs c l l') (hl : s.AllSimple l) :
    u.AllSimple l' ∧ l'.map u.classOf = l.map s.classOf := by
  induction hp with
  | nil => exact ⟨by simp [AllSimple], rfl⟩
  | cons hq _ ih =>
    obtain ⟨⟨t, k⟩, hq, rfl, rfl⟩ := hq
    obtain ⟨⟨_, ⟨⟩, ht⟩, hrest⟩ := forall_mem_cons.mp hl
    obtain ⟨hsimple, hname⟩ := h.isSimple hq ht
    refine ⟨forall_mem_cons.mpr ⟨⟨k, rfl, hsimple⟩, (ih hrest).1⟩, ?_⟩
    rw [map_cons, map_cons, (ih hrest).2, classOf, classOf, hname]

end Copying

namespace Eval

open Store

/-- A row of types of bounded depth is copied, with everything the types hold. -/
theorem copyContents_copies {r : RowId} (hr : r.index < s.rows.size)
    (hrow : ∀ e ∈ s.rowAt r, ∃ t, e = .type t ∧ s.Nested n t) (hn : 2 * n + 1 ≤ s.depth) :
    (copyContents r).run.Ends s fun k u =>
      ∃ c, Copying.Copied s {} s c u ∧ (r, k) ∈ c.rows := by
  obtain ⟨m, hm⟩ : ∃ m, s.depth = m + 2 * n + 1 := ⟨s.depth - (2 * n + 1), by omega⟩
  have hready : Copying.Ready s {} s := ⟨.refl s, by simp, by simp⟩
  obtain ⟨⟨k, c⟩, u, hrun, hu⟩ := Copying.rowTo_ends (Copying.typeTo_ends s n m) hr hrow hready
  refine ⟨k, u, ?_, c, hu⟩
  rw [← hm] at hrun
  rw [copyContents, Typing.run_bind, bind_of_ok (store_run s), Typing.run_bind, bind_of_ok hrun]
  rfl

theorem copyContents_ends {r : RowId} (hr : r.index < s.rows.size) (h : s.AllSimple (s.rowAt r)) :
    (copyContents r).run.Ends s fun k t => s.Extends t ∧ k.index < t.rows.size ∧
      t.AllSimple (t.rowAt k) ∧ (t.rowAt k).map t.classOf = (s.rowAt r).map s.classOf := by
  have hrow : ∀ e ∈ s.rowAt r, ∃ t, e = .type t ∧ s.Nested 1 t := fun e he =>
    (h e he).imp fun t ⟨heq, ht⟩ => ⟨heq, ht.index_lt, fun p hp => by simp [ht.contents p hp]⟩
  obtain ⟨k, u, hrun, c, hu, hk⟩ := copyContents_copies hr hrow (by rw [depth]; omega)
  obtain ⟨hlt, hpairs⟩ := hu.row_complete hk
  exact ⟨k, u, hrun, hu.keeps, hlt, hu.allSimple hpairs h⟩

theorem identicalRows_copy {before r : RowId} {l : List Entry} (hold : s.Extends u)
    (hbefore : before.index < t.rows.size) (hsimple : t.AllSimple (t.rowAt before))
    (hclass : (t.rowAt before).map t.classOf = l.map s.classOf) (hnew : t.Extends u)
    (hr : s.AllSimple (u.rowAt r)) :
    ∃ same, (identicalRows before r).run u = .ok same u ∧ (l = u.rowAt r → same = true) := by
  have hrow := hnew.rowAt_eq before hbefore
  refine ⟨_, identicalRows_run (hrow ▸ hsimple.extend hnew) (hr.extend hold), fun heq => ?_⟩
  have hleft : (u.rowAt before).map u.classOf = l.map s.classOf := by
    rw [hrow, hsimple.map_classOf hnew, hclass]
  have hright : (u.rowAt r).map u.classOf = l.map s.classOf := by
    rw [hr.map_classOf hold, heq]
  rw [decide_eq_true_iff, SameClasses, hleft, hright]
  exact ⟨fun _ => id, fun _ => id⟩

end Eval
end TypeFlow
