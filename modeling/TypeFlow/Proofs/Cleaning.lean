import Mathlib.Logic.Function.Iterate
import TypeFlow.UserType.Findings

/-!
# Cleaning found types

Types are removed one at a time by equality, once for every mark. Equal types are marked equally
often, so each of them disappears. A shared entry is imported by name and comes with a module, so it
is gone from the second list before its module is rewritten for the first.
-/

namespace TypeFlow.UserType.Shelf

open List

open Findings (cleanType isLowerType)

variable {s u : Shelf} {l marks : List Nat}

theorem types_filter (s : Shelf) (l : List Nat) (P : FoundType → Bool) :
    s.types (l.filter fun a => P (s.entry a)) = (s.types l).filter P := by
  rw [types, types, filter_map]
  rfl

/-- Where a kind of types is marked at least as often as it occurs, removing the marks leaves the
types of other kinds. -/
theorem foldl_remove {P : FoundType → Bool} (hmarks : ∀ a ∈ marks, P (s.entry a) = true)
    (hcount : ∀ t, P t = true → (s.types l).count t ≤ (s.types marks).count t) :
    marks.foldl s.remove l = l.filter fun a => !P (s.entry a) := by
  induction marks generalizing l with
  | nil =>
    refine (filter_eq_self.mpr fun a ha => ?_).symm
    rw [Bool.not_eq_true', Bool.eq_false_iff]
    intro hP
    exact Nat.not_lt.mpr (hcount _ hP) (count_pos_iff.mpr (mem_map_of_mem ha))
  | cons m marks ih =>
    have hm := hmarks m (.head _)
    have herase : s.types (s.remove l m) = (s.types l).erase (s.entry m) := by
      rw [types, types, erase_eq_eraseP', eraseP_map]
      rfl
    rw [foldl_cons, ih fun a ha => hmarks a (.tail _ ha)]
    · obtain h | ⟨b, before, after, -, hb, rfl, h⟩ :=
        exists_or_eq_self_of_eraseP (fun b => s.entry b == s.entry m) l
      · rw [remove, h]
      · rw [remove, h]
        simp [beq_iff_eq.mp hb, hm]
    · intro t ht
      have hall := hcount t ht
      rw [herase, count_erase]
      rw [types, types, map_cons, count_cons] at hall
      rw [types, types]
      omega

/-- A type is in a list under its path and name. -/
def isDoubled (l : List FoundType) (t : FoundType) : Bool := l.any (doubles t)

theorem foldl_repeated (s : Shelf) : s.repeated.foldl s.remove s.indirect =
    s.indirect.filter fun a => !isDoubled (s.types s.direct) (s.entry a) := by
  have hsome (t : FoundType) (ht : isDoubled (s.types s.direct) t = true) :
      0 < (s.direct.filter fun d => doubles t (s.entry d)).length := by
    obtain ⟨_, hd, hdouble⟩ := any_eq_true.mp ht
    obtain ⟨d, hmem, rfl⟩ := mem_map.mp hd
    exact length_pos_of_mem (mem_filter.mpr ⟨hmem, hdouble⟩)
  apply foldl_remove
  · intro a ha
    obtain ⟨b, -, ha⟩ := mem_flatMap.mp ha
    obtain ⟨d, hd, rfl⟩ := mem_map.mp ha
    obtain ⟨hd, hdouble⟩ := mem_filter.mp hd
    exact any_eq_true.mpr ⟨_, mem_map_of_mem hd, hdouble⟩
  · intro t ht
    unfold repeated types
    induction s.indirect with
    | nil => exact Nat.le_refl _
    | cons a l ih =>
      rw [flatMap_cons, map_append, count_append, map_map, Function.comp_def,
        map_const', count_replicate, map_cons, count_cons]
      split
      · rename_i heq
        have := hsome t ht
        rw [← beq_iff_eq.mp heq] at this ih ⊢
        omega
      · omega

def isLower (t : FoundType) : Bool := t.name.toList.head?.any Text.isLowerChar

/-- What stays of types whose names are in upper case. -/
theorem withoutLower_eq (hnames : ∀ a ∈ l, (s.entry a).name ≠ "") :
    s.withoutLower l = .ok (l.filter fun a => !isLower (s.entry a)) := by
  have hmarked (l marked : List Nat) (hnames : ∀ a ∈ l, (s.entry a).name ≠ "") :
      l.foldlM (fun marked a => do
        return if ← isLowerType (s.entry a) then marked ++ [a] else marked) marked =
        (.ok (marked ++ l.filter fun a => isLower (s.entry a)) : Except Fault (List Nat)) := by
    induction l generalizing marked with
    | nil => simp [pure, Except.pure]
    | cons a l ih =>
      have hlower : isLowerType (s.entry a) = .ok (isLower (s.entry a)) := by
        unfold isLowerType isLower
        cases hname : (s.entry a).name.toList with
        | nil => exact absurd (String.toList_eq_nil_iff.mp hname) (hnames a (.head _))
        | cons c rest => rfl
      rw [foldlM_cons, hlower]
      refine (ih _ fun a ha => hnames a (.tail _ ha)).trans ?_
      cases h : isLower (s.entry a) <;> simp [h]
  unfold withoutLower
  rw [hmarked l [] hnames, nil_append]
  refine congrArg Except.ok (foldl_remove (fun a ha => (mem_filter.mp ha).2) fun t ht => ?_)
  rw [types_filter]
  exact Nat.le_of_eq (count_filter ht).symm

/-- An entry is cleaned as often as its address is in the list. -/
theorem entry_clean (s : Shelf) (l : List Nat) (a : Nat) :
    (s.clean l).entry a = cleanType^[l.count a] (s.entry a) := by
  induction l generalizing s with
  | nil => rfl
  | cons b l ih =>
    let s₁ : Shelf := { s with entries := s.entries.modify b cleanType }
    have hfirst : s₁.entry a = if b = a then cleanType (s.entry a) else s.entry a := by
      have hdefault : cleanType default = default := by decide +kernel
      simp only [s₁, entry, Array.getD_eq_getD_getElem?, Array.getElem?_modify]
      by_cases hb : b = a <;> cases s.entries[a]? <;> simp [hb, hdefault]
    have hclean : s.clean (b :: l) = s₁.clean l := rfl
    rw [hclean, ih, hfirst, count_cons]
    by_cases hb : b = a <;> simp [hb, Function.iterate_succ_apply]

/-- Cleaning an entry again changes nothing. -/
def Settles (s : Shelf) (a : Nat) : Prop :=
  cleanType (cleanType (s.entry a)) = cleanType (s.entry a)

/-- After cleaning, the types in upper case are left, cleaned. -/
theorem withoutLower_types (hnames : ∀ a ∈ l, (s.entry a).name ≠ "")
    (hclean : ∀ a ∈ l, u.entry a = cleanType (s.entry a)) :
    ∃ kept, u.withoutLower l = .ok kept ∧
      u.types kept = ((s.types l).filter fun t => !isLower t).map cleanType := by
  refine ⟨_, withoutLower_eq fun a ha => by rw [hclean a ha]; exact hnames a ha, ?_⟩
  rw [← types_filter, types, types, map_map]
  have hfilter : (l.filter fun a => !isLower (u.entry a)) =
      l.filter fun a => !isLower (s.entry a) :=
    filter_congr fun a ha => by rw [hclean a ha]; rfl
  rw [hfilter]
  exact map_congr_left fun a ha => hclean a (mem_filter.mp ha).1

/-- Tidying leaves, in order and with cleaned modules, the types imported by name that do not start
in lower case, and those that come with a module, do not start in lower case and were not imported
by name. Equal entries and entries shared between the lists may occur; only an entry that is in one
list twice has to be clean after its module was rewritten once. -/
theorem tidy_filters (s : Shelf) (hnames : ∀ a ∈ s.direct ++ s.indirect, (s.entry a).name ≠ "")
    (htwice : ∀ l ∈ [s.direct, s.indirect], ∀ a, 1 < l.count a → s.Settles a) :
    ∃ s', s.tidy = .ok s' ∧
      s'.types s'.direct = ((s.types s.direct).filter fun t => !isLower t).map cleanType ∧
      s'.types s'.indirect = (((s.types s.indirect).filter fun t =>
        !isDoubled (s.types s.direct) t).filter fun t => !isLower t).map cleanType := by
  obtain ⟨hdirect, hindirect⟩ := forall_mem_append.mp hnames
  let left := s.indirect.filter fun a => !isDoubled (s.types s.direct) (s.entry a)
  have hapart (a : Nat) (ha : a ∈ s.direct) : left.count a = 0 := by
    rw [count_eq_zero, mem_filter]
    rintro ⟨-, hnot⟩
    have hself : isDoubled (s.types s.direct) (s.entry a) = true :=
      any_eq_true.mpr ⟨_, mem_map_of_mem ha, by simp [doubles]⟩
    simp [hself] at hnot
  have honce {l : List Nat} {a : Nat} (ha : a ∈ l) (hl : 1 < l.count a → s.Settles a) :
      cleanType^[l.count a] (s.entry a) = cleanType (s.entry a) := by
    obtain ⟨n, hn⟩ := Nat.exists_eq_add_one_of_ne_zero (Nat.ne_zero_of_lt (count_pos_iff.mpr ha))
    rw [hn, Function.iterate_succ_apply]
    cases n with
    | zero => rfl
    | succ n => exact Function.iterate_fixed (hl (by omega)) _
  let s₂ := ({ s with indirect := left }.clean left).clean s.direct
  have hentry (a : Nat) :
      s₂.entry a = cleanType^[s.direct.count a] (cleanType^[left.count a] (s.entry a)) := by
    rw [entry_clean, entry_clean]
    rfl
  obtain ⟨direct, hdirect, hdirectTypes⟩ := withoutLower_types (u := s₂) hdirect fun a ha => by
    rw [hentry, hapart a ha]
    exact honce ha (htwice _ (.head _) a)
  obtain ⟨indirect, hindirect, hindirectTypes⟩ := withoutLower_types (s := s) (u := s₂) (l := left)
      (fun a ha => hindirect a (mem_filter.mp ha).1) fun a ha => by
    have hnot : s.direct.count a = 0 := count_eq_zero.mpr fun hmem =>
      count_eq_zero.mp (hapart a hmem) ha
    rw [hentry, hnot]
    exact honce ha fun h => htwice _ (.tail _ (.head _)) a
      (Nat.lt_of_lt_of_le h (filter_sublist.count_le a))
  refine ⟨{ s₂ with direct, indirect }, ?_, hdirectTypes, ?_⟩
  · simp only [tidy, foldl_repeated]
    change (s₂.withoutLower s.direct >>= fun direct => s₂.withoutLower left >>= fun indirect =>
      .ok { s₂ with direct, indirect }) = _
    rw [hdirect, hindirect]
    rfl
  · rw [← types_filter]
    exact hindirectTypes

/-- The entry `A` is shared by both lists, `B` comes with a module twice, `c` is in lower case. -/
theorem tidy_sharedEntry : let a : FoundType := ⟨"p", "<Cur_Repo>", "A", none⟩
    let b : FoundType := ⟨"q", "<Cur_Repo>.m", "B", none⟩
    let s : Shelf := ⟨#[a, b, b, ⟨"p", "m", "c", none⟩], [0, 3], [1, 0, 2]⟩
    ∃ s', s.tidy = .ok s' ∧ s'.types s'.direct = [cleanType a] ∧
      s'.types s'.indirect = [cleanType b, cleanType b] := by
  intro a b s
  have honce : ∀ l ∈ [s.direct, s.indirect], l.Nodup := by decide
  obtain ⟨s', hs', hdirect, hindirect⟩ := tidy_filters s (by decide) fun l hl a ha =>
    absurd (nodup_iff_count.mp (honce l hl) a) (Nat.not_le.mpr ha)
  exact ⟨s', hs', hdirect.trans (by decide +kernel), hindirect.trans (by decide +kernel)⟩

/-- An entry that is in one list twice is cleaned twice. Its module is then not the old one without
the marks of the project: the first cleaning leaves a mark, and the second one takes it away. -/
theorem tidy_listedTwice : let a : FoundType := ⟨"p", "<Cur_<Cur_Repo>Repo>", "A", none⟩
    let s : Shelf := ⟨#[a], [0, 0], []⟩
    cleanType a = { a with module := "<Cur_Repo>" } ∧
      ∃ s', s.tidy = .ok s' ∧
        s'.types s'.direct = [{ a with module := "." }, { a with module := "." }] := by
  intro a s
  obtain ⟨hclean, htypes⟩ : cleanType a = { a with module := "<Cur_Repo>" } ∧
      (s.tidy.map fun s' => s'.types s'.direct).toOption =
        some [{ a with module := "." }, { a with module := "." }] := by decide +kernel
  refine ⟨hclean, ?_⟩
  cases hrun : s.tidy with
  | error e => simp [hrun, Except.map, Except.toOption] at htypes
  | ok s' => exact ⟨s', rfl, by simpa [hrun, Except.map, Except.toOption] using htypes⟩

end TypeFlow.UserType.Shelf
