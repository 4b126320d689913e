import TypeFlow.Proofs.Run
import TypeFlow.Type.Compare

/-!
# Comparisons that always give an answer

A comparison of types stops with a fault when it needs the rank of a name that has none or the
properties of an entry that is no type. Trees in which every built-in type has a rank, every entry
is a type and no optional type has a content are compared without a fault and without a change of
the store.
-/

set_option synthInstance.maxSize 2000

namespace TypeFlow

open Item

variable {P : Ty → Prop} {i : Item} {ls : List Item} {α β : Type} {r : Row}

/-- A computation gives the same answer for every store, which it leaves as it is. -/
class Answers (x : Typing α) : Prop where
  exists_answer : ∃ a, ∀ s, x.run s = .ok a s

namespace Answers

theorem exists_ok {x : Typing α} (h : Answers x) (s : Store) : ∃ a, x.run s = .ok a s :=
  h.exists_answer.imp fun _ ha => ha s

instance pure (a : α) : Answers (pure a : Typing α) := ⟨a, fun _ => rfl⟩

instance bind (x : Typing α) (f : α → Typing β) [hx : Answers x] [hf : ∀ a, Answers (f a)] :
    Answers (x >>= f) :=
  ⟨by
    obtain ⟨a, ha⟩ := hx.exists_answer
    obtain ⟨b, hb⟩ := (hf a).exists_answer
    exact ⟨b, fun s => (Eval.bind_of_ok (ha s) _).trans (hb s)⟩⟩

instance ite (p : Prop) [Decidable p] (x y : Typing α) [Answers x] [Answers y] :
    Answers (if p then x else y) := by
  split <;> infer_instance

end Answers

mutual

/-- Every type of a tree meets a condition, and every entry is a type. -/
def Ty.Every (P : Ty → Prop) : Ty → Prop
  | .mk id name category elements keys values =>
    P (.mk id name category elements keys values) ∧ elements.Every P ∧ keys.Every P ∧
      values.Every P
termination_by structural t => t

/-- Every type of a row meets a condition, and every entry is a type. -/
def Row.Every (P : Ty → Prop) : Row → Prop
  | .mk _ items => Item.Every P items
termination_by structural r => r

/-- All items are types, and every type in them meets a condition. -/
def Item.Every (P : Ty → Prop) : List Item → Prop
  | [] => True
  | .type t :: rest => t.Every P ∧ Item.Every P rest
  | .text _ :: _ | .absent :: _ | .group _ :: _ => False
termination_by structural items => items

end

mutual

/-- Comparisons find what they need in a type. -/
def Ty.Usable : Ty → Prop
  | .mk _ name category elements keys values =>
    (category = .builtin → (Vocabulary.rank? (Text.lower name)).isSome) ∧
      (Text.lower name = "optional" → elements.items = []) ∧
      elements.Usable ∧ keys.Usable ∧ values.Usable
termination_by structural t => t

/-- Comparisons find what they need in a row. -/
def Row.Usable : Row → Prop
  | .mk _ items => Item.Usable items
termination_by structural r => r

/-- All items are types in which comparisons find what they need. -/
def Item.Usable : List Item → Prop
  | [] => True
  | .type t :: rest => t.Usable ∧ Item.Usable rest
  | .text _ :: _ | .absent :: _ | .group _ :: _ => False
termination_by structural items => items

end

theorem Row.Usable.items (h : r.Usable) : Item.Usable r.items := by
  cases r
  exact h

namespace Item

variable {items : List Item}

theorem usable_cons {rest : List Item} :
    Item.Usable (i :: rest) ↔ Item.Usable [i] ∧ Item.Usable rest := by
  cases i <;> simp [Item.Usable]

theorem usable_iff : Usable items ↔ ∀ i ∈ items, Usable [i] := by
  induction items with
  | nil => simp [Usable]
  | cons i rest ih => rw [usable_cons, ih, List.forall_mem_cons]

theorem Usable.exists_type (h : Usable [i]) : ∃ t, i = .type t ∧ t.Usable := by
  cases i with
  | type t => exact ⟨t, rfl, h.1⟩
  | text | absent | group => exact h.elim

theorem Every.exists_type (h : Every P items) (hi : i ∈ items) : ∃ t, i = .type t ∧ t.Every P := by
  induction items with
  | nil => exact absurd hi List.not_mem_nil
  | cons j rest ih =>
    cases j with
    | type t =>
      obtain rfl | hi := List.mem_cons.mp hi
      · exact ⟨t, rfl, h.1⟩
      · exact ih h.2 hi
    | text | absent | group => exact h.elim

theorem Every.any_isForeign (h : Every P items) : items.any isForeign = false := by
  rw [List.any_eq_false]
  intro i hi
  obtain ⟨t, rfl, -⟩ := h.exists_type hi
  simp [isForeign]

end Item

theorem Row.Every.items (h : r.Every P) : Item.Every P r.items := by
  cases r
  exact h

theorem Row.Every.exists_single (h : r.Every P) (hlen : r.items.length = 1) :
    ∃ id t, r = .mk id [.type t] := by
  obtain ⟨id, items⟩ := r
  obtain ⟨i, rfl⟩ := List.length_eq_one_iff.mp hlen
  obtain ⟨t, rfl, -⟩ := Item.Every.exists_type h List.mem_cons_self
  exact ⟨id, t, rfl⟩

/-- A built-in type has a rank. -/
def Ty.Ranked (t : Ty) : Prop :=
  t.category = .builtin → (Vocabulary.rank? t.lowerName).isSome

mutual

theorem Ty.Usable.ranked (t : Ty) (h : t.Usable) : t.Every Ty.Ranked := by
  match t with
  | .mk _ _ _ elements keys values =>
    obtain ⟨hrank, -, helements, hkeys, hvalues⟩ := h
    exact ⟨hrank, Row.Usable.ranked elements helements, Row.Usable.ranked keys hkeys,
      Row.Usable.ranked values hvalues⟩

theorem Row.Usable.ranked (r : Row) (h : r.Usable) : r.Every Ty.Ranked := by
  match r with
  | .mk _ items => exact Item.Usable.ranked items h

theorem Item.Usable.ranked (items : List Item) (h : Usable items) : Every Ty.Ranked items := by
  match items with
  | [] => trivial
  | .type t :: rest => exact ⟨Ty.Usable.ranked t h.1, Item.Usable.ranked rest h.2⟩

end

namespace Ty

variable (discard : RowId → Typing Unit) {t r : Ty} {l : Item} {rs : List Item}

theorem answers_rank {name : String} (h : (Vocabulary.rank? (Text.lower name)).isSome) :
    Answers (rank name : Typing Nat) := by
  obtain ⟨n, hn⟩ := Option.isSome_iff_exists.mp h
  unfold rank
  rw [hn]
  infer_instance

theorem answers_ofItem_bind {f : Ty → Typing α} (hi : Item.Usable [i])
    (hf : ∀ t : Ty, t.Usable → Answers (f t)) : Answers (ofItem i >>= f) := by
  obtain ⟨t, rfl, ht⟩ := hi.exists_type
  exact hf t ht

theorem Usable.rank_isSome (h : t.Usable) (hbuiltin : t.isBuiltin = true) :
    (Vocabulary.rank? (Text.lower t.name)).isSome := by
  cases t
  exact h.1 (eq_of_beq hbuiltin)

theorem Usable.optional_empty (h : t.Usable) (hname : t.lowerName = "optional") :
    t.elements.items = [] := by
  cases t
  exact h.2.1 hname

mutual

theorem answers_identical_ranked (l r : Ty) (hl : l.Every Ranked) (hr : r.Every Ranked) :
    Answers (identical discard l r) := by
  match l, r with
  | .mk li ln lc le lk lv, .mk ri rn rc re rk rv =>
    have := answers_identicalRows le re hl.2.1 hr.2.1
    have := answers_identicalRows lk rk hl.2.2.1 hr.2.2.1
    have := answers_identicalRows lv rv hl.2.2.2 hr.2.2.2
    rw [identical.eq_def]
    dsimp only
    split
    · infer_instance
    split
    · rename_i hbuiltin
      have hln : (Vocabulary.rank? (Text.lower ln)).isSome := hl.1 hbuiltin.1
      have hrn : (Vocabulary.rank? (Text.lower rn)).isSome := hr.1 hbuiltin.2
      have := answers_rank hln
      have := answers_rank hrn
      infer_instance
    split
    · rename_i htype
      split
      · exact answers_identical_ranked _ _ hl.2.1.1 hr
      · rename_i hother
        obtain ⟨id, t, rfl⟩ := hl.2.1.exists_single htype.2.2.2
        exact absurd rfl (hother id t)
    split
    · rename_i htype
      split
      · exact answers_identical_ranked _ _ hr.2.1.1 hl
      · rename_i hother
        obtain ⟨id, t, rfl⟩ := hr.2.1.exists_single htype.2.2.2
        exact absurd rfl (hother id t)
    · infer_instance
termination_by sizeOf l + sizeOf r

theorem answers_identicalRows (l r : Row) (hl : l.Every Ranked) (hr : r.Every Ranked) :
    Answers (identicalRows discard l r) := by
  match l, r with
  | .mk li ls, .mk ri rs =>
    have := answers_coveredBy ls rs hl hr
    have := answers_coveredBy rs ls hr hl
    rw [identicalRows]
    have hforeign : (ls.any Item.isForeign || rs.any Item.isForeign) = false := by
      rw [Item.Every.any_isForeign hl, Item.Every.any_isForeign hr]
      rfl
    simp only [hforeign, Bool.false_eq_true, if_false]
    have hanswer (o : Option Bool) : Answers (match o with
        | some answer => pure answer
        | none => do return (← coveredBy discard rs ls).getD true : Typing Bool) := by
      cases o <;> infer_instance
    infer_instance
termination_by sizeOf l + sizeOf r

theorem answers_coveredBy (ls rs : List Item) (hl : Item.Every Ranked ls)
    (hr : Item.Every Ranked rs) : Answers (coveredBy discard ls rs) := by
  match ls with
  | [] =>
    rw [coveredBy]
    infer_instance
  | .type t :: rest =>
    rw [coveredBy]
    have := answers_identicalToSome t rs hl.1 hr
    have := answers_coveredBy rest rs hl.2 hr
    infer_instance
termination_by sizeOf ls + sizeOf rs

theorem answers_identicalToSome (t : Ty) (rs : List Item) (ht : t.Every Ranked)
    (hr : Item.Every Ranked rs) : Answers (identicalToSome discard t rs) := by
  match rs with
  | [] =>
    rw [identicalToSome]
    infer_instance
  | .type r :: rest =>
    rw [identicalToSome]
    have := answers_identical_ranked t r ht hr.1
    have := answers_identicalToSome t rest ht hr.2
    infer_instance
termination_by sizeOf t + sizeOf rs

end

theorem identicalRows_of_coveredBy {s : Store} {l r : Row}
    (hl : l.items.any Item.isForeign = false) (hr : r.items.any Item.isForeign = false)
    {o o' : Option Bool} (ho : (coveredBy discard l.items r.items).run s = .ok o s)
    (ho' : (coveredBy discard r.items l.items).run s = .ok o' s) :
    (identicalRows discard l r).run s = .ok (o.getD (o'.getD true)) s := by
  obtain ⟨li, ls⟩ := l
  obtain ⟨ri, rs⟩ := r
  have hforeign : (ls.any Item.isForeign || rs.any Item.isForeign) = false := by
    rw [show ls.any Item.isForeign = false from hl, show rs.any Item.isForeign = false from hr]
    rfl
  rw [identicalRows]
  simp only [hforeign, Bool.false_eq_true, if_false]
  refine (Eval.bind_of_ok ho _).trans ?_
  cases o with
  | some b => rfl
  | none => exact Eval.bind_of_ok ho' _

theorem answers_identical {l : Ty} (hl : l.Usable) (hr : r.Usable) :
    Answers (identical discard l r) :=
  answers_identical_ranked discard l r hl.ranked hr.ranked

theorem answers_similar {l : Ty} (hl : l.Usable) (hr : r.Usable) :
    Answers (similar l r : Typing Bool) := by
  unfold similar
  dsimp only
  split
  · rename_i hbuiltin
    rw [Bool.and_eq_true] at hbuiltin
    have := answers_rank (hl.rank_isSome hbuiltin.1)
    have := answers_rank (hr.rank_isSome hbuiltin.2)
    infer_instance
  · infer_instance

/-- Two user types end in the same component. -/
def sharesEnd (l r : Ty) : Bool :=
  l.category == r.category && l.isUser && Text.lastPiece l.name "." == Text.lastPiece r.name "."

def isNumber (t : Ty) : Bool := decide (t.name ∈ ["int", "float"])

/-- A computation goes through types until a test gives the wanted answer. -/
structure Searches {β : Type} [DecidableEq β] (test : Ty → Typing β) (wanted : β)
    (search : List Item → Typing Bool) : Prop where
  nil : search [] = pure false
  cons : ∀ t rest, search (.type t :: rest) =
    test t >>= fun x => if x = wanted then pure true else search rest

namespace Searches

variable [DecidableEq β] {test : Ty → Typing β} {wanted : β} {search : List Item → Typing Bool}

theorem answers (h : Searches test wanted search) (hls : Item.Usable ls)
    (htest : ∀ t : Ty, t.Usable → Answers (test t)) : Answers (search ls) := by
  induction ls with
  | nil =>
    rw [h.nil]
    infer_instance
  | cons i rest ih =>
    obtain ⟨hi, hrest⟩ := Item.usable_cons.mp hls
    obtain ⟨t, rfl, ht⟩ := hi.exists_type
    have := htest t ht
    have := ih hrest
    rw [h.cons]
    infer_instance

/-- A search finds a type if there is one that passes the test. -/
theorem run (h : Searches test wanted search) (hls : Item.Usable ls)
    (htest : ∀ t : Ty, t.Usable → Answers (test t)) (s : Store) :
    ∃ found, (search ls).run s = .ok found s ∧
      (found = true ↔ ∃ t, .type t ∈ ls ∧ (test t).run s = .ok wanted s) := by
  induction ls with
  | nil =>
    rw [h.nil]
    exact ⟨false, rfl, by simp⟩
  | cons i rest ih =>
    obtain ⟨hi, hrest⟩ := Item.usable_cons.mp hls
    obtain ⟨t, rfl, ht⟩ := hi.exists_type
    obtain ⟨x, hx⟩ := (htest t ht).exists_ok s
    obtain ⟨found, hfound, hiff⟩ := ih hrest
    have hbind : (search (.type t :: rest)).run s =
        (if x = wanted then pure true else search rest : Typing Bool).run s := by
      rw [h.cons]
      exact Eval.bind_of_ok hx _
    rw [hbind]
    by_cases hwanted : x = wanted
    · rw [if_pos hwanted]
      refine ⟨true, rfl, ?_⟩
      simp only [true_iff]
      exact ⟨t, List.mem_cons_self, hwanted ▸ hx⟩
    · rw [if_neg hwanted]
      exact ⟨found, hfound, by simp [hiff, hx, hwanted]⟩

theorem existSame (l : Ty) : Searches (identical discard l) true (existSame discard (.type l)) :=
  ⟨rfl, fun _ _ => rfl⟩

theorem identicalToSome (l : Ty) :
    Searches (identical discard l) true (identicalToSome discard l) :=
  ⟨by rw [Ty.identicalToSome], fun _ _ => by rw [Ty.identicalToSome]⟩

theorem existSimilar (l : Ty) : Searches (similar l) true (existSimilar (.type l)) :=
  ⟨rfl, fun _ _ => rfl⟩

theorem anyIncludes (test : Ty → Typing (Option Bool)) :
    Searches test (some true) (anyIncludes test) :=
  ⟨rfl, fun _ _ => rfl⟩

theorem existUserType (l : Ty) :
    Searches (fun r => pure (sharesEnd l r)) true (existUserType (.type l)) :=
  ⟨rfl, fun _ _ => rfl⟩

theorem numbers : Searches (fun r => pure (isNumber r)) true existNumbers.go := by
  refine ⟨rfl, fun t rest => ?_⟩
  change (if t.name ∈ ["int", "float"] then pure true else existNumbers.go rest) =
    if isNumber t = true then pure true else existNumbers.go rest
  simp only [isNumber, decide_eq_true_eq]

end Searches

theorem answers_existSame (hl : Item.Usable [l]) (hr : Item.Usable rs) :
    Answers (existSame discard l rs) := by
  obtain ⟨t, rfl, ht⟩ := hl.exists_type
  exact (Searches.existSame discard t).answers hr fun _ h => answers_identical discard ht h

theorem answers_existOptional (hr : Item.Usable rs) :
    Answers (existOptional l rs : Typing Bool) := by
  induction rs with
  | nil => exact Answers.pure false
  | cons r rest ih =>
    obtain ⟨hr, hrest⟩ := Item.usable_cons.mp hr
    have := ih hrest
    refine answers_ofItem_bind hr fun r hr => ?_
    split
    · rename_i hoptional
      rw [hr.optional_empty hoptional]
      infer_instance
    · infer_instance

mutual

theorem answers_inclusion (l r : Ty) (hl : l.Usable) (hr : r.Usable) :
    Answers (inclusion discard l r) := by
  match l, r with
  | .mk li ln lc le lk lv, .mk ri rn rc re rk rv =>
    have := answers_includedRow le re hl.2.2.1 hr.2.2.1
    have := answers_includedRow lk rk hl.2.2.2.1 hr.2.2.2.1
    have := answers_includedRow lv rv hl.2.2.2.2 hr.2.2.2.2
    have hoptional : ¬ (rn = "Optional" ∧ re.items.length = 1) := by
      rintro ⟨rfl, hlen⟩
      rw [hr.2.1 (by decide +kernel)] at hlen
      exact absurd hlen (by decide)
    unfold inclusion
    simp only [if_neg hoptional]
    infer_instance

theorem answers_includedRow (l r : Row) (hl : l.Usable) (hr : r.Usable) :
    Answers (includedRow discard l r) := by
  match l with
  | .mk li ls => exact answers_includedItems ls r.items hl hr.items

theorem answers_includedItems (ls rs : List Item) (hl : Item.Usable ls) (hr : Item.Usable rs) :
    Answers (includedItems discard ls rs) := by
  match ls with
  | [] => exact Answers.pure true
  | l :: rest =>
    obtain ⟨hl, hrest⟩ := usable_cons.mp hl
    have := answers_existSame discard hl hr
    have := answers_existOptional (l := l) hr
    have := answers_existIncluded l rs hl hr
    have := answers_includedItems rest rs hrest hr
    unfold includedItems
    infer_instance

theorem answers_existIncluded (l : Item) (rs : List Item) (hl : Item.Usable [l])
    (hr : Item.Usable rs) : Answers (existIncluded discard l rs) := by
  match l with
  | .type t => exact (Searches.anyIncludes _).answers hr fun r h => answers_inclusion t r hl.1 h

end

theorem answers_existSimilar (hl : Item.Usable [l]) (hr : Item.Usable rs) :
    Answers (existSimilar l rs : Typing Bool) := by
  obtain ⟨t, rfl, ht⟩ := hl.exists_type
  exact (Searches.existSimilar t).answers hr fun _ h => answers_similar ht h

theorem answers_existNumbers (numbers : Bool) (hl : Item.Usable [l]) (hr : Item.Usable rs) :
    Answers (existNumbers l rs numbers : Typing Bool) := by
  have := Searches.numbers.answers hr fun _ _ => .pure _
  unfold existNumbers
  split
  · infer_instance
  refine answers_ofItem_bind hl fun l' _ => ?_
  infer_instance

theorem answers_existUserType (hl : Item.Usable [l]) (hr : Item.Usable rs) :
    Answers (existUserType l rs : Typing Bool) := by
  obtain ⟨t, rfl, -⟩ := hl.exists_type
  exact (Searches.existUserType t).answers hr fun _ _ => .pure _

theorem answers_meetsAll {close : Item → List Item → Typing Bool}
    (hclose : ∀ r, Item.Usable [r] → Answers (close r ls)) (hl : Item.Usable ls)
    (hr : Item.Usable rs) : Answers (meetsAll discard close ls rs) := by
  induction rs with
  | nil => exact Answers.pure true
  | cons r rest ih =>
    obtain ⟨hr, hrest⟩ := Item.usable_cons.mp hr
    have := ih hrest
    have := hclose r hr
    have := answers_existUserType hr hl
    have := answers_existIncluded discard r ls hr hl
    unfold meetsAll
    infer_instance

theorem answers_setIncluded (hl : Item.Usable ls) (hr : Item.Usable rs) :
    Answers (setIncluded discard ls rs) :=
  answers_meetsAll discard (fun _ h => answers_existSame discard h hl) hl hr

theorem answers_setSimilar (hl : Item.Usable ls) (hr : Item.Usable rs) :
    Answers (setSimilar discard ls rs) := by
  refine answers_meetsAll discard (fun r h => ?_) hl hr
  have := answers_existSimilar h hl
  have := answers_existNumbers true h hl
  infer_instance

theorem answers_lastIncluded {items : List Item} (h : Item.Usable items) :
    Answers (lastIncluded discard items) := by
  rw [Item.usable_iff] at h
  have hinner (i : Nat) (l : Item) (hl : Item.Usable [l]) (rs : List (Item × Nat))
      (hr : ∀ r ∈ rs, Item.Usable [r.1]) : Answers (lastIncluded.inner discard i l rs) := by
    induction rs with
    | nil => exact Answers.pure false
    | cons r rest ih =>
      have := ih fun r hr' => hr r (.tail _ hr')
      unfold lastIncluded.inner
      split
      · exact this
      refine answers_ofItem_bind hl fun l' hl' => ?_
      refine answers_ofItem_bind (hr r (.head _)) fun r' hr' => ?_
      have := answers_inclusion discard l' r' hl' hr'
      unfold included
      infer_instance
  have hgo (n : Nat) (hn : n ≤ items.length) (found : Option Nat) :
      Answers (lastIncluded.go discard items n found) := by
    induction n generalizing found with
    | zero => exact Answers.pure found
    | succ n ih =>
      have := ih (by omega)
      have hitem : Item.Usable [items.getD (items.length - (n + 1)) .absent] := by
        have hlt : items.length - (n + 1) < items.length := by omega
        rw [List.getD_eq_getElem?_getD, List.getElem?_eq_getElem hlt, Option.getD_some]
        exact h _ (List.getElem_mem hlt)
      have hzip : ∀ r ∈ items.zipIdx, Item.Usable [r.1] := fun r hr =>
        h r.1 (List.fst_mem_of_mem_zipIdx hr)
      have := hinner (items.length - (n + 1)) _ hitem _ hzip
      unfold lastIncluded.go
      dsimp only
      infer_instance
  exact hgo items.length (Nat.le_refl _) none

end Ty
end TypeFlow
