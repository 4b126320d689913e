import TypeFlow.Proofs.Reading
import TypeFlow.Proofs.Usable

/-!
# Types that have been read are safe to use

Whatever the text, reading it gives shapes that are standard types or user types without brackets
in their names, at every depth. The cells that are made of them are sound, so comparisons,
simplification and printing of any of them come to an end without a fault, in any order and any
number of times.
-/

namespace TypeFlow

open Text Store Eval List Vocabulary

variable {s u : Store} {base : Nat}

namespace Shape

variable {name : String} {as : List Shape}

/-- Shapes of standard types and of user types without brackets in their names. -/
inductive Usable : Shape → Prop
  | mk {name : String} {category : Category} {elements keys values : List Shape}
      (cell : (category = .builtin ∧ name ∈ standardNames) ∨
        (category = .user ∧ '[' ∉ name.toList ∧ ']' ∉ name.toList))
      (optional : lower name = "optional" → elements = [])
      (inElements : ∀ a ∈ elements, Usable a) (inKeys : ∀ a ∈ keys, Usable a)
      (inValues : ∀ a ∈ values, Usable a) : Usable (.mk name category elements keys values)

theorem usable_builtin (h : name ∈ standardNames) : Usable (leaf name .builtin) :=
  .mk (.inl ⟨rfl, h⟩) (fun _ => rfl) (by simp) (by simp) (by simp)

theorem usable_user (h : hasBracket (leaf name .user) = false) : Usable (leaf name .user) := by
  have hcategory : (Category.user == Category.user) = true := by decide
  simp only [leaf, hasBracket, hcategory, Bool.true_and, Bool.or_eq_false_iff,
    String.contains_char_eq, decide_eq_false_iff_not] at h
  exact .mk (.inr ⟨rfl, h.1.1.1⟩) (fun _ => rfl) (by simp) (by simp) (by simp)

section Reading

variable {read : List Char → List Shape}
  (hread : ∀ part, ∀ a ∈ read part, hasBracket a = false → a.Usable)

include hread

theorem usable_contents {parts : List (List Char)} (h : anyBracket (parts.flatMap read) = false) :
    ∀ a ∈ parts.flatMap read, a.Usable := by
  intro a ha
  obtain ⟨part, -, hpart⟩ := mem_flatMap.mp ha
  exact hread part a hpart (anyBracket_eq_false_iff.mp h a ha)

theorem usable_readHeaded {text : String} {a : Shape} (ha : a ∈ readHeaded read text)
    (hbracket : hasBracket a = false) : a.Usable := by
  unfold readHeaded at ha
  dsimp only at ha
  split at ha
  · obtain ⟨part, -, hpart⟩ := mem_flatMap.mp ha
    exact hread part a hpart hbracket
  split at ha
  · rw [mem_append, mem_singleton] at ha
    obtain ha | rfl := ha
    · exact hread _ a ha hbracket
    · exact usable_builtin (by decide +kernel)
  rename_i hoptional
  split at ha
  · rename_i name hname
    have hstandard := denoted?_standard hname
    split at ha
    · split at ha
      · split at ha
        · rw [mem_singleton] at ha
          exact ha ▸ usable_builtin hstandard
        · rename_i key rest hargs
          rw [mem_singleton] at ha
          subst ha
          rw [hasBracket_builtin, Bool.or_eq_false_iff, Bool.or_eq_false_iff] at hbracket
          refine .mk (.inl ⟨rfl, hstandard⟩) (fun _ => rfl) (by simp) ?_
            (usable_contents hread hbracket.2)
          intro a ha
          exact hread key a ha (anyBracket_eq_false_iff.mp hbracket.1.2 a ha)
      · exact absurd ha not_mem_nil
    · rw [mem_singleton] at ha
      subst ha
      rw [hasBracket_builtin, Bool.or_eq_false_iff, Bool.or_eq_false_iff] at hbracket
      refine .mk (.inl ⟨rfl, hstandard⟩) (fun hlower => ?_) (usable_contents hread hbracket.1.1)
        (by simp) (by simp)
      exact absurd (has_optional_of_denoted? hname hlower) hoptional
  · rw [mem_singleton] at ha
    subst ha
    exact usable_user hbracket

end Reading

theorem usable_readNested (n : Nat) (text : String) :
    ∀ a ∈ readNested n text, hasBracket a = false → a.Usable := by
  induction n generalizing text with
  | zero =>
    intro a ha
    exact absurd ha not_mem_nil
  | succ n ih =>
    intro a ha hbracket
    rw [readNested] at ha
    unfold readStripped at ha
    dsimp only at ha
    split at ha
    · exact absurd ha not_mem_nil
    split at ha
    · exact absurd ha not_mem_nil
    split at ha
    · rename_i name hname
      rw [mem_singleton] at ha
      exact ha ▸ usable_builtin (denoted?_standard hname)
    · split at ha
      · exact usable_readHeaded (fun part => ih (String.ofList part)) ha hbracket
      · rw [mem_singleton] at ha
        subst ha
        exact usable_user hbracket

/-- Every type that is read is usable. -/
theorem usable_read (text : String) : ∀ a ∈ Shape.read text, a.Usable := by
  intro a ha
  unfold Shape.read at ha
  dsimp only at ha
  split at ha
  · exact absurd ha not_mem_nil
  split at ha
  · exact absurd ha not_mem_nil
  · rename_i hbracket
    rw [Bool.not_eq_true] at hbracket
    exact usable_readNested _ _ a ha (anyBracket_eq_false_iff.mp hbracket a ha)

/-! ## Cells of usable shapes -/

/-- Types are added so that all of them are sound. -/
structure Sprouts (base : Nat) (s : Store) (as : List Shape) (es : List Entry) (u : Store) :
    Prop where
  keeps : s.Extends u
  sound : u.AllSound base
  holds : u.Holds base es
  length_eq : es.length = as.length

theorem AllSound.pushRow (h : s.AllSound base) (entries : List Entry) :
    AllSound base { s with rows := s.rows.push entries } :=
  ((StaysSound.refl h).pushRow entries).sound

theorem Holds.extend {entries : List Entry} (h : s.Holds base entries) (hext : s.Extends u) :
    u.Holds base entries := by
  intro e he
  obtain ⟨t, heq, hbase, hlt⟩ := h e he
  exact ⟨t, heq, hbase, Nat.lt_of_lt_of_le hlt hext.types_le⟩

/-- Making the cells of a shape keeps all types sound. -/
def Sprouting (base : Nat) (a : Shape) : Prop :=
  ∀ s : Store, base ≤ s.types.size → s.AllSound base →
    Ends (alloc a).run s fun t u => Sprouts base s [a] [.type t] u

theorem allocAll_sound_of_mem (h : ∀ a ∈ as, Sprouting base a) (hbase : base ≤ s.types.size)
    (hs : s.AllSound base) : Ends (allocAll as).run s (Sprouts base s as) := by
  induction as generalizing s with
  | nil =>
    rw [allocAll]
    exact Ends.of_eq rfl ⟨Extends.refl s, hs, by simp [Holds], rfl⟩
  | cons a as ih =>
    obtain ⟨ha, has⟩ := forall_mem_cons.mp h
    rw [allocAll]
    apply (ha s hbase hs).bind
    intro t u hu
    apply (ih has (Nat.le_trans hbase hu.keeps.types_le) hu.sound).bind
    intro es w hw
    refine Ends.of_eq rfl ⟨hu.keeps.trans hw.keeps, hw.sound, ?_, by simp [hw.length_eq]⟩
    have hfirst := Holds.extend hu.holds hw.keeps
    intro e he
    obtain rfl | he := mem_cons.mp he
    · exact hfirst _ mem_cons_self
    · exact hw.holds e he

theorem allocRow_sound (h : ∀ a ∈ as, Sprouting base a) (hbase : base ≤ s.types.size)
    (hs : s.AllSound base) :
    Ends (allocRow as).run s fun r u =>
      r.index < u.rows.size ∧ Sprouts base s as (u.rowAt r) u := by
  rw [allocRow]
  apply (allocAll_sound_of_mem h hbase hs).bind
  intro es u hu
  have hpush := Extends.pushRow u es
  have hrow := rowAt_push u es ⟨u.rows.size⟩
  rw [if_pos rfl] at hrow
  refine Ends.of_eq (newRow_run es u) ⟨by simp, ?_⟩
  rw [hrow]
  exact ⟨hu.keeps.trans hpush, AllSound.pushRow hu.sound es, Holds.extend hu.holds hpush,
    hu.length_eq⟩

theorem isUsable_of_standard {c : TypeCell} (hcategory : c.category = .builtin)
    (hname : c.name ∈ standardNames) : c.IsUsable :=
  .inl ⟨hcategory, rank?_standard hname, printed?_isSome hname⟩

/-- A type that is added after its contents is sound. -/
theorem AllSound.pushType (h : s.AllSound base) {cell : TypeCell} (hcell : cell.IsUsable)
    (hoptional : lower cell.name = "optional" → s.rowAt cell.elements = [])
    (hrows : ∀ r ∈ [cell.elements, cell.keys, cell.values],
      r.index < s.rows.size ∧ s.Holds base (s.rowAt r)) :
    AllSound base { s with types := s.types.push cell } := by
  intro t hbase hlt
  by_cases ht : t.index = s.types.size
  · have hnew : typeAt { s with types := s.types.push cell } t = cell := by
      rw [typeAt_push, if_pos ht]
    constructor
    · rw [hnew]
      exact hcell
    · rw [hnew]
      exact hoptional
    · rw [contents, hnew]
      exact fun r hr => (hrows r hr).1
    · rw [contents, hnew]
      intro r hr e he
      obtain ⟨c, heq, hc, hct⟩ := (hrows r hr).2 e he
      exact ⟨c, heq, hc, ht ▸ hct⟩
  · have hlt' : t.index < s.types.size := by
      rw [Array.size_push] at hlt
      omega
    refine (h t hbase hlt').of_eq ?_ (Nat.le_refl _) fun _ _ => rfl
    rw [typeAt_push, if_neg ht]

/-- Making the cells of a usable shape keeps all types sound. -/
theorem Usable.sprouting {a : Shape} (ha : a.Usable) (base : Nat) : Sprouting base a := by
  induction ha with
  | @mk name category elements keys values cell optional _ _ _ helements hkeys hvalues =>
    intro s hbase hs
    rw [alloc]
    apply (allocRow_sound helements hbase hs).bind
    rintro er u ⟨her, hu⟩
    have hbaseu : base ≤ u.types.size := Nat.le_trans hbase hu.keeps.types_le
    apply (allocRow_sound hkeys hbaseu hu.sound).bind
    rintro kr w ⟨hkr, hw⟩
    have hbasew : base ≤ w.types.size := Nat.le_trans hbaseu hw.keeps.types_le
    apply (allocRow_sound hvalues hbasew hw.sound).bind
    rintro vr x ⟨hvr, hx⟩
    let new : TypeCell :=
      { name, category, elements := er, keys := kr, values := vr
        compatible := TypeCell.compatibleNames name }
    have hwx := hx.keeps
    have hux := hw.keeps.trans hwx
    have hnew : new.IsUsable := by
      obtain ⟨hcategory, hname⟩ | huser := cell
      · exact isUsable_of_standard hcategory hname
      · exact .inr huser
    have hempty : lower name = "optional" → x.rowAt er = [] := by
      intro hname
      have hlength := hu.length_eq
      rw [optional hname] at hlength
      rw [hux.rowAt_eq er her]
      exact length_eq_zero_iff.mp hlength
    have hrows : ∀ r ∈ [er, kr, vr], r.index < x.rows.size ∧ x.Holds base (x.rowAt r) := by
      simp only [forall_mem_cons]
      refine ⟨⟨Nat.lt_of_lt_of_le her hux.rows_le, ?_⟩,
        ⟨Nat.lt_of_lt_of_le hkr hwx.rows_le, ?_⟩, ⟨hvr, hx.holds⟩, by simp⟩
      · rw [hux.rowAt_eq er her]
        exact Holds.extend hu.holds hux
      · rw [hwx.rowAt_eq kr hkr]
        exact Holds.extend hw.holds hwx
    have hpush := Extends.pushType x new
    refine Ends.of_eq (newCell_run new x) ⟨hu.keeps.trans (hux.trans hpush),
      AllSound.pushType hx.sound hnew hempty hrows, ?_, rfl⟩
    intro e he
    rw [mem_singleton] at he
    exact ⟨_, he, Nat.le_trans hbasew hwx.types_le, by simp⟩

end Shape

namespace Eval

theorem readTypes_sound (text : String) (hbase : base ≤ s.types.size) (hs : s.AllSound base) :
    Ends (readTypes text).run s (Shape.Sprouts base s (Shape.read text)) :=
  Shape.allocAll_sound_of_mem (fun a ha => (Shape.usable_read text a ha).sprouting base) hbase hs

end Eval

/-! ## Using types -/

/-- A comparison, simplification or print of types. -/
inductive Use where
  | identical (l r : TypeId)
  | similar (l r : TypeId)
  | inclusion (l r : TypeId)
  | setIncluded (ls rs : List TypeId)
  | setSimilar (ls rs : List TypeId)
  | maximal (ts : List TypeId)
  | print (t : TypeId)

namespace Use

def types : Use → List TypeId
  | .identical l r | .similar l r | .inclusion l r => [l, r]
  | .setIncluded ls rs | .setSimilar ls rs => ls ++ rs
  | .maximal ts => ts
  | .print t => [t]

/-- A computation without its answer. -/
def unanswered {α : Type} (x : Typing α) : Typing Unit := do
  let _ ← x
  return ()

def run : Use → Typing Unit
  | .identical l r => unanswered (Eval.identical (.type l) (.type r))
  | .similar l r => unanswered (Eval.similar (.type l) (.type r))
  | .inclusion l r => unanswered (Eval.inclusion (.type l) (.type r))
  | .setIncluded ls rs => unanswered (Eval.setIncluded (ls.map .type) (rs.map .type))
  | .setSimilar ls rs => unanswered (Eval.setSimilar (ls.map .type) (rs.map .type))
  | .maximal ts => unanswered (Eval.maximal (ts.map .type))
  | .print t => unanswered (Eval.print (.type t))

theorem unanswered_ends {α : Type} {x : Typing α} {P : Store → Prop}
    (hx : Ends x.run s fun _ u => P u) : Ends (unanswered x).run s fun _ u => P u :=
  hx.bind fun _ _ hu => Ends.of_eq rfl hu

/-- A use of sound types comes to an end and keeps all types sound. -/
theorem run_ends (q : Use) (hs : s.AllSound base)
    (hq : ∀ t ∈ q.types, base ≤ t.index ∧ t.index < s.types.size) :
    Ends q.run.run s fun _ u => StaysSound base s u := by
  have hholds (ts : List TypeId) (hts : ts ⊆ q.types) : s.Holds base (ts.map .type) := by
    intro e he
    obtain ⟨t, ht, rfl⟩ := mem_map.mp he
    exact ⟨t, rfl, hq t (hts ht)⟩
  have husable (ts : List TypeId) (hts : ts ⊆ q.types) : s.Usable (ts.map .type) :=
    hs.usable (hholds ts hts)
  -- comparisons leave the store as it is
  have hsame {α : Type} {x : Typing α} (h : ∃ a, x.run s = .ok a s) :
      Ends (unanswered x).run s fun _ u => StaysSound base s u := by
    obtain ⟨a, ha⟩ := h
    exact unanswered_ends (Ends.of_eq ha (StaysSound.refl hs))
  cases q with
  | identical l r =>
    apply hsame
    exact (Ty.answers_identical discardForeign (husable [l] (by simp [types])).1
      (husable [r] (by simp [types])).1).exists_ok s
  | similar l r =>
    apply hsame
    exact (Ty.answers_similar (husable [l] (by simp [types])).1
      (husable [r] (by simp [types])).1).exists_ok s
  | inclusion l r =>
    apply hsame
    exact (Ty.answers_inclusion discardForeign _ _ (husable [l] (by simp [types])).1
      (husable [r] (by simp [types])).1).exists_ok s
  | setIncluded ls rs =>
    apply hsame
    exact (Ty.answers_setIncluded discardForeign (husable ls (by simp [types]))
      (husable rs (by simp [types]))).exists_ok s
  | setSimilar ls rs =>
    apply hsame
    exact (Ty.answers_setSimilar discardForeign (husable ls (by simp [types]))
      (husable rs (by simp [types]))).exists_ok s
  | maximal ts => exact unanswered_ends (maximal_ends hs (hholds ts (by simp [types])))
  | print t =>
    obtain ⟨hbase, hlt⟩ := hq t (by simp [types])
    exact unanswered_ends (print_ends hs hbase hlt)

/-- Any number of uses of sound types. -/
theorem forM_run_ends (uses : List Use) (hs : s.AllSound base)
    (huses : ∀ q ∈ uses, ∀ t ∈ q.types, base ≤ t.index ∧ t.index < s.types.size) :
    Ends (uses.forM run).run s fun _ u => StaysSound base s u := by
  induction uses generalizing s with
  | nil => exact Ends.of_eq rfl (StaysSound.refl hs)
  | cons q uses ih =>
    obtain ⟨hq, hrest⟩ := forall_mem_cons.mp huses
    apply (run_ends q hs hq).bind
    intro _ u hu
    refine (ih hu.sound fun q hq t ht => ?_).imp fun _ _ => hu.trans
    rw [hu.types_eq]
    exact hrest q hq t ht

end Use

/-- The types at any depth of what two texts are read as are standard types with a rank and a
printed form, or user types without brackets in their names. They stay so, and no sequence of
comparisons, simplifications and prints of them stops with a fault. -/
theorem Eval.readTypes_safe (left right : String) (s : Store) :
    Ends (do
      let l ← readTypes left
      let r ← readTypes right
      return l ++ r : Typing (List Entry)).run s fun entries u =>
        ∃ ids, Adds ids s u ∧ u.ShowsAll (Shape.read left ++ Shape.read right) entries ids ∧
          ∀ uses : List Use, (∀ q ∈ uses, q.types ⊆ ids) →
            Ends (uses.forM Use.run).run u fun _ w => ∀ t ∈ ids, (w.typeAt t).IsUsable := by
  have hstart : s.AllSound s.types.size := fun t hbase hlt => absurd hlt (Nat.not_lt.mpr hbase)
  apply ((Shape.allocAll_ends (Shape.read left) s).and
    (readTypes_sound left (Nat.le_refl _) hstart)).bind
  rintro l u ⟨⟨ids, hids, hl⟩, hu⟩
  apply ((Shape.allocAll_ends (Shape.read right) u).and
    (readTypes_sound right hu.keeps.types_le hu.sound)).bind
  rintro r w ⟨⟨jds, hjds, hr⟩, hw⟩
  have hadds := hids.append hjds
  refine Ends.of_eq rfl ⟨ids ++ jds, hadds, (hl.extend hjds.keeps).append hr, ?_⟩
  intro uses huses
  refine (Use.forM_run_ends uses hw.sound fun q hq t ht => hadds.new t (huses q hq ht)).imp ?_
  intro _ v hv t ht
  obtain ⟨hbase, hlt⟩ := hadds.new t ht
  exact (hv.sound t hbase (by rw [hv.types_eq]; exact hlt)).cell

end TypeFlow
