import TypeFlow.Proofs.Answers
import TypeFlow.Proofs.Cells
import TypeFlow.Proofs.Names
import TypeFlow.Type.Print

/-!
# Types that have been read can be used

Every type that reading gives is a standard type with a rank and a printed form, or a user type
without brackets in its name. Types are read after their contents, so contents have smaller
numbers than what they are contents of. Comparing, simplifying and printing keep that: a
simplified row is a part of the row it replaces. So no sequence of such operations on types that
have been read stops with a fault.
-/

set_option synthInstance.maxSize 2000

namespace TypeFlow

open Store

variable {t : TypeId} {entries outs : List Entry} {I : Store → Prop} {n base : Nat} {s u w : Store}

theorem Vocabulary.rank?_standard {name : String} (h : name ∈ standardNames) :
    (rank? (Text.lower name)).isSome := by
  refine rank?_isSome ?_
  simp only [standardNames, List.mem_append] at h ⊢
  grind

/-- A cell of a standard type with a rank and a printed form, or of a user type without brackets
in its name. -/
def TypeCell.IsUsable (c : TypeCell) : Prop :=
  (c.category = .builtin ∧ (Vocabulary.rank? (Text.lower c.name)).isSome ∧
      (Vocabulary.printed? (Text.lower c.name)).isSome) ∨
    (c.category = .user ∧ '[' ∉ c.name.toList ∧ ']' ∉ c.name.toList)

namespace Store

/-- A type whose contents are types with smaller numbers. -/
structure Sound (base : Nat) (s : Store) (t : TypeId) : Prop where
  cell : (s.typeAt t).IsUsable
  optional : Text.lower (s.typeAt t).name = "optional" → s.rowAt (s.typeAt t).elements = []
  rows : ∀ r ∈ s.contents t, r.index < s.rows.size
  below : ∀ r ∈ s.contents t, ∀ e ∈ s.rowAt r,
    ∃ c : TypeId, e = .type c ∧ base ≤ c.index ∧ c.index < t.index

theorem mem_contents (s : Store) (t : TypeId) : (s.typeAt t).elements ∈ s.contents t ∧
    (s.typeAt t).keys ∈ s.contents t ∧ (s.typeAt t).values ∈ s.contents t := by
  simp [contents]

/-- All types from a number on are sound. -/
def AllSound (base : Nat) (s : Store) : Prop :=
  ∀ t : TypeId, base ≤ t.index → t.index < s.types.size → s.Sound base t

/-- Entries that are types from a number on. -/
def Holds (base : Nat) (s : Store) (entries : List Entry) : Prop :=
  ∀ e ∈ entries, ∃ t : TypeId, e = .type t ∧ base ≤ t.index ∧ t.index < s.types.size

/-- Comparisons find what they need in entries. -/
def Usable (s : Store) (entries : List Entry) : Prop :=
  Item.Usable (entries.map (unfoldItem (s.unfoldType s.depth) (s.unfoldRow s.depth)))

theorem Usable.subset (h : s.Usable entries) (hsub : outs ⊆ entries) : s.Usable outs := by
  rw [Usable, Item.usable_iff] at h ⊢
  intro i hi
  obtain ⟨e, he, rfl⟩ := List.mem_map.mp hi
  exact h _ (List.mem_map_of_mem (hsub he))

/-- The tree of a sound type is usable when it is unfolded far enough. -/
theorem AllSound.unfoldType (h : s.AllSound base) (hbase : base ≤ t.index)
    (hlt : t.index < s.types.size) (hn : 2 * t.index + 2 ≤ n) : (s.unfoldType n t).Usable := by
  induction hk : t.index using Nat.strongRecOn generalizing n t with
  | ind k ih =>
    subst hk
    obtain ⟨n, rfl⟩ : ∃ m, n = m + 2 := ⟨n - 2, by omega⟩
    have ht := h t hbase hlt
    have hrow (r : RowId) (hr : r ∈ s.contents t) : (s.unfoldRow (n + 1) r).Usable := by
      rw [Store.unfoldRow, Row.Usable, Item.usable_iff]
      intro i hi
      obtain ⟨e, he, rfl⟩ := List.mem_map.mp hi
      obtain ⟨c, rfl, hc, hct⟩ := ht.below r hr e he
      exact ⟨ih c.index hct hc (by omega) (by omega) rfl, trivial⟩
    obtain ⟨helements, hkeys, hvalues⟩ := s.mem_contents t
    refine ⟨fun hbuiltin => ?_, fun hoptional => ?_, hrow _ helements, hrow _ hkeys,
      hrow _ hvalues⟩
    · obtain ⟨-, hrank, -⟩ | ⟨huser, -⟩ := ht.cell
      · exact hrank
      · exact absurd (hbuiltin.symm.trans huser) (by decide)
    · simp [Store.unfoldRow, Row.items, ht.optional hoptional]

theorem AllSound.usable (h : s.AllSound base) (hentries : s.Holds base entries) :
    s.Usable entries := by
  rw [Usable, Item.usable_iff]
  intro i hi
  obtain ⟨e, he, rfl⟩ := List.mem_map.mp hi
  obtain ⟨t, rfl, hbase, hlt⟩ := hentries e he
  exact ⟨h.unfoldType hbase hlt (by rw [depth]; omega), trivial⟩

end Store

namespace Eval

/-! ## Simplifying rows -/

section Rows

variable {simplify : TypeId → Typing Unit}

theorem existSame_answers {e : Entry} (h : s.Usable entries) (he : e ∈ entries)
    (houts : outs ⊆ entries) : ∃ b, (existSame e outs).run s = .ok b s := by
  have hone : s.Usable [e] := h.subset (by simpa using he)
  exact (Ty.answers_existSame discardForeign hone (h.subset houts)).exists_ok s

/-- Dropping types that are identical to an earlier one leaves a part of the entries. -/
theorem distinctBy_ends
    (hsimplify : ∀ t, .type t ∈ entries → ∀ s, I s → Ends (simplify t).run s fun _ u => I u)
    (husable : ∀ s, I s → s.Usable entries) (hs : I s) :
    Ends (distinctBy simplify entries).run s fun outs u => I u ∧ outs.Sublist entries := by
  let P (done outs : List Entry) (u : Store) : Prop := I u ∧ outs.Sublist done
  refine Typing.foldlM_ends (P := P) ?_ ⟨hs, List.Sublist.refl []⟩
  rintro done e rest outs s hsplit ⟨hs, houts⟩
  have he : e ∈ entries := by simp [hsplit]
  have hsub : outs ⊆ entries := by
    intro o ho
    simp [hsplit, houts.subset ho]
  have hgo (u : Store) (hu : I u) : Ends (do
      if ← existSame e outs then return outs else return outs ++ [e] : Typing (List Entry)).run u
      fun outs u => I u ∧ outs.Sublist (done ++ [e]) := by
    obtain ⟨b, hb⟩ := existSame_answers (husable u hu) he hsub
    refine Ends.step hb ?_
    cases b with
    | true => exact Ends.of_eq rfl ⟨hu, houts.trans (List.sublist_append_left _ _)⟩
    | false => exact Ends.of_eq rfl ⟨hu, houts.append_right [e]⟩
  cases e with
  | type t => exact (hsimplify t he s hs).bind fun _ u hu => hgo u hu
  | text | absent | group => exact hgo s hs

theorem dropIncluded_ends (n : Nat) (h : s.Usable outs) :
    Ends (dropIncluded n outs).run s fun outs' u => u = s ∧ outs'.Sublist outs := by
  induction n generalizing outs with
  | zero => exact Ends.of_eq rfl ⟨rfl, List.Sublist.refl _⟩
  | succ n ih =>
    obtain ⟨o, ho⟩ := (Ty.answers_lastIncluded discardForeign h).exists_ok s
    rw [dropIncluded]
    refine Ends.step (a := outs.map _) rfl (Ends.step ho ?_)
    cases o with
    | none => exact Ends.of_eq rfl ⟨rfl, List.Sublist.refl _⟩
    | some i =>
      have herase : (outs.erase (outs.getD i .absent)).Sublist outs := List.erase_sublist
      refine (ih (h.subset herase.subset)).imp ?_
      rintro outs' u ⟨hu, houts'⟩
      exact ⟨hu, houts'.trans herase⟩

/-- A simplified row is a part of the row. -/
theorem maximalBy_ends
    (hsimplify : ∀ t, .type t ∈ entries → ∀ s, I s → Ends (simplify t).run s fun _ u => I u)
    (husable : ∀ s, I s → s.Usable entries) (hs : I s) :
    Ends (maximalBy simplify entries).run s fun outs u => I u ∧ outs.Sublist entries := by
  rw [maximalBy]
  apply (distinctBy_ends hsimplify husable hs).bind
  rintro outs u ⟨hu, houts⟩
  refine (dropIncluded_ends _ ((husable u hu).subset houts.subset)).imp ?_
  rintro outs' w ⟨rfl, houts'⟩
  exact ⟨hu, houts'.trans houts⟩

end Rows

end Eval

/-! ## Changes of contents -/

namespace Store

variable {r : RowId} {f : TypeCell → TypeCell}

/-- Types are sound and have their names, and rows that were there are as before. -/
structure StaysSound (base : Nat) (s u : Store) : Prop where
  sound : u.AllSound base
  types_eq : u.types.size = s.types.size
  rows_le : s.rows.size ≤ u.rows.size
  rowAt_eq : ∀ r : RowId, r.index < s.rows.size → u.rowAt r = s.rowAt r
  name_eq : ∀ t : TypeId, (u.typeAt t).name = (s.typeAt t).name

namespace StaysSound

theorem refl (h : s.AllSound base) : StaysSound base s s :=
  ⟨h, rfl, Nat.le_refl _, fun _ _ => rfl, fun _ => rfl⟩

theorem trans (h₁ : StaysSound base s u) (h₂ : StaysSound base u w) : StaysSound base s w where
  sound := h₂.sound
  types_eq := h₂.types_eq.trans h₁.types_eq
  rows_le := Nat.le_trans h₁.rows_le h₂.rows_le
  rowAt_eq r hr := (h₂.rowAt_eq r (Nat.lt_of_lt_of_le hr h₁.rows_le)).trans (h₁.rowAt_eq r hr)
  name_eq t := (h₂.name_eq t).trans (h₁.name_eq t)

theorem holds (h : StaysSound base s u) (hentries : s.Holds base entries) :
    u.Holds base entries := by
  intro e he
  obtain ⟨t, heq, hbase, hlt⟩ := hentries e he
  exact ⟨t, heq, hbase, by rw [h.types_eq]; exact hlt⟩

end StaysSound

theorem AllSound.holds_row (h : s.AllSound base) (hbase : base ≤ t.index)
    (hlt : t.index < s.types.size) (hr : r ∈ s.contents t) : s.Holds base (s.rowAt r) := by
  intro e he
  obtain ⟨c, heq, hc, hct⟩ := (h t hbase hlt).below r hr e he
  exact ⟨c, heq, hc, Nat.lt_trans hct hlt⟩

/-- A type is sound as long as its cell and its rows are as before. -/
theorem Sound.of_eq (h : s.Sound base t) (hcell : u.typeAt t = s.typeAt t)
    (hrows : s.rows.size ≤ u.rows.size)
    (hrow : ∀ r : RowId, r.index < s.rows.size → u.rowAt r = s.rowAt r) : u.Sound base t := by
  have hcontents : u.contents t = s.contents t := by rw [contents, contents, hcell]
  constructor
  · rw [hcell]
    exact h.cell
  · intro hoptional
    rw [hcell] at hoptional ⊢
    rw [hrow _ (h.rows _ (s.mem_contents t).1), h.optional hoptional]
  · intro r hr
    rw [hcontents] at hr
    exact Nat.lt_of_lt_of_le (h.rows r hr) hrows
  · intro r hr e he
    rw [hcontents] at hr
    rw [hrow r (h.rows r hr)] at he
    exact h.below r hr e he

theorem StaysSound.pushRow (h : StaysSound base s u) (outs : List Entry) :
    StaysSound base s { u with rows := u.rows.push outs } := by
  refine h.trans ⟨fun t hbase hlt => ?_, rfl, by simp, fun r hr => ?_, fun _ => rfl⟩
  · refine (h.sound t hbase hlt).of_eq rfl (by simp) fun r hr => ?_
    rw [rowAt_push, if_neg (Nat.ne_of_lt hr)]
  · rw [rowAt_push, if_neg (Nat.ne_of_lt hr)]

/-- A change of one type that leaves it sound. -/
theorem StaysSound.modifyType (h : StaysSound base s u)
    (hname : (f (u.typeAt t)).name = (u.typeAt t).name)
    (hsound : Sound base { u with types := u.types.modify t.index f } t) :
    StaysSound base s { u with types := u.types.modify t.index f } := by
  refine h.trans ⟨fun p hbase hlt => ?_, by simp, Nat.le_refl _, fun _ _ => rfl, fun p => ?_⟩
  · by_cases hp : p = t
    · rw [hp]
      exact hsound
    · refine (h.sound p hbase (by simpa using hlt)).of_eq ?_ (Nat.le_refl _) fun _ _ => rfl
      rw [typeAt_modify, if_neg (by simp [hp])]
  · rw [typeAt_modify]
    split
    · rename_i hp
      rw [hp.1, hname]
    · rfl

/-- The rows of a cell are old ones or the given one, and the rest of the cell is as before. -/
structure Replaces (r : RowId) (c d : TypeCell) : Prop where
  name_eq : d.name = c.name
  category_eq : d.category = c.category
  elements : d.elements = r ∨ d.elements = c.elements
  keys : d.keys = r ∨ d.keys = c.keys
  values : d.values = r ∨ d.values = c.values

/-- A type may take a new row of types with smaller numbers. -/
theorem StaysSound.replace (h : StaysSound base s u) (hbase : base ≤ t.index)
    (hlt : t.index < s.types.size)
    (houts : ∀ e ∈ outs, ∃ c : TypeId, e = .type c ∧ base ≤ c.index ∧ c.index < t.index)
    (hf : ∀ c, Replaces ⟨u.rows.size⟩ c (f c))
    (hoptional : Text.lower (s.typeAt t).name = "optional" →
      outs = [] ∨ ∀ c, (f c).elements = c.elements) :
    StaysSound base s { u with types := u.types.modify t.index f, rows := u.rows.push outs } := by
  have hpush := h.pushRow outs
  let v : Store := { u with rows := u.rows.push outs }
  have hltv : t.index < v.types.size := by
    rw [hpush.types_eq]
    exact hlt
  have ht := hpush.sound t hbase hltv
  have hnew : v.rowAt ⟨u.rows.size⟩ = outs := by rw [rowAt_push, if_pos rfl]
  refine hpush.modifyType (hf _).name_eq ?_
  have hcell : typeAt { v with types := v.types.modify t.index f } t = f (v.typeAt t) := by
    rw [typeAt_modify, if_pos ⟨rfl, hltv⟩]
  -- every row of the changed cell is the new one or one that the type had
  have hold : ∀ r ∈ contents { v with types := v.types.modify t.index f } t,
      r = ⟨u.rows.size⟩ ∨ r ∈ v.contents t := by
    rw [contents, hcell, contents]
    have := hf (v.typeAt t)
    simp only [List.mem_cons]
    grind [Replaces]
  constructor
  · rw [hcell, TypeCell.IsUsable, (hf _).name_eq, (hf _).category_eq]
    exact ht.cell
  · intro hname
    rw [hcell, (hf _).name_eq] at hname
    rw [hcell]
    change v.rowAt _ = []
    have hempty := ht.optional hname
    rw [hpush.name_eq] at hname
    obtain houts | helements := hoptional hname
    · obtain hr | hr := (hf (v.typeAt t)).elements
      · rw [hr, hnew, houts]
      · rw [hr, hempty]
    · rw [helements, hempty]
  · intro r hr
    obtain rfl | hr := hold r hr
    · simp
    · exact ht.rows r hr
  · intro r hr e he
    obtain rfl | hr := hold r hr
    · exact houts e (hnew ▸ he)
    · exact ht.below r hr e he

theorem Sound.mono_lt (h : s.Sound base t) (hr : r ∈ s.contents t) (houts : outs ⊆ s.rowAt r) :
    ∀ e ∈ outs, ∃ c : TypeId, e = .type c ∧ base ≤ c.index ∧ c.index < t.index :=
  fun e he => h.below r hr e (houts he)

end Store

namespace Eval

variable (h : s.AllSound base) (hbase : base ≤ t.index) (hlt : t.index < s.types.size)

/-- Put a row of entries into a type. -/
theorem newRow_modifyType_ends (h : StaysSound base s u) (hbase : base ≤ t.index)
    (hlt : t.index < s.types.size)
    (houts : ∀ e ∈ outs, ∃ c : TypeId, e = .type c ∧ base ≤ c.index ∧ c.index < t.index)
    {f : RowId → TypeCell → TypeCell} (hf : ∀ r c, Replaces r c (f r c))
    (hoptional : Text.lower (s.typeAt t).name = "optional" →
      outs = [] ∨ ∀ r c, (f r c).elements = c.elements) :
    Ends (do
      let r ← newRow outs
      modifyType t (f r)).run u fun _ w => StaysSound base s w :=
  Ends.step (newRow_run outs u) (Ends.of_eq (modifyType_run t _ _)
    (h.replace hbase hlt houts (hf _) fun hname => (hoptional hname).imp_right (· _)))

include h hbase hlt in
/-- Simplifying a type keeps all types sound. -/
theorem simplifyTo_ends (hn : t.index < n) :
    Ends (simplifyTo n t).run s fun _ u => StaysSound base s u := by
  induction n generalizing s t with
  | zero => exact absurd hn (Nat.not_lt_zero _)
  | succ n ih =>
    have ht := h t hbase hlt
    have hsimplify (r : RowId) (hr : r ∈ s.contents t) (c : TypeId)
        (hc : Entry.type c ∈ s.rowAt r) (u : Store) (hu : StaysSound base s u) :
        Ends (simplifyTo n c).run u fun _ w => StaysSound base s w := by
      obtain ⟨_, ⟨⟩, hcbase, hct⟩ := ht.below r hr _ hc
      refine (ih hu.sound hcbase (by rw [hu.types_eq]; omega) (by omega)).imp ?_
      exact fun _ w hw => hu.trans hw
    have husable (r : RowId) (hr : r ∈ s.contents t) (u : Store) (hu : StaysSound base s u) :
        u.Usable (s.rowAt r) := hu.sound.usable (hu.holds (h.holds_row hbase hlt hr))
    obtain ⟨helements, hkeys, hvalues⟩ := s.mem_contents t
    rw [simplifyTo]
    refine Ends.step (type_run t s) ?_
    dsimp only
    split
    · rename_i hcontainer
      refine Ends.step (row_run _ s) ?_
      apply (maximalBy_ends (hsimplify _ helements) (husable _ helements) (StaysSound.refl h)).bind
      rintro outs u ⟨hu, houts⟩
      refine newRow_modifyType_ends hu hbase hlt (ht.mono_lt helements houts.subset) ?_ ?_
      · intro r c
        exact ⟨rfl, rfl, .inl rfl, .inr rfl, .inr rfl⟩
      · intro hoptional
        rw [hoptional] at hcontainer
        exact absurd hcontainer (by decide +kernel)
    split
    · rename_i hdict
      refine Ends.step (row_run _ s) ?_
      apply (maximalBy_ends (hsimplify _ hkeys) (husable _ hkeys) (StaysSound.refl h)).bind
      rintro outs u ⟨hu, houts⟩
      have hu' := hu.replace hbase hlt (ht.mono_lt hkeys houts.subset)
        (f := fun c => { c with keys := ⟨u.rows.size⟩ })
        (fun c => ⟨rfl, rfl, .inr rfl, .inl rfl, .inr rfl⟩) fun _ => .inr fun _ => rfl
      refine Ends.step (newRow_run outs u) (Ends.step (modifyType_run t _ _) ?_)
      refine Ends.step (row_run _ _) ?_
      rw [hu'.rowAt_eq _ (ht.rows _ hvalues)]
      apply (maximalBy_ends (hsimplify _ hvalues) (husable _ hvalues) hu').bind
      rintro outs w ⟨hw, houts⟩
      refine newRow_modifyType_ends hw hbase hlt (ht.mono_lt hvalues houts.subset) ?_
        fun _ => .inr fun _ _ => rfl
      intro r c
      exact ⟨rfl, rfl, .inr rfl, .inr rfl, .inl rfl⟩
    split
    · rename_i hoptional
      -- an optional type that has been read has no content
      refine Ends.step (row_run _ s) ?_
      rw [ht.optional hoptional]
      have hnone : ∀ e ∈ ([] : List Entry),
          ∃ c : TypeId, e = .type c ∧ base ≤ c.index ∧ c.index < t.index := by simp
      have hu := (StaysSound.refl h).replace hbase hlt hnone
        (f := fun c => { c with elements := ⟨s.rows.size⟩ })
        (fun c => ⟨rfl, rfl, .inl rfl, .inr rfl, .inr rfl⟩) fun _ => .inl rfl
      refine Ends.step (a := []) (t := s) rfl (Ends.step (newRow_run [] s) ?_)
      exact Ends.step (modifyType_run t _ _) (Ends.of_eq rfl hu)
    · exact Ends.of_eq rfl (StaysSound.refl h)

theorem typesOf_eq (h : ∀ e ∈ entries, ∃ c, e = .type c) :
    (typesOf entries).map Entry.type = entries := by
  induction entries with
  | nil => rfl
  | cons e rest ih =>
    obtain ⟨c, rfl⟩ := h e List.mem_cons_self
    have hrest := ih fun e he => h e (List.mem_cons_of_mem _ he)
    rw [typesOf] at hrest ⊢
    simp [hrest]

include h hbase hlt in
/-- Tidying a type keeps all types sound. -/
theorem tidyTo_ends (hn : t.index < n) :
    Ends (tidyTo n t).run s fun _ u => StaysSound base s u := by
  induction n generalizing s t with
  | zero => exact absurd hn (Nat.not_lt_zero _)
  | succ n ih =>
    have ht := h t hbase hlt
    obtain ⟨helements, hkeys, hvalues⟩ := s.mem_contents t
    have htypes (r : RowId) (hr : r ∈ s.contents t) :
        (typesOf (s.rowAt r)).map Entry.type = s.rowAt r := by
      refine typesOf_eq fun e he => ?_
      obtain ⟨c, hc, -⟩ := ht.below r hr e he
      exact ⟨c, hc⟩
    have hloop (r : RowId) (hr : r ∈ s.contents t) (u : Store) (hu : StaysSound base s u) :
        Ends (forIn (typesOf (s.rowAt r)) PUnit.unit fun c _ => do
          tidyTo n c
          pure (ForInStep.yield PUnit.unit)).run u fun _ w => StaysSound base s w := by
      refine Typing.forIn_ends (fun c hc u hu => ?_) hu
      have hmem : Entry.type c ∈ s.rowAt r := by
        rw [← htypes r hr]
        exact List.mem_map_of_mem hc
      obtain ⟨_, ⟨⟩, hcbase, hct⟩ := ht.below r hr _ hmem
      refine (ih hu.sound hcbase (by rw [hu.types_eq]; omega) (by omega)).imp ?_
      exact fun _ w hw => hu.trans hw
    have hbelow (r : RowId) (hr : r ∈ s.contents t) : ∀ e ∈ (typesOf (s.rowAt r)).map Entry.type,
          ∃ c : TypeId, e = .type c ∧ base ≤ c.index ∧ c.index < t.index := by
      rw [htypes r hr]
      exact ht.below r hr
    rw [tidyTo]
    refine Ends.step (type_run t s) (Ends.step (row_run _ s) ?_)
    apply (hloop _ helements s (StaysSound.refl h)).bind
    intro _ u hu
    have hu' := hu.replace hbase hlt (hbelow _ helements)
      (f := fun c => { c with elements := ⟨u.rows.size⟩ })
      (fun c => ⟨rfl, rfl, .inl rfl, .inr rfl, .inr rfl⟩) fun hoptional => .inl (by
        rw [ht.optional hoptional]
        rfl)
    refine Ends.step (newRow_run _ u) (Ends.step (modifyType_run t _ _) ?_)
    refine Ends.step (row_run _ _) ?_
    rw [hu'.rowAt_eq _ (ht.rows _ hkeys)]
    apply (hloop _ hkeys _ hu').bind
    intro _ w hw
    have hw' := hw.replace hbase hlt (hbelow _ hkeys)
      (f := fun c => { c with keys := ⟨w.rows.size⟩ })
      (fun c => ⟨rfl, rfl, .inr rfl, .inl rfl, .inr rfl⟩) fun _ => .inr fun _ => rfl
    refine Ends.step (newRow_run _ w) (Ends.step (modifyType_run t _ _) ?_)
    refine Ends.step (row_run _ _) ?_
    rw [hw'.rowAt_eq _ (ht.rows _ hvalues)]
    apply (hloop _ hvalues _ hw').bind
    intro _ v hv
    exact Ends.of_eq rfl hv

theorem lt_depth (hlt : t.index < s.types.size) : t.index < s.depth := by
  rw [depth]
  omega

include h hbase hlt in
theorem simplify_ends : Ends (simplify t).run s fun _ u => StaysSound base s u :=
  Ends.step (store_run s) (simplifyTo_ends h hbase hlt (lt_depth hlt))

include h hbase hlt in
theorem tidy_ends : Ends (tidy t).run s fun _ u => StaysSound base s u :=
  Ends.step (store_run s) (tidyTo_ends h hbase hlt (lt_depth hlt))

/-! ## Printing -/

/-- A computation comes to an end wherever a condition holds, and leaves it holding. -/
class Maintains (I : Store → Prop) {α : Type} (x : Typing α) : Prop where
  ends : ∀ s, I s → Ends x.run s fun _ u => I u

namespace Maintains

variable {α β : Type}

instance pure (a : α) : Maintains I (pure a : Typing α) := ⟨fun _ hs => Ends.of_eq rfl hs⟩

instance bind (x : Typing α) (f : α → Typing β) [hx : Maintains I x]
    [hf : ∀ a, Maintains I (f a)] : Maintains I (x >>= f) :=
  ⟨fun s hs => (hx.ends s hs).bind fun a u hu => (hf a).ends u hu⟩

instance ite (p : Prop) [Decidable p] (x y : Typing α) [Maintains I x] [Maintains I y] :
    Maintains I (if p then x else y) := by
  split <;> infer_instance

instance nameOf (c : TypeId) : Maintains I (nameOf (.type c)) := ⟨fun _ hs => Ends.of_eq rfl hs⟩

end Maintains

section Printing

variable {print : Entry → Typing String} (hprint : ∀ e ∈ entries, Maintains I (print e))

include hprint

theorem maintains_printedList : Maintains I (printedList print entries) := by
  have hmap : Maintains I (entries.mapM print) := by
    constructor
    intro s hs
    let P (_ : List Entry) (_ : List String) (u : Store) : Prop := I u
    refine Typing.mapM_ends (P := P) ?_ hs
    intro done e rest texts s hsplit hs
    exact (hprint e (by simp [hsplit])).ends s hs
  unfold printedList
  infer_instance

theorem maintains_printSide : Maintains I (printSide print entries) := by
  have := maintains_printedList hprint
  unfold printSide
  split
  · infer_instance
  · exact hprint _ (by simp)
  · infer_instance

theorem maintains_printElements (htypes : ∀ e ∈ entries, ∃ c, e = .type c) :
    Maintains I (printElements print entries) := by
  have := maintains_printSide hprint
  unfold printElements
  split
  · rename_i a b
    obtain ⟨a, rfl⟩ := htypes a (by simp)
    obtain ⟨b, rfl⟩ := htypes b (by simp)
    have := hprint (.type a) (by simp)
    have := hprint (.type b) (by simp)
    dsimp only
    infer_instance
  · infer_instance

end Printing

include h hbase hlt in
/-- Printing a type keeps all types sound. -/
theorem printTo_ends (hn : t.index < n) :
    Ends (printTo n (.type t)).run s fun _ u => StaysSound base s u := by
  induction n generalizing s t with
  | zero => exact absurd hn (Nat.not_lt_zero _)
  | succ n ih =>
    rw [printTo]
    apply (tidy_ends h hbase hlt).bind
    intro _ u hu
    have hltu : t.index < u.types.size := by rw [hu.types_eq]; exact hlt
    apply (simplify_ends hu.sound hbase hltu).bind
    intro _ w huw
    have hw : StaysSound base s w := hu.trans huw
    have hltw : t.index < w.types.size := by rw [hw.types_eq]; exact hlt
    have ht := hw.sound t hbase hltw
    have htypes (r : RowId) (hr : r ∈ w.contents t) : ∀ e ∈ w.rowAt r, ∃ c, e = .type c := by
      intro e he
      obtain ⟨c, hc, -⟩ := ht.below r hr e he
      exact ⟨c, hc⟩
    have hprint (r : RowId) (hr : r ∈ w.contents t) :
        ∀ e ∈ w.rowAt r, Maintains (StaysSound base s) (printTo n e) := by
      intro e he
      obtain ⟨c, rfl, hc, hct⟩ := ht.below r hr e he
      refine ⟨fun v hv => (ih hv.sound hc (by rw [hv.types_eq]; omega) (by omega)).imp ?_⟩
      exact fun _ _ => hv.trans
    obtain ⟨helements, hkeys, hvalues⟩ := w.mem_contents t
    have := maintains_printSide (hprint _ hkeys)
    have := maintains_printSide (hprint _ hvalues)
    have := maintains_printElements (hprint _ helements) (htypes _ helements)
    have := maintains_printedList (hprint _ helements)
    unfold printCell
    refine Ends.step (type_run t w) ?_
    dsimp only
    split
    · exact Ends.of_eq rfl hw
    rename_i hbuiltin
    have hprinted : (Vocabulary.printed? (Text.lower (w.typeAt t).name)).isSome := by
      obtain ⟨-, -, hprinted⟩ | ⟨huser, -⟩ := ht.cell
      · exact hprinted
      · rw [huser] at hbuiltin
        exact absurd (by decide) hbuiltin
    obtain ⟨form, hform⟩ := Option.isSome_iff_exists.mp hprinted
    rw [hform]
    refine Ends.step (row_run _ w) (Ends.step (row_run _ w) (Ends.step (row_run _ w) ?_))
    refine (?_ : Maintains (StaysSound base s) _).ends w hw
    dsimp only
    split
    · infer_instance
    split
    · infer_instance
    split
    · rename_i hoptional
      rw [ht.optional hoptional.1] at hoptional
      exact absurd hoptional.2 (by decide)
    · infer_instance

include h hbase hlt in
theorem print_ends : Ends (print (.type t)).run s fun _ u => StaysSound base s u :=
  Ends.step (store_run s) (printTo_ends h hbase hlt (lt_depth hlt))

theorem maximal_ends (h : s.AllSound base) (hentries : s.Holds base entries) :
    Ends (maximal entries).run s fun _ u => StaysSound base s u := by
  refine Ends.step (store_run s)
    ((maximalBy_ends (I := StaysSound base s) ?_ ?_ (StaysSound.refl h)).imp ?_)
  · intro t ht u hu
    obtain ⟨_, ⟨⟩, hbase, hlt⟩ := hentries _ ht
    have hltu : t.index < u.types.size := by rw [hu.types_eq]; exact hlt
    refine (simplifyTo_ends hu.sound hbase hltu (lt_depth hlt)).imp ?_
    exact fun _ _ => hu.trans
  · intro u hu
    exact hu.sound.usable (hu.holds hentries)
  · exact fun _ _ h => h.1

end Eval
end TypeFlow
