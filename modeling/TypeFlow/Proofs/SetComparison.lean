import TypeFlow.Proofs.Comparing

/-!
# Comparison of sets of types

To compare two lists of types is to search one of them for each type of the other. A search of
types that can be compared always gives an answer, and gives it by what is in the list, wherever it
stands. So a list meets every list that is a copy of it, and goes on meeting what it met when more
types come in.
-/

namespace TypeFlow

open Text Store Eval List Item

variable {s u : Store} {e : Entry} {es ds : List Entry} {as : List Shape} {c : Copies} {a : Shape}

/-! ## Searches -/

namespace Ty

variable {ls rs : List Item} {l r : Ty} {close : Ty → Ty → Prop} {ms : List Item}

/-- A type of one list is met by a type of another one. -/
def Meets (s : Store) (close : Ty → Ty → Prop) (r l : Ty) : Prop :=
  close r l ∨ sharesEnd r l = true ∨
    (inclusion discardForeign r l).run s = .ok (some true) s

/-- Each type of a list is met by some type of another one. -/
def MeetsAll (s : Store) (close : Ty → Ty → Prop) (ls rs : List Item) : Prop :=
  ∀ r, .type r ∈ rs → ∃ l, .type l ∈ ls ∧ Meets s close r l

theorem MeetsAll.mono (h : MeetsAll s close ls rs) (hsub : ls ⊆ ms) :
    MeetsAll s close ms rs := fun r hr =>
  (h r hr).imp fun _ hl => ⟨hsub hl.1, hl.2⟩

/-- The answer to whether one list of types meets another. -/
theorem meetsAll_run {search : Item → List Item → Typing Bool}
    (hsearch : ∀ r : Ty, r.Usable → ∃ found, (search (.type r) ls).run s = .ok found s ∧
      (found = true ↔ ∃ l, .type l ∈ ls ∧ close r l))
    (hls : Item.Usable ls) (hrs : Item.Usable rs) :
    ∃ x, (meetsAll discardForeign search ls rs).run s = .ok x s ∧
      (x = true ↔ MeetsAll s close ls rs) := by
  induction rs with
  | nil => exact ⟨true, rfl, by simp [MeetsAll]⟩
  | cons i rest ih =>
    obtain ⟨hi, hrest⟩ := Item.usable_cons.mp hrs
    obtain ⟨r, rfl, hr⟩ := hi.exists_type
    obtain ⟨x, hx, hall⟩ := ih hrest
    obtain ⟨a, ha, hclose⟩ := hsearch r hr
    obtain ⟨b, hb, hend⟩ := (Searches.existUserType r).run hls (fun _ _ => .pure _) s
    obtain ⟨c, hc, hincluded⟩ := (Searches.anyIncludes (inclusion discardForeign r)).run hls
      (fun l hl => answers_inclusion discardForeign r l hr hl) s
    have hmet : (a || b || c) = true ↔ ∃ l, .type l ∈ ls ∧ Meets s close r l := by
      have hpure (l : Ty) : (pure (sharesEnd r l) : Typing Bool).run s = .ok true s ↔
          sharesEnd r l = true := by simp
      simp only [Bool.or_eq_true, hclose, hend, hincluded, hpure, Meets, and_or_left, exists_or,
        or_assoc]
    refine ⟨(a || b || c) && x, ?_, ?_⟩
    · refine (bind_of_ok ha _).trans ?_
      cases a
      · refine (bind_of_ok hb _).trans ?_
        cases b
        · refine (bind_of_ok hc _).trans ?_
          cases c
          · rfl
          · exact hx
        · exact hx
      · exact hx
    · rw [Bool.and_eq_true, hmet, hall, MeetsAll, MeetsAll]
      simp

/-- A list of types that meets another one still does so with more types in it. -/
theorem run_mono {compare : List Item → List Item → Typing Bool}
    (hrun : ∀ {ls rs : List Item}, Item.Usable ls → Item.Usable rs → ∃ x,
      (compare ls rs).run s = .ok x s ∧ (x = true ↔ MeetsAll s close ls rs))
    (hls : Item.Usable ls) (hms : Item.Usable ms) (hrs : Item.Usable rs) (hsub : ls ⊆ ms)
    {t : Store} (h : (compare ls rs).run s = .ok true t) : (compare ms rs).run s = .ok true s := by
  obtain ⟨x, hx, hiff⟩ := hrun hls hrs
  obtain ⟨y, hy, hiff'⟩ := hrun hms hrs
  have hmeets : MeetsAll s close ls rs := by
    rw [hx] at h
    cases h
    exact hiff.mp rfl
  rw [hy, hiff'.mpr (hmeets.mono hsub)]

theorem setIncluded_run (hls : Item.Usable ls) (hrs : Item.Usable rs) (s : Store) :
    ∃ x, (setIncluded discardForeign ls rs).run s = .ok x s ∧ (x = true ↔
        MeetsAll s (fun r l => (identical discardForeign r l).run s = .ok true s) ls rs) :=
  meetsAll_run (fun r hr => (Searches.existSame discardForeign r).run hls
    (fun _ hl => answers_identical discardForeign hr hl) s) hls hrs

/-- Types of the same rank or name, or two numbers. -/
def Close (s : Store) (l r : Ty) : Prop :=
  (similar l r : Typing Bool).run s = .ok true s ∨ isNumber l = true ∧ isNumber r = true

/-- Whether a list of types meets another one, contents apart. -/
theorem setSimilar_run (hls : Item.Usable ls) (hrs : Item.Usable rs) (s : Store) :
    ∃ x, (setSimilar discardForeign ls rs).run s = .ok x s ∧
      (x = true ↔ MeetsAll s (Close s) ls rs) := by
  refine meetsAll_run (fun r hr => ?_) hls hrs
  obtain ⟨a, ha, hsimilar⟩ :=
    (Searches.existSimilar r).run hls (fun l hl => answers_similar hr hl) s
  obtain ⟨b, hb, hnumber⟩ := Searches.numbers.run hls (fun _ _ => .pure _) s
  have hnumbers : (existNumbers (.type r) ls true : Typing Bool).run s =
      .ok (isNumber r && b) s := by
    change (if r.name ∉ ["int", "float"] then pure false
      else existNumbers.go ls : Typing Bool).run s = _
    by_cases hname : r.name ∈ ["int", "float"]
    · rw [if_neg (not_not_intro hname), hb, isNumber, decide_eq_true hname, Bool.true_and]
    · rw [if_pos hname, isNumber, decide_eq_false hname]
      rfl
  refine ⟨a || (isNumber r && b), (bind_of_ok ha _).trans ?_, ?_⟩
  · cases a
    · exact hnumbers
    · rfl
  · simp only [Bool.or_eq_true, Bool.and_eq_true, hsimilar, hnumber, Close, and_or_left, exists_or]
    refine or_congr_right ?_
    simp only [Typing.run_pure, pure_apply, EStateM.Result.ok.injEq, and_true]
    constructor
    · rintro ⟨hr, l, hl, hnum⟩
      exact ⟨l, hl, hr, hnum⟩
    · rintro ⟨l, hl, hr, hnum⟩
      exact ⟨hr, l, hl, hnum⟩

end Ty

/-! ## Lists of the same shapes -/

/-- Two lists of types have the same orderly shapes, one by one. -/
def Item.Twins : List Item → List Item → Prop :=
  Forall₂ fun i j => ∃ a t u, i = .type t ∧ j = .type u ∧ a.Orderly ∧ t.Has a ∧ u.Has a

namespace Item.Twins

variable {ls rs : List Item}

variable (h : Twins ls rs)

include h

theorem flip : Twins rs ls :=
  Forall₂.flip (h.imp fun _ _ ⟨a, t, u, hi, hj, ha, ht, hu⟩ => ⟨a, u, t, hj, hi, ha, hu, ht⟩)

theorem usable : Usable ls := by
  induction h with
  | nil => trivial
  | cons hi _ ih =>
    obtain ⟨a, t, u, rfl, rfl, ha, ht, -⟩ := hi
    exact usable_cons.mpr ⟨⟨ha.ty ht, trivial⟩, ih⟩

theorem exists_twin {t : Ty} (ht : .type t ∈ ls) :
    ∃ a u, .type u ∈ rs ∧ a.Orderly ∧ t.Has a ∧ u.Has a := by
  induction h with
  | nil => exact absurd ht not_mem_nil
  | cons hi _ ih =>
    obtain ⟨a, t', u, rfl, rfl, ha, htwin, hu⟩ := hi
    obtain heq | hrest := mem_cons.mp ht
    · cases heq
      exact ⟨a, u, mem_cons_self, ha, htwin, hu⟩
    · obtain ⟨b, u, hmem, hb⟩ := ih hrest
      exact ⟨b, u, mem_cons_of_mem _ hmem, hb⟩

theorem identicalRows (l r : RowId) (s : Store) :
    (Ty.identicalRows discardForeign (.mk l ls) (.mk r rs)).run s = .ok true s := by
  have hlike {ls rs : List Item} (h : Twins ls rs) (t : Ty) (ht : .type t ∈ ls) :
      ∃ u, .type u ∈ rs ∧ Ty.Same discardForeign t u := by
    obtain ⟨a, u, hu, ha, htwin⟩ := h.exists_twin ht
    exact ⟨u, hu, ha.same_self htwin.1 htwin.2 _⟩
  exact Ty.identicalRows_of_same h.usable h.flip.usable (hlike h) (hlike h.flip)

theorem setIncluded (s : Store) :
    (Ty.setIncluded discardForeign ls rs).run s = .ok true s := by
  obtain ⟨x, hx, hiff⟩ := Ty.setIncluded_run h.usable h.flip.usable s
  rw [hx, hiff.mpr fun r hr => ?_]
  obtain ⟨a, l, hl, ha, htwin⟩ := h.flip.exists_twin hr
  exact ⟨l, hl, .inl (ha.same_self htwin.1 htwin.2 _ s)⟩

theorem setSimilar (s : Store) :
    (Ty.setSimilar discardForeign ls rs).run s = .ok true s := by
  obtain ⟨x, hx, hiff⟩ := Ty.setSimilar_run h.usable h.flip.usable s
  rw [hx, hiff.mpr fun r hr => ?_]
  obtain ⟨a, l, hl, ha, htwin⟩ := h.flip.exists_twin hr
  refine ⟨l, hl, .inl (.inl ?_)⟩
  have hname : r.name = l.name := htwin.1.name_eq.trans htwin.2.name_eq.symm
  have hlower : (r.lowerName == l.lowerName) = true := by
    rw [Ty.lowerName, Ty.lowerName, hname]
    exact beq_self_eq_true _
  unfold Ty.similar
  dsimp only
  split
  · rename_i hbuiltin
    rw [Bool.and_eq_true] at hbuiltin
    obtain ⟨n, hn⟩ := Option.isSome_iff_exists.mp ((ha.ty htwin.1).rank_isSome hbuiltin.1)
    have hn' := hn
    rw [hname] at hn'
    refine (bind_of_ok (Ty.rank_run hn s) _).trans ((bind_of_ok (Ty.rank_run hn' s) _).trans ?_)
    simp
  · rw [hlower]
    rfl

end Item.Twins

/-! ## Copies -/

namespace Store

variable {ids : List TypeId}

/-- Each entry has one of the shapes. -/
theorem ShowsAll.exists_shows (h : s.ShowsAll as es ids) (he : e ∈ es) :
    ∃ a ∈ as, ∃ first, s.Shows a e first ∧ first.length ≤ ids.length := by
  induction h using ShowsAll.induction with
  | nil => exact absurd he not_mem_nil
  | cons a as d es first others ha _ ih =>
    rw [length_append]
    obtain rfl | he := mem_cons.mp he
    · exact ⟨a, mem_cons_self, first, ha, by omega⟩
    · obtain ⟨b, hb, jds, hshows, hlength⟩ := ih he
      exact ⟨b, mem_cons_of_mem _ hb, jds, hshows, by omega⟩

/-- A shape is nested no deeper than it has cells. -/
theorem Shows.nested {t : TypeId} (h : s.Shows a (.type t) ids) {n : Nat}
    (hn : ids.length ≤ n) : s.Nested n t := by
  induction a using Shape.induction generalizing t ids n with
  | mk name category elements keys values helements hkeys hvalues =>
    rw [Shows] at h
    obtain ⟨_, es, ks, vs, ⟨⟩, rfl, hlt, hrows, -, -, hes, hks, hvs⟩ := h
    simp only [length_cons, length_append] at hn
    obtain ⟨n, rfl⟩ : ∃ m, n = m + 1 := ⟨n - 1, by omega⟩
    have hrow {as : List Shape} {ds : List Entry} {jds : List TypeId}
        (hshape : ∀ a ∈ as, ∀ {ids : List TypeId} {t : TypeId}, s.Shows a (.type t) ids →
          ∀ {n : Nat}, ids.length ≤ n → s.Nested n t) (hds : s.ShowsAll as ds jds)
        (hlength : jds.length ≤ n) : ∀ e ∈ ds, ∃ x, e = .type x ∧ s.Nested n x := by
      intro e he
      obtain ⟨a, ha, first, hshows, hfirst⟩ := hds.exists_shows he
      obtain ⟨x, rfl, -⟩ := hshows.exists_type
      exact ⟨x, rfl, hshape a ha hshows (Nat.le_trans hfirst hlength)⟩
    refine ⟨hlt, ?_⟩
    simp only [contents, forall_mem_cons] at hrows ⊢
    exact ⟨⟨hrows.1, hrow helements hes (by omega)⟩, ⟨hrows.2.1, hrow hkeys hks (by omega)⟩,
      ⟨hrows.2.2.1, hrow hvalues hvs (by omega)⟩, by simp⟩

end Store

namespace Copying.Copied

theorem showsAll_of_mem
    (hshape : ∀ a ∈ as, ∀ {t k : TypeId} {ids : List TypeId}, (t, k) ∈ c.types →
      s.Shows a (.type t) ids → ∃ jds, jds.length = ids.length ∧ u.Shows a (.type k) jds)
    {ids : List TypeId} (hpairs : Pairs c es ds) (hes : s.ShowsAll as es ids) :
    ∃ jds, jds.length = ids.length ∧ u.ShowsAll as ds jds := by
  induction hes using ShowsAll.induction generalizing ds with
  | nil =>
    rw [forall₂_nil_left_iff.mp hpairs]
    exact ⟨[], rfl, showsAll_nil⟩
  | cons a as e es first others ha _ ih =>
    obtain ⟨d, rest', ⟨⟨t, k⟩, hq, rfl, rfl⟩, hrest, rfl⟩ := forall₂_cons_left_iff.mp hpairs
    obtain ⟨jds, hjds, hk⟩ := hshape a mem_cons_self hq ha
    obtain ⟨kds, hkds, hall⟩ := ih (fun b hb => hshape b (mem_cons_of_mem _ hb)) hrest
    exact ⟨jds ++ kds, by simp [hjds, hkds], .cons hk hall⟩

theorem shows (h : Copied s {} s c u) {t k : TypeId} {ids : List TypeId}
    (hk : (t, k) ∈ c.types) (ha : s.Shows a (.type t) ids) :
    ∃ jds, jds.length = ids.length ∧ u.Shows a (.type k) jds := by
  induction a using Shape.induction generalizing t k ids with
  | mk name category elements keys values helements hkeys hvalues =>
    rw [Shows] at ha
    obtain ⟨_, es, ks, vs, ⟨⟩, rfl, -, -, hname, hcategory, hes, hks, hvs⟩ := ha
    obtain ⟨hlt, er, kr, vr, hcell, he, hkey, hv⟩ := h.type_complete hk
    obtain ⟨her, hpe⟩ := h.row_complete he
    obtain ⟨hkr, hpk⟩ := h.row_complete hkey
    obtain ⟨hvr, hpv⟩ := h.row_complete hv
    obtain ⟨es', hes', hse⟩ := showsAll_of_mem helements hpe hes
    obtain ⟨ks', hks', hsk⟩ := showsAll_of_mem hkeys hpk hks
    obtain ⟨vs', hvs', hsv⟩ := showsAll_of_mem hvalues hpv hvs
    refine ⟨k :: (es' ++ (ks' ++ vs')), by simp [hes', hks', hvs'], ?_⟩
    rw [Shows]
    refine ⟨k, es', ks', vs', rfl, rfl, hlt, ?_, ?_⟩
    · rw [contents, hcell]
      simp only [forall_mem_cons]
      exact ⟨her, hkr, hvr, by simp⟩
    · rw [hcell]
      exact ⟨hname, hcategory, hse, hsk, hsv⟩

end Copying.Copied

/-- The cells of a type spell out a shape that some text is read as, without sharing. -/
def Store.Parsed (s : Store) (e : Entry) : Prop :=
  ∃ text, ∃ a ∈ Shape.read text, ∃ ids, s.Shows a e ids ∧ ids.Nodup

namespace Store.Parsed

variable {n : Nat}

theorem exists_shows (h : s.Parsed e) :
    ∃ a ids t, e = .type t ∧ a.Orderly ∧ s.Shows a e ids ∧ ids.length ≤ s.types.size := by
  obtain ⟨text, a, ha, ids, hshows, hnodup⟩ := h
  obtain ⟨t, ht, -⟩ := hshows.exists_type
  exact ⟨a, ids, t, ht, (Shape.usable_read text a ha).orderly, hshows,
    length_le_of_nodup hnodup hshows.index_lt⟩

theorem twins (h : ∀ e ∈ es, s.Parsed e) (hn : 2 * s.types.size ≤ n) (rowOf : RowId → Row) :
    Twins (es.map (unfoldItem (s.unfoldType n) rowOf))
      (es.map (unfoldItem (s.unfoldType n) rowOf)) := by
  rw [Twins, forall₂_map_left_iff, forall₂_map_right_iff, forall₂_same]
  intro e he
  obtain ⟨a, ids, t, rfl, ha, hshows, hlength⟩ := (h e he).exists_shows
  have hhas := hshows.has (n := n) (by omega)
  exact ⟨a, _, _, rfl, rfl, ha, hhas, hhas⟩

/-- A row has the shapes of its copy. -/
theorem copied_twins (hu : Copying.Copied s {} s c u)
    (hpairs : Copying.Pairs c es ds) (h : ∀ e ∈ es, s.Parsed e) (hn : 2 * u.types.size ≤ n)
    (rowOf : RowId → Row) :
    Twins (es.map (unfoldItem (u.unfoldType n) rowOf))
      (ds.map (unfoldItem (u.unfoldType n) rowOf)) := by
  induction hpairs with
  | nil => exact .nil
  | cons hq _ ih =>
    obtain ⟨⟨t, k⟩, hq, rfl, rfl⟩ := hq
    obtain ⟨he, hrest⟩ := forall_mem_cons.mp h
    obtain ⟨a, ids, _, ⟨⟩, ha, hshows, hlength⟩ := he.exists_shows
    obtain ⟨jds, hjds, hk⟩ := hu.shows hq hshows
    have hsize := hu.keeps.types_le
    refine .cons ⟨a, _, _, rfl, rfl, ha, ?_, ?_⟩ (ih hrest)
    · exact (hshows.extend hu.keeps).has (by omega)
    · exact hk.has (by omega)

end Store.Parsed

/-- A list of types that have been read is equal to, included in and similar to its copy, and
comparing the two changes neither. A list that meets another one still does when more types are put
in after or before its own. -/
theorem Eval.sets_reflexive_monotone (s : Store) :
    (∀ r : RowId, r.index < s.rows.size → (∀ e ∈ s.rowAt r, s.Parsed e) →
      Ends (copyContents r).run s fun c u => s.Extends u ∧
        (identicalRows r c).run u = .ok true u ∧
        (setIncluded (u.rowAt r) (u.rowAt c)).run u = .ok true u ∧
        (setSimilar (u.rowAt r) (u.rowAt c)).run u = .ok true u) ∧
    ∀ ls ms rs : List Entry, (∀ e ∈ ls ++ ms ++ rs, s.Parsed e) →
      ∀ compare ∈ [setIncluded, setSimilar], ∀ t, (compare ls rs).run s = .ok true t →
        (compare (ls ++ ms) rs).run s = .ok true s ∧
        (compare (ms ++ ls) rs).run s = .ok true s := by
  constructor
  · intro r hr h
    have hrow : ∀ e ∈ s.rowAt r, ∃ t, e = .type t ∧ s.Nested s.types.size t := by
      intro e he
      obtain ⟨a, ids, t, rfl, -, hshows, hlength⟩ := (h e he).exists_shows
      exact ⟨t, rfl, hshows.nested hlength⟩
    obtain ⟨c, u, hrun, copies, hu, hc⟩ := copyContents_copies hr hrow (by rw [depth]; omega)
    have hpairs := (hu.row_complete hc).2
    rw [← hu.keeps.rowAt_eq r hr] at hpairs h
    have htwins {n : Nat} := Parsed.copied_twins hu hpairs h (n := n)
    refine ⟨c, u, hrun, hu.keeps, ?_, ?_, ?_⟩
    · exact (htwins (n := 2 * (u.types.size + u.rows.size) + 1) (by omega) _).identicalRows r c u
    · exact (htwins (by rw [depth]; omega) _).setIncluded u
    · exact (htwins (by rw [depth]; omega) _).setSimilar u
  · intro ls ms rs h compare hcompare t hmeets
    simp only [List.forall_mem_append] at h
    obtain ⟨⟨hls, hms⟩, hrs⟩ := h
    have husable {es : List Entry} (h : ∀ e ∈ es, s.Parsed e) :=
      (Parsed.twins h (n := s.depth) (by rw [depth]; omega) (s.unfoldRow s.depth)).usable
    have hmono (more : List Entry) (hmore : ∀ e ∈ more, s.Parsed e) (hsub : ls ⊆ more) :
        (compare more rs).run s = .ok true s := by
      have hsub' := List.map_subset (unfoldItem (s.unfoldType s.depth) (s.unfoldRow s.depth)) hsub
      simp only [List.mem_cons, List.not_mem_nil, or_false] at hcompare
      obtain rfl | rfl := hcompare
      · exact Ty.run_mono (fun hl hr => Ty.setIncluded_run hl hr s) (husable hls) (husable hmore)
          (husable hrs) hsub' hmeets
      · exact Ty.run_mono (fun hl hr => Ty.setSimilar_run hl hr s) (husable hls) (husable hmore)
          (husable hrs) hsub' hmeets
    constructor
    · exact hmono _ (List.forall_mem_append.mpr ⟨hls, hms⟩) (List.subset_append_left _ _)
    · exact hmono _ (List.forall_mem_append.mpr ⟨hms, hls⟩) (List.subset_append_right _ _)

/-- A list that holds the type read from `List[int]`, and what was read from `int` taken in. -/
theorem Eval.sets_reflexive_monotone_listOfInt : ∃ (s : Store) (r : RowId) (e m : Entry),
    s.rowAt r = [e] ∧ (∃ a, Shape.read "List[int]" = [a] ∧ ∃ ids, s.Shows a e ids ∧ ids.Nodup) ∧
      (∃ b, Shape.read "int" = [b] ∧ ∃ ids, s.Shows b m ids ∧ ids.Nodup) ∧
      (Ends (copyContents r).run s fun c u => s.Extends u ∧
        (identicalRows r c).run u = .ok true u ∧
        (setIncluded (u.rowAt r) (u.rowAt c)).run u = .ok true u ∧
        (setSimilar (u.rowAt r) (u.rowAt c)).run u = .ok true u) ∧
      ∀ compare ∈ [setIncluded, setSimilar], (compare [e] [e]).run s = .ok true s ∧
        (compare [e, m] [e]).run s = .ok true s ∧ (compare [m, e] [e]).run s = .ok true s := by
  let int : TypeName := ⟨"int".toList, by simp, by decide +kernel, by decide +kernel,
    by decide +kernel⟩
  let list : TypeExpr := .container ⟨"List".toList, by decide +kernel⟩ (.name int) []
  obtain ⟨a, ha⟩ : ∃ a, Shape.read "List[int]" = [a] :=
    ⟨_, list.read_text (by decide +kernel) (by decide +kernel)⟩
  obtain ⟨b, hb⟩ : ∃ b, Shape.read "int" = [b] :=
    ⟨_, (TypeExpr.name int).read_text (by decide) (by decide)⟩
  obtain ⟨t, v, -, ids, hadds, hlist⟩ := Shape.alloc_ends a {}
  obtain ⟨k, u, -, jds, hadds', hint⟩ := Shape.alloc_ends b v
  let s : Store := { u with rows := u.rows.push [.type t] }
  have hrow : s.rowAt ⟨u.rows.size⟩ = [.type t] := by rw [rowAt_push, if_pos rfl]
  have hlist' : s.Shows a (.type t) ids :=
    (hlist.extend hadds'.keeps).extend (Extends.pushRow u _)
  have hint' : s.Shows b (.type k) jds := hint.extend (Extends.pushRow u _)
  have hparsed : s.Parsed (.type t) := ⟨"List[int]", a, by simp [ha], ids, hlist', hadds.nodup⟩
  have hparsed' : s.Parsed (.type k) := ⟨"int", b, by simp [hb], jds, hint', hadds'.nodup⟩
  obtain ⟨hreflexive, hmonotone⟩ := sets_reflexive_monotone s
  refine ⟨s, ⟨u.rows.size⟩, .type t, .type k, hrow, ⟨a, ha, ids, hlist', hadds.nodup⟩,
    ⟨b, hb, jds, hint', hadds'.nodup⟩, hreflexive _ (by simp [s]) ?_, fun compare hcompare => ?_⟩
  · rw [hrow]
    exact List.forall_mem_singleton.mpr hparsed
  · have htwins := Parsed.twins (List.forall_mem_singleton.mpr hparsed) (n := s.depth)
      (by rw [depth]; omega) (s.unfoldRow s.depth)
    have hself : (compare [.type t] [.type t]).run s = .ok true s := by
      simp only [List.mem_cons, List.not_mem_nil, or_false] at hcompare
      obtain rfl | rfl := hcompare
      · exact htwins.setIncluded s
      · exact htwins.setSimilar s
    exact ⟨hself, hmonotone [.type t] [.type k] [.type t] (by simp [hparsed, hparsed']) compare
      hcompare s hself⟩

end TypeFlow
