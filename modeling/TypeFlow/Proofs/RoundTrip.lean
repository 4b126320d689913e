import Mathlib
import TypeFlow.Proofs.Trees

/-!
# Printing and reading

Printing a type simplifies it in place and gives the text of what is left. Reading that text gives
one type, and the two are identical in both directions.
-/

namespace TypeFlow

open Text Store Eval Shape Ends List Function Shape BecomesAll

namespace Eval

variable {s u : Store} {t : TypeId} {es : List Entry} {ids : List TypeId} {a : Shape}
  {as : List Shape} {n : Nat}

/-- A computation prints every printable type that takes a limited number of cells. -/
def Prints (n : Nat) (print : Entry → Typing String) : Prop :=
  ∀ (t : TypeId) (a : Shape) (ids : List TypeId) (s : Store), s.Shows a (.type t) ids →
    ids.Nodup → a.Printable → ids.length ≤ n →
    Ends (print (.type t)).run s fun text u =>
      ∃ b jds, Becomes a ids s u (.type t) b jds ∧ text = b.text

theorem nameOf_run (c : TypeId) (s : Store) :
    (nameOf (.type c)).run s = .ok (s.typeAt c).name s := rfl

section Rows

variable {print : Entry → Typing String} (hprint : Prints n print)

include hprint

/-- Two elements of which one is `None`. -/
theorem printElements_pair_ends {x y : Shape} {e f : Entry} {first second : List TypeId}
    (hx : s.Shows x e first) (hy : s.Shows y f second) (hnodup : (first ++ second).Nodup)
    (hpx : x.Printable) (hpy : y.Printable) (hn : (first ++ second).length ≤ n)
    (hnone : x.name = "None" ∨ y.name = "None") :
    Ends (printElements print [e, f]).run s fun text u =>
      ∃ bs jds, BecomesAll [x, y] (first ++ second) s u [e, f] bs jds ∧
        text = elementsText (texts bs) := by
  obtain ⟨c, rfl, -⟩ := hx.exists_type
  obtain ⟨d, rfl, -⟩ := hy.exists_type
  have hfirst := (sublist_append_left first second).nodup hnodup
  have hsecond := (sublist_append_right first second).nodup hnodup
  rw [length_append] at hn
  unfold printElements
  dsimp only
  refine step (nameOf_run c s) ?_
  beta_reduce
  rw [hx.name_eq]
  by_cases hxn : x.name = "None"
  · rw [if_pos hxn]
    refine step (a := true) rfl (step (nameOf_run c s) ?_)
    beta_reduce
    rw [hx.name_eq, if_neg (not_not_intro hxn)]
    refine step (nameOf_run d s) ?_
    beta_reduce
    rw [hy.name_eq]
    by_cases hyn : y.name = "None"
    · rw [if_neg (not_not_intro hyn)]
      refine of_eq rfl ⟨[x, y], first ++ second,
        cons hnodup (Becomes.refl hx hpx) (singleton (Becomes.refl hy hpy)), ?_⟩
      simp [texts, elementsText, hxn, hyn]
    · rw [if_pos hyn]
      apply (hprint d y second s hy hsecond hpy (by omega)).bind
      rintro text u ⟨b, jds, hb, rfl⟩
      refine of_eq rfl ⟨[x, b], first ++ jds,
        cons hnodup (Becomes.refl hx hpx) (singleton hb), ?_⟩
      simp [texts, elementsText, hxn, hb.name_eq, hyn]
  · have hyn := hnone.resolve_left hxn
    rw [if_neg hxn]
    refine step (nameOf_run d s) (step (a := true) ?_ (step (nameOf_run c s) ?_))
    · rw [hy.name_eq, hyn]
      rfl
    · beta_reduce
      rw [hx.name_eq, if_pos hxn]
      apply (hprint c x first s hx hfirst hpx (by omega)).bind
      rintro text u ⟨b, jds, hb, rfl⟩
      have hyu := hy.frame hb.frame fun _ hi hi' => disjoint_of_nodup_append hnodup hi' hi
      refine step (nameOf_run d u) ?_
      beta_reduce
      rw [hyu.name_eq, if_neg (not_not_intro hyn)]
      refine of_eq rfl ⟨[b, y], jds ++ second,
        cons hnodup hb (singleton (Becomes.refl hyu hpy)), ?_⟩
      simp [texts, elementsText, hb.name_eq, hxn, hyn]

variable (h : s.ShowsAll as es ids) (hnodup : ids.Nodup) (has : ∀ a ∈ as, a.Printable)
  (hn : ids.length ≤ n)

include h hnodup has hn

/-- Types are printed one after the other. -/
theorem mapM_print_ends : Ends (es.mapM print).run s fun texts u =>
      ∃ bs jds, BecomesAll as ids s u es bs jds ∧ texts = bs.map text := by
  induction as generalizing s es ids with
  | nil =>
    have hnil := h
    rw [ShowsAll] at hnil
    obtain ⟨rfl, rfl⟩ := hnil
    exact of_eq rfl ⟨[], [], refl h has, rfl⟩
  | cons a as ih =>
    rw [ShowsAll] at h
    obtain ⟨e, rest, first, others, rfl, rfl, ha, hothers⟩ := h
    obtain ⟨hpa, hpas⟩ := forall_mem_cons.mp has
    rw [length_append] at hn
    obtain ⟨c, rfl, -⟩ := ha.exists_type
    have hfirst := (sublist_append_left first others).nodup hnodup
    have hsecond := (sublist_append_right first others).nodup hnodup
    have := Typing.lawful
    rw [mapM_cons]
    apply (hprint c a first s ha hfirst hpa (by omega)).bind
    rintro text u ⟨b, jds, hb, rfl⟩
    have hrest := hothers.frame hb.frame fun _ hi hi' =>
      disjoint_of_nodup_append hnodup hi' hi
    apply (ih hrest hsecond hpas (by omega)).bind
    rintro texts w ⟨bs, kds, hbs, rfl⟩
    exact of_eq rfl ⟨b :: bs, jds ++ kds, cons hnodup hb hbs, rfl⟩

theorem printedList_ends : Ends (printedList print es).run s fun text u =>
      ∃ bs jds, BecomesAll as ids s u es bs jds ∧ text = join "," (bs.map Shape.text) := by
  apply (mapM_print_ends hprint h hnodup has hn).bind
  rintro texts u ⟨bs, jds, hbs, rfl⟩
  exact of_eq rfl ⟨bs, jds, hbs, rfl⟩

theorem printSide_ends : Ends (printSide print es).run s fun text u =>
      ∃ bs jds, BecomesAll as ids s u es bs jds ∧ text = sideText (bs.map Shape.text) := by
  have hlist := printedList_ends hprint h hnodup has hn
  cases as with
  | nil =>
    have hnil := h
    rw [ShowsAll] at hnil
    obtain ⟨rfl, rfl⟩ := hnil
    exact of_eq rfl ⟨[], [], refl h has, rfl⟩
  | cons a rest =>
    cases rest with
    | nil =>
      obtain ⟨e, rfl, ha⟩ := showsAll_singleton.mp h
      obtain ⟨c, rfl, -⟩ := ha.exists_type
      refine (hprint c a ids s ha hnodup (has a mem_cons_self) hn).imp ?_
      rintro text u ⟨b, jds, hb, rfl⟩
      exact ⟨[b], jds, singleton hb, rfl⟩
    | cons a' rest =>
      rw [ShowsAll] at h
      obtain ⟨e, _, _, _, rfl, -, -, h⟩ := h
      rw [ShowsAll] at h
      obtain ⟨e', es, _, _, rfl, -, -, -⟩ := h
      apply hlist.bind
      rintro text u ⟨bs, jds, hbs, rfl⟩
      refine of_eq rfl ⟨bs, jds, hbs, ?_⟩
      obtain ⟨b, bs, rfl, -, hnames⟩ := map_eq_cons_iff.mp hbs.names_eq
      obtain ⟨b', bs, rfl, -, -⟩ := map_eq_cons_iff.mp hnames
      rfl

theorem printElements_ends : Ends (printElements print es).run s fun text u =>
      ∃ bs jds, BecomesAll as ids s u es bs jds ∧ text = elementsText (texts bs) := by
  have hside := printSide_ends hprint h hnodup has hn
  by_cases hpair : ∃ x y, as = [x, y]
  · obtain ⟨x, y, rfl⟩ := hpair
    have hboth := h
    rw [ShowsAll] at hboth
    obtain ⟨e, _, first, second, rfl, rfl, hx, hrest⟩ := hboth
    obtain ⟨f, rfl, hy⟩ := showsAll_singleton.mp hrest
    obtain ⟨hpx, hpy⟩ := forall_mem_cons.mp has
    by_cases hnone : x.name = "None" ∨ y.name = "None"
    · exact printElements_pair_ends hprint hx hy hnodup hpx (hpy y mem_cons_self) hn hnone
    · obtain ⟨hxn, hyn⟩ := not_or.mp hnone
      obtain ⟨c, rfl, -⟩ := hx.exists_type
      obtain ⟨d, rfl, -⟩ := hy.exists_type
      have hisNone : (y.name == "None") = false := beq_false_of_ne hyn
      unfold printElements
      dsimp only
      refine step (nameOf_run c s) ?_
      beta_reduce
      rw [hx.name_eq, if_neg hxn]
      refine step (nameOf_run d s) (step (a := false) ?_ (hside.imp ?_))
      · rw [hy.name_eq, hisNone]
        rfl
      · rintro text u ⟨bs, jds, hbs, rfl⟩
        refine ⟨bs, jds, hbs, (elementsText_texts fun b b' heq => ?_).symm⟩
        have hnames := hbs.names_eq
        rw [heq] at hnames
        simp only [map_cons, map_nil, cons.injEq, and_true] at hnames
        rw [hnames.1, hnames.2]
        exact ⟨hxn, hyn⟩
  · have hlength : as.length ≠ 2 := fun htwo => hpair (length_eq_two.mp htwo)
    unfold printElements
    split
    · exact absurd h.length_eq.symm hlength
    · refine hside.imp ?_
      rintro text u ⟨bs, jds, hbs, rfl⟩
      refine ⟨bs, jds, hbs, (elementsText_texts fun b b' heq => ?_).symm⟩
      have hnames := congrArg length hbs.names_eq
      rw [heq, length_map, length_map] at hnames
      exact absurd hnames.symm hlength

end Rows

/-- A type without contents is printed by its name. -/
theorem printCell_leaf_ends {print : Entry → Typing String} {e : String × String × String}
    (he : e ∈ printedNames) (h : s.Shows (leaf e.1 .builtin) (.type t) ids) :
    (printCell print t).run s = .ok e.2.1 s := by
  obtain ⟨part, cells, hparts, -, hbuilt⟩ := h.exists_built
  obtain ⟨-, -, hes, hks, hvs⟩ := mk.inj hparts
  have hrow {side : Side} (hside : [] = part side) : s.rowAt ((s.typeAt t).row side) = [] := by
    have hshows := hbuilt.shows side
    rw [← hside, ShowsAll] at hshows
    exact hshows.1
  have helements : s.rowAt (s.typeAt t).elements = [] := hrow hes
  have hkeys : s.rowAt (s.typeAt t).keys = [] := hrow hks
  have hvalues : s.rowAt (s.typeAt t).values = [] := hrow hvs
  have hname : (s.typeAt t).name = e.1 := hbuilt.name_eq
  have hcategory : (s.typeAt t).category = .builtin := hbuilt.category_eq
  unfold printCell
  refine (bind_of_ok (type_run t s) _).trans ?_
  simp only [hname, hcategory, ne_eq, not_true_eq_false, if_false, printed?_printedNames he]
  refine (bind_of_ok (row_run _ s) _).trans ((bind_of_ok (row_run _ s) _).trans
    ((bind_of_ok (row_run _ s) _).trans ?_))
  simp [helements, hkeys, hvalues]

section Cells

variable {print : Entry → Typing String} (hprint : Prints n print)

include hprint

theorem printCell_container_ends {e : String × String × String} (he : e ∈ printedNames)
    (hname : e.1 ∈ containerNames) (hne : as ≠ [])
    (h : s.Shows (.mk e.1 .builtin as [] []) (.type t) ids) (hnodup : ids.Nodup)
    (ha : (mk e.1 .builtin as [] []).Printable) (hn : ids.length ≤ n + 1) :
    Ends (printCell print t).run s fun text u =>
      ∃ b jds, Becomes (.mk e.1 .builtin as [] []) ids s u (.type t) b jds ∧ text = b.text := by
  obtain ⟨-, hlist, hnot⟩ := (nameFacts he).headed hname
  obtain ⟨part, cells, hparts, hheld⟩ := Held.start h ha
  obtain ⟨-, -, hes, hks, hvs⟩ := mk.inj hparts
  have hshows := hheld.built.shows .elements
  have hlength := hshows.length_eq
  have hpos : 0 < (s.rowAt (s.typeAt t).elements).length := by
    rw [show (s.rowAt (s.typeAt t).elements).length = _ from hlength, ← hes]
    exact length_pos_iff.mpr hne
  have hcells := hheld.length_cells hn .elements
  have hcellName : (s.typeAt t).name = e.1 := hheld.built.name_eq
  have hcategory : (s.typeAt t).category = .builtin := hheld.built.category_eq
  unfold printCell
  refine step (type_run t s) ?_
  simp only [hcellName, hcategory, ne_eq, not_true_eq_false, if_false, printed?_printedNames he]
  refine step (row_run _ s) (step (row_run _ s) (step (row_run _ s) ?_))
  simp only [hnot, hlist, hpos, false_and, and_self, if_false, if_true]
  apply (printElements_ends hprint hshows (nodup_cells (hheld.sub.nodup hnodup) _)
    (hheld.printable.contents .elements) hcells).bind
  rintro text u ⟨bs, jds, hbs, rfl⟩
  obtain ⟨-, hheld'⟩ := hheld.contents hnodup .elements hbs
  refine of_eq rfl ⟨_, _, hheld'.becomes, ?_⟩
  have hbsne : bs ≠ [] := by
    rintro rfl
    have hnames := hbs.names_eq
    rw [← hes] at hnames
    exact hne (by simpa using hnames.symm)
  have hfinal : ofParts e.1 .builtin (update part .elements bs) = .mk e.1 .builtin bs [] [] := by
    rw [ofParts, update_self, update_of_ne (by decide), update_of_ne (by decide), ← hks, ← hvs]
  exact ((congrArg text hfinal).trans (text_container he hbsne)).symm

/-- A mapping is printed with its keys and values. -/
theorem printCell_mapping_ends {ks vs : List Shape} (hne : 0 < ks.length + vs.length)
    (h : s.Shows (.mk "Dict" .builtin [] ks vs) (.type t) ids) (hnodup : ids.Nodup)
    (ha : (mk "Dict" .builtin [] ks vs).Printable) (hn : ids.length ≤ n + 1) :
    Ends (printCell print t).run s fun text u =>
      ∃ b jds, Becomes (.mk "Dict" .builtin [] ks vs) ids s u (.type t) b jds ∧ text = b.text := by
  obtain ⟨part, cells, hparts, hheld⟩ := Held.start h ha
  obtain ⟨-, -, hes, hks, hvs⟩ := mk.inj hparts
  have hpos : 0 < (s.rowAt (s.typeAt t).keys).length + (s.rowAt (s.typeAt t).values).length := by
    rw [show (s.rowAt (s.typeAt t).keys).length = _ from (hheld.built.shows .keys).length_eq,
      show (s.rowAt (s.typeAt t).values).length = _ from (hheld.built.shows .values).length_eq,
      ← hks, ← hvs]
    exact hne
  have hcells := hheld.length_cells hn
  have hdistinct := nodup_cells (hheld.sub.nodup hnodup)
  have hcellName : (s.typeAt t).name = "Dict" := hheld.built.name_eq
  have hcategory : (s.typeAt t).category = .builtin := hheld.built.category_eq
  have hform := printed?_printedNames dict_mem_printedNames
  rw [lower_dict] at hform
  unfold printCell
  refine step (type_run t s) ?_
  simp only [hcellName, hcategory, ne_eq, not_true_eq_false, if_false, lower_dict, hform]
  refine step (row_run _ s) (step (row_run _ s) (step (row_run _ s) ?_))
  simp only [hpos, List.mem_cons, true_or, and_self, if_true]
  apply (printSide_ends hprint (hheld.built.shows .keys) (hdistinct .keys)
    (hheld.printable.contents .keys) (hcells .keys)).bind
  rintro k u ⟨bs, jds, hbs, rfl⟩
  obtain ⟨hcell, hu⟩ := hheld.contents hnodup .keys hbs
  -- the values are those of before, in a store in which the keys have been printed
  have hvalues := hu.built.shows .values
  have hrow : u.rowAt ((u.typeAt t).row .values) = s.rowAt (s.typeAt t).values := by
    rw [hcell]
    exact hbs.frame.rowAt_eq _ (hheld.built.rows_lt .values)
  rw [update_of_ne (by decide), update_of_ne (by decide), hrow] at hvalues
  apply (printSide_ends hprint hvalues (hdistinct .values) (hheld.printable.contents .values)
    (hcells .values)).bind
  rintro v w ⟨bs', jds', hbs', rfl⟩
  have hbs'' : BecomesAll (update part .keys bs .values)
      (update cells .keys jds .values) u w (u.rowAt ((u.typeAt t).row .values)) bs' jds' := by
    rw [update_of_ne (by decide), update_of_ne (by decide), hrow]
    exact hbs'
  obtain ⟨-, hw⟩ := hu.contents hnodup .values hbs''
  refine of_eq rfl ⟨_, _, hw.becomes, ?_⟩
  have hlengths : 0 < bs.length + bs'.length := by
    have hkeys := congrArg length hbs.names_eq
    have hvalues := congrArg length hbs'.names_eq
    rw [← hks, length_map, length_map] at hkeys
    rw [← hvs, length_map, length_map] at hvalues
    omega
  have hfinal : ofParts "Dict" .builtin (update (update part .keys bs) .values bs') =
        .mk "Dict" .builtin [] bs bs' := by
    rw [ofParts, update_self, update_of_ne (by decide),
      update_of_ne (by decide), update_of_ne (by decide), update_self,
      ← hes]
  exact ((congrArg text hfinal).trans (text_mapping hlengths)).symm

theorem printCell_ends (h : s.Shows a (.type t) ids) (hnodup : ids.Nodup) (ha : a.Printable)
    (hn : ids.length ≤ n + 1) :
    Ends (printCell print t).run s fun text u =>
      ∃ b jds, Becomes a ids s u (.type t) b jds ∧ text = b.text := by
  have hleaf {e : String × String × String} (he : e ∈ printedNames)
      (h : s.Shows (leaf e.1 .builtin) (.type t) ids) (ha : (leaf e.1 .builtin).Printable) :
      Ends (printCell print t).run s fun text u =>
        ∃ b jds, Becomes (leaf e.1 .builtin) ids s u (.type t) b jds ∧ text = b.text :=
    of_eq (printCell_leaf_ends he h) ⟨_, _, Becomes.refl h ha, (text_leaf he).symm⟩
  have ha' := ha
  cases ha with
  | plain hname =>
    obtain ⟨e, he, rfl⟩ := exists_plain hname
    exact hleaf he h ha'
  | user n hname =>
    obtain ⟨part, cells, -, hheld⟩ := Held.start h ha'
    have hcategory : (s.typeAt t).category = .user := hheld.built.category_eq
    unfold printCell
    refine step (type_run t s) ?_
    beta_reduce
    rw [hcategory, if_pos (by decide)]
    refine of_eq rfl ⟨_, _, Becomes.refl h ha', ?_⟩
    exact hheld.built.name_eq.trans (text_user _).symm
  | @container name elements hname helements =>
    obtain ⟨e, he, rfl⟩ := exists_container hname
    by_cases hne : elements = []
    · subst hne
      exact hleaf he h ha'
    · exact printCell_container_ends hprint he hname hne h hnodup ha' hn
  | @mapping keys values hkeys hvalues =>
    by_cases hne : 0 < keys.length + values.length
    · exact printCell_mapping_ends hprint hne h hnodup ha' hn
    · obtain rfl : keys = [] := eq_nil_of_length_eq_zero (by omega)
      obtain rfl : values = [] := eq_nil_of_length_eq_zero (by omega)
      exact hleaf dict_mem_printedNames h ha'

end Cells

/-- Printing to a depth gives the text of what the type becomes. -/
theorem prints_printTo (n : Nat) : Prints n (printTo n) := by
  induction n with
  | zero =>
    intro t a ids s h _ _ hn
    obtain ⟨_, -, ht⟩ := h.exists_type
    rw [eq_nil_of_length_eq_zero (Nat.le_zero.mp hn)] at ht
    exact absurd ht not_mem_nil
  | succ n ih =>
    intro t a ids s h hnodup ha hn
    rw [printTo]
    apply (ends_at_depth rebuilds_tidyTo h hnodup ha).bind
    rintro _ u ⟨b, jds, hb⟩
    have hjds := hb.cells.nodup hnodup
    apply (ends_at_depth rebuilds_simplifyTo hb.shows hjds hb.printable).bind
    rintro _ w ⟨c, kds, hc⟩
    have hlength := Nat.le_trans (hc.cells.trans hb.cells).length_le hn
    refine (printCell_ends ih hc.shows (hc.cells.nodup hjds) hc.printable hlength).imp ?_
    rintro text v ⟨d, lds, hd, rfl⟩
    exact ⟨d, lds, (hb.trans hc).trans hd, rfl⟩

theorem identical_run {l r : TypeId} {b : Bool}
    (h : (Ty.identical discardForeign (s.unfoldType s.depth l) (s.unfoldType s.depth r)).run s =
      .ok b s) : (identical (.type l) (.type r)).run s = .ok b s := h

theorem has_of_shows (h : s.Shows a (.type t) ids) (hnodup : ids.Nodup) :
    (s.unfoldType s.depth t).Has a := by
  have hlength := length_le_of_nodup hnodup h.index_lt
  exact h.has (by rw [depth]; omega)

/-- A printed type is read back: if the text is short enough, reading it gives one type, and that
type and the one that was printed are identical in both directions. -/
theorem print_readTypes_identical (s : Store) (t : TypeId) (a : Shape) (ids : List TypeId)
    (h : s.Shows a (.type t) ids) (hnodup : ids.Nodup) (ha : a.Printable) :
    Ends (print (.type t)).run s fun text u => text.length ≤ 500 →
      Ends (readTypes text).run u fun es w => ∃ v, es = [.type v] ∧
        (identical (.type v) (.type t)).run w = .ok true w ∧
        (identical (.type t) (.type v)).run w = .ok true w := by
  have hlength := length_le_of_nodup hnodup h.index_lt
  refine Ends.step (store_run s)
    ((prints_printTo s.depth t a ids s h hnodup ha (by rw [depth]; omega)).imp ?_)
  rintro text u ⟨b, jds, hb, rfl⟩ hlen
  obtain ⟨c, hread, halike⟩ := hb.printable.read_text hlen
  rw [readTypes, hread]
  refine (allocAll_ends [c] u).imp ?_
  rintro es w ⟨kds, hadds, hshows⟩
  obtain ⟨e, rfl, hc⟩ := showsAll_singleton.mp hshows
  obtain ⟨v, rfl, -⟩ := hc.exists_type
  have hbw := hb.shows.extend hadds.keeps
  obtain ⟨hsame, hsame'⟩ := halike discardForeign _ _
    (has_of_shows hbw (hb.cells.nodup hnodup)) (has_of_shows hc hadds.nodup)
  exact ⟨v, rfl, identical_run (hsame' w), identical_run (hsame w)⟩

/-- A list of `None` and of a user type. -/
def optionalList : Store where
  types := #[
    { name := "None", category := .builtin, elements := ⟨0⟩, keys := ⟨0⟩, values := ⟨0⟩ },
    { name := "app.Item", category := .user, elements := ⟨0⟩, keys := ⟨0⟩, values := ⟨0⟩ },
    { name := "List", category := .builtin, elements := ⟨1⟩, keys := ⟨0⟩, values := ⟨0⟩ }]
  rows := #[[], [.type ⟨0⟩, .type ⟨1⟩]]

theorem print_readTypes_optionalList :
    Ends (print (.type ⟨2⟩)).run optionalList fun text u => text.length ≤ 500 →
      Ends (readTypes text).run u fun es w => ∃ v, es = [.type v] ∧
        (identical (.type v) (.type ⟨2⟩)).run w = .ok true w ∧
        (identical (.type ⟨2⟩) (.type v)).run w = .ok true w := by
  let item : TypeName :=
    ⟨"app.Item".toList, by simp, by decide +kernel, by decide +kernel, by decide +kernel⟩
  have hlower : lower (String.ofList item.text) = "app.item" := by decide +kernel
  have hdenoted : Vocabulary.denoted? "app.item" = none := by
    rw [Vocabulary.denoted?_eq (by decide +kernel)]
    decide +kernel
  have hitem : (leaf "app.Item" .user).Printable := .user item fun name hname => by
    rw [hlower, hdenoted] at hname
    cases hname
  have hnone : (leaf "None" .builtin).Printable := .plain (by decide)
  have hleaf (c : TypeId) (name : String) (category : Category) (hc : c.index < 2)
      (hcell : optionalList.typeAt c =
        { name, category, elements := ⟨0⟩, keys := ⟨0⟩, values := ⟨0⟩ }) :
      optionalList.Shows (leaf name category) (.type c) [c] := by
    have hlt : c.index < optionalList.types.size := Nat.lt_trans hc (by decide)
    have hrows : ∀ r ∈ optionalList.contents c, r.index < optionalList.rows.size := by
      rw [Store.contents, hcell]
      simp [optionalList]
    rw [leaf, Shows]
    refine ⟨c, [], [], [], rfl, rfl, hlt, hrows, ?_⟩
    rw [hcell]
    exact ⟨rfl, rfl, ⟨rfl, rfl⟩, ⟨rfl, rfl⟩, ⟨rfl, rfl⟩⟩
  refine print_readTypes_identical optionalList ⟨2⟩
    (.mk "List" .builtin [leaf "None" .builtin, leaf "app.Item" .user] [] []) [⟨2⟩, ⟨0⟩, ⟨1⟩] ?_
    (by decide) (.container (by decide) (by simp [hnone, hitem]))
  rw [Shows]
  refine ⟨⟨2⟩, [⟨0⟩, ⟨1⟩], [], [], rfl, rfl, by decide, by decide, rfl, rfl, ?_, ⟨rfl, rfl⟩,
    ⟨rfl, rfl⟩⟩
  rw [ShowsAll]
  exact ⟨.type ⟨0⟩, [.type ⟨1⟩], [⟨0⟩], [⟨1⟩], rfl, rfl, hleaf ⟨0⟩ _ _ (by decide) rfl,
    showsAll_singleton.mpr ⟨_, rfl, hleaf ⟨1⟩ _ _ (by decide) rfl⟩⟩

/-- A user type without contents. -/
def userType (name : String) : Store where
  types := #[{ name, category := .user, elements := ⟨0⟩, keys := ⟨0⟩, values := ⟨0⟩ }]
  rows := #[[]]

/-- The name of a union without arguments is not read. -/
theorem read_union : read "Union" = [] := by
  have hclean : IsClean "Union".toList := ⟨by decide +kernel, by decide +kernel⟩
  have hstrip : strip "Union" = String.ofList "Union".toList :=
    strip_eq (filter_space_of_isClean hclean) hclean (by decide +kernel)
  have hlower : lower "Union" = "union" := by decide +kernel
  have hcontains : "Union".contains '[' = false := by
    rw [String.contains_char_eq]
    decide +kernel
  have hany : readAny "Union" = [] := by
    rw [readAny, readNested, hstrip, String.ofList_toList]
    unfold readStripped
    simp only [hlower, hcontains, beq_self_eq_true, Bool.true_or, Bool.not_false, Bool.and_self,
      if_true, ite_self]
  rw [Shape.read, hany]
  simp only [anyBracket, Bool.false_eq_true, ite_self]

theorem read_text_alternative : read "typing.Text" = [leaf "str" .builtin] := by
  let text : TypeName :=
    ⟨"typing.Text".toList, by simp, by decide +kernel, by decide +kernel, by decide +kernel⟩
  have hname : String.ofList text.text = "typing.Text" := String.ofList_toList
  have hdenoted : Vocabulary.denoted? (lower "typing.Text") = some "str" :=
    denoted?_printedNames (e := ("Text", "typing.Text", "str")) (by simp [printedNames])
  have hread := (TypeExpr.name text).read_text (s := "typing.Text") (by decide +kernel)
    (by decide +kernel)
  rw [hread, TypeExpr.meaning, named, hname, hdenoted]

/-- Names are read without regard to letter case: a user type whose name is one of a union or of
another standard type up to letter case is not read back. -/
theorem print_readTypes_letterCase :
    (Vocabulary.denoted? "Union" = none ∧
      Ends (print (.type ⟨0⟩)).run (userType "Union") fun text u =>
        text = "Union" ∧ Ends (readTypes text).run u fun es _ => es = []) ∧
    (Vocabulary.denoted? "typing.Text" = none ∧
      Ends (print (.type ⟨0⟩)).run (userType "typing.Text") fun text u =>
        text = "typing.Text" ∧ Ends (readTypes text).run u fun es w =>
          ∃ v, es = [.type v] ∧ (identical (.type v) (.type ⟨0⟩)).run w = .ok false w) := by
  refine ⟨⟨?_, ?_⟩, ?_, ?_⟩
  · rw [Vocabulary.denoted?_eq (by decide +kernel)]
    decide +kernel
  · refine Ends.of_eq (a := "Union") (t := { userType "Union" with
      types := #[
        { name := "Union", category := .user, elements := ⟨3⟩, keys := ⟨2⟩, values := ⟨0⟩ }]
      rows := #[[], [], [], []] }) (by cbv) ⟨rfl, ?_⟩
    rw [readTypes, read_union, allocAll]
    exact Ends.of_eq rfl rfl
  · rw [Vocabulary.denoted?_eq (by decide +kernel)]
    decide +kernel
  · let u : Store := { userType "typing.Text" with
      types := #[{ name := "typing.Text", category := .user, elements := ⟨1⟩, keys := ⟨2⟩,
                   values := ⟨0⟩ }]
      rows := #[[], [], []] }
    have hshows : u.Shows (leaf "typing.Text" .user) (.type ⟨0⟩) [⟨0⟩] := by
      rw [leaf, Shows]
      exact ⟨⟨0⟩, [], [], [], rfl, rfl, by decide, by decide, rfl, rfl, ⟨rfl, rfl⟩, ⟨rfl, rfl⟩,
        ⟨rfl, rfl⟩⟩
    refine Ends.of_eq (a := "typing.Text") (t := u) (by cbv) ⟨rfl, ?_⟩
    rw [readTypes, read_text_alternative]
    refine (allocAll_ends [leaf "str" .builtin] u).imp ?_
    rintro es w ⟨ids, hadds, hall⟩
    obtain ⟨e, rfl, hstr⟩ := showsAll_singleton.mp hall
    obtain ⟨v, rfl, -⟩ := hstr.exists_type
    obtain ⟨hln, hlc, hle⟩ := (has_of_shows hstr hadds.nodup).of_leaf
    obtain ⟨hrn, hrc, hre⟩ := (has_of_shows (hshows.extend hadds.keeps) (by decide)).of_leaf
    have hshort : Ty.sameShortName "str" "typing.Text" = false := by decide +kernel
    refine ⟨v, rfl, identical_run ?_⟩
    rw [Ty.identical_shortName (.inr ⟨hlc, hrc⟩) hle hre, hln, hrn, hshort]

end Eval
end TypeFlow
