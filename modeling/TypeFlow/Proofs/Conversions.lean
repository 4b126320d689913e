import TypeFlow.Proofs.Usable
import TypeFlow.Rule.Call.Dependent

/-!
# Conversions keep the last container

The calls `list`, `tuple`, `set` and `frozenset` walk over the types of their argument and take
over the items of each container they meet, in place of those they had. What is left at the end are
the items of the last container and the texts after it. The call `next` takes the elements of the
last generator.
-/

namespace TypeFlow

open Eval Vocabulary Ends List Store

/-- A built-in type has a rank. -/
def TypeCell.Ranked (c : TypeCell) : Prop :=
  c.category = .builtin → (rank? (Text.lower c.name)).isSome

/-- A type is like a named one, contents apart. -/
def TypeCell.isLike (c : TypeCell) (name : String) : Bool :=
  c.category == .builtin &&
      rank? (Text.lower c.name) == rank? (Text.lower name) ||
    Text.lower c.name == Text.lower name

namespace Store

def cellAt (s : Store) : Entry → TypeCell
  | .type t => s.typeAt t
  | _ => default

/-- An entry is like one of the named types, contents apart. -/
def isLike (s : Store) (names : List String) (e : Entry) : Bool := names.any (s.cellAt e).isLike

/-- An entry is a type with a known name, and its elements and keys are there. -/
def Formed (s : Store) (e : Entry) : Prop :=
  ∃ t : TypeId, e = .type t ∧ t.index < s.types.size ∧ (s.typeAt t).Ranked ∧
    (s.typeAt t).elements.index < s.rows.size ∧ (s.typeAt t).keys.index < s.rows.size

/-- The items of the last container among entries, and the texts and byte strings after it. -/
def lastItems (s : Store) (es : List Entry) : List Entry :=
  es.foldl (fun items e =>
    if s.isLike iterables e = false then items
    else if s.isLike ["Dict"] e then s.rowAt (s.cellAt e).keys
    else if s.isLike ["Text", "bytes", "bytearray"] e then items ++ [e]
    else s.rowAt (s.cellAt e).elements) []

end Store

/-- A result is one type only. -/
def Outs.Only (u : Store) (t : TypeId) : Outs → Prop
  | .one k => k = t
  | .row r => u.rowAt r = [.type t]

namespace Rule

variable {s u : Store} {t : TypeId} {e : Entry} {es done rejected : List Entry}

/-! ## Names -/

/-- Names that types are compared with: they are standard ones, and none is a placeholder. -/
def AreKinds (names : List String) : Prop := ∀ name ∈ names,
  name ∈ standardNames ∧ (Text.startsWith name "<" && Text.endsWith name ">") = false

instance (names : List String) : Decidable (AreKinds names) :=
  inferInstanceAs (Decidable (∀ _ ∈ names, _))

theorem areKinds_of_mem : ∀ names ∈ [iterables, ["Dict"],
    ["Text", "bytes", "bytearray"], ["Generator"]], AreKinds names := by
  decide +kernel

theorem similar_run {l : Ty} {c : TypeCell} {name : String} (hl : l.name = c.name)
    (hl' : l.category = c.category) (hc : c.Ranked) (hname : name ∈ standardNames) :
    (Ty.similar l (Ty.leaf name) : Typing Bool).run s = .ok (c.isLike name) s := by
  obtain ⟨n, hn⟩ := Option.isSome_iff_exists.mp (rank?_standard hname)
  simp only [Ty.similar, Ty.rank, Ty.isBuiltin, Ty.lowerName, TypeCell.isLike, hl, hl']
  by_cases hbuiltin : c.category = .builtin
  · obtain ⟨m, hm⟩ := Option.isSome_iff_exists.mp (hc hbuiltin)
    by_cases hmn : m = n <;> simp [hbuiltin, hm, hn, hmn, Ty.leaf, Ty.category, Ty.name]
  · simp [beq_eq_false_iff_ne.mpr hbuiltin, Ty.leaf, Ty.name]

theorem isLike_run {names : List String} (hnames : AreKinds names) (ht : (s.typeAt t).Ranked) :
    (isLike names (.type t)).run s = .ok (s.isLike names (.type t)) s := by
  refine (bind_of_ok (rfl : (surface (.type t)).run s = .ok _ s) _).trans ?_
  change (Ty.existSame discardForeign _ (names.map .text)).run s =
    .ok (names.any (s.typeAt t).isLike) s
  induction names with
  | nil => rfl
  | cons name names ih =>
    obtain ⟨hname, hrest⟩ := forall_mem_cons.mp hnames
    rw [map_cons, Ty.existSame, hname.2, any_cons]
    refine (bind_of_ok (similar_run rfl rfl ht hname.1) _).trans ?_
    cases hlike : (s.typeAt t).isLike name with
    | true => rfl
    | false => exact ih hrest

/-! ## Containers -/

/-- What a conversion to the type `t` has done with the types of its operand so far. Rows of
containers may have got texts at their end. -/
structure Converting (s : Store) (t : TypeId) (done rejected : List Entry) (u : Store) : Prop where
  rejected : rejected = done.filter fun e => !s.isLike iterables e
  cells : ∀ k : TypeId, k.index < s.types.size → u.typeAt k = s.typeAt k
  target : t.index = s.types.size ∧ t.index < u.types.size
  rows : s.rows.size ≤ u.rows.size ∧ ∀ r : RowId, r.index < s.rows.size → s.rowAt r ⊆ u.rowAt r
  taken : (u.typeAt t).elements.index < u.rows.size
  items : s.lastItems done ⊆ u.rowAt (u.typeAt t).elements

namespace Converting

theorem start (name : String) (s : Store) :
    Ends (newType name).run s fun t u => Converting s t [] [] u := by
  have hrows := ((Extends.pushRow s []).trans (.pushRow _ [])).trans (.pushRow _ [])
  have hextends (c : TypeCell) := hrows.trans (.pushType _ c)
  refine of_eq rfl ⟨rfl, (hextends _).typeAt_eq, ⟨rfl, ?_⟩, ⟨hrows.rows_le, fun r hr => ?_⟩,
    ?_, nil_subset _⟩
  · exact (Array.size_push ..) ▸ Nat.lt_succ_self _
  · exact hrows.rowAt_eq r hr ▸ Subset.refl _
  · rw [typeAt_push, if_pos rfl]
    simp only [Array.size_push]
    omega

/-- The row of a container takes the place of the elements. -/
theorem take (h : Converting s t done rejected u) {r : RowId} (hr : r.index < s.rows.size)
    (hlike : s.isLike iterables e = true)
    (hitems : s.lastItems (done ++ [e]) = s.rowAt r) : Converting s t (done ++ [e]) rejected
      { u with types := u.types.modify t.index fun c => { c with elements := r } } := by
  have hcell (k : TypeId) := typeAt_modify u t (fun c => { c with elements := r }) k
  refine ⟨by simp [h.rejected, hlike], fun k hk => ?_, by simpa using h.target, h.rows, ?_, ?_⟩
  · rw [hcell, if_neg fun hkt => ?_, h.cells k hk]
    rw [hkt.1, h.target.1] at hk
    exact absurd hk (Nat.lt_irrefl _)
  · rw [hcell, if_pos ⟨rfl, h.target.2⟩]
    exact Nat.lt_of_lt_of_le hr h.rows.1
  · rw [hcell, if_pos ⟨rfl, h.target.2⟩, hitems]
    exact h.rows.2 r hr

/-- A text is put at the end of the elements, to whichever type their row belongs. -/
theorem put (h : Converting s t done rejected u) (hlike : s.isLike iterables e = true)
    (hitems : s.lastItems (done ++ [e]) = s.lastItems done ++ [e]) :
    Converting s t (done ++ [e]) rejected
      { u with rows := u.rows.modify (u.typeAt t).elements.index (· ++ [e]) } := by
  have hrow (r : RowId) := rowAt_modify u (u.typeAt t).elements (· ++ [e]) r
  refine ⟨by simp [h.rejected, hlike], h.cells, h.target, ⟨?_, fun r hr => ?_⟩, ?_, ?_⟩
  · simpa using h.rows.1
  · rw [hrow]
    split
    · rename_i heq
      exact subset_append_of_subset_left _ (heq.1 ▸ h.rows.2 r hr)
    · exact h.rows.2 r hr
  · rw [Array.size_modify]
    exact h.taken
  · change _ ⊆ rowAt _ (u.typeAt t).elements
    rw [hitems, hrow, if_pos ⟨rfl, h.taken⟩]
    exact append_subset.mpr ⟨subset_append_of_subset_left _ h.items, subset_append_right _ _⟩

end Converting

theorem converted_ends (name : String) (hes : ∀ e ∈ es, s.Formed e) :
    Ends (converted name es).run s fun r u => Converting s r.1 es r.2 u := by
  refine (Converting.start name s).bind fun t u hu => ?_
  refine (Typing.forIn_yield_ends (P := Converting s t) ?_ hu).bind fun rejected u hu =>
    of_eq rfl hu
  intro done e rest rejected u hl hu
  obtain ⟨k, rfl, hk, hranked, helements, hkeys⟩ := hes e (by simp [hl])
  have hlike {names : List String} (hnames : AreKinds names) :
      (isLike names (.type k)).run u = .ok (s.isLike names (.type k)) u := by
    rw [isLike_run hnames (hu.cells k hk ▸ hranked)]
    simp only [Store.isLike, Store.cellAt, hu.cells k hk]
  have hcell : (cellOf (.type k)).run u = .ok (s.typeAt k) u := hu.cells k hk ▸ rfl
  have hitems : s.lastItems (done ++ [.type k]) = _ := foldl_append
  rw [foldl_cons, foldl_nil] at hitems
  refine step (hlike (areKinds_of_mem _ (by simp))) ?_
  cases hiterable : s.isLike iterables (.type k) with
  | false =>
    rw [if_pos hiterable] at hitems
    refine of_eq rfl ⟨_, rfl, ⟨?_, hu.cells, hu.target, hu.rows, hu.taken, hitems ▸ hu.items⟩⟩
    simp [hu.rejected, hiterable]
  | true =>
    rw [if_neg (by simp [hiterable])] at hitems
    refine step (hlike (areKinds_of_mem _ (by simp))) ?_
    cases hdict : s.isLike ["Dict"] (.type k) with
    | true =>
      rw [if_pos hdict] at hitems
      exact step hcell (of_eq rfl ⟨_, rfl, hu.take hkeys hiterable hitems⟩)
    | false =>
      rw [if_neg (by simp [hdict])] at hitems
      refine step (hlike (areKinds_of_mem _ (by simp))) ?_
      cases htext : s.isLike ["Text", "bytes", "bytearray"] (.type k) with
      | true =>
        rw [if_pos htext] at hitems
        exact of_eq rfl ⟨_, rfl, hu.put hiterable hitems⟩
      | false =>
        rw [if_neg (by simp [htext])] at hitems
        exact step hcell (of_eq rfl ⟨_, rfl, hu.take helements hiterable hitems⟩)

theorem sortOut_ends {names : List String} (hnames : AreKinds names)
    (hes : ∀ e ∈ es, s.Formed e) : Ends (sortOut names es).run s fun r u => u = s ∧
      r = (es.filter (s.isLike names), es.filter fun e => !s.isLike names e) := by
  refine (Typing.forIn_yield_ends (P := fun done r u => u = s ∧
    r = ⟨done.filter (s.isLike names), done.filter fun e => !s.isLike names e⟩)
    (fun done e rest r u hl hu => ?_) ⟨rfl, rfl⟩).bind fun r u hu => of_eq rfl ?_
  · obtain ⟨t, rfl, -, ht, -⟩ := hes e (by simp [hl])
    obtain ⟨rfl, rfl⟩ := hu
    refine step (isLike_run hnames ht) ?_
    cases hlike : u.isLike names (.type t) <;> exact of_eq rfl ⟨_, rfl, rfl, by simp [hlike]⟩
  · exact ⟨hu.1, hu.2 ▸ rfl⟩

/-- Conversions keep the last container. The calls `tuple`, `list`, `set` and `frozenset` come to an
end for every argument, reject what cannot be iterated over, and give one type that has the items
of the last container and the texts after it. The call `next` gives the elements of the last
generator. -/
theorem conversions_keep_last (s : Store) (o : Operand) (es : List Entry)
    (ho : o.types.run s = .ok es s) (hes : ∀ e ∈ es, s.Formed e) :
    (∀ call ∈ [tupleCall, listCall, setCall, frozenSetCall],
      Ends (call [o]).run s fun v u => ∃ outs t,
        v = some ⟨[es.filter fun e => !s.isLike Vocabulary.iterables e], outs⟩ ∧ outs.Only u t ∧
          s.lastItems es ⊆ u.rowAt (u.typeAt t).elements) ∧
    Ends (nextCall [o]).run s fun v u => ∃ r,
      v = some ⟨[es.filter fun e => !s.isLike ["Generator"] e], .row r⟩ ∧
        u.rowAt r = ((es.filter (s.isLike ["Generator"])).getLast?.map fun e =>
          s.rowAt (s.cellAt e).elements).getD [] := by
  have hcall (name : String) (finish : List (List Entry) → TypeId → Ruling)
      (hfinish : ∀ rejected t u, (u.typeAt t).elements.index < u.rows.size →
        Ends (finish rejected t).run u fun v w => ∃ outs, v = some ⟨rejected, outs⟩ ∧
          outs.Only w t ∧ w.rowAt (w.typeAt t).elements = u.rowAt (u.typeAt t).elements) :
      Ends (do
        let r ← converted name (← o.types)
        finish [r.2] r.1 : Ruling).run s fun v u => ∃ outs t,
          v = some ⟨[es.filter fun e => !s.isLike Vocabulary.iterables e], outs⟩ ∧
            outs.Only u t ∧ s.lastItems es ⊆ u.rowAt (u.typeAt t).elements := by
    refine Ends.step ho ((converted_ends name hes).bind fun r u hu => ?_)
    refine (hfinish [r.2] r.1 u hu.taken).imp ?_
    rintro _ w ⟨outs, rfl, honly, hrow⟩
    exact ⟨outs, r.1, by rw [hu.rejected], honly, hrow ▸ hu.items⟩
  have hone (name : String) := hcall name answerOne fun _ t u _ =>
    Ends.of_eq rfl ⟨.one t, rfl, rfl, rfl⟩
  have hrow (name : String) := hcall name (fun rejected t => answer rejected [.type t])
    fun _ t u ht => Ends.of_eq rfl ⟨.row _, rfl, (Store.rowAt_push ..).trans (if_pos rfl),
      (Store.rowAt_push ..).trans (if_neg (Nat.ne_of_lt ht))⟩
  constructor
  · simp only [List.forall_mem_cons]
    exact ⟨hone _, hone _, hrow _, hrow _, by simp⟩
  · refine Ends.step ho ((sortOut_ends (areKinds_of_mem _ (by simp)) hes).bind ?_)
    rintro _ u ⟨rfl, rfl⟩
    dsimp only
    cases hlast : (es.filter (u.isLike ["Generator"])).getLast? with
    | none => exact Ends.of_eq rfl ⟨_, rfl, (Store.rowAt_push ..).trans (if_pos rfl)⟩
    | some e =>
      obtain ⟨t, rfl, -⟩ := hes e (List.mem_of_mem_filter (List.mem_of_getLast? hlast))
      exact Ends.of_eq rfl ⟨_, rfl, (Store.rowAt_push ..).trans (if_pos rfl)⟩

/-- A variable that is a generator of integers or one of texts. -/
def eitherGenerator : Store where
  types := #[
    { name := "int", category := .builtin, elements := ⟨0⟩, keys := ⟨0⟩, values := ⟨0⟩ },
    { name := "Text", category := .builtin, elements := ⟨0⟩, keys := ⟨0⟩, values := ⟨0⟩ },
    { name := "Generator", category := .builtin, elements := ⟨1⟩, keys := ⟨0⟩, values := ⟨0⟩ },
    { name := "Generator", category := .builtin, elements := ⟨2⟩, keys := ⟨0⟩, values := ⟨0⟩ }]
  rows := #[[], [.type ⟨0⟩], [.type ⟨1⟩], [.type ⟨2⟩, .type ⟨3⟩]]
  nodes := #[{ kind := .merge "x", name := "x", types := ⟨3⟩, rejected := ⟨0⟩ }]

theorem conversions_eitherGenerator : Ends (listCall [.node ⟨0⟩]).run eitherGenerator fun v u =>
    ∃ outs t, v = some ⟨[[.type ⟨2⟩, .type ⟨3⟩].filter fun e =>
      !eitherGenerator.isLike Vocabulary.iterables e], outs⟩ ∧ outs.Only u t ∧
        eitherGenerator.lastItems [.type ⟨2⟩, .type ⟨3⟩] ⊆ u.rowAt (u.typeAt t).elements := by
  have hrank : (Vocabulary.rank? (Text.lower "Generator")).isSome :=
    Vocabulary.rank?_standard (by decide +kernel)
  refine (conversions_keep_last eitherGenerator (.node ⟨0⟩) [.type ⟨2⟩, .type ⟨3⟩] rfl ?_).1
    listCall (by simp)
  simp only [List.forall_mem_cons]
  exact ⟨⟨⟨2⟩, rfl, by decide, fun _ => hrank, by decide, by decide⟩,
    ⟨⟨3⟩, rfl, by decide, fun _ => hrank, by decide, by decide⟩, by simp⟩

/-- The answer of a rule is a row. -/
def answersRow (ruling : Ruling) (s : Store) (row : List Entry) : Bool :=
  match ruling.run s with
  | .ok (some ⟨[[]], .row r⟩) u => u.rowAt r == row
  | _ => false

/-- The integers of the first generator are lost. -/
theorem nextCall_eitherGenerator :
    answersRow (nextCall [.node ⟨0⟩]) eitherGenerator [.type ⟨1⟩] = true := by
  decide +kernel

end Rule
end TypeFlow
