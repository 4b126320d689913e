import TypeFlow.Build
import TypeFlow.Graph.Report
import TypeFlow.Proofs.Discard
import TypeFlow.Proofs.Dominance
import TypeFlow.Proofs.Pieces

/-!
# Reported slots

The report of a function has one entry for each slot, and every occurrence of a variable is reported
in the entry of its slot. Variables that are neither arguments nor results share a slot exactly when
their symbols agree up to the first mark. A plain name has no mark. A chain of attributes has one
after its first component, so all chains that start at one variable share a slot.
-/

namespace TypeFlow

open List Slot

variable {α : Type} {info : SymbolInfo} {done : List NodeId} {p : Report Entry × Bool}

/-! ## Stores during a report -/

/-- Rows may have lost entries that are not types. -/
structure Store.Sifts (s t : Store) : Prop where
  nodes : t.nodes = s.nodes
  old : ∀ r, ∀ e ∈ t.rowAt r, e ∈ s.rowAt r
  types : ∀ r τ, .type τ ∈ s.rowAt r → .type τ ∈ t.rowAt r

namespace Store.Sifts

variable {s t u : Store}

theorem refl (s : Store) : s.Sifts s := ⟨rfl, fun _ _ h => h, fun _ _ h => h⟩

theorem trans (h : s.Sifts t) (h' : t.Sifts u) : s.Sifts u where
  nodes := h'.nodes.trans h.nodes
  old r e he := h.old r e (h'.old r e he)
  types r τ hτ := h'.types r τ (h.types r τ hτ)

instance : IsPreorder Store Store.Sifts where
  refl := refl
  trans _ _ _ := trans

theorem nodeAt (h : s.Sifts t) (n : NodeId) : t.nodeAt n = s.nodeAt n := by
  rw [Store.nodeAt, h.nodes, Store.nodeAt]

end Store.Sifts

namespace Eval

variable {s t u : Store}

theorem sifts_discardForeign (r : RowId) : Keeps Store.Sifts (discardForeign r).run := by
  refine ⟨fun {s _ t} h => ?_⟩
  cases h
  refine ⟨rfl, fun p e he => ?_, fun p τ hτ => ?_⟩
  · rw [Store.rowAt_modify] at he
    split at he
    · rename_i hp
      exact hp.1 ▸ (mem_filter.mp he).1
    · exact he
  · rw [Store.rowAt_modify]
    split
    · rename_i hp
      exact mem_filter.mpr ⟨hp.1 ▸ hτ, rfl⟩
    · exact hτ

theorem sifts_existSame (e : Entry) (entries : List Entry) :
    Keeps Store.Sifts (existSame e entries).run := by
  have hrows (s : Store) (e : Entry) : Item.Rows (fun _ => True)
      [Store.unfoldItem (s.unfoldType s.depth) (s.unfoldRow s.depth) e] := by
    cases e with
    | type t =>
      exact ⟨Store.rows_unfoldType (fun _ => ⟨trivial, trivial, trivial⟩) _ t, trivial⟩
    | text | absent | group => trivial
  refine ⟨fun {s b t} h => ?_⟩
  refine (Ty.keeps_existSame (R := Store.Sifts) (q := fun _ => True)
    (fun r _ => sifts_discardForeign r) (hrows s e) (Item.rows_iff.mpr fun i hi => ?_)).rel h
  obtain ⟨e', -, rfl⟩ := mem_map.mp hi
  exact hrows s e'

/-- A loop that only goes on, and what holds of the part of the list that it has passed. -/
theorem forIn_passes {β : Type} {f : α → β → Eval (ForInStep β)}
    {P : List α → β → Store → Prop} {l : List α} {b b' : β}
    (hstep : ∀ done a b c s t, P done b s → f a b s = .ok c t →
      ∃ b', c = .yield b' ∧ P (done ++ [a]) b' t)
    (hs : P [] b s) (hrun : forIn l b f s = .ok b' t) : P l b' t := by
  have hloop (rest done : List α) (b : β) (s : Store) (hs : P done b s)
      (hrun : forIn rest b f s = .ok b' t) : P (done ++ rest) b' t := by
    induction rest generalizing done b s with
    | nil =>
      cases hrun
      rwa [append_nil]
    | cons a rest ih =>
      rw [forIn_cons] at hrun
      obtain ⟨c, u, hturn, hrun⟩ := bind_eq_ok.mp hrun
      obtain ⟨b', rfl, hu⟩ := hstep done a b c s u hs hturn
      rw [append_cons]
      exact ih (done ++ [a]) b' u hu hrun
  exact hloop l [] b s hs hrun

end Eval

/-! ## Entries of a report -/

namespace Report

variable {r : Report α} {slot : Slot} {content : List α}

theorem mem_update {e : Slot × List α} :
    e ∈ r.update slot content ↔ e = (slot, content) ∨ e ∈ r ∧ e.1 ≠ slot := by
  unfold update
  split
  · rename_i hany
    obtain ⟨e₀, he₀, hslot⟩ := any_eq_true.mp hany
    rw [mem_map]
    constructor
    · rintro ⟨e', he', rfl⟩
      by_cases h : e'.1 = slot
      · exact .inl (if_pos (beq_iff_eq.mpr h))
      · rw [if_neg (by simpa using h)]
        exact .inr ⟨he', h⟩
    · rintro (rfl | ⟨he, hne⟩)
      · exact ⟨e₀, he₀, if_pos hslot⟩
      · exact ⟨e, he, if_neg (by simpa using hne)⟩
  · rename_i hany
    rw [mem_append, mem_singleton, or_comm]
    refine or_congr_right ⟨fun he => ⟨he, fun h => hany ?_⟩, And.left⟩
    exact any_eq_true.mpr ⟨e, he, beq_iff_eq.mpr h⟩

theorem nodup_update (h : (r.map Prod.fst).Nodup) :
    ((r.update slot content).map Prod.fst).Nodup := by
  unfold update
  split
  · have hkeys : (r.map fun e => if e.1 == slot then (slot, content) else e).map Prod.fst =
        r.map Prod.fst := by
      rw [map_map]
      refine map_congr_left fun e _ => ?_
      dsimp only [Function.comp]
      split
      · rename_i he
        exact (beq_iff_eq.mp he).symm
      · rfl
    rwa [hkeys]
  · rename_i hany
    rw [map_append, nodup_append]
    refine ⟨h, by simp, ?_⟩
    rintro a ha b hb rfl
    obtain ⟨e, he, rfl⟩ := mem_map.mp ha
    rw [map_singleton, mem_singleton] at hb
    exact hany (any_eq_true.mpr ⟨e, he, beq_iff_eq.mpr hb⟩)

theorem mem_found {x : α} (hx : x ∈ r.found slot) :
    ∃ content, (slot, content) ∈ r ∧ x ∈ content := by
  unfold found at hx
  cases hlookup : r.lookup slot with
  | none => rw [hlookup] at hx; cases hx
  | some content =>
    rw [hlookup] at hx
    exact ⟨content, mem_of_lookup hlookup, hx⟩

theorem found_of_mem (h : (r.map Prod.fst).Nodup) (hr : (slot, content) ∈ r) :
    r.found slot = content := by
  obtain ⟨before, after, rfl⟩ := append_of_mem hr
  have hbefore : slot ∉ before.map Prod.fst := fun hslot => by
    rw [map_append, nodup_append] at h
    exact h.2.2 slot hslot slot (.head _) rfl
  have hlookup : (before ++ (slot, content) :: after).lookup slot = some content := by
    refine lookup_eq_some_iff.mpr ⟨before, after, rfl, fun e he => ?_⟩
    rw [bne_iff_ne]
    rintro rfl
    exact hbefore (mem_map_of_mem he)
  unfold found
  rw [hlookup]
  rfl

end Report

/-! ## Names of slots -/

namespace Text

theorem headD_piecesFrom (c : Char) (piece cs : List Char) :
    (piecesFrom [c] 0 piece cs).headD [] = piece.reverse ++ cs.takeWhile (· ≠ c) := by
  induction cs generalizing piece with
  | nil => simp [piecesFrom]
  | cons d rest ih =>
    rw [piecesFrom]
    by_cases hd : c = d
    · subst hd
      simp
    · have hstart : [c].isPrefixOf (d :: rest) = false := by simp [isPrefixOf, hd]
      rw [hstart, if_neg (by simp), ih]
      simp [Ne.symm hd]

theorem firstPiece_singleton (s : String) (c : Char) :
    firstPiece s (String.singleton c) = String.ofList (s.toList.takeWhile (· ≠ c)) := by
  have hhead : firstPiece s (String.singleton c) =
      String.ofList ((piecesFrom [c] 0 [] s.toList).headD []) := by
    unfold firstPiece split
    rw [String.toList_singleton]
    cases piecesFrom [c] 0 [] s.toList <;> rfl
  rw [hhead, headD_piecesFrom]
  rfl

end Text

namespace Slot

/-- The symbol of a chain of attributes, or of a plain name. -/
def chain (start : String) (attributes : List String) : String :=
  Text.join "_@_" (start :: attributes)

/-- What a chain of attributes is reported as: where it starts, and whether it goes on. -/
theorem baseName_chain {start : String} (h : '@' ∉ start.toList) (attributes : List String) :
    baseName (chain start attributes) = if attributes = [] then start else start ++ "_" := by
  have hplain (rest : List Char) : (start.toList ++ rest).takeWhile (· ≠ '@') =
      start.toList ++ rest.takeWhile (· ≠ '@') := by
    refine takeWhile_append_of_pos fun c hc => decide_eq_true ?_
    rintro rfl
    exact h hc
  change Text.firstPiece (chain start attributes) (String.singleton '@') = _
  rw [Text.firstPiece_singleton, chain, Text.join, String.toList_intercalate]
  cases attributes with
  | nil =>
    rw [if_pos rfl]
    have hstart := hplain []
    rw [append_nil, takeWhile_nil, append_nil] at hstart
    rw [map_cons, map_nil, intercalate_singleton, hstart, String.ofList_toList]
  | cons a rest =>
    rw [if_neg (cons_ne_nil a rest)]
    have htext : ("_@_".toList.intercalate ((start :: a :: rest).map String.toList)) =
        start.toList ++ '_' :: '@' :: '_' ::
          "_@_".toList.intercalate ((a :: rest).map String.toList) := by
      simp [intercalate]
    rw [htext, hplain]
    apply String.toList_injective
    simp

/-- Occurrences that are neither arguments nor results. -/
def IsLocal (info : SymbolInfo) : Prop := info.context ≠ "Arg" ∧ info.context ≠ "Return"

theorem ofSymbol_local (h : IsLocal info) : ofSymbol info = ⟨"local", baseName info.symbol⟩ := by
  unfold ofSymbol
  split
  · exact absurd ‹_› h.1
  · exact absurd ‹_› h.2
  · rfl

theorem isLocal_of_category (h : (ofSymbol info).category = "local") : IsLocal info := by
  constructor <;>
  · intro hcontext
    unfold ofSymbol at h
    rw [hcontext] at h
    exact absurd h (by simp)

theorem category_ne_return (h : info.context ≠ "Return") : (ofSymbol info).category ≠ "return" := by
  unfold ofSymbol
  split
  · simp
  · exact absurd ‹_› h
  · simp

end Slot

/-! ## The report of a function -/

namespace Eval

variable {s t u v : Store} {g : GraphId} {n : NodeId} {content found : List Entry} {e : Entry}
  {r : Report Entry}

/-- An entry is in a list, or a type that is found to be the same as one of the list. -/
def Covers (s : Store) (content : List Entry) (e : Entry) : Prop :=
  e ∈ content ∨ ∃ found u v, found ⊆ content ∧ s.Sifts u ∧
    (existSame e found).run u = .ok true v

theorem Covers.mono {content' : List Entry} (h : Covers s content e) (hc : content ⊆ content') :
    Covers s content' e := by
  rcases h with h | ⟨found, u, v, hfound, hu, hrun⟩
  · exact .inl (hc h)
  · exact .inr ⟨found, u, v, Subset.trans hfound hc, hu, hrun⟩

/-- Add an entry unless it is found to be the same as one of the list. -/
def addNew (found : List Entry) (e : Entry) : Eval (List Entry) := do
  if ← existSame e found then return found else return found ++ [e]

theorem addNew_run (hu : s.Sifts u) (hrun : addNew found e u = .ok content v) :
    s.Sifts v ∧ found ⊆ content ∧ (∀ x ∈ content, x ∈ found ∨ x = e) ∧ Covers s content e := by
  obtain ⟨b, v', hsame, hend⟩ := bind_eq_ok.mp hrun
  have hv' : s.Sifts v' := hu.trans ((sifts_existSame e found).rel hsame)
  cases b with
  | true =>
    cases hend
    exact ⟨hv', Subset.refl _, fun x => .inl, .inr ⟨_, u, _, Subset.refl _, hu, hsame⟩⟩
  | false =>
    cases hend
    refine ⟨hv', subset_append_left _ _, fun x hx => ?_, .inl (by simp)⟩
    simpa using hx

theorem foldlM_addNew_run {entries : List Entry} (hu : s.Sifts u)
    (hrun : entries.foldlM addNew found u = .ok content v) : s.Sifts v ∧ found ⊆ content ∧
      (∀ x ∈ content, x ∈ found ∨ x ∈ entries) ∧ ∀ e ∈ entries, Covers s content e := by
  induction entries generalizing found u with
  | nil =>
    cases hrun
    exact ⟨hu, Subset.refl _, fun _ => .inl, fun e he => absurd he not_mem_nil⟩
  | cons e rest ih =>
    rw [foldlM_cons] at hrun
    obtain ⟨next, u', hadd, hrun⟩ := bind_eq_ok.mp hrun
    obtain ⟨hu', hsub, hold, hshown⟩ := addNew_run hu hadd
    obtain ⟨hv, hsub', hold', hshown'⟩ := ih hu' hrun
    refine ⟨hv, Subset.trans hsub hsub', fun x hx => ?_, fun e' he' => ?_⟩
    · rcases hold' x hx with hx | hx
      · rcases hold x hx with hx | rfl
        · exact .inl hx
        · exact .inr (.head _)
      · exact .inr (.tail _ hx)
    · rcases mem_cons.mp he' with rfl | he'
      · exact hshown.mono hsub'
      · exact hshown' e' he'

def Occurs (s : Store) (n : NodeId) (info : SymbolInfo) : Prop := (s.nodeAt n).kind = .symbol info

/-- The report after some nodes: what it has, where it comes from, and that nothing is left out. -/
structure Sorts (s : Store) (done : List NodeId) (p : Report Entry × Bool) (u : Store) : Prop where
  sifts : s.Sifts u
  nodup : (p.1.map Prod.fst).Nodup
  origin : ∀ slot ∈ p.1.map Prod.fst, ∃ n ∈ done, ∃ info, Occurs s n info ∧
    Slot.ofSymbol info = slot
  source : ∀ e ∈ p.1, ∀ x ∈ e.2, ∃ n ∈ done, ∃ info, Occurs s n info ∧
    Slot.ofSymbol info = e.1 ∧ x ∈ s.rowAt (s.nodeAt n).types
  shown : ∀ n ∈ done, ∀ info, Occurs s n info → ∃ content, (Slot.ofSymbol info, content) ∈ p.1 ∧
    ∀ τ, .type τ ∈ s.rowAt (s.nodeAt n).types → Covers s content (.type τ)
  returns : p.2 = false → ∀ n ∈ done, ∀ info, Occurs s n info → info.context ≠ "Return"

namespace Sorts

variable {r : Report Entry} {returns : Bool} {content : List Entry}

/-- A node that is no variable adds nothing. -/
theorem skip (h : Sorts s done p u) (hn : ∀ info, ¬ Occurs s n info) :
    Sorts s (done ++ [n]) p u where
  sifts := h.sifts
  nodup := h.nodup
  origin slot hslot := by
    obtain ⟨m, hm, hrest⟩ := h.origin slot hslot
    exact ⟨m, mem_append_left _ hm, hrest⟩
  source e he x hx := by
    obtain ⟨m, hm, hrest⟩ := h.source e he x hx
    exact ⟨m, mem_append_left _ hm, hrest⟩
  shown m hm info hinfo := by
    rcases mem_append.mp hm with hm | hm
    · exact h.shown m hm info hinfo
    · exact absurd (mem_singleton.mp hm ▸ hinfo) (hn info)
  returns hp m hm info hinfo := by
    rcases mem_append.mp hm with hm | hm
    · exact h.returns hp m hm info hinfo
    · exact absurd (mem_singleton.mp hm ▸ hinfo) (hn info)

/-- A variable adds to the entry of its slot. -/
theorem add (h : Sorts s done (r, returns) u) (hn : Occurs s n info) (hv : s.Sifts v)
    (hsub : r.found (ofSymbol info) ⊆ content)
    (hold : ∀ x ∈ content, x ∈ r.found (ofSymbol info) ∨ x ∈ s.rowAt (s.nodeAt n).types)
    (hshown : ∀ τ, .type τ ∈ s.rowAt (s.nodeAt n).types → Covers s content (.type τ)) :
    Sorts s (done ++ [n])
      (r.update (ofSymbol info) content, info.context == "Return" || returns) v where
  sifts := hv
  nodup := Report.nodup_update h.nodup
  origin slot hslot := by
    obtain ⟨e, he, rfl⟩ := mem_map.mp hslot
    rcases Report.mem_update.mp he with rfl | ⟨he, -⟩
    · exact ⟨n, by simp, info, hn, rfl⟩
    · obtain ⟨m, hm, hrest⟩ := h.origin e.1 (mem_map_of_mem he)
      exact ⟨m, mem_append_left _ hm, hrest⟩
  source e he x hx := by
    rcases Report.mem_update.mp he with rfl | ⟨he, -⟩
    · rcases hold x hx with hx | hx
      · obtain ⟨before, hbefore, hx⟩ := Report.mem_found hx
        obtain ⟨m, hm, hrest⟩ := h.source _ hbefore x hx
        exact ⟨m, mem_append_left _ hm, hrest⟩
      · exact ⟨n, by simp, info, hn, rfl, hx⟩
    · obtain ⟨m, hm, hrest⟩ := h.source e he x hx
      exact ⟨m, mem_append_left _ hm, hrest⟩
  shown m hm info' hinfo' := by
    rcases mem_append.mp hm with hm | hm
    · obtain ⟨before, hbefore, hall⟩ := h.shown m hm info' hinfo'
      by_cases hslot : ofSymbol info' = ofSymbol info
      · refine ⟨content, Report.mem_update.mpr (.inl (by rw [hslot])), fun τ hτ => ?_⟩
        rw [← Report.found_of_mem h.nodup hbefore, hslot] at hall
        exact (hall τ hτ).mono hsub
      · exact ⟨before, Report.mem_update.mpr (.inr ⟨hbefore, hslot⟩), hall⟩
    · obtain rfl := mem_singleton.mp hm
      obtain rfl : info = info' := NodeKind.symbol.inj (hn.symm.trans hinfo')
      exact ⟨content, Report.mem_update.mpr (.inl rfl), hshown⟩
  returns hp m hm info' hinfo' := by
    obtain ⟨hcontext, hreturns⟩ := Bool.or_eq_false_iff.mp hp
    rcases mem_append.mp hm with hm | hm
    · exact h.returns hreturns m hm info' hinfo'
    · obtain rfl := mem_singleton.mp hm
      obtain rfl : info = info' := NodeKind.symbol.inj (hn.symm.trans hinfo')
      exact fun heq => Bool.false_ne_true (hcontext.symm.trans (beq_iff_eq.mpr heq))

end Sorts

/-- One turn of a report of a function. -/
def sortNode (n : NodeId) (p : Report Entry × Bool) : Eval (ForInStep (Report Entry × Bool)) := do
  match (← node n).kind with
  | .symbol info => do
    let content ← (← typesAt n).foldlM addNew (p.1.found (Slot.ofSymbol info))
    return .yield (p.1.update (Slot.ofSymbol info) content, info.context == "Return" || p.2)
  | _ => return .yield p

theorem sorts_sortNode {c : ForInStep (Report Entry × Bool)} (h : Sorts s done p u)
    (hrun : sortNode n p u = .ok c v) : ∃ p', c = .yield p' ∧ Sorts s (done ++ [n]) p' v := by
  have hnode : (liftM (node n) : Eval Node) u = .ok (s.nodeAt n) u := by
    rw [← h.sifts.nodeAt n]
    rfl
  unfold sortNode at hrun
  rw [bind_of_ok hnode] at hrun
  cases hkind : (s.nodeAt n).kind with
  | symbol info =>
    rw [hkind] at hrun
    have htypes : (liftM (typesAt n) : Eval (List Entry)) u =
        .ok (u.rowAt (s.nodeAt n).types) u := by
      rw [← h.sifts.nodeAt n] at hkind ⊢
      exact typesAt_run (by rw [hkind]; exact NodeKind.noConfusion)
    dsimp only at hrun
    rw [bind_of_ok htypes] at hrun
    obtain ⟨content, v', hfold, hend⟩ := bind_eq_ok.mp hrun
    obtain ⟨hv, hsub, hold, hshown⟩ := foldlM_addNew_run h.sifts hfold
    cases hend
    refine ⟨_, rfl, Sorts.add h hkind hv hsub (fun x hx => ?_) fun τ hτ => ?_⟩
    · exact (hold x hx).imp_right (h.sifts.old _ x)
    · exact hshown _ (h.sifts.types _ τ hτ)
  | base | operation | known | branch | merge =>
    rw [hkind] at hrun
    cases hrun
    exact ⟨p, rfl, h.skip fun info hinfo => by simp [Occurs, hkind] at hinfo⟩

/-- The report of a function, taken apart: the turns, and `None` for a function without a result. -/
theorem slotTypes_run (hg : (s.graphAt g).isModule = false) (hrun : slotTypes g s = .ok r t) :
    ∃ p u,
      forIn (s.graphAt g).symbols.values.flatten (([], false) : Report Entry × Bool) sortNode s =
        .ok p u ∧
      (p.2 = true ∧ r = p.1 ∨ p.2 = false ∧ ∃ name e, r = p.1 ++ [(⟨"return", name⟩, [e])]) := by
  unfold slotTypes report at hrun
  obtain ⟨G, s₁, hgraph, hrun⟩ := bind_eq_ok.mp hrun
  cases hgraph
  dsimp only at hrun
  obtain ⟨p, u, hloop, hrun⟩ := bind_eq_ok.mp hrun
  refine ⟨p, u, ?_, ?_⟩
  · -- outside of modules the slot is that of the occurrence and results are noted, as in `sortNode`
    rw [← hloop]
    refine congrFun (congrArg (forIn (s.graphAt g).symbols.values.flatten ([], false)) ?_) s
    funext n p
    unfold sortNode
    congr 1
    funext node
    cases node.kind with
    | symbol info =>
      simp only [hg]
      cases hreturn : info.context == "Return" <;> rfl
    | base | operation | known | branch | merge => rfl
  · rw [hg, Bool.false_or] at hrun
    cases hreturns : p.2 with
    | true =>
      rw [hreturns] at hrun
      cases hrun
      exact .inl ⟨rfl, rfl⟩
    | false =>
      rw [hreturns] at hrun
      obtain ⟨e, v, -, hend⟩ := bind_eq_ok.mp hrun
      cases hend
      exact .inr ⟨rfl, _, e, rfl⟩

theorem sorts_slotTypes (hg : (s.graphAt g).isModule = false) (hrun : slotTypes g s = .ok r t) :
    ∃ p u, Sorts s (s.graphAt g).symbols.values.flatten p u ∧ (r.map Prod.fst).Nodup ∧
      p.1 ⊆ r ∧ ∀ e ∈ r, e.1.category = "local" → e ∈ p.1 := by
  obtain ⟨p, u, hloop, hend⟩ := slotTypes_run hg hrun
  have hsorts : Sorts s (s.graphAt g).symbols.values.flatten p u := by
    refine forIn_passes (P := Sorts s)
      (fun done n p c u v h hturn => sorts_sortNode h hturn) ?_ hloop
    exact ⟨.refl s, nodup_nil, fun _ h => absurd h not_mem_nil,
      fun _ h => absurd h not_mem_nil, fun _ h => absurd h not_mem_nil,
      fun _ _ h => absurd h not_mem_nil⟩
  refine ⟨p, u, hsorts, ?_⟩
  rcases hend with ⟨-, rfl⟩ | ⟨hreturns, name, none, rfl⟩
  · exact ⟨hsorts.nodup, Subset.refl _, fun _ he _ => he⟩
  refine ⟨?_, subset_append_left _ _, fun e he hlocal => ?_⟩
  · -- no occurrence is a result, so no slot is that of a result
    rw [map_append, nodup_append]
    refine ⟨hsorts.nodup, by simp, ?_⟩
    rintro slot hslot _ hlast rfl
    obtain ⟨n, hn, info, hinfo, hof⟩ := hsorts.origin slot hslot
    obtain rfl : slot = ⟨"return", name⟩ := mem_singleton.mp hlast
    exact category_ne_return (hsorts.returns hreturns n hn info hinfo) (hof ▸ rfl)
  · rcases mem_append.mp he with he | he
    · exact he
    · rw [mem_singleton.mp he] at hlocal
      exact absurd hlocal (by simp)

/-- Reports by base name. The report of a function, whatever types its nodes have, has one entry for
each slot. An occurrence that is neither an argument nor a result is reported in the entry of its
base name, and every type of such an entry comes from occurrences with that base name. The base name
of a variable is its name, and that of a chain of attributes where the chain starts, with `_`. -/
theorem slotTypes_by_baseName {r : Report Entry} (hg : (s.graphAt g).isModule = false)
    (hrun : slotTypes g s = .ok r t) :
    (r.map Prod.fst).Nodup ∧
    (∀ n ∈ (s.graphAt g).symbols.values.flatten, ∀ info, Occurs s n info → Slot.IsLocal info →
      ∃ content, (⟨"local", Slot.baseName info.symbol⟩, content) ∈ r ∧
        ∀ τ, .type τ ∈ s.rowAt (s.nodeAt n).types → Covers s content (.type τ)) ∧
    (∀ e ∈ r, e.1.category = "local" → ∀ x ∈ e.2,
      ∃ n ∈ (s.graphAt g).symbols.values.flatten, ∃ info, Occurs s n info ∧ Slot.IsLocal info ∧
        Slot.baseName info.symbol = e.1.name ∧ x ∈ s.rowAt (s.nodeAt n).types) ∧
    ∀ start attributes, '@' ∉ start.toList → Slot.baseName (Slot.chain start attributes) =
      if attributes = [] then start else start ++ "_" := by
  obtain ⟨p, u, hsorts, hnodup, hreported, hlocals⟩ := sorts_slotTypes hg hrun
  refine ⟨hnodup, fun n hn info hinfo hlocal => ?_, fun e he hcategory x hx => ?_,
    fun start attributes h => Slot.baseName_chain h attributes⟩
  · obtain ⟨content, hcontent, hshown⟩ := hsorts.shown n hn info hinfo
    rw [Slot.ofSymbol_local hlocal] at hcontent
    exact ⟨content, hreported hcontent, hshown⟩
  · obtain ⟨n, hn, info, hinfo, hslot, hx⟩ := hsorts.source e (hlocals e he hcategory) x hx
    have hlocal := Slot.isLocal_of_category (hslot ▸ hcategory)
    refine ⟨n, hn, info, hinfo, hlocal, ?_, hx⟩
    rw [← hslot, Slot.ofSymbol_local hlocal]

/-! ## Two variables of a function -/

open Program

/-- A function that assigns a number and a text to two targets. -/
def assigningTwo (first second : Expr) : Module :=
  [.function default "f" (.mk [] [.mk default "a" none] none [] [] none [])
    [.assign default [first] (.constant default .int),
      .assign default [second] (.constant default .text)] [] none]

/-- The graph of a program's only function, the store with its types, and its report. -/
def reportOf (program : Module) : Option (GraphId × Store × Report Entry) :=
  match Build.graphsOf {} program {} with
  | .error _ _ => none
  | .ok w s =>
    match (s.graphAt w.top).functions with
    | [g] =>
      match passTypes g s with
      | .error _ _ => none
      | .ok _ t =>
        match slotTypes g t with
        | .ok r _ => some (g, t, r)
        | .error _ _ => none
    | _ => none

theorem exists_of_reportOf {program : Module} (h : reportOf program = some (g, t, r)) :
    ∃ w s u, Build.graphsOf {} program {} = .ok w s ∧
      g ∈ (s.graphAt w.top).functions ∧ passTypes g s = .ok () t ∧ slotTypes g t = .ok r u := by
  unfold reportOf at h
  split at h
  · cases h
  · rename_i w s hgraphs
    split at h
    · rename_i g' hfunctions
      split at h
      · cases h
      · rename_i t' hpass
        split at h
        · rename_i r' u hreport
          cases h
          exact ⟨w, s, u, hgraphs, hfunctions ▸ .head _, hpass, hreport⟩
        · cases h
    · cases h

/-- A list has a type of an occurrence of a symbol that is written to. -/
def hasTypeOf (symbol : String) (g : GraphId) (t : Store) (content : List Entry) : Bool :=
  (t.graphAt g).symbols.values.flatten.any fun n =>
    match (t.nodeAt n).kind with
    | .symbol info => info.symbol == symbol && info.context == "Write" &&
        (t.rowAt (t.nodeAt n).types).any content.contains
    | _ => false

theorem exists_of_hasTypeOf {symbol : String} (h : hasTypeOf symbol g t content = true) :
    ∃ n ∈ (t.graphAt g).symbols.values.flatten, ∃ info, Occurs t n info ∧ Slot.IsLocal info ∧
      info.symbol = symbol ∧ ∃ x ∈ t.rowAt (t.nodeAt n).types, x ∈ content := by
  obtain ⟨n, hn, h⟩ := any_eq_true.mp h
  split at h
  · rename_i info hkind
    obtain ⟨h, htypes⟩ := Bool.and_eq_true_iff.mp h
    obtain ⟨hsymbol, hcontext⟩ := Bool.and_eq_true_iff.mp h
    obtain ⟨x, hx, hcontent⟩ := any_eq_true.mp htypes
    have hlocal : Slot.IsLocal info := by
      rw [Slot.IsLocal, eq_of_beq hcontext]
      decide
    exact ⟨n, hn, info, hkind, hlocal, eq_of_beq hsymbol, x, hx, contains_iff_mem.mp hcontent⟩
  · cases h

/-- Two names have entries of their own. -/
theorem slotTypes_twoNames : ∃ w s g t r u,
    Build.graphsOf {} (assigningTwo (.name default "x" .store) (.name default "y" .store)) {} =
      .ok w s ∧ g ∈ (s.graphAt w.top).functions ∧ passTypes g s = .ok () t ∧
    slotTypes g t = .ok r u ∧ (r.map Prod.fst).Nodup ∧
    ∃ content content', (⟨"local", "x"⟩, content) ∈ r ∧ (⟨"local", "y"⟩, content') ∈ r := by
  have hcheck : (reportOf (assigningTwo (.name default "x" .store) (.name default "y" .store))).any
      (fun p => !(p.2.1.graphAt p.1).isModule &&
        p.2.2.any (fun e => hasTypeOf "x" p.1 p.2.1 e.2) &&
        p.2.2.any (fun e => hasTypeOf "y" p.1 p.2.1 e.2)) = true := by decide +kernel
  obtain ⟨⟨g, t, r⟩, hreport, hcheck⟩ := (Option.any_eq_true _ _).mp hcheck
  obtain ⟨hcheck, hy⟩ := Bool.and_eq_true_iff.mp hcheck
  obtain ⟨hmodule, hx⟩ := Bool.and_eq_true_iff.mp hcheck
  obtain ⟨e, -, he⟩ := List.any_eq_true.mp hx
  obtain ⟨e', -, he'⟩ := List.any_eq_true.mp hy
  obtain ⟨n, hn, info, hinfo, hlocal, hsymbol, -⟩ := exists_of_hasTypeOf he
  obtain ⟨n', hn', info', hinfo', hlocal', hsymbol', -⟩ := exists_of_hasTypeOf he'
  obtain ⟨w, s, u, hgraphs, hg, hpass, hrun⟩ := exists_of_reportOf hreport
  obtain ⟨hnodup, hentries, -, hnames⟩ :=
    slotTypes_by_baseName ((Bool.not_eq_true' _).mp hmodule) hrun
  obtain ⟨content, hcontent, -⟩ := hentries n hn info hinfo hlocal
  obtain ⟨content', hcontent', -⟩ := hentries n' hn' info' hinfo' hlocal'
  rw [hsymbol, show "x" = Slot.chain "x" [] from rfl, hnames "x" [] (by decide), if_pos rfl]
    at hcontent
  rw [hsymbol', show "y" = Slot.chain "y" [] from rfl, hnames "y" [] (by decide), if_pos rfl]
    at hcontent'
  exact ⟨w, s, g, t, r, u, hgraphs, hg, hpass, hrun, hnodup, content, content', hcontent, hcontent'⟩

def twoAttributes : Module :=
  assigningTwo (.attribute default (.name default "a" .load) "b" .store)
    (.attribute default (.name default "a" .load) "c" .store)

/-- Types of two different variables are reported in one entry. -/
theorem slotTypes_twoAttributes : ∃ w s g t r u, Build.graphsOf {} twoAttributes {} = .ok w s ∧
    g ∈ (s.graphAt w.top).functions ∧ passTypes g s = .ok () t ∧ slotTypes g t = .ok r u ∧
    ∃ e ∈ r, ∃ n m info info', Occurs t n info ∧ Occurs t m info' ∧ Slot.IsLocal info ∧
      Slot.IsLocal info' ∧ info.symbol ≠ info'.symbol ∧
      (∃ x ∈ t.rowAt (t.nodeAt n).types, x ∈ e.2) ∧
      ∃ x ∈ t.rowAt (t.nodeAt m).types, x ∈ e.2 := by
  have hcheck : (reportOf twoAttributes).any (fun p => p.2.2.any fun e =>
      hasTypeOf "a_@_b" p.1 p.2.1 e.2 && hasTypeOf "a_@_c" p.1 p.2.1 e.2) = true := by
    decide +kernel
  obtain ⟨⟨g, t, r⟩, hreport, hcheck⟩ := (Option.any_eq_true _ _).mp hcheck
  obtain ⟨e, he, hcheck⟩ := List.any_eq_true.mp hcheck
  obtain ⟨hb, hc⟩ := Bool.and_eq_true_iff.mp hcheck
  obtain ⟨n, -, info, hinfo, hlocal, hsymbol, hx⟩ := exists_of_hasTypeOf hb
  obtain ⟨m, -, info', hinfo', hlocal', hsymbol', hx'⟩ := exists_of_hasTypeOf hc
  obtain ⟨w, s, u, hgraphs, hg, hpass, hrun⟩ := exists_of_reportOf hreport
  refine ⟨w, s, g, t, r, u, hgraphs, hg, hpass, hrun, e, he, n, m, info, info', hinfo, hinfo',
    hlocal, hlocal', ?_, hx, hx'⟩
  rw [hsymbol, hsymbol']
  decide

end Eval

end TypeFlow
