import TypeFlow.Proofs.Features
import TypeFlow.Proofs.Splits

/-!
# Where the sides of a branch meet

The second side of a branch starts from the current nodes before the branch. Where the sides
meet, the variables are joined one after the other: afterwards the current node of each carries
what it carried behind the first side and what it carried behind the second one.
-/

namespace TypeFlow

open Program Option

variable {g : GraphId} {W : Web} {before first second V : Variables} {key : String}
  {rest : List String} {w : Walk}

/-- The variables before a branch, after its first side and after its second side. -/
structure Sides (W : Web) (before first second : Variables) : Prop where
  closed : W.Closed
  soundFirst : first.Sound W
  soundSecond : second.Sound W
  touchedFirst : before.Touched first
  touchedSecond : Variables.Touched ⟨first.counts, before.latest⟩ second
  counted : ∀ v, (before.latest.get? v).isSome → (before.counts.get? v).isSome

/-- The join of the sides while the variables in `rest` are still to be joined. -/
structure Joining (g : GraphId) (W : Web) (before first second : Variables) (rest : List String)
    (W' : Web) (V' : Variables) : Prop where
  tame : W'.Tame g
  sound : V'.Sound W'
  extends_ : W.Extends W'
  graphs : W.SameBut g W'
  occurrences : W'.occurrences g = W.occurrences g
  counts : V'.counts = second.counts
  kept : ∀ v ∈ rest, V'.latest.get? v = second.latest.get? v
  latest : ∀ v, (second.latest.get? v).isSome → (V'.latest.get? v).isSome
  same : ∀ v c, (before.latest.get? v).isSome → before.counts.get? v = some c →
    second.counts.get? v = some c → V'.latest.get? v = before.latest.get? v
  current : ∀ v, v ∉ rest → W'.current V' v = W.current first v ∪ W.current second v

namespace Joining

variable {W' W'' : Web} {V' : Variables} {n : NodeId}

/-- At first all variables are as the second side left them. -/
theorem start (hS : Sides W before first second) (hT : W.Tame g) :
    Joining g W before first second second.counts.keys W second where
  tame := hT
  sound := hS.soundSecond
  extends_ := .refl W
  graphs := .of_eq rfl rfl
  occurrences := rfl
  counts := rfl
  kept _ _ := rfl
  latest _ h := h
  same v c hl hc hc' := by
    obtain ⟨a, ha, hle, -⟩ := hS.touchedFirst.grown v c hl hc
    obtain ⟨b, hb, hle', hsame⟩ := hS.touchedSecond.grown v a hl ha
    rw [hc'] at hb
    obtain rfl := some.inj hb
    exact hsame (le_antisymm hle' hle)
  current v hv := by
    have hnone : second.counts.get? v = none := by
      simpa [Table.mem_keys_iff] using hv
    have hlatest {V : Variables}
        (hV : (V.latest.get? v).isSome → (second.counts.get? v).isSome) :
        V.latest.get? v = none := by
      simpa [hnone] using hV
    have hfirst := hlatest fun hl => hS.touchedSecond.counts v (hS.soundFirst.counted v hl)
    have hsecond := hlatest (hS.soundSecond.counted v)
    simp [Web.current, hfirst, hsecond]

section

variable (h : Joining g W before first second (key :: rest) W' V')

include h

/-- A variable that carries the same behind both sides stays as it is. -/
theorem keep (hW : W.Closed)
    (hS : second.Sound W) (hsame : W.current first key ⊆ W.current second key) :
    Joining g W before first second rest W' V' := by
  refine { h with kept := fun v hv => h.kept v (.tail _ hv), current := fun v hv => ?_ }
  by_cases hkey : v = key
  · subst hkey
    have hcur : W'.current V' v = W'.current second v := by
      unfold Web.current
      rw [h.kept v (.head _)]
    rw [hcur, hS.current_eq h.extends_ hW, Set.union_eq_right.mpr hsame]
  · exact h.current v (by simp [hkey, hv])

variable (hnodup : (key :: rest).Nodup) (hcount : (second.counts.get? key).isSome)
  (hgrown : ∀ c, (before.latest.get? key).isSome → before.counts.get? key = some c →
    second.counts.get? key ≠ some c)

include hnodup hcount hgrown

/-- A variable gets a node that carries what it carries behind the two sides. -/
theorem assign (hT : W''.Tame g) (hx : W'.Extends W'') (hs : W'.SameBut g W'')
    (ho : W''.occurrences g = W'.occurrences g) (hn : n.index < W''.size)
    (hc : (W''.node n).kind.carries = true)
    (hdefs : W''.defs n = W.current first key ∪ W.current second key) :
    Joining g W before first second rest W''
      { V' with latest := V'.latest.insert key (some n) } where
  tame := hT
  sound := by
    refine ⟨fun v hv => ?_, h.sound.nodup, fun v link hl => ?_⟩
    · rw [Table.get?_insert] at hv
      split at hv
      · subst_vars
        exact h.counts ▸ hcount
      · exact h.sound.counted v hv
    · rw [Table.get?_insert] at hl
      split at hl
      · exact ⟨n, (some.inj hl).symm, hn, hc⟩
      · exact (h.sound.extend hx).current v link hl
  extends_ := h.extends_.trans hx
  graphs := h.graphs.trans hs
  occurrences := ho.trans h.occurrences
  counts := h.counts
  kept v hv := by
    have hne : key ≠ v := by
      rintro rfl
      exact (List.nodup_cons.mp hnodup).1 hv
    rw [Table.get?_insert, if_neg hne]
    exact h.kept v (.tail _ hv)
  latest v hv := by
    rw [Table.get?_insert]
    split
    · rfl
    · exact h.latest v hv
  same v c hl hc hc' := by
    rw [Table.get?_insert]
    split
    · subst_vars
      exact absurd hc' (hgrown c hl hc)
    · exact h.same v c hl hc hc'
  current v hv := by
    by_cases hkey : key = v
    · subst hkey
      rw [← hdefs]
      simp [Web.current, Table.get?_insert]
    · have hold := h.current v (by simp [Ne.symm hkey, hv])
      rw [← h.sound.current_eq hx h.tame.closed] at hold
      rw [← hold]
      simp [Web.current, Table.get?_insert, hkey]

/-- A variable gets a merge of the nodes that hold its types behind the two sides. -/
theorem merge {a b : NodeId} {name : String}
    (ha : a.index < W'.size) (hb : b.index < W'.size) (hac : (W'.node a).kind.carries = true)
    (hbc : (W'.node b).kind.carries = true)
    (hdefs : W'.defs a ∪ W'.defs b = W.current first key ∪ W.current second key) :
    Joining g W before first second rest
      (((W'.push ⟨.merge name, [some a, some b], []⟩).tell [some a, some b] W'.fresh).enter g
        W'.fresh)
      { V' with latest := V'.latest.insert key (some W'.fresh) } := by
  have hA := W'.adds_push_none (.merge name) [some a, some b] [] [some a, some b]
  have hclosed := hA.closed h.tame.closed (by simp [ha, hb])
  have hT := h.tame.extend hA.extends_ hclosed rfl rfl
  have hfresh : W'.fresh.index < W'.size + 1 := Nat.lt_succ_self _
  have hmerge := hA.defs_fresh_of_pair h.tame.closed ha hb hac hbc rfl
  have hsame : W'.SameBut g ((W'.push ⟨.merge name, [some a, some b], []⟩).tell [some a, some b]
      W'.fresh) := .of_eq rfl rfl
  refine h.assign hnodup hcount hgrown (hT.enter hfresh ?_) (hA.extends_.enter g _)
    (hsame.enter _) ?_ hfresh ?_ ?_
  · intro info hk
    rw [hA.kind_new] at hk
    cases hk
  · rw [Web.occurrences_enter hT.graph, hA.kind_new, hA.extends_.occurrences_eq h.tame rfl]
    simp [NodeKind.isOccurrence]
  · rw [Web.enter_node, hA.kind_new]
    rfl
  · exact hmerge.trans hdefs

end

end Joining

/-- Both sides of a branch and their join make a fork. -/
theorem Advances.fork {W₁ W₂ W₃ : Web} {F F' : Flow NodeId} (hW : W.Closed) (hV : before.Sound W)
    (ha : Advances g W before W₁ first F)
    (hb : Advances g W₁ ⟨first.counts, before.latest⟩ W₂ second F')
    (hj : Joining g W₂ before first second [] W₃ V) :
    Advances g W before W₃ V (.fork F F' .done) := by
  have hx := hb.extends_.trans hj.extends_
  -- the second side starts with the current definitions before the branch
  have hstart : W₁.current ⟨first.counts, before.latest⟩ = W.current before :=
    hV.current_eq ha.extends_ hW
  have hfirst : W₂.current first = F.after (W.current before) := by
    rw [ha.sound.current_eq hb.extends_ ha.tame.closed, ha.current]
  have hsecond : W₂.current second = F'.after (W.current before) := by
    rw [hb.current, hstart]
  refine ⟨hj.tame, hj.sound, ha.extends_.trans hx, (ha.same.trans hb.same).trans hj.graphs,
    ⟨?_, ?_, ?_⟩, ?_, ?_, ?_, ?_⟩
  · intro v hv
    exact hj.latest v (hb.touched.latest v hv)
  · intro v hv
    exact hj.counts ▸ hb.touched.counts v (ha.touched.counts v hv)
  · intro v c hv hc
    obtain ⟨a, hca, hle, -⟩ := ha.touched.grown v c hv hc
    obtain ⟨b, hcb, hle', -⟩ := hb.touched.grown v a hv hca
    refine ⟨b, hj.counts ▸ hcb, hle.trans hle', ?_⟩
    rintro rfl
    exact hj.same v c hv hc hcb
  · rw [hj.occurrences, hb.occurrences, ha.occurrences]
    simp [Flow.events]
  · intro l e hl
    simp only [Flow.events, List.append_nil, List.mem_append] at hl
    rcases hl with hl | hl
    · exact ha.marks_extend hx l e hl
    · exact hb.marks_extend hj.extends_ l e hl
  · funext v
    rw [hj.current v List.not_mem_nil, hfirst, hsecond]
    rfl
  · exact ⟨ha.traced_extend hx, hstart ▸ hb.traced_extend hj.extends_, trivial⟩

theorem Inside.withGlobals (h : Inside w g V) : Build.withVariables .module {} w = w := by
  obtain ⟨name, hf⟩ := h.functions
  have := h.globals
  cases w
  simp_all [Build.withVariables]

namespace Build

variable {s : Store} {e : Prop} {Q : Unit → Walk → Store → Prop} {body orElse : Build Unit}
  {a b : Flow Unit}

/-- What holds while the sides are joined. -/
def HasJoined (g : GraphId) (w : Walk) (W : Web) (before first second : Variables)
    (rest : List String) (w' : Walk) (t : Store) : Prop :=
  ∃ V', w' = withVariables .function V' w ∧ Joining g W before first second rest t.web V'

theorem meets_joinVariable {a b : NodeId} (hw : Inside w g V)
    (h : Joining g W before first second (key :: rest) s.web V) (hnodup : (key :: rest).Nodup)
    (ha : a.index < s.web.size) (hb : b.index < s.web.size)
    (hac : (s.web.node a).kind.carries = true) (hbc : (s.web.node b).kind.carries = true)
    (hcount : (second.counts.get? key).isSome)
    (hgrown : ∀ c, (before.latest.get? key).isSome → before.counts.get? key = some c →
      second.counts.get? key ≠ some c)
    (hdefs : s.web.defs a ∪ s.web.defs b = W.current first key ∪ W.current second key) :
    Meets False (joinVariable .function key (some a) (some b)) w s fun _ w' t =>
      HasJoined g w W before first second rest w' t := by
  unfold joinVariable
  rw [meets_bind]
  refine meets_newMerge _ (by simp) fun _ t name ht => ?_
  rw [meets_bind, meets_setLatest hw.vars_eq]
  obtain ⟨fname, hf⟩ := (hw.withVariables { V with
    latest := V.latest.insert key (some s.web.fresh) }).functions
  refine meets_addToFunction hf _ fun u hu => ⟨_, rfl, ?_⟩
  rw [hu, ht]
  exact h.merge hnodup hcount hgrown ha hb hac hbc hdefs

/-- A variable that had a current node before the branch is merged if a side touched it. -/
theorem meets_joinOld {old : Link} (hS : Sides W before first second) (hw : Inside w g V)
    (h : Joining g W before first second (key :: rest) s.web V) (hnodup : (key :: rest).Nodup)
    (hold : before.latest.get? key = some old) :
    Meets False (joinOld .function before first V old key) w s fun _ w' t =>
      HasJoined g w W before first second rest w' t := by
  have hbefore : (before.latest.get? key).isSome := by simp [hold]
  obtain ⟨c, hc⟩ := isSome_iff_exists.mp (hS.counted key hbefore)
  obtain ⟨a, ha, hca, hsameFirst⟩ := hS.touchedFirst.grown key c hbefore hc
  obtain ⟨b, hb, hab, hsameSecond⟩ := hS.touchedSecond.grown key a hbefore ha
  obtain ⟨link, hlink⟩ := isSome_iff_exists.mp (hS.touchedFirst.latest key hbefore)
  obtain ⟨link', hlink'⟩ := isSome_iff_exists.mp (hS.touchedSecond.latest key hbefore)
  obtain ⟨m, rfl, hm, hmc, hmdefs⟩ := hS.soundFirst.carried h.extends_ hS.closed hlink
  obtain ⟨n, rfl, hn, hnc, hndefs⟩ := hS.soundSecond.carried h.extends_ hS.closed hlink'
  have hcurrent : V.latest.get? key = some (some n) := (h.kept key (.head _)).trans hlink'
  have hdefs : s.web.defs n ∪ s.web.defs m = W.current first key ∪ W.current second key := by
    rw [hmdefs, hndefs, Set.union_comm]
  have hjoin (hne : c ≠ b) := meets_joinVariable hw h hnodup hn hm hnc hmc (by simp [hb])
    (fun c' _ hc' => by simpa [hb, ← some.inj (hc.symm.trans hc')] using hne.symm) hdefs
  unfold joinOld
  simp only [ha, h.counts, hb, meets_ite, latestIn, hlink, meets_bind, meets_pure, hc]
  split
  · -- the second side touched the variable
    rw [meets_latest hw.vars_eq hcurrent]
    exact hjoin (by omega)
  · obtain rfl : a = b := by omega
    -- behind the second side the variable is as it was before the branch
    have hsame := hsameSecond rfl
    rw [hlink', hold, some.injEq] at hsame
    subst hsame
    split
    · rename_i hlt
      simp at hlt
      exact hjoin (by omega)
    · rename_i hlt
      obtain rfl : c = a := by
        simp at hlt
        omega
      have hsame := hsameFirst rfl
      rw [hlink, hold] at hsame
      refine ⟨V, hw.withVariables_self.symm, h.keep hS.closed hS.soundSecond ?_⟩
      simp [Web.current, hlink, hlink', hsame]

theorem meets_joinSides (hS : Sides W before first second) (hw : Inside w g V)
    (h : Joining g W before first second (key :: rest) s.web V) (hnodup : (key :: rest).Nodup)
    (hcount : (second.counts.get? key).isSome) :
    Meets False (joinSides .function before first key) w s fun _ w' t =>
      HasJoined g w W before first second rest w' t := by
  unfold joinSides
  rw [meets_bind, meets_vars hw.vars_eq]
  cases hold : before.latest.get? key with
  | some old => exact meets_joinOld hS hw h hnodup hold
  | none =>
    have hgrown : ∀ c, (before.latest.get? key).isSome → before.counts.get? key = some c →
        second.counts.get? key ≠ some c := by simp [hold]
    have hkept := h.kept key (.head _)
    cases hlink : first.latest.get? key with
    | none =>
      refine ⟨V, hw.withVariables_self.symm, h.keep hS.closed hS.soundSecond ?_⟩
      simp [Web.current, hlink]
    | some link =>
      obtain ⟨m, rfl, hm, hmc, hmdefs⟩ := hS.soundFirst.carried h.extends_ hS.closed hlink
      cases hlink' : second.latest.get? key with
      | none =>
        simp only [hkept, hlink', meets_setLatest hw.vars_eq]
        refine ⟨_, rfl,
          h.assign hnodup hcount hgrown h.tame (.refl _) (.of_eq rfl rfl) rfl hm hmc ?_⟩
        rw [hmdefs]
        simp [Web.current, hlink']
      | some link' =>
        obtain ⟨n, rfl, hn, hnc, hndefs⟩ :=
          hS.soundSecond.carried h.extends_ hS.closed hlink'
        simp only [hkept, hlink']
        refine meets_joinVariable hw h hnodup hn hm hnc hmc hcount hgrown ?_
        rw [hmdefs, hndefs, Set.union_comm]

theorem meets_joinAll (hS : Sides s.web before first V) (hw : Inside w g V) (hT : s.web.Tame g) :
    Meets False (joinAll ⟨{}, some before, none⟩ ⟨{}, some first, none⟩) w s fun _ w' t =>
      HasJoined g w s.web before first V [] w' t := by
  have hglobals : vars? .module w = some {} := by simp [vars?, hw.globals]
  unfold joinAll
  simp only [List.forIn_cons, List.forIn_nil, Snapshot.tier, meets_bind, meets_vars hglobals,
    Table.keys, List.map_nil, meets_pure]
  rw [meets_vars hw.vars_eq]
  refine meets_forIn (I := fun rest w' t => (∃ done, V.counts.keys = done ++ rest) ∧
    HasJoined g w s.web before first V rest w' t) ⟨⟨[], rfl⟩, V, hw.withVariables_self.symm,
      .start hS hT⟩ ?_ ?_
  · rintro key rest w' t ⟨⟨done, hdone⟩, V', rfl, hV'⟩
    have hnodup : (key :: rest).Nodup :=
      (List.nodup_append.mp (hdone ▸ hS.soundSecond.nodup)).2.1
    have hkey := Table.mem_keys_iff.mp (hdone ▸ List.mem_append_right done (.head rest))
    rw [meets_bind]
    refine (meets_joinSides hS (hw.withVariables V') hV' hnodup hkey).imp ?_
    rintro - w'' u ⟨V'', rfl, hV''⟩
    exact ⟨rfl, ⟨done ++ [key], by simp [hdone]⟩, V'', by simp, hV''⟩
  · rintro w' t ⟨-, h⟩
    exact h

theorem meets_restoreLatest (hw : Inside w g V) :
    Meets e (restoreLatest ⟨{}, some before, none⟩) w s Q ↔
      Q () (withVariables .function ⟨V.counts, before.latest⟩ w) s := by
  have hglobals : vars? .module w = some {} := by simp [vars?, hw.globals]
  unfold restoreLatest
  simp only [List.forIn_cons, List.forIn_nil, Snapshot.tier, meets_bind, meets_get, hglobals,
    meets_setVariables, hw.withGlobals, hw.vars_eq, meets_pure]

theorem meets_snapshot {Q : Snapshot → Walk → Store → Prop} (hw : Inside w g V) :
    Meets e snapshot w s Q ↔ Q ⟨{}, some V, none⟩ w s := by
  have hclass : vars? .class_ w = none := by simp [vars?, hw.classes]
  unfold snapshot
  simp only [meets_bind, meets_get, hw.globals, hw.vars_eq, hclass, meets_pure]

/-! ## Conditions -/

/-- Conditions, with the variables that they read: names, and tests of the type of a variable. -/
inductive Tests : Expr → List String → Prop where
  | name (pos : Position) {v : String} (hv : IsVariable v) : Tests (.name pos v .load) [v]
  | type {e : Expr} {test : TypeTest} {pos : Position} {v : String}
      (htest : typeTest? e = some test) (htested : TestsType test.tested)
      (hsubject : subject? e = some (.name pos v .load)) (hv : IsVariable v) : Tests e [v]

/-- A part of the walk on the level of statements makes the events of a flow. -/
def Passes (g : GraphId) (x : Build Unit) (f : Flow Unit) : Prop :=
  ∀ ⦃w s V⦄, Inside w g V → w.unused = false → w.pending = [] → s.web.Tame g → V.Sound s.web →
    Meets False x w s fun _ w' t => Passed g w s V f w' t

/-- A variable that is read for its effects only. -/
theorem meets_unusedName {v : String} (hw : Inside w g V) (hunused : w.unused = false)
    (hT : s.web.Tame g) (hV : V.Sound s.web) (pos : Position) (hv : IsVariable v) :
    Meets False (unusedValue (visitExpr id (.name pos v .load))) w s fun _ w' t =>
      Passed g w s V (.reads [v]) w' t := by
  unfold unusedValue
  simp only [meets_bind, meets_modify, visitExpr, id]
  rw [meets_loadName (hw.withUnused true) hv]
  refine meets_readVariable (hw.withUnused true) v true pos (by simp [Walk.consumer]) fun t ht => ?_
  refine ⟨V.occur v (V.readOrder v) s.web.fresh, .event s.web.fresh (.read v) .done, ?_, rfl, ?_⟩
  · cases w
    simp_all [withVariables]
  · rw [ht]
    exact .read hT hV (s.web.adds_push _ _ _ _ _ (by simp [Walk.consumer])) rfl rfl

/-- The sides of a branch are passed one after the other, and then joined. -/
theorem meets_sides {split : Option SplitVariable} {finish : Build Unit} (hbody : Passes g body a)
    (horElse : Passes g orElse b) (hw : Inside w g V) (hunused : w.unused = false)
    (hpending : w.pending = []) (hT : s.web.Tame g) (hV : V.Sound s.web)
    (hsplit : ∀ x, split = some x → x.tier = .function ∧ x.info.scope = "local" ∧
      V.latest.get? x.info.symbol = some (some x.branch))
    (hfinish : ∀ V' F t, F.shape = .fork a b .done → Advances g s.web V t.web V' F →
      Meets False finish (withVariables .function V' w) t Q) :
    Meets False (do
      let before ← snapshot
      enterSide split
      body
      let first ← snapshot
      restoreLatest before
      enterSide split
      orElse
      joinAll before first
      finish) w s Q := by
  simp only [meets_bind, meets_snapshot hw]
  refine (meets_enterSide hw hT hV hsplit).imp ?_
  rintro - w₁ s₁ ⟨V₁, F₁, rfl, hF₁, h₁⟩
  have hw₁ := hw.withVariables V₁
  refine (hbody hw₁ hunused hpending h₁.tame h₁.sound).imp ?_
  rintro - w₂ s₂ ⟨A, F₂, rfl, hF₂, h₂⟩
  have hw₂ := hw₁.withVariables A
  rw [meets_snapshot hw₂, meets_restoreLatest hw₂]
  simp only [withVariables_withVariables] at hw₂ ⊢
  have hfirst := h₁.trans h₂
  have hw₃ := hw.withVariables ⟨A.counts, V.latest⟩
  have hV₃ : Variables.Sound ⟨A.counts, V.latest⟩ s₂.web :=
    ⟨fun v hv => hfirst.touched.counts v (hV.counted v hv), hfirst.sound.nodup,
      (hV.extend hfirst.extends_).current⟩
  refine (meets_enterSide hw₃ hfirst.tame hV₃ hsplit).imp ?_
  rintro - w₄ s₄ ⟨V₄, F₄, rfl, hF₄, h₄⟩
  simp only [withVariables_withVariables]
  have hw₄ := hw.withVariables V₄
  refine (horElse hw₄ hunused hpending h₄.tame h₄.sound).imp ?_
  rintro - w₅ s₅ ⟨B, F₅, rfl, hF₅, h₅⟩
  have hsecond := h₄.trans h₅
  have hw₅ := hw₄.withVariables B
  have hS : Sides s₅.web V A B :=
    ⟨hsecond.tame.closed, hfirst.sound.extend hsecond.extends_, hsecond.sound, hfirst.touched,
      hsecond.touched, hV.counted⟩
  refine (meets_joinAll hS hw₅ hsecond.tame).imp ?_
  rintro - w₆ s₆ ⟨V₆, rfl, hj⟩
  simp only [withVariables_withVariables]
  refine hfinish V₆ (.fork (F₁ ++ F₂) (F₄ ++ F₅) .done) s₆ ?_ (.fork hT.closed hV hfirst hsecond hj)
  have hshape : (Flow.fork (F₁ ++ F₂) (F₄ ++ F₅) .done).shape =
      .fork (F₁ ++ F₂).shape (F₄ ++ F₅).shape .done := rfl
  rw [hshape, Flow.shape_append, Flow.shape_append, hF₁, hF₂, hF₄, hF₅]
  rfl

/-- A branch reads the variables of its condition, and then forks. -/
theorem passes_visitIf {test : Expr} {us : List String} (htest : Tests test us)
    (hbody : Passes g body a) (horElse : Passes g orElse b) :
    Passes g (visitIf test (visitSubject id test) (visitExpr id test) body orElse)
      (.reads us ++ .fork a b .done) := by
  intro w s V hw hunused hpending hT hV
  have hpassed {V₁ V₂ : Variables} {F₁ F₂ : Flow NodeId} {s₁ s₂ : Store}
      (hF₁ : F₁.shape = .reads us) (h₁ : Advances g s.web V s₁.web V₁ F₁)
      (hF₂ : F₂.shape = .fork a b .done) (h₂ : Advances g s₁.web V₁ s₂.web V₂ F₂) :
      Passed g w s V (.reads us ++ .fork a b .done)
        (withVariables .function V₂ (withVariables .function V₁ w)) s₂ :=
    ⟨V₂, F₁ ++ F₂, by simp, by rw [Flow.shape_append, hF₁, hF₂], h₁.trans h₂⟩
  unfold visitIf
  cases htest with
  | name pos hv =>
    simp only [typeTest?, Expr.isConstant, Bool.not_false, if_true]
    rw [meets_bind]
    refine (meets_unusedName hw hunused hT hV pos hv).imp ?_
    rintro - w₁ s₁ ⟨V₁, F₁, rfl, hF₁, h₁⟩
    rw [meets_bind, meets_pure]
    refine meets_sides hbody horElse (hw.withVariables V₁) hunused hpending h₁.tame h₁.sound ?_
      fun V₂ F₂ s₂ hF₂ h₂ => hpassed hF₁ h₁ hF₂ h₂
    intro y hy
    cases hy
  | @type _ _ _ v htest htested hsubject hv =>
    simp only [htest, visitSubject_eq, hsubject, visitExpr?]
    rw [meets_bind]
    refine meets_split htested hv hw hunused hT hV fun x r info pos s₁ hsymbol hscope h₁ => ?_
    have hlatest : (V.occur v (V.readOrder v) x).latest.get? info.symbol = some (some x) := by
      rw [hsymbol, Variables.latest_occur, if_pos rfl]
    have hw₁ := hw.withVariables (V.occur v (V.readOrder v) x)
    refine meets_sides hbody horElse hw₁ hunused hpending h₁.tame h₁.sound ?_
      fun V₂ F₂ s₂ hF₂ h₂ => ?_
    · intro y hy
      obtain rfl := some.inj hy
      exact ⟨rfl, hscope, hlatest⟩
    · obtain ⟨link, hlink⟩ := isSome_iff_exists.mp
        (h₂.touched.latest info.symbol (by simp [hlatest]))
      simp only [meets_bind, meets_latest (hw₁.withVariables V₂).vars_eq hlink, meets_pure]
      exact hpassed rfl h₁ hF₂ h₂

end Build
end TypeFlow
