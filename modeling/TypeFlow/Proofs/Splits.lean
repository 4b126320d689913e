import TypeFlow.Proofs.Reaching

/-!
# Tests that split the types of a variable

A condition on the type of a variable makes a branch, which takes a read of the variable and
becomes its current node; each side starts with an occurrence that the branch feeds.
-/

namespace TypeFlow

open Program Web Vocabulary NodeKind

variable {g : GraphId} {V : Variables} {row : RowId} {info : SymbolInfo} {n : NodeId} {v : String}

theorem NodeId.eq_of_index {m : NodeId} (h : n.index = m.index) : n = m := by
  cases n
  cases m
  simp_all

namespace Advances

variable {W W' W'' : Web} {V' V'' : Variables} {F F' : Flow NodeId}

/-- A branch takes a read of its variable and becomes its current node. -/
theorem split {X : Web} {b r : NodeId} {var : String} (hT : W.Tame g)
    (hV : V.Sound W) (hsize : X.size = W.size + 2) (hb : b.index = W.size)
    (hr : r.index = W.size + 1) (hkind : ∀ n, n.index < W.size → (X.node n).kind = (W.node n).kind)
    (hins : ∀ n, n.index < W.size → (X.node n).ins = (W.node n).ins)
    (hbranch : (X.node b).kind = .branch (some var) row) (hbins : (X.node b).ins = [some r])
    (hread : (X.node r).kind = .symbol { symbol := v, order := V.readOrder v })
    (hrins : (X.node r).ins = V.sources v) (hg : X.graph = W.graph) (hgs : X.graphs = W.graphs) :
    Advances g W V ((X.enter g r).enter g b)
      (V.occur v (V.readOrder v) b) (.event r (.read v) .done) := by
  have hx : W.Extends X :=
    ⟨by omega, fun n hn _ => hkind n hn, fun n hn _ => hins n hn, fun n hn => by rw [hkind n hn]⟩
  have hclosed : X.Closed := by
    intro n hn link hl
    rcases Nat.lt_trichotomy n.index W.size with hlt | heq | hgt
    · obtain ⟨m, hm, hlt⟩ := hT.closed n hlt link (hins n hlt ▸ hl)
      exact ⟨m, hm, by omega⟩
    · obtain rfl := NodeId.eq_of_index (heq.trans hb.symm)
      rw [hbins, List.mem_singleton] at hl
      exact ⟨r, hl, by omega⟩
    · obtain rfl : n = r := NodeId.eq_of_index (by omega)
      obtain ⟨m, hm, hlt⟩ := hV.sources_lt v link (hrins ▸ hl)
      exact ⟨m, hm, by omega⟩
  have hTX := hT.extend hx hclosed (by rw [hg]) hgs
  have hdefsRead : X.defs r = W.current V v := by
    ext d
    rw [Web.mem_defs_iff, hread]
    unfold Web.current
    cases hl : V.latest.get? v with
    | none => simp [defines, Back, hrins, hV.sources_eq, hl]
    | some link =>
      obtain ⟨n, rfl, hn, hc⟩ := hV.current v link hl
      simp [defines, Back, hrins, hV.sources_eq, hl, hx.carries_eq hn, hc,
        hx.defs_eq hT.closed hn hc]
  have hdefs : X.defs b = W.current V v := by
    ext d
    rw [← hdefsRead, mem_defs_iff, hbranch]
    simp [defines, Back, hbins, hread, carries]
  have hlt : b.index < X.size := by omega
  have hcarries : (X.node b).kind.carries = true := by rw [hbranch]; rfl
  refine ⟨?_, ?_, (hx.enter g r).enter g b, .enter (.enter (.of_eq hgs hg) r) b, ?_, ?_, ?_, ?_, ?_⟩
  · refine (hTX.enter (by omega) fun info hk => ?_).enter hlt fun info hk => ?_
    · rw [hread] at hk
      obtain rfl := symbol.inj hk
      exact ⟨hrins ▸ hV.length_sources_le v, by simp⟩
    · simp [hbranch] at hk
  · exact (hV.extend ((hx.enter g r).enter g b)).occur hlt hcarries _
  · refine .occur fun c hl hc => ?_
    obtain ⟨link, hl⟩ := Option.isSome_iff_exists.mp hl
    simp [Variables.readOrder, hl, hc]
  · rw [occurrences_enter (W := X.enter g r) hTX.graph, occurrences_enter hTX.graph,
      hx.occurrences_eq hT (by rw [hg])]
    simp [hread, hbranch, isOccurrence, Flow.events]
  · intro l e hl
    obtain ⟨rfl, rfl⟩ : l = r ∧ e = .read v := by simpa [Flow.events] using hl
    rw [enter_node, enter_node, hread]
    exact ⟨by simp; omega, by simp [Marks]⟩
  · rw [Variables.current_occur]
    change Function.update (X.current V) v (X.defs b) = W.current V
    rw [hV.current_eq hx hT.closed, hdefs, Function.update_eq_self]
  · exact ⟨hdefsRead, trivial⟩

end Advances

/-! ## Type tests -/

namespace Web

variable {W : Web} {sources : List Link}

/-- The web with a branch and a read that the branch takes. -/
def branchOn (W : Web) (row : RowId) (info : SymbolInfo) (sources : List Link) : Web :=
  let r := (W.push { kind := .branch none row }).fresh
  (((W.push { kind := .branch none row }).push ⟨.symbol info, sources, [some W.fresh]⟩).tell sources
    r).take (some W.fresh) r

theorem branchOn_kind (hn : n.index < W.size) :
    ((W.branchOn row info sources).node n).kind = (W.node n).kind := by
  simp only [branchOn, take_kind, tell_kind]
  rw [push_node_of_lt (by simpa using Nat.lt_succ_of_lt hn), push_node_of_lt hn]

theorem branchOn_ins (hn : n.index < W.size) :
    ((W.branchOn row info sources).node n).ins = (W.node n).ins := by
  simp only [branchOn, take_ins, tell_ins]
  rw [if_neg, push_node_of_lt (by simpa using Nat.lt_succ_of_lt hn), push_node_of_lt hn]
  rintro ⟨h, -⟩
  obtain rfl := Option.some.inj h
  simp [fresh] at hn

theorem branchOn_branch : ((W.branchOn row info sources).node W.fresh).kind = .branch none row ∧
    ((W.branchOn row info sources).node W.fresh).ins =
      [some (W.push { kind := .branch none row }).fresh] := by
  have hb : ((W.push { kind := .branch none row }).push
      ⟨.symbol info, sources, [some W.fresh]⟩).node W.fresh = { kind := .branch none row } := by
    rw [push_node_of_lt (by simp [fresh]), push_node_fresh]
  have hlt : W.fresh.index < W.size + 1 + 1 := Nat.lt_succ_of_lt (Nat.lt_succ_self _)
  simp only [branchOn, take_kind, tell_kind, take_ins, tell_ins, hb, true_and]
  exact if_pos hlt

theorem branchOn_read :
    ((W.branchOn row info sources).node (W.push { kind := .branch none row }).fresh).kind =
        .symbol info ∧
      ((W.branchOn row info sources).node (W.push { kind := .branch none row }).fresh).ins =
        sources := by
  simp only [branchOn, take_kind, tell_kind, take_ins, tell_ins, push_node_fresh]
  simp [fresh]

/-- The branch may be made with other types at once. -/
theorem branchOn_alter (out : RowId) :
    ((W.branchOn row info sources).alter W.fresh fun v => { v with kind := .branch none out }) =
      W.branchOn out info sources := by
  simp only [branchOn, alter, take, tell, push, fresh, mk.injEq, true_and, and_true]
  funext m
  by_cases hm : m = ⟨W.size⟩
  · subst hm
    simp
    grind
  · have : m.index ≠ W.size := fun h => hm (NodeId.eq_of_index h)
    simp [hm, this]

end Web

/-- What a type test tests for is found without a fault. -/
inductive TestsType : Build.Tested → Prop where
  | named {e : Expr} {path : String} (hpath : e.path Literal.graphRefusal = .ok path) :
      TestsType (.named e)
  | exact_ {e : Expr} {path : String} (hpath : e.path Literal.graphRefusal = .ok path)
      (hdenoted : path ∈ standardNames → (denoted? path).isSome) :
      TestsType (.exact_ e)
  | literal {kind : Literal} (hkind : kind ≠ .complex) : TestsType (.literal kind)

namespace Build

variable {s : Store} {w : Walk} {Q : Entry → Walk → Store → Prop} {test : TypeTest} {pos : Position}

theorem meets_denotedType (path spelling : String)
    (hdenoted : path ∈ standardNames → (denoted? spelling).isSome)
    (h : ∀ c t, t.web = s.web → Q c w t) : Meets False (denotedType path spelling) w s Q := by
  unfold denotedType
  rw [meets_ite]
  split
  · obtain ⟨name, hname⟩ := Option.isSome_iff_exists.mp (hdenoted ‹_›)
    simp only [hname, meets_bind, meets_liftTyping, meets_pure]
    exact Eval.meets_newType _ _ fun c t ht => h _ t ht
  · simp only [meets_bind, meets_liftTyping, meets_pure]
    exact Eval.meets_newType _ _ fun c t ht => h _ t ht

/-- Every standard name denotes a type in lower case. -/
theorem denoted?_lower_isSome {name : String} (h : name ∈ standardNames) :
    (denoted? (Text.lower name)).isSome := by
  have hmodule {module : String} {names : List String} (h : name ∈ names) :
      (Text.lower name, name) ∈ withModule module names :=
    List.mem_flatMap.mpr ⟨name, h, by simp⟩
  have hplain {names : List String} (h : name ∈ names) :
      (Text.lower name, name) ∈ names.map fun n => (Text.lower n, n) := List.mem_map_of_mem h
  have hmem : (Text.lower name, name) ∈ denoted := by
    simp only [standardNames, List.mem_append] at h
    simp only [denoted, List.mem_append]
    rcases h with ((((h | h) | h) | h) | h) | h
    · exact .inl (.inl (.inr (hmodule h)))
    · exact .inl (.inl (.inl (.inr (hplain (by simp [h])))))
    · exact .inl (.inr (hmodule h))
    · exact .inr (hmodule h)
    · exact .inl (.inl (.inl (.inr (hplain (by simp [h])))))
    · exact .inl (.inl (.inl (.inr (hplain (by simp [h])))))
  rw [denoted?, find?, List.lookup_isSome_iff]
  exact ⟨_, hmem, beq_self_eq_true _⟩

theorem meets_testedType {tested : Tested} (htested : TestsType tested)
    (h : ∀ c t, t.web = s.web → Q c w t) : Meets False (testedType tested) w s Q := by
  cases htested with
  | named hpath =>
    simp only [testedType, pathOf, meets_bind, meets_ofExcept, hpath]
    exact meets_denotedType _ _ denoted?_lower_isSome h
  | exact_ hpath hdenoted =>
    simp only [testedType, pathOf, meets_bind, meets_ofExcept, hpath]
    exact meets_denotedType _ _ hdenoted h
  | @literal kind hkind =>
    simp only [testedType, literalType, meets_bind, meets_ofExcept]
    cases kind with
    | complex => exact (hkind rfl).elim
    | ellipsis => exact h _ s rfl
    | _ =>
      simp only [Literal.typeName, meets_bind, meets_liftTyping, meets_pure]
      exact Eval.meets_newType _ _ fun c t ht => h _ t ht

theorem meets_setBranchName {Q : Unit → Walk → Store → Prop} (b : NodeId) (name : String)
    (h : ∀ t, t.web = s.web.alter b (fun v => { v with kind := v.kind.named name }) → Q () w t) :
    Meets False (setBranchName b name) w s Q := by
  unfold setBranchName
  rw [meets_lift]
  refine Eval.meets_modifyNode b _ _ (fun node => ?_) h
  cases hk : node.kind <;> simp [Node.wired, named, hk]

/-- A branch that takes an occurrence of a variable becomes its current node. -/
theorem meets_splitVariable {Q : Option SplitVariable → Walk → Store → Prop} {b r : NodeId}
    {rest : List Link} {c : Nat} (hw : Inside w g V)
    (hb : (s.web.node b).ins = some r :: rest) (hr : (s.web.node r).kind = .symbol info)
    (hscope : info.scope = "local") (hc : V.counts.get? info.symbol = some c)
    (h : ∀ t pos name, t.web = s.web.alter b (fun v => { v with kind := v.kind.named name }) →
      Q (some ⟨b, .function, info, pos⟩) (withVariables .function
        { V with latest := V.latest.insert info.symbol (some b) } w) t) :
    Meets False (splitVariable b) w s Q := by
  have hb' : (s.nodeAt b).ins = some r :: rest := hb
  have hr' : (s.nodeAt r).kind.symbol? = some info := by
    rw [show (s.nodeAt r).kind = .symbol info from hr]
    rfl
  have htier : tierOf info.scope = some .function := by rw [hscope]; rfl
  unfold splitVariable
  simp only [meets_bind, meets_liftTyping, Eval.meets_of_eq (Eval.node_run _ _), hb', hr', htier,
    meets_setLatest hw.vars_eq]
  rw [meets_count? (hw.withVariables _).vars_eq]
  simp only [hc, meets_bind, meets_pure, ne_eq, reduceCtorEq, not_false_eq_true, if_true]
  exact meets_setBranchName b _ fun t ht => h t _ _ ht

/-- The branch of a test on a variable takes a read of it and is added to the graph. -/
theorem meets_newBranch {Q : NodeId → Walk → Store → Prop} (htested : TestsType test.tested)
    (hv : IsVariable v) (hw : Inside w g V) (hunused : w.unused = false)
    (h : ∀ t row, t.web =
      ((s.web.branchOn row { symbol := v, order := V.readOrder v } (V.sources v)).enter g
        ⟨s.web.size + 1⟩).enter g s.web.fresh →
          Q s.web.fresh (withVariables .function (V.occur v (V.readOrder v) ⟨s.web.size + 1⟩) w)
            t) :
    Meets False (newBranch test (visitExpr id (.name pos v .load))) w s Q := by
  unfold newBranch
  simp only [meets_bind, meets_lift, meets_liftTyping, meets_pure]
  refine Eval.meets_newBranch _ fun t₁ row ht₁ => ?_
  rw [meets_reading, visitExpr, id, meets_loadName (hw.withPending _) hv]
  have hconsumer : Walk.consumer { w with pending := s.web.fresh :: w.pending } w.unused =
      some s.web.fresh := by
    simp [Walk.consumer, hunused]
  refine meets_readVariable (hw.withPending _) v _ pos ?_ fun t₂ ht₂ => ?_
  · intro n hn hknown
    obtain rfl := Option.some.inj (hconsumer.symm.trans hn)
    simp [ht₁, isKnown] at hknown
  rw [hconsumer, ht₁] at ht₂
  refine meets_testedType htested fun c t₃ ht₃ => ?_
  refine Eval.meets_newRow _ fun out t₄ ht₄ => ?_
  let Y := s.web.branchOn row { symbol := v, order := V.readOrder v } (V.sources v)
  have hY : t₄.web = Y.enter g ⟨s.web.size + 1⟩ := by rw [ht₄, ht₃, ht₂]; rfl
  refine Eval.meets_setOutTypes _ out (by rw [hY]; exact branchOn_branch.1) fun t₅ ht₅ => ?_
  rw [ht₁]
  refine meets_addHere (hw.withVariables _) _ fun t₆ ht₆ => h t₆ out ?_
  have hne : (⟨s.web.size + 1⟩ : NodeId) ≠ s.web.fresh := by simp [fresh]
  rw [ht₆, ht₅, hY, enter_alter _ _ _ _ _ fun G => by rw [alter_node_of_ne hne], branchOn_alter]

/-- A test on the type of a variable reads the variable and splits its types. -/
theorem meets_split {next : Option SplitVariable → Build Unit} {Q : Unit → Walk → Store → Prop}
    (htested : TestsType test.tested) (hv : IsVariable v) (hw : Inside w g V)
    (hunused : w.unused = false) (hT : s.web.Tame g) (hV : V.Sound s.web)
    (h : ∀ b r info pos t, info.symbol = v → info.scope = "local" →
      Advances g s.web V t.web (V.occur v (V.readOrder v) b) (.event r (.read v) .done) →
        Meets False (next (some ⟨b, .function, info, pos⟩))
          (withVariables .function (V.occur v (V.readOrder v) b) w) t Q) :
    Meets False (newBranch test (visitExpr id (.name pos v .load))) w s fun b w' t =>
      Meets False (splitVariable b >>= next) w' t Q := by
  refine meets_newBranch htested hv hw hunused fun t row ht => ?_
  rw [meets_bind]
  let Y := s.web.branchOn row { symbol := v, order := V.readOrder v } (V.sources v)
  let r : NodeId := ⟨s.web.size + 1⟩
  have hbins : (t.web.node s.web.fresh).ins = [some r] := by rw [ht]; exact branchOn_branch.2
  have hrkind : (t.web.node r).kind = .symbol { symbol := v, order := V.readOrder v } := by
    rw [ht]
    exact branchOn_read.1
  have hcount : (V.occur v (V.readOrder v) r).counts.get? v = some (V.readOrder v) := by
    simp [Variables.counts_occur]
  refine meets_splitVariable (hw.withVariables _) hbins hrkind rfl hcount fun u pos name hu => ?_
  have hlatest : ({ V.occur v (V.readOrder v) r with
      latest := (V.occur v (V.readOrder v) r).latest.insert v (some s.web.fresh) } : Variables) =
        V.occur v (V.readOrder v) s.web.fresh := by
    simp [Variables.occur, Table.insert_insert]
  rw [hlatest, withVariables_withVariables]
  refine h _ r _ pos u rfl rfl ?_
  -- naming the branch does not show in the graph
  have hlt : s.web.fresh.index < Y.size := by
    change s.web.size < s.web.size + 1 + 1
    omega
  have hne : r ≠ s.web.fresh := by simp [r, fresh]
  have hbranch : ((Y.alter s.web.fresh fun v => { v with kind := v.kind.named name }).node
      s.web.fresh).kind = .branch (some name) row := by
    rw [alter_node_self hlt]
    change ((Y.node s.web.fresh).kind.named name) = _
    rw [branchOn_branch.1]
    rfl
  have hweb : u.web = ((Y.alter s.web.fresh fun v => { v with kind := v.kind.named name }).enter g
      r).enter g s.web.fresh := by
    rw [hu, ht, enter_alter, enter_alter _ _ _ _ _ fun G => by rw [alter_node_of_ne hne]]
    intro G
    change G.enter _ (Y.node s.web.fresh).kind =
      G.enter _ ((Y.alter s.web.fresh fun v => { v with kind := v.kind.named name }).node
        s.web.fresh).kind
    rw [hbranch, branchOn_branch.1]
    rfl
  rw [hweb]
  have hold {n : NodeId} (hn : n.index < s.web.size) : n ≠ s.web.fresh := by
    rintro rfl
    simp [fresh] at hn
  refine .split hT hV rfl rfl rfl ?_ ?_ hbranch ?_ ?_ ?_ rfl rfl
  · intro n hn
    rw [alter_node_of_ne (hold hn), branchOn_kind hn]
  · intro n hn
    rw [alter_node_of_ne (hold hn), branchOn_ins hn]
  · rw [alter_node_self hlt]
    exact branchOn_branch.2
  · rw [alter_node_of_ne hne]
    exact branchOn_read.1
  · rw [alter_node_of_ne hne]
    exact branchOn_read.2

/-- A side of a branch starts with an occurrence that carries what the branch carries. -/
theorem meets_enterSide {split : Option SplitVariable} (hw : Inside w g V) (hT : s.web.Tame g)
    (hV : V.Sound s.web)
    (hsplit : ∀ x, split = some x → x.tier = .function ∧ x.info.scope = "local" ∧
      V.latest.get? x.info.symbol = some (some x.branch)) :
    Meets False (enterSide split) w s fun _ w' t => Passed g w s V .done w' t := by
  cases split with
  | none => exact .done hw hT hV
  | some x =>
    obtain ⟨htier, hscope, hlatest⟩ := hsplit x rfl
    obtain ⟨c, hc⟩ := Option.isSome_iff_exists.mp (hV.counted x.info.symbol (by simp [hlatest]))
    obtain ⟨_, hb, hlt, hcar⟩ := hV.current _ _ hlatest
    obtain rfl := Option.some.inj hb
    unfold enterSide
    simp only [htier, meets_bind, meets_again hw.vars_eq hc, meets_lift, reduceCtorEq, if_false]
    refine Eval.meets_newSymbol _ fun t₁ ht₁ => ?_
    refine meets_place _ _ _ _ fun t₂ ht₂ => ?_
    refine Eval.meets_addOutput _ _ fun t₃ ht₃ => ?_
    rw [meets_setLatest (hw.withVariables _).vars_eq, withVariables_withVariables]
    refine meets_addHere (hw.withVariables _) _ fun t₄ ht₄ => ?_
    refine ⟨V.occur x.info.symbol (c + 1) s.web.fresh, .done, rfl, rfl, ?_⟩
    rw [ht₁, push_fresh_alter] at ht₂
    rw [ht₂] at ht₃
    rw [ht₄, ht₃, hscope]
    have hA := s.web.adds_push_none
      (.symbol { symbol := x.info.symbol, order := ↑(c + 1), extra := true }) [some x.branch] []
      [some x.branch]
    have hdefs := hA.defs_fresh_of_single hT.closed hlt hcar (by simp [defines])
    refine .occur hT hV hA rfl rfl rfl (by simpa using hlt) ?_ ?_ ?_ ?_ ?_ trivial
    · intro info hk
      obtain rfl := symbol.inj hk
      simp
    · intro c' _ hc'
      rw [hc] at hc'
      obtain rfl := Option.some.inj hc'
      omega
    · simp [Flow.events, isOccurrence]
    · simp [Flow.events]
    · rw [hdefs]
      have : s.web.current V x.info.symbol = s.web.defs x.branch := by
        simp [current, hlatest]
      rw [← this, Function.update_eq_self]
      rfl

end Build
end TypeFlow
