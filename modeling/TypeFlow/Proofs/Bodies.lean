import TypeFlow.Proofs.Joins

/-!
# Bodies of functions

The statements of the small language: assignments to variables, expressions that read variables,
and branches. Each makes the events of its flow.
-/

namespace TypeFlow

open Program List NodeKind Web

variable {c : TypeId} {β : Type} {s : Store} {w : Walk} {g : GraphId} {V : Variables} {W W' : Web}
  {n m : NodeId} {F : Flow NodeId} {name other : String} {l : List β}
  {Q : PUnit → Walk → Store → Prop}

/-- Targets that are variables. -/
inductive WritesEach : List Expr → List String → Prop where
  | nil : WritesEach [] []
  | name (pos : Position) {v : String} {rest : List Expr} {vs : List String} (hv : IsVariable v)
      (hrest : WritesEach rest vs) : WritesEach (.name pos v .store :: rest) (v :: vs)

/-- A piece that defines some variables. -/
def Flow.writes (vs : List String) : Flow Unit :=
  vs.foldr (fun v f => .event () (.define v) f) .done

inductive Flows : List Stmt → Flow Unit → Prop where
  | nil : Flows [] .done
  | assign (pos : Position) {targets : List Expr} {value : Expr} {us vs : List String}
      {rest : List Stmt} {f : Flow Unit} (hvalue : ReadsEach [value] us)
      (htargets : WritesEach targets vs) (hrest : Flows rest f) :
      Flows (.assign pos targets value :: rest) (.reads us ++ .writes vs ++ f)
  | expr {value : Expr} {us : List String} {rest : List Stmt} {f : Flow Unit}
      (hvalue : ReadsEach [value] us) (hrest : Flows rest f) :
      Flows (.expr value :: rest) (.reads us ++ f)
  | if_ (pos : Position) {test : Expr} {body orElse rest : List Stmt} {us : List String}
      {a b f : Flow Unit} (htest : Build.Tests test us) (hbody : Flows body a)
      (horElse : Flows orElse b) (hrest : Flows rest f) :
      Flows (.if_ pos test body orElse :: rest) (.reads us ++ .fork a b .done ++ f)
  | other {rest : List Stmt} {f : Flow Unit} (hrest : Flows rest f) : Flows (.other :: rest) f

namespace Build

variable {vs us : List String} {value : Expr}

/-- Targets are written one after the other. -/
theorem meets_writesEach {es : List Expr} {rest : List NodeId} (h : WritesEach es vs)
    (hw : Inside w g V) (hT : s.web.Tame g) (hV : V.Sound s.web) (hp : w.pending = n :: rest)
    (hn : s.web.Takes n) :
    Meets False (visitEach (operandsOf id es)) w s fun _ w' t =>
      Passed g w s V (.writes vs) w' t := by
  induction h generalizing w s V with
  | nil => exact .done hw hT hV
  | @name pos v es vs hv hrest ih =>
    have hwrite : Meets False (visitExpr id (.name pos v .store)) w s fun _ w' t =>
        Passed g w s V (.writes [v]) w' t := by
      rw [visitExpr, id, meets_storeName hw hv]
      refine meets_writeVariable hw v pos (by simp [hp]) fun t source _ hsource ht => ?_
      obtain rfl : n = source := by simp_all
      refine ⟨_, .event s.web.fresh (.define v) .done, rfl, rfl, ?_⟩
      rw [ht]
      exact .write hT hV (s.web.adds_push_none _ _ _ _) hn.1 hn.carries rfl rfl
    rw [visitEach_cons]
    exact hwrite.passed hw fun V' F t hw' hadv =>
      ih hw' hadv.tame hadv.sound hp (hn.extend hadv.extends_)

/-- A value is read, and then the targets are written. -/
theorem passes_assign {targets : List Expr} (hvalue : ReadsEach [value] us)
    (htargets : WritesEach targets vs) (pos : Position) :
    Passes g (visitStmt id (.assign pos targets value)) (.reads us ++ .writes vs) := by
  intro w s V hw hunused hpending hT hV
  rw [visitStmt, id]
  unfold visitUsed
  simp only [meets_bind]
  refine meets_operands hw hT hV (by simp [hpending]) _ _ fun n t ht hVt hn => ?_
  have hw' := hw.withPending (n :: w.pending)
  have hread := meets_readsEach hvalue hw' hunused ht hVt fun m hm => by
    obtain rfl : n = m := by simpa using hm
    exact hn
  rw [visitEach_cons, meets_bind] at hread
  exact hread.passed hw' fun V₁ F₁ t₁ hw₁ h₁ =>
    meets_writesEach htargets hw₁ h₁.tame h₁.sound rfl (hn.extend h₁.extends_)

theorem passes_expr (hvalue : ReadsEach [value] us) :
    Passes g (visitStmt id (.expr value)) (.reads us) := by
  intro w s V hw hunused hpending hT hV
  have hread := meets_readsEach hvalue hw hunused hT hV (by simp [hpending])
  rw [visitEach_cons, meets_bind] at hread
  rw [visitStmt, id, meets_ite]
  split
  · rename_i hconstant
    cases hvalue with
    | constant pos hkind hrest =>
      cases hrest
      exact .done hw hT hV
    | _ => simp [Expr.isConstant] at hconstant
  · exact hread

theorem passes_bind {x y : Build Unit} {a b : Flow Unit} (hx : Passes g x a) (hy : Passes g y b) :
    Passes g (do x; y) (a ++ b) := by
  intro w s V hw hunused hpending hT hV
  exact (hx hw hunused hpending hT hV).passed hw fun V₁ F₁ s₁ hw₁ h₁ =>
    hy hw₁ hunused hpending h₁.tame h₁.sound

theorem passes_done : Passes g (pure ()) .done := fun _ _ _ hw _ _ hT hV => .done hw hT hV

/-- Statements make the events of their flow. -/
theorem passes_visitBody {body : List Stmt} {f : Flow Unit} (h : Flows body f) :
    Passes g (visitBody id body) f := by
  induction h with
  | nil =>
    rw [visitBody]
    exact passes_done
  | assign pos hvalue htargets _ ih =>
    rw [visitBody]
    exact passes_bind (passes_assign hvalue htargets pos) ih
  | expr hvalue _ ih =>
    rw [visitBody]
    exact passes_bind (passes_expr hvalue) ih
  | if_ pos htest _ _ _ ihbody ihelse ih =>
    rw [visitBody, visitStmt, id]
    exact passes_bind (passes_visitIf htest ihbody ihelse) ih
  | other _ ih =>
    rw [visitBody, visitStmt, id]
    exact passes_bind passes_done ih

end Build

/-! ## Parameters -/

/-- The occurrence of a parameter. -/
def NodeKind.argument (name : String) : NodeKind :=
  .symbol { symbol := name ++ "(arg)", order := 0, context := "Arg" }

/-- A variable that holds a parameter without a default. Nodes from `base` on are new. -/
def Binds (base : Nat) (W : Web) (V : Variables) (name : String) : Prop :=
  ∃ n, V.latest.get? name = some (some n) ∧ base ≤ n.index ∧ n.index < W.size ∧
    (W.node n).kind = .argument name ∧ (W.node n).ins = []

namespace Web

/-- The web in which a node takes a known type. -/
def given (W : Web) (n : NodeId) (c : TypeId) : Web :=
  (W.push ⟨.known c, [], [some n]⟩).take (some n) W.fresh

theorem given_kind (hm : m.index < W.size) : ((W.given n c).node m).kind = (W.node m).kind := by
  simp [given, push_node_of_lt hm]

theorem given_kind_fresh : ((W.given n c).node W.fresh).kind = .known c := by
  simp [given]

theorem given_ins (hins : (W.node n).ins = []) (hm : m.index < W.size) :
    ((W.given n c).node m).ins = if m = n then [some W.fresh] else (W.node m).ins := by
  simp only [given, take_ins, push_node_of_lt hm]
  by_cases hmn : m = n
  · subst hmn
    rw [if_pos ⟨rfl, Nat.lt_succ_of_lt hm⟩, if_pos rfl, hins]
    rfl
  · rw [if_neg (fun h => hmn (Option.some.inj h.1).symm), if_neg hmn]

theorem given_closed (hW : W.Closed) (hlt : n.index < W.size) (hins : (W.node n).ins = []) :
    (W.given n c).Closed := by
  intro m hm link hl
  rcases Nat.lt_succ_iff_lt_or_eq.mp hm with hm | hm
  · rw [given_ins hins hm] at hl
    split at hl
    · exact ⟨W.fresh, mem_singleton.mp hl, Nat.lt_succ_self _⟩
    · obtain ⟨p, hp, hlt⟩ := hW m hm link hl
      exact ⟨p, hp, Nat.lt_succ_of_lt hlt⟩
  · obtain rfl : m = W.fresh := NodeId.eq_of_index hm
    simp only [given, take_ins, push_node_fresh] at hl
    rw [if_neg] at hl
    · cases hl
    · rintro ⟨heq, -⟩
      obtain rfl := Option.some.inj heq
      simp [fresh] at hlt

/-- A known type carries no definition. -/
theorem given_defs (hW : W.Closed) (hins : (W.node n).ins = []) (hm : m.index < W.size) :
    (W.given n c).defs m = W.defs m := by
  refine defs_congr (S := fun m => m.index < W.size) ?_ ?_ (fun m hm => by rw [given_kind hm]) hm
  · intro m p hm
    unfold Back
    rw [given_ins hins hm]
    by_cases hmn : m = n
    · subst hmn
      simp only [if_true, hins, mem_singleton, Option.some.injEq, not_mem_nil, false_and,
        iff_false, not_and]
      rintro rfl
      simp [given_kind_fresh, carries]
    · rw [if_neg hmn]
      refine and_congr_right fun hp => ?_
      obtain ⟨p', hp', hlt⟩ := hW m hm _ hp
      obtain rfl := Option.some.inj hp'
      rw [given_kind hlt]
  · intro m p hm hb
    obtain ⟨p', hp', hlt⟩ := hW m hm _ hb.1
    exact Option.some.inj hp' ▸ hlt

theorem given_tame (hT : W.Tame g) (hlt : n.index < W.size) (hins : (W.node n).ins = []) :
    (W.given n c).Tame g where
  closed := given_closed hT.closed hlt hins
  graph := hT.graph
  role := hT.role
  nodes m hm := Nat.lt_succ_of_lt (hT.nodes m hm)
  symbols m hm := by
    obtain ⟨hlt, hcar, hlen⟩ := hT.symbols m hm
    rw [given_kind hlt, given_ins hins hlt]
    refine ⟨Nat.lt_succ_of_lt hlt, hcar, ?_⟩
    split
    · simp
    · exact hlen
  joints m hm := by
    obtain ⟨hlt, hcar, hocc⟩ := hT.joints m hm
    rw [given_kind hlt]
    exact ⟨Nat.lt_succ_of_lt hlt, hcar, hocc⟩
  returns := hT.returns

end Web

namespace Advances

variable {V' : Variables}

/-- A parameter is a definition of its variable. -/
theorem param {W₁ : Web} (hT : W.Tame g) (hV : V.Sound W)
    (hnew : V.latest.get? name = none) (hA : W.Adds W₁ (.argument name) [])
    (hg : W₁.graph = W.graph) (hgs : W₁.graphs = W.graphs) :
    Advances g W V (W₁.enter g W.fresh) (V.occur name 0 W.fresh)
      (.event W.fresh (.define name) .done) := by
  have hdefs : W₁.defs W.fresh = {W.fresh} := by
    ext d
    rw [hA.mem_defs_fresh hT.closed (by simp)]
    simp [argument, defines]
  refine occur hT hV hA hg hgs rfl (by simp) ?_ (by simp [hnew]) ?_ ?_ ?_ trivial
  · intro info hk
    obtain rfl := symbol.inj hk
    simp
  · simp [Flow.events, argument, isOccurrence]
  · simp [Flow.events, argument, Marks]
  · rw [hdefs]
    rfl

/-- A parameter may take the type of a constant. -/
theorem default (h : Advances g W V W' V' F) (hnew : W.size ≤ n.index)
    (hlt : n.index < W'.size) (hins : (W'.node n).ins = []) :
    Advances g W V ((W'.given n c).enter g W'.fresh) V' F := by
  have hT := given_tame (c := c) h.tame hlt hins
  have hsame : W'.SameBut g (W'.given n c) := .of_eq rfl rfl
  have hlabel {l : NodeId} {e : Event} (hl : (l, e) ∈ F.events) := (h.marks l e hl).1
  refine ⟨hT.enter (Nat.lt_succ_self _) ?_, ⟨h.sound.counted, h.sound.nodup, ?_⟩, .enter ?_ _ _,
    .enter (h.same.trans hsame) _, h.touched, ?_, ?_, ?_, ?_⟩
  · intro info hk
    rw [given_kind_fresh] at hk
    cases hk
  · intro v link hl
    obtain ⟨m, rfl, hm, hc⟩ := h.sound.current v link hl
    exact ⟨m, rfl, Nat.lt_succ_of_lt hm, by rwa [enter_node, given_kind hm]⟩
  · have hle := h.extends_.size_le
    refine ⟨Nat.le_succ_of_le hle, fun m hm hc => ?_, fun m hm hc => ?_, fun m hm => ?_⟩
    · rw [given_kind (by omega), h.extends_.kind_eq m hm hc]
    · rw [given_ins hins (by omega), if_neg, h.extends_.ins_eq m hm hc]
      rintro rfl
      omega
    · rw [given_kind (by omega), h.extends_.name_eq m hm]
  · rw [occurrences_enter hT.graph, given_kind_fresh, ← h.occurrences]
    have hold : (W'.given n c).occurrences g = W'.occurrences g :=
      filter_congr fun m hm => by rw [given_kind (h.tame.nodes m hm)]
    simp [hold, isOccurrence]
  · intro l e hl
    rw [enter_node, given_kind (hlabel hl)]
    exact ⟨Nat.lt_succ_of_lt (hlabel hl), (h.marks l e hl).2⟩
  · rw [← h.current]
    funext v
    change (W'.given n c).current V' v = _
    unfold Web.current
    cases hl : V'.latest.get? v with
    | none => rfl
    | some link =>
      obtain ⟨m, rfl, hm, -⟩ := h.sound.current v link hl
      exact given_defs h.tame.closed hins hm
  · refine h.traced.congr fun l e hl => ?_
    exact (given_defs h.tame.closed hins (hlabel hl)).symm

end Advances

namespace Binds

variable {base : Nat}

theorem occur {order : Nat} (h : Binds base W V name)
    (hne : other ≠ name) (hx : W.Extends W') : Binds base W' (V.occur other order m) name := by
  obtain ⟨n, hl, hbase, hlt, hk, hins⟩ := h
  have hc : (W.node n).kind.carries = true := by rw [hk]; rfl
  refine ⟨n, ?_, hbase, hlt.trans_le hx.size_le, ?_, ?_⟩
  · rw [Variables.latest_occur, if_neg hne, hl]
  · rw [hx.kind_eq n hlt hc, hk]
  · rw [hx.ins_eq n hlt hc, hins]

/-- Another parameter may take a known type. -/
theorem given (h : Binds base W V name)
    (hne : other ≠ name) (hn : (W.node n).kind = .argument other) (hins : (W.node n).ins = []) :
    Binds base ((W.given n c).enter g W.fresh) V name := by
  obtain ⟨m, hl, hbase, hlt, hk, hm⟩ := h
  have hmn : m ≠ n := by
    rintro rfl
    rw [hk] at hn
    simp [argument] at hn
    exact hne hn.symm
  refine ⟨m, hl, hbase, Nat.lt_succ_of_lt hlt, ?_, ?_⟩
  · rw [enter_node, given_kind hlt, hk]
  · rw [enter_node, given_ins hins hlt, if_neg hmn, hm]

end Binds

namespace Build

variable {V' : Variables}

/-- Parameters with different names are bound one after the other. -/
theorem meets_params {ps : List Param} (base : Nat) (hw : Inside w g V) (hT : s.web.Tame g)
    (hV : V.Sound s.web) (hself : ∀ p ∈ ps, p.name ≠ "self") (hnodup : (ps.map Param.name).Nodup)
    (hnew : ∀ p ∈ ps, V.latest.get? p.name = none) (hbase : base ≤ s.web.size) :
    Meets False (ps.forM visitParam) w s fun _ w' t =>
      ∃ V' F, w' = withVariables .function V' w ∧ F.shape = .writes (ps.map Param.name) ∧
        Advances g s.web V t.web V' F ∧
        (∀ name, Binds base s.web V name → name ∉ ps.map Param.name → Binds base t.web V' name) ∧
        ∀ p ∈ ps, Binds base t.web V' p.name := by
  induction ps generalizing w s V with
  | nil =>
    exact ⟨V, .done, hw.withVariables_self.symm, rfl,
      .idle hT hV hT.closed (.refl _) (.of_eq rfl rfl) rfl, fun _ h _ => h, nofun⟩
  | cons p ps ih =>
    obtain ⟨hp, hnodup⟩ := nodup_cons.mp hnodup
    change Meets False (visitParam p >>= fun _ => ps.forM visitParam) w s _
    unfold visitParam
    simp only [hself p (.head _), ne_eq, not_false_eq_true, if_true, meets_bind,
      meets_setCount hw.vars_eq, meets_lift]
    refine Eval.meets_newSymbol _ fun t₁ ht₁ => ?_
    refine Eval.meets_setPosition _ _ fun t₂ ht₂ => ?_
    rw [meets_setLatest (hw.withVariables _).vars_eq, withVariables_withVariables]
    obtain ⟨fname, hf⟩ := (hw.withVariables (V.occur p.name 0 s.web.fresh)).functions
    refine meets_addToFunction hf _ fun t₃ ht₃ => ?_
    have hadv : Advances g s.web V t₃.web (V.occur p.name 0 s.web.fresh)
        (.event s.web.fresh (.define p.name) .done) := by
      rw [ht₃, ht₂, ht₁]
      have hA := s.web.adds_push_none (.argument p.name) [] [] []
      rw [tell_nil] at hA
      exact .param hT hV (hnew p (.head _)) hA rfl rfl
    have hbound : Binds base t₃.web (V.occur p.name 0 s.web.fresh) p.name := by
      have hnode : t₃.web.node s.web.fresh = ⟨.argument p.name, [], []⟩ := by
        rw [ht₃, ht₂, ht₁, enter_node]
        exact push_node_fresh ..
      refine ⟨s.web.fresh, by rw [Variables.latest_occur, if_pos rfl], hbase, ?_, by rw [hnode],
        by rw [hnode]⟩
      rw [ht₃, ht₂, ht₁]
      exact Nat.lt_succ_self _
    refine (ih (hw.withVariables _) hadv.tame hadv.sound (fun q hq => hself q (.tail _ hq)) hnodup
      (fun q hq => ?_) (hbase.trans hadv.extends_.size_le)).imp ?_
    · have hne : p.name ≠ q.name := by
        intro heq
        exact hp (heq ▸ mem_map_of_mem hq)
      rw [Variables.latest_occur, if_neg hne]
      exact hnew q (.tail _ hq)
    · rintro - w' u ⟨V', F, rfl, hF, hadv', hkept, hbinds⟩
      refine ⟨V', .event s.web.fresh (.define p.name) .done ++ F, by simp, ?_, hadv.trans hadv',
        fun name hname hnot => ?_, ?_⟩
      · rw [Flow.shape_append, hF]
        rfl
      · rw [map_cons, mem_cons, not_or] at hnot
        exact hkept name (hname.occur (Ne.symm hnot.1) hadv.extends_) hnot.2
      · rintro q hq
        rcases mem_cons.mp hq with rfl | hq
        · exact hkept q.name hbound hp
        · exact hbinds q hq

/-- The default of a parameter is a constant that denotes a type, or an ellipsis. -/
inductive IsConstantDefault : Expr → Prop where
  | mk (pos : Position) {kind : Literal} (hkind : kind ≠ .complex) :
      IsConstantDefault (.constant pos kind)

/-- A parameter takes the type of its default. -/
theorem meets_visitDefault {e : Expr} {byClass : Bool} {visit : Build Unit}
    (he : IsConstantDefault e) (hw : Inside w g V') (hb : Binds W.size s.web V' name)
    (h : Advances g W V s.web V' F) :
    Meets False (visitDefault name e byClass visit) w s fun _ w' t =>
      w' = w ∧ Advances g W V t.web V' F ∧
        ∀ other, other ≠ name → Binds W.size s.web V' other → Binds W.size t.web V' other := by
  obtain ⟨n, hlatest, hbase, hlt, hk, hins⟩ := hb
  obtain @⟨pos, kind, hkind⟩ := he
  have hparam {Q : NodeId → Walk → Store → Prop} {t : Store} :
      Meets False (paramNode name) w t Q ↔ Q n w t := by
    simp only [paramNode, meets_bind, meets_latest hw.vars_eq hlatest, meets_pure]
  have hbyClass {Q : NodeId → Walk → Store → Prop} {t : Store} :
      Meets False (paramNodeByClass name) w t Q ↔ Q n w t := by
    obtain ⟨fname, hf⟩ := hw.functions
    have hframe : at? w.functions.reverse ((w.classes.length : Int) - 1) = some ⟨fname, g, V'⟩ := by
      simp [hf, hw.classes, at?]
    simp only [paramNodeByClass, meets_bind, meets_get, elementAt, hframe, meets_liftTyping,
      Eval.meets_run_pure, hlatest, meets_pure]
  have htype (type : String) : Meets False (constantDefault name type pos byClass) w s fun _ w' t =>
      w' = w ∧ Advances g W V t.web V' F ∧
        ∀ other, other ≠ name → Binds W.size s.web V' other → Binds W.size t.web V' other := by
    unfold constantDefault
    simp only [meets_bind, hparam]
    refine meets_newKnown _ _ _ _ fun t₁ c ht₁ => ?_
    simp only [meets_ite, meets_bind, hparam, hbyClass, ite_self, meets_lift]
    refine Eval.meets_addInput _ _ ?_ fun t₂ ht₂ => ?_
    · rw [ht₁, push_node_of_lt hlt, hk]
      simp [argument, isKnown]
    · refine meets_addHere hw _ fun t₃ ht₃ => ⟨rfl, ?_⟩
      have hweb : t₃.web = (s.web.given n c).enter g s.web.fresh := by rw [ht₃, ht₂, ht₁]; rfl
      rw [hweb]
      exact ⟨h.default hbase hlt hins, fun other hne hb => hb.given (Ne.symm hne) hk hins⟩
  unfold visitDefault literalType
  rw [meets_bind, meets_ofExcept]
  cases kind with
  | complex => exact (hkind rfl).elim
  | ellipsis => exact ⟨rfl, h, fun _ _ hb => hb⟩
  | _ => exact htype _

/-- Defaults are taken one after the other; the parameters in `later` have not got theirs. -/
theorem meets_defaults {f : β → PUnit → Build (ForInStep PUnit)} (name : β → String)
    (later : List String)
    (hf : ∀ b ∈ l, ∀ t, Binds W.size t.web V' (name b) → Advances g W V t.web V' F →
      Meets False (f b ⟨⟩) w t fun r w' u => r = .yield ⟨⟩ ∧ w' = w ∧ Advances g W V u.web V' F ∧
        ∀ other, other ≠ name b → Binds W.size t.web V' other → Binds W.size u.web V' other)
    (hnodup : (l.map name ++ later).Nodup)
    (hb : ∀ v ∈ l.map name ++ later, Binds W.size s.web V' v) (h : Advances g W V s.web V' F)
    (hQ : ∀ t, Advances g W V t.web V' F → (∀ v ∈ later, Binds W.size t.web V' v) → Q ⟨⟩ w t) :
    Meets False (forIn l PUnit.unit f) w s Q := by
  induction l generalizing s with
  | nil => exact hQ s h hb
  | cons b l ih =>
    rw [map_cons, cons_append] at hnodup hb
    obtain ⟨hnot, hnodup⟩ := nodup_cons.mp hnodup
    rw [forIn_cons, meets_bind]
    refine (hf b (.head _) s (hb _ (.head _)) h).imp ?_
    rintro _ _ u ⟨rfl, rfl, hu, hkept⟩
    refine ih (fun b hb => hf b (.tail _ hb)) hnodup (fun v hv => ?_) hu
    refine hkept v ?_ (hb v (.tail _ hv))
    rintro rfl
    exact hnot hv

end Build

/-- The parameters that a function binds, in order. Parameters that are given by position only
are not among them. -/
def Program.Params.bound : Params → List Param
  | .mk _ plain variadic keyword _ mapping _ =>
    plain ++ keyword ++ mapping.toList ++ variadic.toList

def Program.Params.defaultValues : Params → List Expr
  | .mk _ _ _ _ keywordDefaults _ defaults => defaults ++ keywordDefaults.filterMap id

/-- The parameters are variables with different names, and their defaults are constants. -/
structure SimpleParams (params : Params) : Prop where
  names : ∀ p ∈ params.bound, IsVariable p.name
  nodup : (params.bound.map Param.name).Nodup
  defaults : ∀ e ∈ params.defaultValues, Build.IsConstantDefault e

namespace Build

theorem map_fst_zip_sublist {α : Type} (l : List α) (l' : List β) :
    ((l.zip l').map Prod.fst).Sublist l := by
  induction l generalizing l' with
  | nil => simp
  | cons a l ih =>
    cases l' with
    | nil => simp
    | cons b l' => simpa using ih l'

theorem meets_forM_append {e : Prop} {f : β → Build PUnit} {l' : List β} :
    Meets e ((l ++ l').forM f) w s Q ↔
      Meets e (l.forM f) w s fun _ w' t => Meets e (l'.forM f) w' t Q := by
  rw [forM_eq_forM, forM_append, meets_bind]

/-- Parameters define their variables. -/
theorem passes_visitParams {params : Params} (hparams : SimpleParams params) (hw : Inside w g {})
    (hT : s.web.Tame g) (visit : Expr → Build Unit) :
    Meets False (visitParams params visit) w s fun _ w' t =>
      Passed g w s {} (.writes (params.bound.map Param.name)) w' t := by
  obtain ⟨positional, plain, variadic, keyword, keywordDefaults, mapping, defaults⟩ := params
  have hV : Variables.Sound {} s.web := ⟨nofun, nodup_nil, nofun⟩
  have hnodup : (plain.map Param.name ++ keyword.map Param.name ++
      (mapping.toList ++ variadic.toList).map Param.name).Nodup := by
    simpa [Params.bound] using hparams.nodup
  have hbinds := meets_params s.web.size hw hT hV
    (fun p hp => (hparams.names p hp).2) hparams.nodup (fun _ _ => rfl) le_rfl
  rw [Params.bound, meets_forM_append, meets_forM_append, meets_forM_append] at hbinds
  unfold visitParams
  simp only [meets_bind]
  refine hbinds.imp fun _ w₁ s₁ h₁ => h₁.imp fun _ w₂ s₂ h₂ => h₂.imp fun _ w₃ s₃ h₃ => h₃.imp ?_
  clear hbinds h₁ h₂ h₃
  rintro - w₄ s₄ ⟨V, F, rfl, hF, hadv, -, hbound⟩
  have hw' := hw.withVariables V
  have hplain : ((alignDefaults plain defaults).map fun x => x.1.name).Sublist
      (plain.map Param.name) := by
    have h : ((alignDefaults plain defaults).map Prod.fst).Sublist plain :=
      (map_fst_zip_sublist _ _).trans (drop_sublist _ _)
    simpa [Function.comp_def] using h.map Param.name
  have hkeyword : ((keyword.zip keywordDefaults).map fun x => x.1.name).Sublist
      (keyword.map Param.name) := by
    simpa [Function.comp_def] using (map_fst_zip_sublist keyword keywordDefaults).map Param.name
  have hbound' : ∀ v ∈ plain.map Param.name ++ keyword.map Param.name,
      Binds s.web.size s₄.web V v := by
    intro v hv
    rw [← map_append] at hv
    obtain ⟨p, hp, rfl⟩ := mem_map.mp hv
    exact hbound p (mem_append_left _ (mem_append_left _ hp))
  have hnodup' : (plain.map Param.name ++ keyword.map Param.name).Nodup :=
    hnodup.sublist (sublist_append_left _ _)
  -- first the defaults of plain parameters, then those of parameters that are named
  refine meets_defaults (fun x => x.1.name) (keyword.map Param.name) ?_
    (hnodup'.sublist (hplain.append (.refl _)))
    (fun v hv => hbound' v ((hplain.append (.refl _)).subset hv)) hadv fun t ht hlater => ?_
  · rintro ⟨p, e⟩ hx t hb h
    have he : e ∈ defaults := mem_of_mem_drop (of_mem_zip hx).2
    have hconst := hparams.defaults e (mem_append_left _ he)
    rw [meets_bind]
    exact (meets_visitDefault hconst hw' hb h).imp fun _ _ _ h => ⟨rfl, h⟩
  · refine meets_defaults (fun x => x.1.name) [] ?_ ?_ ?_ ht fun u hu _ => ⟨V, F, rfl, hF, hu⟩
    · rintro ⟨p, e⟩ hx u hb h
      cases e with
      | none => exact ⟨rfl, rfl, h, fun _ _ hb => hb⟩
      | some e =>
        have he : some e ∈ keywordDefaults := (of_mem_zip hx).2
        have hconst := hparams.defaults e (mem_append_right _ (mem_filterMap.mpr ⟨_, he, rfl⟩))
        rw [meets_bind]
        exact (meets_visitDefault hconst hw' hb h).imp fun _ _ _ h => ⟨rfl, h⟩
    · rw [append_nil]
      exact ((nodup_append.mp hnodup').2.1).sublist hkeyword
    · intro v hv
      rw [append_nil] at hv
      exact hlater v (hkeyword.subset hv)

end Build
end TypeFlow
