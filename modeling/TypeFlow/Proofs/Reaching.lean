import TypeFlow.Proofs.Carried

/-!
# Reaching definitions in the graph of a function
-/

namespace TypeFlow

open Program NodeKind

/-- A part of the walk that made the events of a flow. The occurrences in the graph are the
events, each read carries the definitions that are current where it stands, and afterwards the
current nodes of the variables carry the definitions that are current behind the flow. -/
structure Advances (g : GraphId) (W : Web) (V : Variables) (W' : Web) (V' : Variables)
    (F : Flow NodeId) : Prop where
  tame : W'.Tame g
  sound : V'.Sound W'
  extends_ : W.Extends W'
  same : W.SameBut g W'
  touched : V.Touched V'
  occurrences : W'.occurrences g = W.occurrences g ++ F.events.map Prod.fst
  marks : ∀ l e, (l, e) ∈ F.events → l.index < W'.size ∧ (W'.node l).kind.Marks e
  current : W'.current V' = F.after (W.current V)
  traced : F.Traced W'.defs (W.current V)

namespace Advances

variable {g : GraphId} {W W' W'' : Web} {V V' V'' : Variables} {F F' : Flow NodeId} {W₁ : Web}
  {k : NodeKind} {ins : List Link} {n : NodeId} {v : String}

/-- A part of the walk that made no event and left the variables alone. -/
theorem idle (hT : W'.Tame g) (hV : V.Sound W) (hW : W.Closed) (hx : W.Extends W')
    (hs : W.SameBut g W') (ho : W'.occurrences g = W.occurrences g) :
    Advances g W V W' V .done where
  tame := hT
  sound := hV.extend hx
  extends_ := hx
  same := hs
  touched := .refl V
  occurrences := by simp [ho, Flow.events]
  marks := by simp [Flow.events]
  current := hV.current_eq hx hW
  traced := trivial

theorem push (hT : W.Tame g) (hV : V.Sound W) (hA : W.Adds W₁ k ins) (hg : W₁.graph = W.graph)
    (hgs : W₁.graphs = W.graphs) (hins : ∀ link ∈ ins, ∃ m, link = some m ∧ m.index < W.size) :
    Advances g W V W₁ V .done :=
  have hT₁ := hT.extend hA.extends_ (hA.closed hT.closed hins) (by rw [hg]) hgs
  idle hT₁ hV hT.closed hA.extends_ (.of_eq hgs hg) (hA.extends_.occurrences_eq hT (by rw [hg]))

/-- A node becomes an operand of an operation, if there is one. -/
theorem feed (hT : W.Tame g) (hV : V.Sound W) {target : Option NodeId}
    (ht : ∀ m, target = some m → W.Takes m) (hn : n.index < W.size) :
    Advances g W V ((W.tell (target.toList.map fun _ => some n) (target.getD n)).take target n) V
      .done := by
  cases target with
  | none =>
    simp only [Option.toList_none, List.map_nil, Web.tell_nil, Web.take_none]
    exact idle hT hV hT.closed (.refl W) (.of_eq rfl rfl) rfl
  | some m =>
    have hx := Web.Extends.connect (ht m rfl) [some n] n
    have hT' := hT.extend hx (hT.closed.connect _ hn) rfl rfl
    exact idle hT' hV hT.closed hx (.of_eq rfl rfl) (hx.occurrences_eq hT rfl)

/-- An operation changes in what it does. -/
theorem alter (hT : W.Tame g) (hV : V.Sound W) (hn : W.Takes n) {f : Wired → Wired}
    (hf : (f (W.node n)).kind.name = (W.node n).kind.name)
    (hins : (f (W.node n)).ins = (W.node n).ins) : Advances g W V (W.alter n f) V .done := by
  have hx := Web.Extends.alter hn hf
  have hclosed : (W.alter n f).Closed := by
    intro m hm link hl
    simp only [Web.alter] at hl
    split at hl
    · rename_i h
      obtain ⟨rfl, -⟩ := h
      exact hT.closed m hm link (hins ▸ hl)
    · exact hT.closed m hm link hl
  exact idle (hT.extend hx hclosed rfl rfl) hV hT.closed hx (.of_eq rfl rfl)
    (hx.occurrences_eq hT rfl)

section

variable (h : Advances g W V W' V' F)

include h

/-- A node that is no occurrence is added to the graph. -/
theorem enter (hn : n.index < W'.size)
    (hsymbol : (W'.node n).kind.symbol? = none) : Advances g W V (W'.enter g n) V' F :=
  { h with
    tame := by
      refine h.tame.enter hn fun info hk => ?_
      simp [hk, symbol?] at hsymbol
    sound := h.sound.extend (.enter (.refl _) g n)
    extends_ := h.extends_.enter g n
    same := h.same.enter n
    occurrences := by
      rw [Web.occurrences_enter h.tame.graph, if_neg, h.occurrences, List.append_nil]
      cases hk : (W'.node n).kind <;> simp_all [symbol?, isOccurrence] }

theorem marks_extend (hx : W'.Extends W'') (l : NodeId) (e : Event)
    (hl : (l, e) ∈ F.events) : l.index < W''.size ∧ (W''.node l).kind.Marks e := by
  obtain ⟨hlt, hm⟩ := h.marks l e hl
  refine ⟨hlt.trans_le hx.size_le, ?_⟩
  rw [hx.kind_eq l hlt (carries_of_isOccurrence hm.isOccurrence)]
  exact hm

theorem traced_extend (hx : W'.Extends W'') : F.Traced W''.defs (W.current V) := by
  refine h.traced.congr fun l e hl => ?_
  obtain ⟨hlt, hm⟩ := h.marks l e hl
  exact (hx.defs_eq h.tame.closed hlt (carries_of_isOccurrence hm.isOccurrence)).symm

theorem trans (h' : Advances g W' V' W'' V'' F') : Advances g W V W'' V'' (F ++ F') where
  tame := h'.tame
  sound := h'.sound
  extends_ := h.extends_.trans h'.extends_
  same := h.same.trans h'.same
  touched := h.touched.trans h'.touched
  occurrences := by simp [h'.occurrences, h.occurrences]
  marks l e hl := by
    rw [Flow.events_append, List.mem_append] at hl
    rcases hl with hl | hl
    · exact h.marks_extend h'.extends_ l e hl
    · exact h'.marks l e hl
  current := by rw [h'.current, h.current, Flow.after_append]
  traced := Flow.Traced.append.mpr ⟨h.traced_extend h'.extends_, h.current ▸ h'.traced⟩

end

/-- A new node becomes the current one of a variable. -/
theorem occur {order : Nat} (hT : W.Tame g) (hV : V.Sound W) (hA : W.Adds W₁ k ins)
    (hg : W₁.graph = W.graph) (hgs : W₁.graphs = W.graphs) (hk : k.carries = true)
    (hins : ∀ link ∈ ins, ∃ m, link = some m ∧ m.index < W.size)
    (hsymbol : ∀ info, k = .symbol info → ins.length ≤ 1 ∧ info.context ≠ "Return")
    (horder : ∀ c, (V.latest.get? v).isSome → V.counts.get? v = some c → c < order)
    (hlabels : F.events.map Prod.fst = if k.isOccurrence then [W.fresh] else [])
    (hmarks : ∀ l e, (l, e) ∈ F.events → l = W.fresh ∧ k.Marks e)
    (hcurrent : Function.update (W.current V) v (W₁.defs W.fresh) = F.after (W.current V))
    (htraced : F.Traced W₁.defs (W.current V)) :
    Advances g W V (W₁.enter g W.fresh) (V.occur v order W.fresh) F where
  tame := by
    have hT₁ := hT.extend hA.extends_ (hA.closed hT.closed hins) (by rw [hg]) hgs
    refine hT₁.enter (by simp [hA.size, Web.fresh]) ?_
    rw [hA.kind_new, hA.ins_new]
    exact hsymbol
  sound := by
    have hlt : W.fresh.index < (W₁.enter g W.fresh).size := by simp [hA.size, Web.fresh]
    refine (hV.extend (hA.extends_.enter g W.fresh)).occur hlt ?_ order
    rw [Web.enter_node, hA.kind_new, hk]
  extends_ := hA.extends_.enter g W.fresh
  same := .enter (.of_eq hgs hg) W.fresh
  touched := .occur horder
  occurrences := by
    rw [Web.occurrences_enter (hgs ▸ hT.graph), hA.kind_new, hlabels,
      hA.extends_.occurrences_eq hT (by rw [hg])]
  marks l e hl := by
    obtain ⟨rfl, hm⟩ := hmarks l e hl
    rw [Web.enter_node, hA.kind_new]
    exact ⟨by simp [hA.size, Web.fresh], hm⟩
  current := by
    rw [Variables.current_occur]
    rw [show (W₁.enter g W.fresh).current V = W₁.current V from rfl,
      hV.current_eq hA.extends_ hT.closed]
    exact hcurrent
  traced := htraced

/-- A read carries the current definitions of its variable. -/
theorem read (hT : W.Tame g) (hV : V.Sound W)
    (hA : W.Adds W₁ (.symbol { symbol := v, order := V.readOrder v }) (V.sources v))
    (hg : W₁.graph = W.graph) (hgs : W₁.graphs = W.graphs) :
    Advances g W V (W₁.enter g W.fresh) (V.occur v (V.readOrder v) W.fresh)
      (.event W.fresh (.read v) .done) := by
  have hins := hV.sources_lt v
  have hdefs : W₁.defs W.fresh = W.current V v := by
    unfold Web.current
    cases hl : V.latest.get? v with
    | none =>
      ext d
      rw [hA.mem_defs_fresh hT.closed hins]
      simp [hV.sources_eq, hl, defines]
    | some link =>
      obtain ⟨n, rfl, hn, hc⟩ := hV.current v link hl
      rw [hV.sources_eq, hl] at hA
      exact hA.defs_fresh_of_single hT.closed hn hc (by simp [defines])
  refine occur hT hV hA hg hgs rfl hins ?_ ?_ ?_ ?_ ?_ ?_
  · intro info hk
    obtain rfl := symbol.inj hk
    exact ⟨hV.length_sources_le v, by simp⟩
  · intro c hl hc
    obtain ⟨link, hl⟩ := Option.isSome_iff_exists.mp hl
    simp [Variables.readOrder, hl, hc]
  · simp [Flow.events, isOccurrence]
  · simp [Flow.events, Marks]
  · rw [hdefs]
    simp [Flow.after, Flow.Current.after]
  · exact ⟨hdefs, trivial⟩

/-- A write is the current definition of its variable. -/
theorem write {source : NodeId} (hT : W.Tame g) (hV : V.Sound W)
    (hA : W.Adds W₁ (.symbol { symbol := v, order := V.writeOrder v, context := "Write" })
      [some source])
    (hsource : source.index < W.size) (hnot : (W.node source).kind.carries = false)
    (hg : W₁.graph = W.graph) (hgs : W₁.graphs = W.graphs) :
    Advances g W V (W₁.enter g W.fresh) (V.occur v (V.writeOrder v) W.fresh)
      (.event W.fresh (.define v) .done) := by
  have hins : ∀ link ∈ [some source], ∃ m, link = some m ∧ m.index < W.size := by
    simpa using hsource
  have hdefs : W₁.defs W.fresh = {W.fresh} := by
    ext d
    rw [hA.mem_defs_fresh hT.closed hins]
    simp [defines, hnot]
  refine occur hT hV hA hg hgs rfl hins ?_ ?_ ?_ ?_ ?_ trivial
  · intro info hk
    obtain rfl := symbol.inj hk
    simp
  · intro c _ hc
    simp [Variables.writeOrder, hc]
  · simp [Flow.events, isOccurrence]
  · simp [Flow.events, Marks]
  · rw [hdefs]
    rfl

end Advances

/-! ## Expressions -/

/-- The value of a named argument. -/
def Program.Keyword.value : Keyword → Expr
  | .mk _ value => value

/-- Expressions that only read variables: names, constants, and calls of named functions. -/
inductive ReadsEach : List Expr → List String → Prop where
  | nil : ReadsEach [] []
  | name (pos : Position) {v : String} {rest : List Expr} {vs : List String} (hv : IsVariable v)
      (hrest : ReadsEach rest vs) : ReadsEach (.name pos v .load :: rest) (v :: vs)
  | constant (pos : Position) {kind : Literal} {rest : List Expr} {vs : List String}
      (hkind : kind ≠ .complex) (hrest : ReadsEach rest vs) :
      ReadsEach (.constant pos kind :: rest) vs
  | call (pos namePos : Position) (func : String) (access : Access) {args rest : List Expr}
      {keywords : List Keyword} {us ks vs : List String} (hargs : ReadsEach args us)
      (hkeywords : ReadsEach (keywords.map Keyword.value) ks) (hrest : ReadsEach rest vs) :
      ReadsEach (.call pos (.name namePos func access) args keywords :: rest) (us ++ ks ++ vs)

namespace Flow

/-- A piece that reads some variables. -/
def reads (vs : List String) : Flow Unit := vs.foldr (fun v f => .event () (.read v) f) .done

theorem reads_append (us vs : List String) : reads (us ++ vs) = reads us ++ reads vs := by
  induction us with
  | nil => rfl
  | cons u us ih => simp [reads] at ih ⊢; exact ih

/-- A piece without its labels. -/
def shape {ι : Type} (f : Flow ι) : Flow Unit := f.map fun _ => ()

@[simp] theorem shape_append {ι : Type} (f g : Flow ι) : (f ++ g).shape = f.shape ++ g.shape :=
  map_append ..

end Flow

namespace Build

variable {s : Store} {w : Walk} {g : GraphId} {V : Variables}

theorem visitKeywords_eq (keywords : List Keyword) :
    visitKeywords id keywords = visitEach (operandsOf id (keywords.map Keyword.value)) := by
  induction keywords with
  | nil => simp [visitKeywords, visitEach, operandsOf]
  | cons k rest ih =>
    cases k with
    | mk name value =>
      simp [visitKeywords, visitKeyword, ih, visitEach, operandsOf, Keyword.value]

theorem visitEach_cons (x : Expr) (rest : List Expr) : visitEach (operandsOf id (x :: rest)) =
      (visitExpr id x >>= fun _ => visitEach (operandsOf id rest)) := by
  simp [visitEach, operandsOf]

/-- What holds after a part of the walk that read some variables. -/
def Passed (g : GraphId) (w : Walk) (s : Store) (V : Variables) (f : Flow Unit) (w' : Walk)
    (t : Store) : Prop :=
  ∃ V' F, w' = withVariables .function V' w ∧ F.shape = f ∧ Advances g s.web V t.web V' F

theorem Passed.done (hw : Inside w g V) (hT : s.web.Tame g) (hV : V.Sound s.web) :
    Passed g w s V .done w s :=
  ⟨V, .done, hw.withVariables_self.symm, rfl, .idle hT hV hT.closed (.refl _) (.of_eq rfl rfl) rfl⟩

/-- What was read before goes first. -/
theorem Meets.passed {f f' : Flow Unit} {x : Build Unit} {y : Unit → Build Unit}
    (hx : Meets False x w s fun _ w' t => Passed g w s V f w' t) (hw : Inside w g V)
    (hy : ∀ V' F t, Inside (withVariables .function V' w) g V' → Advances g s.web V t.web V' F →
      Meets False (y ()) (withVariables .function V' w) t fun _ w'' u =>
        Passed g (withVariables .function V' w) t V' f' w'' u) :
    Meets False (x >>= y) w s fun _ w'' u => Passed g w s V (f ++ f') w'' u := by
  rw [meets_bind]
  refine hx.imp ?_
  rintro - w' t ⟨V', F, rfl, rfl, hadv⟩
  refine (hy V' F t (hw.withVariables V') hadv).imp ?_
  rintro - w'' u ⟨V'', F', rfl, rfl, hadv'⟩
  exact ⟨V'', F ++ F', by simp, by simp, hadv.trans hadv'⟩

section

variable (hw : Inside w g V) (hT : s.web.Tame g) (hV : V.Sound s.web)
  (hp : ∀ n, w.pending.head? = some n → s.web.Takes n) (pos : Position)

include hw hT hV hp

theorem meets_readName (hunused : w.unused = false) {v : String} (hv : IsVariable v) :
    Meets False (visitExpr id (.name pos v .load)) w s fun _ w' t =>
      Passed g w s V (.reads [v]) w' t := by
  rw [visitExpr, id, meets_loadName hw hv, hunused]
  have htarget (n : NodeId) (hn : w.consumer false = some n) := hp n hn
  refine meets_readVariable hw v false pos ?_ fun t ht => ?_
  · intro n hn hknown
    simp [(htarget n hn).isKnown] at hknown
  · refine ⟨_, .event s.web.fresh (.read v) .done, rfl, rfl, ?_⟩
    rw [ht]
    exact .read hT hV (s.web.adds_push _ _ _ _ _ fun n hn =>
      ⟨(htarget n hn).1, (htarget n hn).carries⟩) rfl rfl

theorem meets_visitConstant {kind : Literal} (hkind : kind ≠ .complex) :
    Meets False (visitExpr id (.constant pos kind)) w s fun _ w' t =>
      Passed g w s V .done w' t := by
  have hsame := Passed.done hw hT hV
  have hname (name : String) : Meets False (typeOperand name .builtin pos) w s fun _ w' t =>
      Passed g w s V .done w' t := by
    refine meets_typeOperand hw _ _ _ ?_ (fun _ => hsame) fun t c target htarget ht => ?_
    · intro n hn
      exact ⟨(hp n hn).1, by simp [(hp n hn).isKnown]⟩
    · refine ⟨V, .done, hw.withVariables_self.symm, rfl, ?_⟩
      rw [ht]
      have hA : s.web.Adds ((s.web.push ⟨.known c, [], [some target]⟩).take (some target)
          s.web.fresh) (.known c) [] := by
        simpa using s.web.adds_push (.known c) [] [some target] [] (some target) fun n hn =>
          ⟨(hp n (htarget.trans hn)).1, (hp n (htarget.trans hn)).carries⟩
      refine (Advances.push hT hV hA rfl rfl (by simp)).enter ?_ ?_
      · simp [Web.fresh]
      · simp [symbol?]
  rw [visitExpr, id]
  unfold readConstant literalType
  simp only [meets_bind, meets_get, meets_ite, meets_pure]
  split
  · exact hsame
  · cases kind with
    | complex => exact (hkind rfl).elim
    | ellipsis => simpa [Literal.typeName] using hsame
    | _ =>
      simp only [meets_ofExcept, Literal.typeName]
      exact hname _

/-- An operation whose operands read variables. -/
theorem meets_operands {f : Flow Unit} (op : String) {operands : NodeId → Build Unit}
    (hoperands : ∀ n t, t.web.Tame g → V.Sound t.web → t.web.Takes n →
      Meets False (operands n) { w with pending := n :: w.pending } t fun _ w' u =>
        Passed g { w with pending := n :: w.pending } t V f w' u) :
    Meets False (newOperation op pos) w s fun n w' t =>
      Meets False (reading n (operands n)) w' t fun _ w' t =>
        Meets False (feed n) w' t fun _ w' t =>
          Meets False (addNode n) w' t fun _ w' t => Passed g w s V f w' t := by
  refine meets_newOperation _ _ _ _ fun t info _ ht => ?_
  rw [meets_reading]
  have hA : s.web.Adds t.web (.operation info) [] := by
    rw [ht]
    simpa using s.web.adds_push_none (.operation info) [] [] []
  have hpush : Advances g s.web V t.web V .done :=
    .push hT hV hA (by rw [ht]; rfl) (by rw [ht]; rfl) (by simp)
  have hop : t.web.Takes s.web.fresh :=
    ⟨by simp [hA.size, Web.fresh], by rw [hA.kind_new]; rfl⟩
  refine (hoperands _ t hpush.tame hpush.sound hop).imp ?_
  rintro - w' u ⟨V', F, rfl, hF, hadv⟩
  -- the operation is handed to the one around it, and then added to the graph
  have hboth := hpush.trans hadv
  rw [Flow.done_append] at hboth
  have hop' := hop.extend hadv.extends_
  have hw' : Inside (withVariables .function V' w) g V' := hw.withVariables V'
  refine meets_feed _ _ ?_ fun v hv => ?_
  · intro m hm hknown
    have htakes := (hp m hm).extend hboth.extends_
    simp [htakes.isKnown] at hknown
  · refine meets_addHere hw' _ fun z hz => ⟨V', F, rfl, hF, ?_⟩
    have hfed : Advances g u.web V' v.web V' .done := by
      rw [hv]
      exact .feed hboth.tame hboth.sound (fun m hm => (hp m hm).extend hboth.extends_) hop'.1
    have hdone := hboth.trans hfed
    rw [Flow.append_done] at hdone
    have hop'' := hop'.extend hfed.extends_
    rw [hz]
    refine hdone.enter hop''.1 ?_
    cases hk : (v.web.node s.web.fresh).kind <;>
      simp_all [Web.Takes, operation?, symbol?]

end

/-- Expressions that only read variables are read one after the other. -/
theorem meets_readsEach {es : List Expr} {vs : List String} (h : ReadsEach es vs)
    (hw : Inside w g V) (hunused : w.unused = false) (hT : s.web.Tame g) (hV : V.Sound s.web)
    (hp : ∀ n, w.pending.head? = some n → s.web.Takes n) :
    Meets False (visitEach (operandsOf id es)) w s fun _ w' t =>
      Passed g w s V (.reads vs) w' t := by
  induction h generalizing w s V with
  | nil => exact .done hw hT hV
  | name pos hv hrest ih =>
    rw [visitEach_cons]
    exact (meets_readName hw hT hV hp pos hunused hv).passed hw fun V' F t hw' hadv =>
      ih hw' hunused hadv.tame hadv.sound fun n hn => (hp n hn).extend hadv.extends_
  | constant pos hkind hrest ih =>
    rw [visitEach_cons]
    exact (meets_visitConstant hw hT hV hp pos hkind).passed hw fun V' F t hw' hadv =>
      ih hw' hunused hadv.tame hadv.sound fun n hn => (hp n hn).extend hadv.extends_
  | @call pos namePos func access args rest keywords us ks vs hargs hkeywords hrest ihargs ihkeys
      ih =>
    rw [visitEach_cons, Flow.reads_append]
    have hcall : Meets False (visitExpr id (.call pos (.name namePos func access) args keywords))
        w s fun _ w' t => Passed g w s V (.reads (us ++ ks)) w' t := by
      rw [visitExpr, id]
      unfold visitCall
      simp only [meets_bind, meets_takeUnused hunused]
      refine meets_operands hw hT hV hp _ _ fun n t ht hVt hn => ?_
      simp only [visitCallee]
      rw [meets_bind]
      refine meets_setCallee n func none fun t₁ ht₁ => ?_
      -- the callee is set before the arguments are read
      have hset : Advances g t.web V t₁.web V .done := by
        rw [ht₁]
        exact .alter ht hVt hn (name_called ..) rfl
      have hw₁ := hw.withPending (n :: w.pending)
      have hhead {u : Store} (hx : t₁.web.Extends u.web) (m : NodeId)
          (hm : (n :: w.pending).head? = some m) : u.web.Takes m :=
        Option.some.inj hm ▸ (hn.extend hset.extends_).extend hx
      have hargs := ihargs hw₁ hunused hset.tame hset.sound (hhead (.refl _))
      rw [visitKeywords_eq, Flow.reads_append]
      refine (hargs.passed hw₁ fun V₂ F₂ t₂ hw₂ h₂ =>
        ihkeys hw₂ hunused h₂.tame h₂.sound (hhead h₂.extends_)).imp ?_
      rintro - w' t₃ ⟨V₃, F₃, rfl, hF₃, h₃⟩
      exact ⟨V₃, _, rfl, hF₃, hset.trans h₃⟩
    exact hcall.passed hw fun V' F t hw' hadv =>
      ih hw' hunused hadv.tame hadv.sound fun n hn => (hp n hn).extend hadv.extends_

end Build
end TypeFlow
