import TypeFlow.Proofs.SteadyFunctions

/-!
# Properly bracketed walks

Loops, `try` statements, functions and classes open and close bodies around what they read. The
handlers of a `try` statement are closed together at its end. So everything is closed when the walk
over a program comes to an end. On the way there, a loop or a `try` body that has been closed keeps
its buffer for one step.
-/

namespace TypeFlow.Build

open Program Eval

variable {α : Type} {loud : Bool} {w : Walk} {s : Store} {N M : Nesting} {P : Store → Prop}
  {program : Module} (x : Build α) (stops : Walk → Store → Bool) (pos : Position)
  (orElse : List Stmt) (target iter body test : Build Unit) (name : String) (params : Build Unit)
  (o : BuildOptions)

set_option synthInstance.maxSize 1000

/-! ## Bodies -/

def oneLoop (N : Nesting) : Nesting := { N with loopDepth := N.loopDepth + 1 }

theorem enterLoop_run (hw : w.Placed s) :
    ∃ t, enterLoop w s = .ok ((), w) t ∧ NestsAt w.hand (oneLoop (s.graphAt w.hand).nesting) s t :=
  ⟨_, modifyHand_run _ w s, nestsAt_modify hw.hand rfl⟩

theorem fits_oneLoop (h : N.Fits) : (oneLoop N).Fits :=
  ⟨Int.le_trans h.loop (Int.le_add_one (Int.le_refl _)), h.body⟩

/-- The nesting after the innermost loop was closed. -/
def loopClosed (N : Nesting) : Nesting :=
  { N with
    loopDepth := N.loopDepth - 1
    loopBuffer := if N.loopDepth - 1 < N.loopBuffer.length
      then N.loopBuffer.eraseIdx (N.loopDepth - 1).toNat else N.loopBuffer }

theorem fits_loopClosed (hM : M.Fits) (hN : N.Fits) (hdepths : M.depths = (oneLoop N).depths) :
    (loopClosed M).Fits := by
  have hloop : M.loopDepth = N.loopDepth + 1 := congrArg Prod.fst hdepths
  have := hN.loop
  exact ⟨Nesting.length_eraseIdx_le hM.loop (by omega), hM.body⟩

theorem depths_loopClosed (hdepths : M.depths = (oneLoop N).depths) :
    (loopClosed M).depths = N.depths := by
  have hloop : M.loopDepth = N.loopDepth + 1 := congrArg Prod.fst hdepths
  have hbody : M.tryDepth = N.tryDepth := congrArg Prod.snd hdepths
  simp [loopClosed, Nesting.depths, hloop, hbody]

/-- Two changes of the graph at hand are one. -/
theorem modifyHand_twice (f f' : Graph → Graph) : (do
    (do Eval.modifyGraph (← graphAtHand) f)
    Eval.modifyGraph (← graphAtHand) f' : Build Unit) =
      (do Eval.modifyGraph (← graphAtHand) fun G => f' (f G)) := by
  funext w s
  rw [modifyHand_run]
  refine (Eval.bind_of_ok (modifyHand_run f w s) _).trans ((modifyHand_run f' w _).trans ?_)
  congr 2
  ext i hi hi' <;> simp [Array.getElem_modify]
  split <;> rfl

/-- The body of a loop over elements is closed, and then its buffer is dropped. -/
instance forBody [Levels loud x] : Levels loud (do
    enterLoop
    let a ← x
    (do
      closeLoop
      dropLoop)
    return a) := by
  refine .bracket (fun _ => fits_oneLoop) (fun _ h => ⟨h.depth, h.buffer⟩) enterLoop_run ?_
  intro o w s N hw hs hN hdepths
  unfold closeLoop dropLoop
  rw [modifyHand_twice]
  refine (leaves_modifyHand hw hs rfl fun ho => ?_).imp ?_
  · exact fits_loopClosed (hs _ ho) (hN ho) hdepths
  · rintro _ _ t _ ⟨rfl, ht⟩
    exact ⟨rfl, _, ht, depths_loopClosed hdepths, fun h => ⟨h.depth, h.buffer⟩⟩

theorem leaves_graphAtHand (hs : P s) :
    Leaves P graphAtHand w s fun g w' t => g = w.hand ∧ w' = w ∧ t = s := by
  obtain ⟨top, _, _, _, _, functions, _⟩ := w
  cases functions <;> exact ⟨hs, rfl, rfl, rfl⟩

theorem leaves_elementAt (hs : P s) (l : List α) (i : Int) :
    Leaves P (liftM (elementAt l i)) w s fun _ w' t =>
      w' = w ∧ t = s ∧ (at? l i).isSome = true := by
  unfold elementAt
  cases at? l i with
  | none => exact hs
  | some a => exact ⟨hs, rfl, rfl, rfl⟩

/-- A loop with a condition can be left only with its buffer. -/
theorem leaves_leaveWhile {o : Nat} (hw : w.Placed s) (hs : s.Fits o)
    (hN : o ≤ w.hand.index → N.Fits)
    (hdepths : (s.graphAt w.hand).nesting.depths = (oneLoop N).depths) :
    Leaves (Store.Fits o) leaveWhile w s fun _ w' t => w' = w ∧ ∃ M : Nesting,
      NestsAt w.hand M s t ∧ M.depths = N.depths ∧
        ((s.graphAt w.hand).nesting.Quiet → M.Quiet) := by
  have hloop : (s.graphAt w.hand).loopDepth = N.loopDepth + 1 := congrArg Prod.fst hdepths
  have hbody : (s.graphAt w.hand).tryDepth = N.tryDepth := congrArg Prod.snd hdepths
  unfold leaveWhile
  refine (leaves_graphAtHand hs).bind ?_
  rintro _ w s _ ⟨rfl, rfl, rfl⟩
  refine Leaves.bind (Q := fun G w' t => G = s.graphAt w.hand ∧ w' = w ∧ t = s)
    ⟨hs, rfl, rfl, rfl⟩ ?_
  rintro _ w s _ ⟨rfl, rfl, rfl⟩
  dsimp only
  refine (leaves_elementAt hs _ _).bind ?_
  rintro _ w s _ ⟨rfl, rfl, hsome⟩
  refine ⟨(nestsAt_modify hw.hand rfl).fits hs fun ho => ?_, rfl, _, nestsAt_modify hw.hand rfl, ?_,
    fun h => ⟨h.depth, h.buffer⟩⟩
  · have hfits : ((s.graphAt w.hand).loopBuffer.length : Int) ≤ (s.graphAt w.hand).loopDepth :=
      (hs _ ho).loop
    have hdepth := (hN ho).loop
    rw [at?, if_pos (by omega), isSome_getElem?] at hsome
    refine ⟨?_, (hs _ ho).body⟩
    change (((s.graphAt w.hand).loopBuffer.eraseIdx _).length : Int) ≤ _
    rw [List.length_eraseIdx_of_lt hsome]
    change _ ≤ (s.graphAt w.hand).loopDepth - 1
    omega
  · change ((s.graphAt w.hand).loopDepth - 1, (s.graphAt w.hand).tryDepth) = N.depths
    rw [hloop, hbody, Int.add_sub_cancel]
    rfl

instance whileBody [Levels loud x] : Levels loud (do
    enterLoop
    let a ← x
    leaveWhile
    return a) :=
  .bracket (fun _ => fits_oneLoop) (fun _ h => ⟨h.depth, h.buffer⟩) enterLoop_run leaves_leaveWhile

/-- A loop over elements opens and closes its body. -/
instance levels_visitFor [Levels loud target] [Levels loud iter] [Levels loud body] :
    Levels loud (visitFor pos orElse target iter body) := by
  have hinside (before : Snapshot) (op : NodeId) : Levels loud (do
      let _ ← (do
        enterLoop
        let a ← (do
          body
          joinLoop before true
          checkLoopBody)
        (do
          closeLoop
          dropLoop)
        return a)
      addNode op) := inferInstance
  unfold visitFor readFor
  simp only [bind_assoc, pure_bind] at hinside ⊢
  infer_instance

/-- A loop with a condition opens and closes its body. -/
instance levels_visitWhile (body : Build Unit) [Steady (some loud) test] [Levels loud body] :
    Levels loud (visitWhile orElse test body) := by
  have hinside (before : Snapshot) : Levels loud (do
      enterLoop
      let a ← (do
        body
        checkLoopBody
        joinLoop before false)
      leaveWhile
      return a) := inferInstance
  simp only [bind_assoc, bind_pure_unit] at hinside
  unfold visitWhile
  infer_instance

/-- One more `try` body. -/
def oneBody (N : Nesting) : Nesting := { N with tryDepth := N.tryDepth + 1 }

theorem enterTry_run (hw : w.Placed s) :
    ∃ t, enterTry w s = .ok ((), w) t ∧ NestsAt w.hand (oneBody (s.graphAt w.hand).nesting) s t :=
  ⟨_, modifyHand_run _ w s, nestsAt_modify hw.hand rfl⟩

theorem fits_oneBody (h : N.Fits) : (oneBody N).Fits :=
  ⟨h.loop, Int.le_trans h.body (Int.le_add_one (Int.le_refl _))⟩

/-- The body of a `try` statement is closed, and then its buffer is dropped. -/
instance tryBody [Levels loud x] : Levels loud (do
    enterTry
    let a ← x
    (do
      closeTry
      dropTry)
    return a) := by
  refine .bracket (fun _ => fits_oneBody) (fun _ h => ⟨h.depth, h.buffer⟩) enterTry_run ?_
  intro o w s N hw hs hN hdepths
  unfold closeTry dropTry
  rw [modifyHand_twice]
  have hloop : (s.graphAt w.hand).loopDepth = N.loopDepth := congrArg Prod.fst hdepths
  have hbody : (s.graphAt w.hand).tryDepth = N.tryDepth + 1 := congrArg Prod.snd hdepths
  refine (leaves_modifyHand hw hs rfl fun ho => ?_).imp ?_
  · have := (hN ho).body
    exact ⟨(hs _ ho).loop, Nesting.length_eraseIdx_le (hs _ ho).body (by omega)⟩
  · rintro _ w t _ ⟨rfl, ht⟩
    refine ⟨rfl, _, ht, ?_, fun h => ⟨h.depth, h.buffer⟩⟩
    change ((s.graphAt w.hand).loopDepth, (s.graphAt w.hand).tryDepth - 1) = N.depths
    rw [hloop, hbody, Int.add_sub_cancel]
    rfl

instance levels_enterHandler : Levels true enterHandler := by
  constructor
  intro o w s hw hs
  refine (leaves_modifyHand hw hs rfl fun ho => ⟨(hs _ ho).loop, (hs _ ho).body⟩).imp ?_
  rintro _ w t _ ⟨rfl, ht⟩
  have hsame : Leveled true w s w s := .of_nesting (.refl w) rfl fun _ => rfl
  exact leveled_closing hw ⟨rfl, rfl, fun _ _ => rfl⟩ hsame ht rfl fun hloud =>
    absurd rfl (hloud rfl)

instance levels_visitHandler (name : Option String) (body : Build Unit)
    [hbody : Levels false body] : Levels true (visitHandler pos name body) := by
  have : Levels true body := hbody.mono
  unfold visitHandler
  refine .andThen fun before => ?_
  cases name <;> infer_instance

/-- The handlers of a statement are closed at its end. -/
theorem closing_handlers {x : Build Unit} [hx : Levels true x] :
    Levels loud (x >>= fun _ => leaveHandlers) := by
  constructor
  intro o w s hw hs
  refine (hx.level hw hs).bind fun _ w' t ht h => ?_
  have hw' := hw.level h.walk h.size
  refine (leaves_modifyHand hw' ht rfl fun ho => ⟨(ht _ ho).loop, (ht _ ho).body⟩).imp ?_
  rintro _ w' u _ ⟨rfl, hu⟩
  rw [h.walk.hand] at hu
  exact leveled_closing hw ⟨rfl, rfl, fun _ _ => rfl⟩ h hu (h.depths w.hand hw.hand)
    fun _ _ => ⟨rfl, rfl⟩

/-- A `try` statement opens and closes its body and then its handlers. -/
theorem levels_visitTry {body handlers orElse finalBody : Build Unit} [hbody : Levels false body]
    [Levels true handlers] [horElse : Levels false orElse] [hfinal : Levels false finalBody] :
    Levels false (visitTry body handlers orElse finalBody) := by
  have : Levels true orElse := horElse.mono
  have : Levels true finalBody := hfinal.mono
  have hinside (before : Snapshot) : Levels false (do
      let after ← (do
        enterTry
        let a ← (do
          body
          let after ← snapshot
          restoreLatest before
          mergeWrites
          return after)
        (do
          closeTry
          dropTry)
        return a)
      (do
        handlers
        restoreLatest after
        orElse
        mergeHandlers
        finalBody)
      leaveHandlers) := .andThen fun after => closing_handlers
  simp only [bind_assoc, pure_bind] at hinside
  exact .andThen hinside

/-! ## Functions and classes -/

/-- What is read while the graph of a function is at hand. -/
def readInside (params body : Build Unit) (g : GraphId) : Build Unit := do
  clearLatest
  params
  body
  clearLatest
  mergeAllInputs g
  Eval.addFunction (← get).top g

/-- A function is entered with its graph and left. -/
theorem visitFunction_eq (body : Build Unit) : visitFunction pos name params body = (do
      let qualified ← qualifiedName name
      if ← isWanted qualified then
        let w ← get
        let owner := w.classes.head?.map (·.name)
        let graph := Graph.ofFunction qualified w.fileName w.userNames owner w.top
        let g ← newGraph { graph with startLine := pos.line }
        modify fun w =>
          { w with
            visited := w.visited ++ [qualified]
            functions := { name, graph := g } :: w.functions }
        readInside params body g
        modify fun w => { w with functions := w.functions.tail }) := by
  unfold visitFunction readInside
  simp only [bind_assoc]

/-- A new graph is at hand inside, and everything is closed in it at the end. -/
theorem leaves_inside {x : Build Unit} [hx : Levels false x] {o : Nat} {v : Walk} {G : Graph}
    (hG : G.nesting = {}) (hw : w.Placed s) (hs : s.Fits o) (htop : v.top = w.top)
    (hpending : v.pending = w.pending)
    (hfunctions : v.functions.map (·.graph) = ⟨s.graphs.size⟩ :: w.functions.map (·.graph))
    (hclasses : v.classes.length = w.classes.length) :
    Leaves (Store.Fits o) (do
      x
      modify fun w => { w with functions := w.functions.tail }) v
      { s with graphs := s.graphs.push G } fun _ w' t => Leveled loud w s w' t := by
  let t : Store := { s with graphs := s.graphs.push G }
  have hnew (g : GraphId) : (t.graphAt g).nesting = if g.index = s.graphs.size then {}
      else (s.graphAt g).nesting := by
    rw [Store.graphAt_push, apply_ite Graph.nesting, hG]
  have hsize : t.graphs.size = s.graphs.size + 1 := Array.size_push _
  have hv : v.Placed t := by
    refine ⟨?_, fun g hg => ?_⟩
    · rw [htop, hsize]
      exact Nat.lt_succ_of_lt hw.top
    · rw [hfunctions, List.mem_cons] at hg
      rw [hsize]
      rcases hg with rfl | hg
      · exact Nat.lt_succ_self _
      · exact Nat.lt_succ_of_lt (hw.functions g hg)
  have ht : t.Fits o := by
    intro g hg
    rw [hnew]
    split
    · exact Nesting.fits_empty
    · exact hs g hg
  refine (hx.level hv ht).bind fun _ v' u hu h => ?_
  refine Leaves.modify_iff.mpr ⟨hu, ⟨h.walk.top.trans htop, h.walk.pending.trans hpending, ?_,
    h.walk.classes.trans hclasses⟩, ?_, fun g hg => ?_, fun g hg _ hq => ?_, fun g hg hg' => ?_⟩
  · rw [List.map_tail, h.walk.functions, hfunctions, List.tail_cons]
  · have := h.size
    omega
  · rw [h.depths g (by omega), hnew, if_neg (by omega)]
  · refine h.quiet g (by omega) (fun hf => absurd hf Bool.false_ne_true) ?_
    rw [hnew, if_neg (by omega)]
    exact hq
  · by_cases hself : g.index = s.graphs.size
    · have hflat : (t.graphAt g).nesting.Flat := by
        rw [hnew, if_pos hself]
        exact Nesting.flat_empty
      exact ⟨(h.depths g (by omega)).trans hflat.depths,
        h.quiet g (by omega) (fun hf => absurd hf Bool.false_ne_true) hflat.quiet⟩
    · exact h.flat g (by omega) hg'

/-- The graph of a function is at hand while the function is read. -/
instance levels_visitFunction (body : Build Unit) [Levels false params] [Levels false body] :
    Levels loud (visitFunction pos name params body) := by
  have hname : Levels loud (qualifiedName name) := by
    unfold qualifiedName
    infer_instance
  have hwanted (qualified : String) : Levels loud (isWanted qualified) := by
    unfold isWanted
    infer_instance
  have hadd (top g : GraphId) : Eval.Wires (addFunction top g) := .modifyGraph fun _ => rfl
  have hinside (g : GraphId) : Levels false (readInside params body g) := by
    unfold readInside
    infer_instance
  rw [visitFunction_eq]
  refine .andThen fun qualified => .andThen fun wanted => ?_
  split
  · constructor
    intro o w s hw hs
    exact leaves_inside rfl hw hs rfl rfl rfl rfl
  · infer_instance

/-- A class is left when its body has been read. -/
instance levels_visitClass (body : Build Unit) [hbody : Levels loud body] :
    Levels loud (visitClass name body) := by
  constructor
  intro o w s hw hs
  unfold visitClass
  rw [Leaves.modify_bind]
  refine Leaves.bind (hbody.level (hw.congr rfl rfl) hs) fun _ v t ht h => ?_
  refine Leaves.modify_iff.mpr ⟨ht, h.congr rfl ⟨h.walk.top, h.walk.pending, h.walk.functions, ?_⟩⟩
  have hlength := h.walk.classes
  rw [List.length_cons] at hlength
  rw [List.length_tail, hlength, Nat.add_sub_cancel]

namespace Steady

theorem mute {x : Build α} (h : Steady (some loud) x) : Steady none x :=
  ⟨h.run, fun _ h => absurd h (Option.not_mem_none _)⟩

instance (priority := low) of_closing (x : Build α) [h : Steady (some false) x] : Steady none x :=
  h.mute

theorem closes {x : Build α} [h : Steady none x] [hx : Levels loud x] : Steady (some loud) x :=
  ⟨h.run, fun _ h => Option.mem_some.mp h ▸ hx⟩

end Steady

/-! ## Watched walks -/

/-- Give a walk up where a condition holds. -/
def giveUp (stops : Walk → Store → Bool) : Build Unit := fun w s =>
  if stops w s then .error .tooDeep s else .ok ((), w) s

/-- Give a visit up where a condition holds at its begin or at its end. -/
def watched (stops : Walk → Store → Bool) (x : Build Unit) : Build Unit := do
  giveUp stops
  x
  giveUp stops

/-- A walk that is never given up is the walk itself. -/
theorem watched_never : watched (fun _ _ => false) = id := by
  have hnever : giveUp (fun _ _ => false) = pure () := rfl
  funext x
  simp only [watched, hnever, pure_bind, bind_pure_unit, id]

instance steady_giveUp {q : Option Bool} : Steady q (giveUp stops) := by
  refine ⟨fun {_ _ w s} hw => ?_, fun loud _ => ⟨fun {_ w s} _ hs => ?_⟩⟩
  · unfold Meets Eval.Meets giveUp
    cases stops w s
    · exact ⟨hw, .refl _ _⟩
    · trivial
  · unfold Leaves giveUp
    cases stops w s
    · exact ⟨hs, .of_nesting (.refl w) rfl fun _ => rfl⟩
    · exact hs

theorem steady_watched {q : Option Bool} {x : Build Unit} (h : Steady q x) :
    Steady q (watched stops x) := .of_builds (by
  unfold watched
  infer_instance)

/-- Every rule of the walk closes the bodies that it opens, but for handlers. -/
theorem levels_rules : StmtRules (watched stops) (fun _ => True) (Steady (some false))
    (Steady (some false)) (Steady (some true)) where
  __ := steady_exprs (steady_watched stops)
  stmtVisit := steady_watched stops
  handlerVisit := steady_watched stops
  lift h := h
  andThen _ _ := .of_builds inferInstance
  forking _ _ _ _ _ := inferInstance
  function h _ := have := Steady.visitParams h; .closes
  classBody _ := .closes
  result _ := inferInstance
  augmented _ _ := inferInstance
  forLoop _ _ _ := .closes
  whileLoop _ _ := .closes
  context _ _ := .visitContext
  contexts _ _ := inferInstance
  importing := inferInstance
  handlerSkip := .of_builds inferInstance
  handlerSeq _ _ := .of_builds inferInstance
  handler _ _ := .closes
  trying _ h _ _ := have := h.mute; @Steady.closes _ _ _ _ levels_visitTry

/-! ## Programs -/

/-- Pruning takes nodes out of graphs that are finished. -/
instance wires_prune (g : GraphId) : Eval.Wires (prune g) := by
  have hbranch (link : Link) : Eval.Wires (isBranchLink link) := by
    unfold isBranchLink
    cases link <;> infer_instance
  have hdead (n : NodeId) : Eval.Wires (isDead n) := by
    unfold isDead
    infer_instance
  have hdrop (n : NodeId) (link : Link) : Eval.Wires (dropOutput n link) := by
    unfold dropOutput
    cases link <;> infer_instance
  have hnode (n : NodeId) : Eval.Wires (dropNode g n) := by
    unfold dropNode
    exact .andThen fun node => .andThen fun _ => .modifyGraph fun _ => rfl
  have hrounds (candidates : Graph → List NodeId) (fuel : Nat) :
      Eval.Wires (pruneRounds g candidates fuel) := by
    induction fuel with
    | zero => exact .pure ()
    | succ fuel ih =>
      unfold pruneRounds
      refine .andThen fun graph => .andThen fun dead => ?_
      split <;> infer_instance
  unfold prune pruneKind
  infer_instance

theorem levels_readProgram (h : starlessBody program = true) :
    Levels false (readProgram (watched stops) o program) := by
  have hbody := (levels_rules stops).body program (.of_forall fun _ => trivial) (.inr h)
  have hnames (g : GraphId) (names : List String) : Eval.Wires (addClassNames g names) :=
    .modifyGraph fun _ => rfl
  unfold readProgram
  infer_instance

theorem levels_readGraphs (top : GraphId) (h : starlessBody program = true) :
    Levels false (readGraphs (watched stops) o top program) := by
  have := levels_readProgram stops o h
  have : Eval.Wires (findAliases top program) := by
    unfold findAliases
    refine .andThen fun G => ?_
    cases G.aliases.addProgram program with
    | error e => exact .throw e
    | ok aliases => exact .modifyGraph fun _ => rfl
  unfold readGraphs
  infer_instance

/-- Properly bracketed walks. Wherever the visit of an expression, a statement or a handler begins
or ends, and wherever a fault stops the walk, no graph has more buffers than bodies that are being
read. When the walk comes to an end, no operation, function or class is being read any more, and
nothing is open in any of its graphs. -/
theorem graphsOf_closes_bodies (o : BuildOptions) (program : Module) (s : Store)
    (h : starlessBody program = true) :
    (∀ (stops : Walk → Store → Bool) (g : GraphId), s.graphs.size ≤ g.index →
      (((graphsAround (watched stops) o program).finish s).graphAt g).nesting.Fits) ∧
    ∀ w t, graphsOf o program s = .ok w t →
      w.pending = [] ∧ w.functions = [] ∧ w.classes = [] ∧
        ∀ g : GraphId, s.graphs.size ≤ g.index → (t.graphAt g).nesting = {} := by
  have hplaced : (startWalk o ⟨s.graphs.size⟩).Placed (startStore o s) := by
    refine ⟨?_, fun g hg => absurd hg List.not_mem_nil⟩
    change s.graphs.size < (s.graphs.push _).size
    rw [Array.size_push]
    exact Nat.lt_succ_self _
  have hnew (g : GraphId) (hg : s.graphs.size ≤ g.index) :
      ((startStore o s).graphAt g).nesting = {} := by
    rw [startStore, Store.graphAt_push]
    split
    · rfl
    · exact Store.nesting_of_le hg
  have hlevel (stops : Walk → Store → Bool) :=
    (levels_readGraphs stops o ⟨s.graphs.size⟩ h).level hplaced fun g hg =>
      hnew g hg ▸ Nesting.fits_empty
  unfold Leaves at hlevel
  refine ⟨fun stops => ?_, fun w t hrun => ?_⟩
  · rw [finish_graphsAround]
    unfold Eval.finish
    specialize hlevel stops
    cases hrun : readGraphs (watched stops) o ⟨s.graphs.size⟩ program
        (startWalk o ⟨s.graphs.size⟩) (startStore o s) with
    | ok r t =>
      rw [hrun] at hlevel
      exact hlevel.1
    | error e t =>
      rw [hrun] at hlevel
      exact hlevel
  · rw [graphsOf_eq_ok, ← watched_never] at hrun
    specialize hlevel fun _ _ => false
    rw [hrun] at hlevel
    obtain ⟨hfits, hlevel⟩ := hlevel
    refine ⟨hlevel.walk.pending, ?_, ?_, fun g hg => ?_⟩
    · exact List.map_eq_nil_iff.mp hlevel.walk.functions
    · exact List.length_eq_zero_iff.mp hlevel.walk.classes
    · by_cases hg' : g.index < t.graphs.size
      · refine Nesting.Flat.eq_empty ?_ (hfits g hg)
        by_cases hstart : g.index < (startStore o s).graphs.size
        · have hflat : ((startStore o s).graphAt g).nesting.Flat := hnew g hg ▸ Nesting.flat_empty
          exact ⟨(hlevel.depths g hstart).trans hflat.depths,
            hlevel.quiet g hstart (fun hf => absurd hf Bool.false_ne_true) hflat.quiet⟩
        · exact hlevel.flat g (by omega) hg'
      · exact Store.nesting_of_le (by omega)

/-- A function with a `try` statement in a loop. -/
def tryInLoop : Module :=
  [.function default "f" (.mk [] [.mk default "x" none] none [] [] none [])
    [.for_ default (.name default "y" .store) (.name default "x" .load)
      [.try_ [.assign default [.name default "z" .store] (.name default "y" .load)]
        [.mk default none none
          [.assign default [.name default "z" .store] (.name default "x" .load)]] [] []] []]
    [] none]

/-- The walk over a `try` statement in a loop comes to an end with nothing open. -/
theorem graphsOf_closes_tryInLoop : ∃ w t, graphsOf {} tryInLoop {} = .ok w t ∧
    w.pending = [] ∧ w.functions = [] ∧ w.classes = [] ∧
      ∀ g : GraphId, 0 ≤ g.index → (t.graphAt g).nesting = {} := by
  have hend : comesToEnd {} tryInLoop = true := by decide +kernel
  obtain ⟨w, t, hrun⟩ := exists_of_comesToEnd hend
  exact ⟨w, t, hrun, (graphsOf_closes_bodies {} tryInLoop {} rfl).2 w t hrun⟩

/-- A loop that is read up to the step in which its buffer is dropped. -/
def readPlainLoop : Build NodeId :=
  readFor default [] (visitExpr id (.name default "x" .store))
    (visitExpr id (.name default "xs" .load))
    (visitBody id [.assign default [.name default "y" .store] (.name default "x" .load)])

/-- How many buffers of loops and how many loops a run leaves in the first graph. -/
def bufferSizes : EStateM.Result Fault Store (NodeId × Walk) → Nat × Int
  | .ok _ t => ((t.graphAt ⟨0⟩).loopBuffer.length, (t.graphAt ⟨0⟩).loopDepth)
  | .error _ _ => (0, 0)

/-- A loop over elements at the top of a module. -/
def plainLoop : Module :=
  [.for_ default (.name default "x" .store) (.name default "xs" .load)
    [.assign default [.name default "y" .store] (.name default "x" .load)] []]

/-- Between two steps of a walk that comes to an end, a graph has more buffers than bodies that are
being read: a loop has been closed, and its buffer is still there. -/
theorem readFor_keeps_buffer : comesToEnd {} plainLoop = true ∧
    visitBody id plainLoop = (do
      let op ← readPlainLoop
      dropLoop
      addNode op) ∧
    ∃ r t, readPlainLoop (startWalk {} ⟨0⟩) (startStore {} {}) = .ok r t ∧
      ¬ (t.graphAt ⟨0⟩).nesting.Fits := by
  obtain ⟨hend, hsizes⟩ : comesToEnd {} plainLoop = true ∧
      bufferSizes (readPlainLoop (startWalk {} ⟨0⟩) (startStore {} {})) = (1, 0) := by
    decide +kernel
  refine ⟨hend, ?_, ?_⟩
  · simp only [plainLoop, visitBody, visitStmt, visitFor, readPlainLoop, id, bind_pure_unit]
  · cases hrun : readPlainLoop (startWalk {} ⟨0⟩) (startStore {} {}) with
    | error e t => simp [hrun, bufferSizes] at hsizes
    | ok r t =>
      simp only [hrun, bufferSizes, Prod.mk.injEq] at hsizes
      refine ⟨r, t, rfl, fun hfits => ?_⟩
      have hloop : ((t.graphAt ⟨0⟩).loopBuffer.length : Int) ≤ (t.graphAt ⟨0⟩).loopDepth :=
        hfits.loop
      omega

end TypeFlow.Build
