import TypeFlow.Command.Infer
import TypeFlow.Proofs.SeenPaths

/-!
# Types of the files of a repository

The types of a file are inferred alone or together with the other files of its repository. The two
ways differ in two things: searches for user types share the paths that they have seen, and in a
repository the types at the top level of a module are not simplified. A file for which neither makes
a difference gets the same types in both ways.
-/

namespace TypeFlow.Document

mutual

theorem same_iff : ∀ d d' : Document, d.same d' = true ↔ d = d'
  | .null, d' | .bool _, d' | .int _, d' | .decimal _ _, d' | .text _, d' | .type _, d' => by
    cases d' <;> simp [same]
  | .list items, d' => by cases d' <;> simp [same, sameItems_iff items]
  | .record fields, d' => by cases d' <;> simp [same, sameFields_iff fields]

theorem sameItems_iff : ∀ items items' : List Document,
    sameItems items items' = true ↔ items = items'
  | [], items' => by cases items' <;> simp [sameItems]
  | d :: rest, items' => by cases items' <;> simp [sameItems, same_iff d, sameItems_iff rest]

theorem sameFields_iff : ∀ fields fields' : List (String × Document),
    sameFields fields fields' = true ↔ fields = fields'
  | [], fields' => by cases fields' <;> simp [sameFields]
  | (key, d) :: rest, fields' => by
    cases fields' <;> simp [sameFields, sameField, same_iff d, sameFields_iff rest, Prod.ext_iff]

end

theorem beq_iff {d d' : Document} : (d == d') = true ↔ d = d' := same_iff d d'

theorem eq_of_beq_option {x y : Option Document} (h : (x == y) = true) : x = y := by
  cases x <;> cases y <;> simp_all [beq_iff]

end TypeFlow.Document

namespace TypeFlow.Command

open UserType Fallible Eval

variable {w : World} {path : String} {program : Program.Module} {source : Source} {f : Findings}
  {seen : List String}

namespace Act

variable {α : Type} {x : Eval α} {s : Store}

theorem readProgram_run (h : w.tree.readProgram path = .ok program) :
    readProgram path w = .ok program w := by
  unfold readProgram
  rw [bind_of_ok (x := get) rfl, h]
  rfl

theorem discover_run {repository : String}
    (hsource : Source.place path (some repository) = .ok source)
    (h : UserType.discover w.tree true source program w.seen = .ok f seen) :
    discover path repository program true w = .ok f { w with seen } := by
  unfold discover
  rw [bind_ofExcept hsource, bind_of_ok (x := get) rfl]
  simp only [EStateM.run, h]
  rfl

theorem compute_of_ok {a : α} (h : x {} = .ok a s) : compute x w = .ok (a, s) w := by
  unfold compute
  simp only [EStateM.run, h]
  rfl

theorem compute_of_error {e : Fault} (h : x {} = .error e s) : compute x w = .error e w := by
  unfold compute
  simp only [EStateM.run, h]
  rfl

/-- The world that a computation leaves. -/
def worldAfter {α : Type} (r : EStateM.Result Fault World α) : World :=
  match r with
  | .ok _ w => w
  | .error _ w => w

/-- A computation that changes no file and sees modules only, even when it stops with a fault. -/
structure Looks {α : Type} (x : Act α) : Prop where
  tree : ∀ w, (worldAfter (x w)).tree = w.tree
  sees : ∀ w, ∀ p ∈ (worldAfter (x w)).seen, p ∈ w.seen ∨ w.tree.HasModule p

namespace Looks

variable {α β : Type}

theorem of_still {x : Act α} (h : ∀ w, worldAfter (x w) = w) : Looks x where
  tree w := by rw [h]
  sees w p hp := by
    rw [h] at hp
    exact .inl hp

theorem pure (a : α) : Looks (Pure.pure a) := of_still fun _ => rfl

theorem fault (e : Fault) : Looks (throw e : Act α) := of_still fun _ => rfl

theorem ofExcept (x : Except Fault α) : Looks (MonadExcept.ofExcept x : Act α) := by
  cases x with
  | ok a => exact pure a
  | error e => exact fault e

theorem bind {x : Act α} {f : α → Act β} (hx : Looks x) (hf : ∀ a, Looks (f a)) :
    Looks (x >>= f) := by
  have hrun (w : World) : (worldAfter (x w) = worldAfter ((x >>= f) w)) ∨
      ∃ a, worldAfter ((x >>= f) w) = worldAfter (f a (worldAfter (x w))) := by
    rw [bind_apply]
    cases x w with
    | ok a w' => exact .inr ⟨a, rfl⟩
    | error e w' => exact .inl rfl
  constructor
  · intro w
    rcases hrun w with h | ⟨a, h⟩
    · rw [← h, hx.tree]
    · rw [h, (hf a).tree, hx.tree]
  · intro w p hp
    rcases hrun w with h | ⟨a, h⟩
    · rw [← h] at hp
      exact hx.sees w p hp
    · rw [h] at hp
      rcases (hf a).sees _ p hp with hp | hp
      · exact hx.sees w p hp
      · rw [hx.tree] at hp
        exact .inr hp

theorem get : Looks (MonadState.get : Act World) := of_still fun _ => rfl

theorem compute (x : Eval α) : Looks (Act.compute x) := by
  unfold Act.compute
  split
  · exact pure _
  · exact fault _

theorem discover (path repository : String) (program : Program.Module) (validate : Bool) :
    Looks (Act.discover path repository program validate) := by
  unfold Act.discover
  refine (ofExcept _).bind fun source => ?_
  constructor
  · intro w
    rw [bind_of_ok (x := MonadState.get) rfl]
    simp only [EStateM.run]
    cases UserType.discover w.tree validate source program w.seen <;> rfl
  · intro w p hp
    rw [bind_of_ok (x := MonadState.get) rfl] at hp
    simp only [EStateM.run] at hp
    have hpaths : p ∈ pathsAfter (UserType.discover w.tree validate source program w.seen) := by
      cases hrun : UserType.discover w.tree validate source program w.seen with
      | ok f seen =>
        rw [hrun] at hp
        exact hp
      | error e seen =>
        rw [hrun] at hp
        exact hp
    exact hasModule_of_discover hpaths

end Looks

end Act

namespace Infer

variable {o : Options} {d : Document} {w' : World}

def noAdvice (o : Options) (f : Findings) : Advice := ⟨.null, modulesOf f, o.limit⟩

def passAndSimplify (g : GraphId) : Eval Unit := do
  Eval.passTypes g
  Eval.simplifyGraph g

/-- The types of a module and its functions, when those at its top level have been settled. -/
def reportGraph (o : Options) (f : Findings) (top : GraphId) : Eval (Table String Document) := do
  Eval.inferFunctions top (noAdvice o f) (← Eval.addReport Eval.moduleReportKey top {})

def reportsAfter (settle : GraphId → Eval Unit) (o : Options) (path : String) (f : Findings)
    (program : Program.Module) : Eval (Table String Document) := do
  let top ← graphOf path none f program
  settle top
  reportGraph o f top

theorem asksServer_eq (h : o.useServer = false) (given : Document) :
    asksServer o given = false := by
  rw [asksServer, h, Bool.and_false]

theorem inferModule_noAdvice (top : GraphId) :
    inferModule top (noAdvice o f) = passAndSimplify top := by
  have hnone : (noAdvice o f).isGiven = false := rfl
  rw [inferModule, hnone]
  rfl

/-- The answer of a computation, as a document. -/
def answerOf (x : Eval (Table String Document)) (s : Store) : Act Document :=
  match x.run s with
  | .ok reports _ => return Eval.describeReports reports
  | .error f _ => throw f

/-- What a computation reports, if it comes to an end. -/
def reported (x : Eval (Table String Document)) (s : Store) : Option Document :=
  match x s with
  | .ok reports _ => some (describeReports reports)
  | .error _ _ => none

theorem answerOf_eq_ok {x : Eval (Table String Document)} {s : Store} :
    (∃ w', answerOf x s w = .ok d w') ↔ reported x s = some d := by
  unfold answerOf reported
  simp only [EStateM.run]
  cases x s with
  | ok reports t =>
    constructor
    · rintro ⟨w', h⟩
      cases h
      rfl
    · rintro ⟨⟩
      exact ⟨w, rfl⟩
  | error e t =>
    constructor
    · rintro ⟨w', h⟩
      cases h
    · rintro ⟨⟩

section

variable {α : Type} {x : Eval α} {g : α → Eval (Table String Document)} {s t : Store}

theorem reported_of_ok {a : α} (h : x s = .ok a t) : reported (x >>= g) s = reported (g a) t := by
  unfold reported
  rw [bind_of_ok h]

theorem reported_of_error {e : Fault} (h : x s = .error e t) : reported (x >>= g) s = none := by
  unfold reported
  rw [bind_of_error h]

end

/-- The graph of a module with the types at its top level, which are only passed on. -/
def passedReports (path : String) (f : Findings) (program : Program.Module) :
    Eval (GraphId × Table String Document) := do
  let top ← graphOf path none f program
  Eval.passTypes top
  return (top, ← Eval.addReport Eval.moduleReportKey top {})

theorem reportsAfter_passTypes : reportsAfter passTypes o path f program =
    passedReports path f program >>= fun p => inferFunctions p.1 (noAdvice o f) p.2 := by
  simp only [reportsAfter, reportGraph, passedReports, bind_assoc, pure_bind]

section

variable (hserver : o.useServer = false) (hlocation : o.location = none)
  (hprogram : w.tree.readProgram path = .ok program)
  (hsource : Source.place path (some o.repository) = .ok source)
  (hfound : UserType.discover w.tree true source program w.seen = .ok f seen)

include hserver hprogram hsource hfound

include hlocation in
/-- A file alone: types at the top level are simplified. -/
theorem inferFile_eq_ok :
    (∃ w', inferFile o .null path w = .ok d w') ↔
      reported (reportsAfter passAndSimplify o path f program) {} = some d := by
  unfold inferFile reportsAfter
  rw [bind_of_ok (Act.readProgram_run hprogram),
    bind_of_ok (Act.discover_run hsource hfound), hlocation]
  cases hgraph : graphOf path none f program {} with
  | error e s =>
    rw [bind_of_error (Act.compute_of_error hgraph), reported_of_error hgraph]
    simp
  | ok top s =>
    rw [bind_of_ok (Act.compute_of_ok hgraph), reported_of_ok hgraph, asksServer_eq hserver]
    change (∃ w', answerOf (do
      inferModule top (noAdvice o f)
      inferFunctions top (noAdvice o f) (← addReport moduleReportKey top {})) s _ =
        .ok d w') ↔ _
    rw [answerOf_eq_ok, inferModule_noAdvice]
    rfl

/-- A file of a repository: types at the top level are only passed on. -/
theorem inferNext_eq_ok :
    (∃ w', inferNext o .null path w = .ok d w') ↔
      reported (reportsAfter passTypes o path f program) {} = some d := by
  unfold inferNext
  rw [bind_of_ok (Act.readProgram_run hprogram),
    bind_of_ok (Act.discover_run hsource hfound), reportsAfter_passTypes]
  cases hstart : passedReports path f program {} with
  | error e s =>
    rw [reported_of_error hstart]
    unfold passedReports at hstart
    rw [bind_of_error (Act.compute_of_error hstart)]
    simp
  | ok p s =>
    rw [reported_of_ok hstart]
    unfold passedReports at hstart
    rw [bind_of_ok (Act.compute_of_ok hstart), asksServer_eq hserver]
    change (∃ w', answerOf (inferFunctions p.1 (noAdvice o f) p.2) s _ = .ok d w') ↔ _
    exact answerOf_eq_ok

end

/-- Simplifying the types at the top level of a module, once types have been passed, changes nothing
in what is reported for the module and its functions. -/
def TopIsSimple (o : Options) (path : String) (f : Findings) (program : Program.Module) : Prop :=
  ∀ top s t, graphOf path none f program {} = .ok top s → Eval.passTypes top s = .ok () t →
    reported (Eval.simplifyGraph top >>= fun _ => reportGraph o f top) t =
      reported (reportGraph o f top) t

theorem topIsSimple_iff : TopIsSimple o path f program ↔
    reported (reportsAfter passAndSimplify o path f program) {} =
      reported (reportsAfter passTypes o path f program) {} := by
  unfold TopIsSimple reportsAfter
  cases hgraph : graphOf path none f program {} with
  | error e s => simp [reported_of_error hgraph]
  | ok top s =>
    rw [reported_of_ok hgraph, reported_of_ok hgraph, passAndSimplify, bind_assoc]
    cases hpass : passTypes top s with
    | error e t =>
      rw [reported_of_error hpass, reported_of_error hpass, eq_self, iff_true]
      rintro _ _ t ⟨⟩ h
      cases hpass.symm.trans h
    | ok u t =>
      rw [reported_of_ok hpass, reported_of_ok hpass]
      refine ⟨fun h => h top s t rfl hpass, ?_⟩
      rintro h _ _ t' ⟨⟩ hpass'
      cases hpass.symm.trans hpass'
      exact h

theorem looks_inferNext (o : Options) (given : Document) (path : String) :
    Act.Looks (inferNext o given path) := by
  unfold inferNext
  refine (Act.Looks.get.bind fun w => .ofExcept _).bind fun program => ?_
  refine (Act.Looks.discover ..).bind fun findings => ?_
  refine (Act.Looks.compute _).bind ?_
  rintro ⟨⟨top, reports⟩, store⟩
  have hanswer (recommendations : Document) : Act.Looks (answerOf (inferFunctions top
      ⟨recommendations, modulesOf findings, o.limit⟩ reports) store) := by
    unfold answerOf
    split
    · exact .pure _
    · exact .fault _
  have hserver : Act.Looks serverRecommendations :=
    (Act.Looks.get.bind fun w => .ofExcept _).bind fun answer => .pure _
  dsimp only
  split
  · exact hserver.bind hanswer
  · exact (Act.Looks.pure _).bind hanswer

/-! ## All files -/

variable {given : Document} {found found' : Table String Document}

theorem addFile_of_ok (h : inferNext o given path w = .ok d w') :
    addFile o given found path w = .ok (found.insert path d) w' := by
  unfold addFile
  have hadd : (inferNext o given path >>= fun d => pure (found.insert path d)) w =
      .ok (found.insert path d) w' := bind_of_ok h _
  rw [bind_apply, tryCatch_apply, bind_apply, hadd]
  rfl

theorem addFile_of_error {e : Fault} (h : inferNext o given path w = .error e w') :
    addFile o given found path w = .ok found w' := by
  unfold addFile
  have hadd : (inferNext o given path >>= fun d => pure (found.insert path d)) w = .error e w' :=
    bind_of_error h _
  rw [bind_apply, tryCatch_apply, bind_apply, hadd]
  rfl

/-- A file of a repository never stops the others, and adds to its own types only. -/
theorem addFile_ends (o : Options) (given : Document) (found : Table String Document)
    (path : String) (w : World) : ∃ found' w', addFile o given found path w = .ok found' w' ∧
      w' = Act.worldAfter (inferNext o given path w) ∧
      (∀ d, (∃ w', inferNext o given path w = .ok d w') → found'.get? path = some d) ∧
      ((∀ d w', inferNext o given path w ≠ .ok d w') → found' = found) ∧
      ∀ q, q ≠ path → found'.get? q = found.get? q := by
  cases h : inferNext o given path w with
  | ok d w' =>
    refine ⟨_, w', addFile_of_ok h, rfl, fun d' hd => ?_, fun hd => ?_, fun q hq => ?_⟩
    · obtain ⟨_, ⟨⟩⟩ := hd
      rw [Table.get?_insert, if_pos rfl]
    · exact absurd rfl (hd d w')
    · rw [Table.get?_insert, if_neg (Ne.symm hq)]
  | error e w' =>
    refine ⟨found, w', addFile_of_error h, rfl, fun d hd => ?_, fun _ => rfl, fun _ _ => rfl⟩
    obtain ⟨_, hd⟩ := hd
    cases hd

/-- The files of a repository are all handled. Only their own types are added, no file changes, and
the searches see modules only. -/
theorem foldlM_addFile_ends (o : Options) (given : Document) (paths : List String)
    (found : Table String Document) (w : World) : ∃ found' w',
      paths.foldlM (addFile o given) found w = .ok found' w' ∧ w'.tree = w.tree ∧
      (∀ p ∈ w'.seen, p ∈ w.seen ∨ w.tree.HasModule p) ∧
      ∀ q, q ∉ paths → found'.get? q = found.get? q := by
  induction paths generalizing found w with
  | nil => exact ⟨found, w, rfl, rfl, fun _ hp => .inl hp, fun _ _ => rfl⟩
  | cons path rest ih =>
    obtain ⟨found₁, w₁, hadd, hw₁, -, -, hothers⟩ := addFile_ends o given found path w
    obtain ⟨found₂, w₂, hrest, htree, hsees, hget⟩ := ih found₁ w₁
    have hlooks := looks_inferNext o given path
    have htree₁ : w₁.tree = w.tree := by rw [hw₁, hlooks.tree]
    refine ⟨found₂, w₂, ?_, htree.trans htree₁, fun p hp => ?_, fun q hq => ?_⟩
    · rw [List.foldlM_cons, bind_of_ok hadd]
      exact hrest
    · rcases hsees p hp with hp | hp
      · rw [hw₁] at hp
        exact hlooks.sees w p hp
      · rw [htree₁] at hp
        exact .inr hp
    · rw [List.mem_cons, not_or] at hq
      rw [hget q hq.2, hothers q hq.1]

/-- Agreement of the two ways. Without recommendations, for a file whose search sees no path that
the files before it have seen, the entry in the types of its repository is what is inferred for the
file alone exactly when simplifying the types at its top level changes nothing in what is
reported. -/
theorem repository_entry_iff (hserver : o.useServer = false) (hlocation : o.location = none)
    (before after : List String) (hbefore : path ∉ before) (hafter : path ∉ after)
    {found found₁ : Table String Document} {w' w₁ : World} (hseen : w.seen = [])
    (hrun : (before ++ path :: after).foldlM (addFile o .null) {} w = .ok found w')
    (hstart : before.foldlM (addFile o .null) {} w = .ok found₁ w₁)
    (hprogram : w.tree.readProgram path = .ok program)
    (hsource : Source.place path (some o.repository) = .ok source)
    (halone : UserType.discover w.tree true source program [] = .ok f seen)
    (hapart : ∀ p ∈ w₁.seen, p ∉ seen) :
    (∀ d, found.get? path = some d ↔ ∃ w', inferFile o .null path w = .ok d w') ↔
      TopIsSimple o path f program := by
  obtain ⟨found₀, w₀, hstart₀, htree, hsees, hget⟩ := foldlM_addFile_ends o .null before {} w
  obtain ⟨rfl, rfl⟩ : found₁ = found₀ ∧ w₁ = w₀ := by
    rw [hstart, EStateM.Result.ok.injEq] at hstart₀
    exact hstart₀
  obtain ⟨found₂, w₂, hadd, -, hown, hnone, -⟩ := addFile_ends o .null found₁ path w₁
  obtain ⟨found₃, w₃, hrest, -, -, hget₃⟩ := foldlM_addFile_ends o .null after found₂ w₂
  have hfound : found = found₃ := by
    rw [List.foldlM_append, Fallible.bind_of_ok hstart, List.foldlM_cons,
      Fallible.bind_of_ok hadd, hrest] at hrun
    cases hrun
    rfl
  -- the entry is that of the file itself, in the world that the files before it leave
  have hentry (d : Document) :
      found.get? path = some d ↔ ∃ w', inferNext o .null path w₁ = .ok d w' := by
    rw [hfound, hget₃ path hafter]
    constructor
    · intro hd
      by_cases hok : ∃ d' w', inferNext o .null path w₁ = .ok d' w'
      · obtain ⟨d', w', h⟩ := hok
        rw [hown d' ⟨w', h⟩] at hd
        cases hd
        exact ⟨w', h⟩
      · have hsame := hnone fun d w' h => hok ⟨d, w', h⟩
        rw [hsame, hget path hbefore] at hd
        cases hd
    · exact hown d
  have hold (p : String) (hp : p ∈ w₁.seen) : w₁.tree.HasModule p := by
    rw [htree]
    refine (hsees p hp).resolve_left fun hp => ?_
    rw [hseen] at hp
    cases hp
  have hprogram₁ : w₁.tree.readProgram path = .ok program := by rw [htree, hprogram]
  have hfound₁ : UserType.discover w₁.tree true source program w₁.seen = .ok f (w₁.seen ++ seen) :=
    discover_framed hold (by rw [htree, halone]) hapart
  have hfound₀ : UserType.discover w.tree true source program w.seen = .ok f seen := by
    rw [hseen, halone]
  simp only [hentry, inferNext_eq_ok hserver hprogram₁ hsource hfound₁,
    inferFile_eq_ok hserver hlocation hprogram hsource hfound₀, topIsSimple_iff]
  exact ⟨fun h => (Option.ext h).symm, fun h d => by rw [h]⟩

/-! ## A repository whose files import different modules -/

def assigning (target : String) (value : Program.Expr) : Program.Stmt :=
  .assign default [.name default target .store] value

def importing (m : String) : Program.Module :=
  [.importFrom (some m) [⟨"*", none⟩] 0, assigning "y" (.constant default .int),
    .function default "g" (.mk [] [.mk default "x" none] none [] [] none [])
      [.return_ default (some (.name default "x" .load))] [] none]

/-- Two files that import different modules. -/
def twoReaders : World where
  tree := { files := [
    (["r", "a.py"], .program (importing "m")), (["r", "b.py"], .program (importing "n")),
    (["r", "m.py"], .program [.class_ default "A" [] [] [.other] []]),
    (["r", "n.py"], .program [.class_ default "B" [] [] [.other] []])] }

/-- The types that the second file can refer to. -/
def secondFindings : Findings :=
  match UserType.discover twoReaders.tree true
    { path := "r/b.py", repository := ["r"], parts := ["b.py"] } (importing "n") [] with
  | .ok f _ => f
  | .error _ _ => {}

/-- What is reported for the second file is the same with and without simplifying. -/
def secondIsSimple : Bool :=
  match graphOf "r/b.py" none secondFindings (importing "n") {} with
  | .ok top s =>
    match Eval.passTypes top s with
    | .ok _ t =>
      reported (Eval.simplifyGraph top >>= fun _ =>
        reportGraph { repository := "r" } secondFindings top) t ==
          reported (reportGraph { repository := "r" } secondFindings top) t
    | .error _ _ => true
  | .error _ _ => true

theorem topIsSimple_second :
    TopIsSimple { repository := "r" } "r/b.py" secondFindings (importing "n") := by
  have hsimple : secondIsSimple = true := by decide +kernel
  intro top s t hgraph hpass
  unfold secondIsSimple at hsimple
  rw [hgraph] at hsimple
  dsimp only at hsimple
  rw [hpass] at hsimple
  exact Document.eq_of_beq_option hsimple

/-- The second file, with a variable at its top level, gets the types in its repository that it gets
alone. -/
theorem repository_twoReaders : ∃ found w', ["r/a.py", "r/b.py", "r/m.py", "r/n.py"].foldlM
      (addFile { repository := "r" } .null) {} twoReaders = .ok found w' ∧
    ∀ d, found.get? "r/b.py" = some d ↔
      ∃ w', inferFile { repository := "r" } .null "r/b.py" twoReaders = .ok d w' := by
  obtain ⟨found, w', hrun, -⟩ := foldlM_addFile_ends { repository := "r" } .null
    ["r/a.py", "r/b.py", "r/m.py", "r/n.py"] {} twoReaders
  obtain ⟨found₁, w₁, hstart, -⟩ := foldlM_addFile_ends { repository := "r" } .null
    ["r/a.py"] {} twoReaders
  have hseen : (Act.worldAfter (["r/a.py"].foldlM (addFile { repository := "r" } .null) {}
      twoReaders)).seen = ["r/m"] := by decide +kernel
  rw [hstart] at hseen
  have hfound : UserType.found (UserType.discover twoReaders.tree true
      { path := "r/b.py", repository := ["r"], parts := ["b.py"] } (importing "n")) [] =
        some (["B"], ["r/n"]) := by decide +kernel
  obtain ⟨f, hf⟩ := exists_of_found hfound
  have hsecond : secondFindings = f := by
    unfold secondFindings
    rw [hf]
  have hapart : ∀ p ∈ w₁.seen, p ∉ ["r/n"] := by
    have hw₁ : w₁.seen = ["r/m"] := hseen
    rw [hw₁]
    decide
  refine ⟨found, w', hrun, ?_⟩
  exact (repository_entry_iff rfl rfl ["r/a.py"] ["r/m.py", "r/n.py"] (by decide) (by decide) rfl
    hrun hstart rfl rfl hf hapart).mpr (hsecond ▸ topIsSimple_second)

/-! ## A module that is simplified only alone -/

/-- The types of a repository and those of a file alone are both known, and differ for the file. -/
def differAt (path : String) (run : EStateM.Result Fault World (Table String Document))
    (alone : EStateM.Result Fault World Document) : Bool :=
  match run, alone with
  | .ok found _, .ok d' _ =>
    match found.get? path with
    | some d => d != d'
    | none => false
  | _, _ => false

theorem exists_of_differAt {run : EStateM.Result Fault World (Table String Document)}
    {alone : EStateM.Result Fault World Document} (h : differAt path run alone = true) :
    ∃ found w₁ d d' w₂, run = .ok found w₁ ∧ found.get? path = some d ∧ alone = .ok d' w₂ ∧
      d ≠ d' := by
  unfold differAt at h
  split at h
  · rename_i found w₁ d' w₂
    split at h
    · rename_i d hd
      refine ⟨found, w₁, d, d', w₂, rfl, hd, rfl, fun heq => ?_⟩
      rw [bne, Document.beq_iff.mpr heq] at h
      cases h
    · cases h
  · cases h

/-- A module that merges a list of nothing with a list of numbers. -/
def mergingLists : World where
  tree := { files := [(["r", "f.py"], .program [
    .if_ default (.name default "c" .load) [assigning "y" (.list default [] .load)]
      [assigning "y" (.list default [.constant default .int] .load)],
    assigning "z" (.name default "y" .load)])] }

theorem differAt_mergingLists : differAt "r/f.py"
    (["r/f.py"].foldlM (addFile { repository := "r" } .null) {} mergingLists)
    (inferFile { repository := "r" } .null "r/f.py" mergingLists) = true := by
  decide +kernel

/-- A module's entry in the types of its repository is not what is inferred for it alone: only the
second is simplified at the top level. -/
theorem repository_mergingLists : ∃ found w₁ d d' w₂,
    ["r/f.py"].foldlM (addFile { repository := "r" } .null) {} mergingLists = .ok found w₁ ∧
      found.get? "r/f.py" = some d ∧
      inferFile { repository := "r" } .null "r/f.py" mergingLists = .ok d' w₂ ∧ d ≠ d' :=
  exists_of_differAt differAt_mergingLists

end Infer
end TypeFlow.Command
