import TypeFlow.Proofs.Run
import TypeFlow.UserType.Discovery

/-!
# Rules of a search

A search reaches other files in two ways: it asks for the findings of a file, or it scans what
stands at a path, unless that has been seen. Two searches that differ in how they search other files
are related in every way in which these two steps are, as long as the relation respects sequences.
-/

namespace TypeFlow

variable {γ α β σ : Type} {file : String}

/-! ## Computations that may stop with a fault -/

namespace Fallible

variable {s t u : σ} {x : EStateM Fault σ α} {f : α → EStateM Fault σ β} {a : α} {b : β}

theorem bind_of_error {e : Fault} (h : x s = .error e t) (f : α → EStateM Fault σ β) :
    (x >>= f) s = .error e t := by
  rw [bind_apply, h]

theorem bind_ofExcept {x : Except Fault α} (h : x = .ok a) (f : α → EStateM Fault σ β) :
    (MonadExcept.ofExcept x >>= f : EStateM Fault σ β) = f a := by
  rw [h]
  rfl

/-- The value of a step that has been taken. -/
def given [Inhabited α] : Except Fault α → α
  | .ok a => a
  | .error _ => default

theorem given_of_bind [Inhabited α] {x : Except Fault α} {f : α → Except Fault β}
    (h : x >>= f = .ok b) : x = .ok (given x) ∧ f (given x) = .ok b := by
  cases x with
  | ok a => exact ⟨rfl, h⟩
  | error e => cases h

theorem given_of_binds {c : γ} [Inhabited α] [Inhabited β] {x : Except Fault α}
    {y : α → Except Fault β} {f : β → Except Fault γ} (h : (x >>= fun a => y a >>= f) = .ok c) :
    f (given (y (given x))) = .ok c := (given_of_bind (given_of_bind h).2).2

theorem exists_of_any {x : Except Fault α} {p : α → Bool} (h : x.toOption.any p = true) :
    ∃ a, x = .ok a ∧ p a = true := by
  cases x with
  | ok a => exact ⟨a, rfl, h⟩
  | error e => cases h

theorem tryCatch_apply (x : EStateM Fault σ α) (handler : Fault → EStateM Fault σ α) (s : σ) :
    (tryCatch x handler) s = match x s with
      | .ok a t => .ok a t
      | .error e t => handler e t := by
  change EStateM.tryCatch x handler s = _
  delta EStateM.tryCatch
  cases x s <;> rfl

end Fallible

namespace UserType

open Program

/-! ## Related computations -/

/-- A relation between computations that respects results, faults and sequences. -/
structure Congruent (R : (α : Type) → Discover α → Discover α → Prop) : Prop where
  pure : ∀ {α : Type} (a : α), R α (Pure.pure a) (Pure.pure a)
  fault : ∀ {α : Type} (e : Fault), R α (throw e) (throw e)
  bind : ∀ {α β : Type} {x y : Discover α} {f g : α → Discover β},
    R α x y → (∀ a, R β (f a) (g a)) → R β (x >>= f) (y >>= g)

namespace Congruent

variable {R : (α : Type) → Discover α → Discover α → Prop} {l : List β}

theorem ite {c : Prop} [Decidable c] {x y x' y' : Discover α} (hx : c → R α x x')
    (hy : ¬c → R α y y') : R α (if c then x else y) (if c then x' else y') := by
  by_cases hc : c
  · rw [if_pos hc, if_pos hc]
    exact hx hc
  · rw [if_neg hc, if_neg hc]
    exact hy hc

variable (h : Congruent R)

include h

theorem ofExcept (x : Except Fault α) :
    R α (MonadExcept.ofExcept x) (MonadExcept.ofExcept x) := by
  cases x with
  | ok a => exact h.pure a
  | error e => exact h.fault e

theorem bindExcept {x : Except Fault α} {f g : α → Discover β}
    (hf : ∀ a, x = .ok a → R β (f a) (g a)) :
    R β (MonadExcept.ofExcept x >>= f) (MonadExcept.ofExcept x >>= g) := by
  cases x with
  | ok a => exact hf a rfl
  | error e => exact h.fault e

theorem foldlM {f g : γ → β → Discover γ}
    (hstep : ∀ b ∈ l, ∀ c, R γ (f c b) (g c b)) (c : γ) : R γ (l.foldlM f c) (l.foldlM g c) := by
  induction l generalizing c with
  | nil => exact h.pure c
  | cons b rest ih =>
    rw [List.foldlM_cons, List.foldlM_cons]
    exact h.bind (hstep b (.head _) c) (ih fun b hb => hstep b (.tail _ hb))

theorem forIn {f g : β → γ → Discover (ForInStep γ)}
    (hstep : ∀ b c, R _ (f b c) (g b c)) (c : γ) : R γ (ForIn.forIn l c f) (ForIn.forIn l c g) := by
  induction l generalizing c with
  | nil => exact h.pure c
  | cons b rest ih =>
    rw [List.forIn_cons, List.forIn_cons]
    refine h.bind (hstep b c) fun step => ?_
    cases step with
    | done c => exact h.pure c
    | yield c => exact ih c

end Congruent

/-! ## Searches -/

namespace Search

variable {s : Search} {survey : Survey}

/-- A search with another way to search other files. -/
def withNext (s : Search) (next : Source → Module → Discover Findings) : Search := { s with next }

variable (next : Source → Module → Discover Findings)

section

variable (s) (m : String)

@[simp] theorem withNext_tree : (s.withNext next).tree = s.tree := rfl

@[simp] theorem withNext_source : (s.withNext next).source = s.source := rfl

@[simp] theorem withNext_validate : (s.withNext next).validate = s.validate := rfl

@[simp] theorem withNext_anywhere (name : String) :
    (s.withNext next).anywhere name = s.anywhere name := rfl

@[simp] theorem withNext_moduleFiles : (s.withNext next).moduleFiles m = s.moduleFiles m := by
  simp only [moduleFiles, withNext_anywhere]

@[simp] theorem withNext_plainModuleFiles :
    (s.withNext next).plainModuleFiles m = s.plainModuleFiles m := by
  simp only [plainModuleFiles, withNext_anywhere]

end

/-- A file whose findings a search asks for, whether or not it has been seen: that of a module
which is imported as such, or a package from which a type is imported. -/
inductive Asks (s : Search) (survey : Survey) : String → Prop where
  | module {m file : String} : m ∈ survey.plainModules → file ∈ s.plainModuleFiles m →
      s.Asks survey file
  | package {i : ImportedType} : s.validate = true → i ∈ survey.types →
      ¬s.tree.isFile (s.source.moduleAt i.level i.module ++ ".py") = true →
      s.Asks survey (Source.packageFile (s.source.moduleAt i.level i.module))
  | member {i : ImportedType} {file : String} : s.validate = true → i ∈ survey.types →
      file ∈ s.moduleFiles i.module → Text.endsWith file "__init__.py" = true →
      s.Asks survey file

/-- A path that a search scans: one whose contents are imported. -/
inductive Scans (s : Search) (survey : Survey) : String → Prop where
  | place {file : ImportedFile} : file ∈ survey.files →
      s.Scans survey (s.source.moduleAt file.level file.module)
  | found {file : ImportedFile} {path : String} : file ∈ survey.files →
      path ∈ s.moduleFiles file.module → s.Scans survey path

theorem Asks.withNext (h : s.Asks survey file) : (s.withNext next).Asks survey file := by
  cases h with
  | module hm hfile => exact .module hm ((withNext_plainModuleFiles s next _).symm ▸ hfile)
  | package hv hi hplain => exact .package (s := s.withNext next) hv hi hplain
  | member hv hi hfile hend =>
    exact .member hv hi ((withNext_moduleFiles s next _).symm ▸ hfile) hend

theorem Scans.withNext {path : String} (h : s.Scans survey path) :
    (s.withNext next).Scans survey path := by
  cases h with
  | place hfile => exact .place (s := s.withNext next) hfile
  | found hfile hpath => exact .found hfile ((withNext_moduleFiles s next _).symm ▸ hpath)

/-- A relation holds of the steps by which two searches reach other files. -/
structure Rules (R : (α : Type) → Discover α → Discover α → Prop) (s : Search)
    (next : Source → Module → Discover Findings) (survey : Survey) : Prop extends Congruent R where
  ask : ∀ file, s.Asks survey file → R Findings (s.findings file) ((s.withNext next).findings file)
  scan : ∀ path, s.Scans survey path → ∀ f name,
    R (Findings × Bool) (s.scan f path name) ((s.withNext next).scan f path name)

section

variable {R : (α : Type) → Discover α → Discover α → Prop} {next}

/-- The path under which a scanned path is noted. -/
def notedAs (path : String) : String :=
  if Text.endsWith path ".py" then Source.withoutEnding path else path

/-- A scan looks whether a path has been seen, and then for a package and for a file. -/
theorem scan_apply (s : Search) (f : Findings) (path name : String) (seen : List String) :
    s.scan f path name seen = if notedAs path ∈ seen then .ok (f, true) seen
      else if s.tree.isDirectory (notedAs path) = true then
        (do
          let file := Source.packageFile (notedAs path)
          return (addPackage f (← s.findings file) file name, true))
          (seen ++ [notedAs path])
      else if s.tree.isFile (notedAs path ++ ".py") = true then
        (do
          let survey ← s.survey (notedAs path ++ ".py")
          return (s.addFile f survey (notedAs path ++ ".py") (notedAs path), true))
          (seen ++ [notedAs path])
      else .ok (f, false) seen := by
  unfold scan notedAs
  generalize (if Text.endsWith path ".py" = true then Source.withoutEnding path else path) = place
  dsimp only
  rw [Fallible.bind_of_ok (x := get) rfl]
  by_cases hseen : place ∈ seen
  · rw [if_pos hseen, if_pos hseen]
    rfl
  rw [if_neg hseen, if_neg hseen]
  by_cases hpackage : s.tree.isDirectory place = true
  · rw [if_pos hpackage, if_pos hpackage]
    rfl
  rw [if_neg hpackage, if_neg hpackage]
  by_cases hfile : s.tree.isFile (place ++ ".py") = true
  · rw [if_pos hfile, if_pos hfile]
    rfl
  rw [if_neg hfile, if_neg hfile]
  rfl

variable (s next) in
/-- What is found in another file is related when the searches of that file are. -/
theorem congruent_findings (h : Congruent R)
    (hnext : ∀ source program, s.tree.isFile file = true → s.tree.readProgram file = .ok program →
      Source.place file (some s.source.root) s.source.separator = .ok source →
      R Findings (s.next source program) (next source program)) :
    R Findings (s.findings file) ((s.withNext next).findings file) := by
  unfold findings
  refine h.bind ?_ fun found => ?_
  · unfold findings?
    simp only [withNext_tree, withNext_source]
    refine Congruent.ite (fun hfile => ?_) fun _ => h.pure none
    refine h.bindExcept fun program hprogram => h.bindExcept fun source hsource => ?_
    exact h.bind (hnext source program hfile hprogram hsource) fun f => h.pure (some f)
  · cases found with
    | none => exact h.fault _
    | some f => exact h.pure f

variable (s next) in
theorem congruent_survey (h : Congruent R) (file : String) :
    R Survey (s.survey file) ((s.withNext next).survey file) :=
  h.bind (h.ofExcept _) fun _ => h.ofExcept _

theorem congruent_takeFromFile (h : Congruent R) (f : Findings) (i : ImportedType)
    (file path : String) :
    R Findings (s.takeFromFile f i file path) ((s.withNext next).takeFromFile f i file path) :=
  h.bind (congruent_survey s next h file) fun _ => h.pure _

namespace Rules

variable {i : ImportedType}

section

variable (h : Rules R s next survey)

include h

theorem followFile {file : ImportedFile} (hfile : file ∈ survey.files)
    (f : Findings) : R Findings (s.followFile f file) ((s.withNext next).followFile f file) := by
  unfold Search.followFile
  simp only [withNext_source, withNext_moduleFiles]
  refine h.bind (h.scan _ (.place hfile) f file.module) ?_
  rintro ⟨f, found⟩
  dsimp only
  split
  · exact h.pure f
  · split
    · exact h.pure _
    · refine h.foldlM (fun path hpath f => ?_) f
      exact h.bind (h.scan path (.found hfile hpath) f file.module) fun found => h.pure found.1

theorem followModule {m : String} (hm : m ∈ survey.plainModules)
    (f : Findings) : R Findings (s.followModule f m) ((s.withNext next).followModule f m) := by
  unfold Search.followModule
  simp only [withNext_plainModuleFiles]
  split
  · exact h.pure _
  · refine h.foldlM (fun file hfile f => ?_) f
    exact h.bind (h.ask file (.module hm hfile)) fun g => h.pure _

theorem takeFromPackage (hv : s.validate = true) (hi : i ∈ survey.types)
    (hplain : ¬s.tree.isFile (s.source.moduleAt i.level i.module ++ ".py") = true) (f : Findings) :
    R Findings (s.takeFromPackage f i (s.source.moduleAt i.level i.module))
      ((s.withNext next).takeFromPackage f i (s.source.moduleAt i.level i.module)) := by
  unfold Search.takeFromPackage
  refine h.bind (h.ask _ (.package hv hi hplain)) fun package => ?_
  simp only [withNext_source]
  split
  · exact h.pure _
  · exact h.pure _

theorem takeFromAnywhere
    (hfile : Text.endsWith file "__init__.py" = true → s.Asks survey file) (path : String)
    (f : Findings) :
    R Findings (s.takeFromAnywhere path i f file)
      ((s.withNext next).takeFromAnywhere path i f file) := by
  unfold Search.takeFromAnywhere
  simp only [withNext_tree]
  refine Congruent.ite (fun _ => h.pure f) fun _ => ?_
  refine Congruent.ite (fun hend => ?_) fun _ => congruent_takeFromFile h.toCongruent ..
  refine h.bind (h.ask file (hfile hend)) fun package => ?_
  refine h.bind (h.forIn (fun d f => ?_) f) fun f => congruent_takeFromFile h.toCongruent ..
  split <;> exact h.pure _

theorem followType (hv : s.validate = true) (hi : i ∈ survey.types)
    (f : Findings) : R Findings (s.followType f i) ((s.withNext next).followType f i) := by
  unfold Search.followType
  simp only [withNext_tree, withNext_source, withNext_moduleFiles]
  refine Congruent.ite (fun _ => congruent_takeFromFile h.toCongruent ..) fun hplain => ?_
  refine Congruent.ite (fun _ => h.takeFromPackage hv hi hplain f) fun _ => ?_
  split
  · exact h.pure _
  · exact h.foldlM (fun file hfile f => h.takeFromAnywhere (.member hv hi hfile ·) _ f) f

end

end Rules

variable (s next) in
/-- Searches are related when the steps are by which they reach other files. -/
theorem run_related {program : Module} (hc : Congruent R)
    (h : ∀ survey, Survey.ofProgram program = .ok survey → Rules R s next survey) :
    R Findings (s.run program) ((s.withNext next).run program) := by
  unfold Search.run
  refine hc.bindExcept fun survey hsurvey => ?_
  have h := h survey hsurvey
  refine hc.bind (hc.foldlM (fun file hfile f => h.followFile hfile f) _) fun f => ?_
  refine hc.bind (hc.foldlM (fun m hm f => h.followModule hm f) _) fun f => ?_
  simp only [withNext_validate]
  refine Congruent.ite (fun hv => ?_) fun _ => hc.bind (hc.pure _) fun f => hc.ofExcept _
  exact hc.bind (hc.foldlM (fun i hi f => h.followType hv hi f) _) fun f => hc.ofExcept _

end

end Search
end UserType
end TypeFlow
