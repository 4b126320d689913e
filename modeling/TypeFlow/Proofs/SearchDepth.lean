import TypeFlow.Proofs.Searching

/-!
# Depth of searches

A search of one file leads to searches of others. A package that is scanned is searched once, since
its path is noted before. A file whose findings are asked for is searched every time. So a search
comes to its end when requests only go from higher to lower layers of the repository, however the
packages scan each other, and a package from which a type is imported by the package itself is
searched without end.
-/

namespace TypeFlow.UserType

open Program List Fallible

variable {α β : Type} {tree : FileTree} {validate : Bool} {base seen t : List String}
  {program : Module} {job : Job} (depth : Nat)

/-- The user types of a program, with a search of its own for what lies too deep. -/
def discoverOver (bottom : Source → Module → Discover Findings) (tree : FileTree)
    (validate : Bool) : Nat → Source → Module → Discover Findings
  | 0 => bottom
  | depth + 1 => fun source program =>
    Search.run { tree, source, validate, next := discoverOver bottom tree validate depth } program

theorem discoverFrom_eq : discoverFrom tree validate depth =
    discoverOver (fun _ _ => throw .tooDeep) tree validate depth := by
  induction depth with
  | zero => rfl
  | succ depth ih =>
    funext source program
    rw [discoverFrom, discoverOver, ih]

/-! ## Searches that agree -/

/-- Two computations agree once some paths have been seen, and forget no path. -/
def AgreesFrom (base : List String) (α : Type) (x y : Discover α) : Prop :=
  ∀ seen, base ⊆ seen → x seen = y seen ∧ ∀ a t, x seen = .ok a t → seen ⊆ t

theorem congruent_agreesFrom (base : List String) : Congruent (AgreesFrom base) where
  pure a seen _ := by
    refine ⟨rfl, fun b t h => ?_⟩
    cases h
    exact Subset.refl _
  fault e seen _ := ⟨rfl, fun a t h => nomatch h⟩
  bind {α β x y f g} hx hf seen hbase := by
    obtain ⟨heq, hgrows⟩ := hx seen hbase
    rw [bind_apply, bind_apply, ← heq]
    cases hrun : x seen with
    | error e t => exact ⟨rfl, fun a t h => nomatch h⟩
    | ok a t =>
      have hseen := hgrows a t hrun
      obtain ⟨heq', hgrows'⟩ := hf a t (Subset.trans hbase hseen)
      exact ⟨heq', fun b u h => Subset.trans hseen (hgrows' b u h)⟩

/-- Scans agree when the searches of a package do that has not been seen before. -/
theorem Search.agreesFrom_scan (s : Search) (next : Source → Module → Discover Findings)
    (f : Findings) (path name : String)
    (hpackage : notedAs path ∉ base → s.tree.isDirectory (notedAs path) = true →
      AgreesFrom (base ++ [notedAs path]) Findings (s.findings (Source.packageFile (notedAs path)))
        ((s.withNext next).findings (Source.packageFile (notedAs path)))) :
    AgreesFrom base (Findings × Bool) (s.scan f path name)
      ((s.withNext next).scan f path name) := by
  intro seen hbase
  have hnoted : base ++ [notedAs path] ⊆ seen ++ [notedAs path] := fun p hp =>
    mem_append.mpr ((mem_append.mp hp).imp_left fun hp => hbase hp)
  have hforget {x : Discover (Findings × Bool)}
      (hx : ∀ a t, x (seen ++ [notedAs path]) = .ok a t → seen ++ [notedAs path] ⊆ t)
      (a : Findings × Bool) (t : List String) (h : x (seen ++ [notedAs path]) = .ok a t) :
      seen ⊆ t := fun p hp => hx a t h (mem_append_left _ hp)
  rw [scan_apply, scan_apply, withNext_tree]
  split
  · refine ⟨rfl, fun a t h => ?_⟩
    cases h
    exact Subset.refl _
  rename_i hseen
  split
  · rename_i hdirectory
    have hc := congruent_agreesFrom (base ++ [notedAs path])
    obtain ⟨heq, hgrows⟩ := hc.bind (hpackage (fun h => hseen (hbase h)) hdirectory)
      (fun g => hc.pure (addPackage f g (Source.packageFile (notedAs path)) name, true)) _ hnoted
    exact ⟨heq, hforget hgrows⟩
  split
  · have hc := congruent_agreesFrom (base ++ [notedAs path])
    obtain ⟨heq, hgrows⟩ := hc.bind (congruent_survey s next hc (notedAs path ++ ".py"))
      (fun survey => hc.pure (s.addFile f survey (notedAs path ++ ".py") (notedAs path), true)) _
      hnoted
    exact ⟨heq, hforget hgrows⟩
  · refine ⟨rfl, fun a t h => ?_⟩
    cases h
    exact Subset.refl _

/-! ## Layers -/

/-- A source file and the program in it. -/
abbrev Job := Source × Module

namespace Job

/-- The search of a file. How it searches others is left open. -/
def search (tree : FileTree) (validate : Bool) (job : Job) : Search :=
  { tree, source := job.1, validate, next := fun _ _ => throw .tooDeep }

/-- A file of the repository can be searched from another one. -/
structure Reads (tree : FileTree) (job : Job) (file : String) (job' : Job) : Prop where
  isFile : tree.isFile file = true
  program : tree.readProgram file = .ok job'.2
  source : Source.place file (some job.1.root) job.1.separator = .ok job'.1

/-- A search asks for the findings of another file. -/
def AsksFor (tree : FileTree) (validate : Bool) (job job' : Job) : Prop :=
  ∃ survey file, Survey.ofProgram job.2 = .ok survey ∧
    (job.search tree validate).Asks survey file ∧ job.Reads tree file job'

def ScansAt (tree : FileTree) (validate : Bool) (job : Job) (path : String) (job' : Job) : Prop :=
  ∃ survey file, Survey.ofProgram job.2 = .ok survey ∧
    (job.search tree validate).Scans survey file ∧ Search.notedAs file = path ∧
    tree.isDirectory path = true ∧ job.Reads tree (Source.packageFile path) job'

end Job

/-- Files in layers: whatever is asked for lies in a lower layer than what asks for it. Packages on
finitely many paths are scanned, from any layer. -/
structure Layered (tree : FileTree) (validate : Bool) (J : Job → Prop) (layer : Job → Nat)
    (height : Nat) (paths : List String) : Prop where
  below : ∀ job, J job → layer job < height
  asked : ∀ job job', J job → job.AsksFor tree validate job' → J job' ∧ layer job' < layer job
  scanned : ∀ job path job', J job → job.ScansAt tree validate path job' → path ∈ paths ∧ J job'

/-- The number of paths that have not been seen. -/
def unseen (paths seen : List String) : Nat := (paths.filter fun p => !seen.contains p).length

theorem unseen_note {paths : List String} {path : String} (hpath : path ∈ paths)
    (hnew : path ∉ base) : unseen paths (base ++ [path]) < unseen paths base := by
  have hfilter : (paths.filter fun p => !(base ++ [path]).contains p) =
      (paths.filter fun p => !base.contains p).filter (· != path) := by
    rw [filter_filter]
    refine filter_congr fun p _ => ?_
    by_cases hp : p = path <;> simp [hp]
  unfold unseen
  rw [hfilter]
  refine length_filter_lt_length_iff_exists.mpr ⟨path, mem_filter.mpr ⟨hpath, ?_⟩, ?_⟩
  · simpa using hnew
  · simp

section

variable {J : Job → Prop} {layer : Job → Nat} {height : Nat} {paths : List String}

/-- Searches that may go deep enough do not reach the bottom: a request leads to a lower layer, and
a scan to a path that has not been seen. -/
theorem Layered.agreesFrom (h : Layered tree validate J layer height paths)
    (bottom bottom' : Source → Module → Discover Findings) {depth depth' : Nat} {job : Job}
    (hjob : J job) (hdepth : unseen paths base * height + layer job < depth)
    (hdepth' : unseen paths base * height + layer job < depth') :
    AgreesFrom base Findings (discoverOver bottom tree validate depth job.1 job.2)
      (discoverOver bottom' tree validate depth' job.1 job.2) := by
  induction depth generalizing depth' job base with
  | zero => exact absurd hdepth (Nat.not_lt_zero _)
  | succ depth ih =>
  cases depth' with
  | zero => exact absurd hdepth' (Nat.not_lt_zero _)
  | succ depth' =>
  have hc := congruent_agreesFrom base
  let s : Search :=
    { tree, source := job.1, validate, next := discoverOver bottom tree validate depth }
  let next := discoverOver bottom' tree validate depth'
  refine Search.run_related s next hc fun survey hsurvey =>
    { hc with ask := fun file hask => ?_, scan := fun path hscan f name => ?_ }
  · refine Search.congruent_findings s next hc fun source program hfile hprogram hsource => ?_
    have hasks : job.AsksFor tree validate (source, program) :=
      ⟨survey, file, hsurvey, hask.withNext _, hfile, hprogram, hsource⟩
    obtain ⟨hjob', hlower⟩ := h.asked job _ hjob hasks
    exact ih hjob' (by omega) (by omega)
  · refine Search.agreesFrom_scan s next f path name fun hnew hdirectory => ?_
    refine Search.congruent_findings s next (congruent_agreesFrom _)
      fun source program hfile hprogram hsource => ?_
    have hscans : job.ScansAt tree validate (Search.notedAs path) (source, program) :=
      ⟨survey, path, hsurvey, hscan.withNext _, rfl, hdirectory, hfile, hprogram, hsource⟩
    obtain ⟨hpath, hjob'⟩ := h.scanned job _ _ hjob hscans
    have hless := unseen_note hpath hnew
    have hlayer := h.below _ hjob'
    -- one path less outweighs every layer
    have hweight : unseen paths (base ++ [Search.notedAs path]) * height + height ≤
        unseen paths base * height := by
      rw [← Nat.succ_mul]
      exact Nat.mul_le_mul_right height hless
    exact ih hjob' (by omega) (by omega)

/-- Searches come to their end. In a repository whose files lie in layers, no search goes deeper
than the number of layers for each path that is scanned and once more: whatever stands for a search
below that depth, the result is the same. -/
theorem discoverOver_ends (h : Layered tree validate J layer height paths) {source : Source}
    {program : Module} (hjob : J (source, program))
    (bottom : Source → Module → Discover Findings) {depth : Nat}
    (hdepth : (paths.length + 1) * height ≤ depth) (seen : List String) :
    discoverOver bottom tree validate depth source program seen =
      discoverFrom tree validate ((paths.length + 1) * height) source program seen := by
  have hunseen : unseen paths [] ≤ paths.length := List.length_filter_le ..
  have hlayer := h.below _ hjob
  have henough : unseen paths [] * height + layer (source, program) <
      (paths.length + 1) * height := by
    have hmul := Nat.mul_le_mul_right height hunseen
    rw [Nat.succ_mul]
    omega
  rw [discoverFrom_eq]
  exact (h.agreesFrom bottom _ hjob (Nat.lt_of_lt_of_le henough hdepth) henough seen
    (List.nil_subset _)).1

end

/-! ## Packages that import types -/

/-- What a program imports: files, modules and types. -/
def importsOf (program : Module) :
    Option (List ImportedFile × List String × List ImportedType) :=
  match Survey.ofProgram program with
  | .ok survey => some (survey.files, survey.plainModules, survey.types)
  | .error _ => none

theorem imports_of_survey {survey : Survey} {files : List ImportedFile} {modules : List String}
    {types : List ImportedType} (h : importsOf program = some (files, modules, types))
    (hsurvey : Survey.ofProgram program = .ok survey) :
    survey.files = files ∧ survey.plainModules = modules ∧ survey.types = types := by
  rw [importsOf, hsurvey] at h
  cases h
  exact ⟨rfl, rfl, rfl⟩

theorem exists_survey (h : (importsOf program).isSome = true) :
    ∃ survey, Survey.ofProgram program = .ok survey := by
  unfold importsOf at h
  cases hsurvey : Survey.ofProgram program with
  | ok survey => exact ⟨survey, rfl⟩
  | error e =>
    rw [hsurvey] at h
    cases h

/-- A search stops with the fault of the package from which its first type is imported. -/
theorem Search.run_fault {s : Search} {i : ImportedType} {rest : List ImportedType} {e : Fault}
    (hvalidate : s.validate = true) (himports : importsOf program = some ([], [], i :: rest))
    (hplain : s.tree.isFile (s.source.moduleAt i.level i.module ++ ".py") = false)
    (hreads : Job.Reads s.tree (s.source, program)
      (Source.packageFile (s.source.moduleAt i.level i.module)) job)
    (hnext : s.next job.1 job.2 seen = .error e t) : s.run program seen = .error e t := by
  have himported : (importsOf program).isSome = true := by rw [himports]; rfl
  obtain ⟨survey, hsurvey⟩ := exists_survey himported
  obtain ⟨hfiles, hmodules, htypes⟩ := imports_of_survey himports hsurvey
  have hfindings? : s.findings? (Source.packageFile (s.source.moduleAt i.level i.module)) seen =
      .error e t := by
    unfold findings?
    rw [if_pos hreads.isFile, bind_ofExcept hreads.program, bind_ofExcept hreads.source]
    exact bind_of_error hnext _
  have hfollow (f : Findings) : s.followType f i seen = .error e t := by
    unfold followType
    rw [if_neg (by rw [hplain]; decide), if_pos hreads.isFile]
    exact bind_of_error (bind_of_error hfindings? _) _
  unfold run
  rw [bind_ofExcept hsurvey, hfiles, hmodules, htypes, foldlM_nil, pure_bind,
    foldlM_nil, pure_bind, if_pos hvalidate, foldlM_cons]
  exact bind_of_error (bind_of_error (hfollow _) _) _

/-- A program that imports a type from a package. -/
def fromPackage : Module := [.importFrom (some "p") [⟨"A", none⟩] 0]

def packageWith (program : Module) : FileTree where
  files := [(["r", "p", "__init__.py"], .program program)]

/-- A file next to the package. -/
def besidePackage : Source := { path := "r/f.py", repository := ["r"], parts := ["f.py"] }

def inPackage : Source :=
  { path := "r/p/__init__.py", repository := ["r"], parts := ["p", "__init__.py"] }

theorem reads_package (program : Module) (hroot : job.1.root = "r")
    (hseparator : job.1.separator = "/") :
    job.Reads (packageWith program) "r/p/__init__.py" (inPackage, program) := by
  have hlocate : (packageWith program).locate "r/p/__init__.py" = .ok ["r", "p", "__init__.py"] :=
    rfl
  have hfile : (packageWith program).file? ["r", "p", "__init__.py"] = some (.program program) := by
    simp [packageWith, FileTree.file?]
  have hread : (packageWith program).read "r/p/__init__.py" = .ok (.program program) := by
    simp only [FileTree.read, hlocate, hfile, Bind.bind, Except.bind]
    rfl
  have hplace : Source.place "r/p/__init__.py" (some "r") = .ok inPackage := rfl
  refine ⟨?_, ?_, ?_⟩
  · simp only [FileTree.isFile, hlocate, hfile, Option.isSome_some]
  · simp only [FileTree.readProgram, hread, Bind.bind, Except.bind]
    rfl
  · rw [hroot, hseparator]
    exact hplace

/-- A program that imports all contents of a package. -/
def allOfPackage : Module := [.importFrom (some "p") [⟨"*", none⟩] 0]

/-- A package that imports its own contents lies below the files that import a type from it, and is
scanned from itself. -/
theorem layered_package : Layered (packageWith allOfPackage) true
    (fun job => job = (besidePackage, fromPackage) ∨ job = (inPackage, allOfPackage))
    (fun job => if importsOf job.2 = some ([], [], [⟨"p", "A", 0⟩]) then 1 else 0) 2 ["r/p"] := by
  obtain ⟨houter, hinner, hfiles, hplaces, hnone, hnoted⟩ :
      importsOf fromPackage = some ([], [], [⟨"p", "A", 0⟩]) ∧
      importsOf allOfPackage = some ([⟨"p", 0⟩], [], []) ∧
      (∀ job ∈ [(besidePackage, fromPackage), (inPackage, allOfPackage)],
        (Job.search (packageWith allOfPackage) true job).moduleFiles "p" = ["r/p/__init__.py"]) ∧
      (∀ source ∈ [besidePackage, inPackage], Source.moduleAt source 0 "p" = "r/p") ∧
      (packageWith allOfPackage).isDirectory (Search.notedAs "r/p/__init__.py") = false ∧
      Search.notedAs "r/p" = "r/p" := by decide +kernel
  -- whatever reads the package finds the same program in the same place
  have hpackage {job job' : Job} (hjob : job = (besidePackage, fromPackage) ∨
      job = (inPackage, allOfPackage))
      (hreads : job.Reads (packageWith allOfPackage) "r/p/__init__.py" job') :
      job' = (inPackage, allOfPackage) := by
    have hroot : job.1.root = "r" ∧ job.1.separator = "/" := by
      rcases hjob with rfl | rfl <;> decide
    have hthere : job.Reads (packageWith allOfPackage) "r/p/__init__.py"
        (inPackage, allOfPackage) := reads_package allOfPackage hroot.1 hroot.2
    exact Prod.ext (Except.ok.inj (hreads.source.symm.trans hthere.source))
      (Except.ok.inj (hreads.program.symm.trans hthere.program))
  constructor
  case below =>
    intro job _
    split <;> decide
  case asked =>
    rintro job job' hjob ⟨survey, file, hsurvey, hasks, hreads⟩
    rcases hjob with rfl | rfl
    · obtain ⟨-, hmodules, htypes⟩ := imports_of_survey houter hsurvey
      have hfile : file = "r/p/__init__.py" := by
        cases hasks with
        | module hm =>
          rw [hmodules] at hm
          cases hm
        | package _ hi _ =>
          rw [htypes, mem_singleton] at hi
          exact hi ▸ congrArg Source.packageFile (hplaces besidePackage (.head _))
        | member _ hi hfile _ =>
          rw [htypes, mem_singleton] at hi
          rw [hi, hfiles _ (.head _)] at hfile
          exact mem_singleton.mp hfile
      rw [hfile] at hreads
      obtain rfl := hpackage (.inl rfl) hreads
      refine ⟨.inr rfl, ?_⟩
      rw [if_pos houter, hinner]
      decide
    · obtain ⟨-, hmodules, htypes⟩ := imports_of_survey hinner hsurvey
      cases hasks with
      | module hm =>
        rw [hmodules] at hm
        cases hm
      | package _ hi _ =>
        rw [htypes] at hi
        cases hi
      | member _ hi =>
        rw [htypes] at hi
        cases hi
  case scanned =>
    rintro job path job' hjob ⟨survey, file, hsurvey, hscans, hpath, hdirectory, hreads⟩
    rcases hjob with rfl | rfl
    · have hempty := (imports_of_survey houter hsurvey).1
      cases hscans with
      | place hfile =>
        rw [hempty] at hfile
        cases hfile
      | found hfile =>
        rw [hempty] at hfile
        cases hfile
    · have hone := (imports_of_survey hinner hsurvey).1
      cases hscans with
      | place hfile =>
        rw [hone, mem_singleton] at hfile
        obtain rfl : "r/p" = path := by
          rw [← hpath, hfile]
          have hplace := hplaces inPackage (.tail _ (.head _))
          exact ((congrArg Search.notedAs hplace).trans hnoted).symm
        exact ⟨.head _, .inr (hpackage (.inr rfl) hreads)⟩
      | found hfile hfound =>
        rw [hone, mem_singleton] at hfile
        rw [hfile, hfiles _ (.tail _ (.head _)), mem_singleton] at hfound
        rw [← hpath, hfound, hnone] at hdirectory
        cases hdirectory

/-- A type is looked up in a package that scans itself, whatever a deeper search would give. -/
theorem discoverOver_package :
    discoverOver (fun _ _ => pure {}) (packageWith allOfPackage) true maxPackageDepth besidePackage
        fromPackage [] =
      discoverFrom (packageWith allOfPackage) true 4 besidePackage fromPackage [] :=
  discoverOver_ends layered_package (.inl rfl) _ (by decide) []

/-- A package that imports a type from itself is searched without end. -/
theorem discoverFrom_selfImporting :
    discoverFrom (packageWith fromPackage) true depth besidePackage fromPackage [] =
      .error .tooDeep [] := by
  have himports : importsOf fromPackage = some ([], [], [⟨"p", "A", 0⟩]) := by decide +kernel
  have hplain : (packageWith fromPackage).isFile "r/p.py" = false := by decide +kernel
  -- the package and the file beside it look for the package in the same place
  have hsearch (depth : Nat) : ∀ source, source = besidePackage ∨ source = inPackage →
      discoverFrom (packageWith fromPackage) true depth source fromPackage [] =
        .error .tooDeep [] := by
    induction depth with
    | zero => exact fun _ _ => rfl
    | succ depth ih =>
      intro source hsource
      have hat : source.moduleAt 0 "p" = "r/p" := by
        rcases hsource with rfl | rfl <;> decide +kernel
      have hreads : Job.Reads (packageWith fromPackage) (source, fromPackage)
          (Source.packageFile (source.moduleAt 0 "p")) (inPackage, fromPackage) := by
        rw [hat]
        rcases hsource with rfl | rfl <;> exact reads_package fromPackage rfl rfl
      refine Search.run_fault rfl himports ?_ hreads (ih inPackage (.inr rfl))
      change (packageWith fromPackage).isFile (source.moduleAt 0 "p" ++ ".py") = false
      rw [hat]
      exact hplain
  exact hsearch depth besidePackage (.inl rfl)

/-- The search of a file that imports a type from such a package is given up. -/
theorem discover_selfImporting :
    discover (packageWith fromPackage) true besidePackage fromPackage [] = .error .tooDeep [] :=
  discoverFrom_selfImporting maxPackageDepth

end TypeFlow.UserType
