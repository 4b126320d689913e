import TypeFlow.Proofs.Searching

/-!
# Paths that searches share

All searches share one list of the paths that have been seen. A search that comes upon none of them
goes as it goes from an empty list and adds what it sees. A path on the list counts as known, so
that a search which comes upon it does not find the types there.
-/

namespace TypeFlow

/-- A package or a source file stands at a path. -/
def FileTree.HasModule (tree : FileTree) (path : String) : Prop :=
  tree.isDirectory path = true ∨ tree.isFile (path ++ ".py") = true

namespace UserType

open Program

variable {α β : Type} {tree : FileTree} {old seen t : List String} {validate : Bool}
  {source : Source} {program : Module}

/-- The paths that have been seen when a computation stops. -/
def pathsAfter (r : EStateM.Result Fault (List String) α) : List String :=
  match r with
  | .ok _ t => t
  | .error _ t => t

/-- A computation that goes on as before when paths have been seen that it does not come upon. It
forgets no path and sees only modules. -/
structure Framed (tree : FileTree) (old : List String) (x : Discover α) : Prop where
  grows : ∀ {seen a t}, x seen = .ok a t → seen ⊆ t
  sees : ∀ seen, ∀ p ∈ pathsAfter (x seen), p ∈ seen ∨ tree.HasModule p
  frame : ∀ {seen a t}, x seen = .ok a t → (∀ p ∈ old, p ∉ t) →
    x (old ++ seen) = .ok a (old ++ t)

namespace Framed

variable {x : Discover α} {path : String}

theorem pure (a : α) : Framed tree old (Pure.pure a) where
  grows h := by
    cases h
    exact List.Subset.refl _
  sees _ _ hp := .inl hp
  frame h _ := by
    cases h
    rfl

theorem fault (e : Fault) : Framed tree old (throw e : Discover α) where
  grows h := nomatch h
  sees _ _ hp := .inl hp
  frame h := nomatch h

theorem bind {f : α → Discover β} (hx : Framed tree old x) (hf : ∀ a, Framed tree old (f a)) :
    Framed tree old (x >>= f) := by
  constructor
  · intro seen b u h
    obtain ⟨a, t, hx', hf'⟩ := Fallible.bind_eq_ok.mp h
    exact List.Subset.trans (hx.grows hx') ((hf a).grows hf')
  · intro seen p hp
    have hfirst := hx.sees seen p
    rw [Fallible.bind_apply] at hp
    cases hrun : x seen with
    | ok a t =>
      rw [hrun] at hp hfirst
      exact ((hf a).sees t p hp).elim hfirst .inr
    | error e t =>
      rw [hrun] at hp hfirst
      exact hfirst hp
  · intro seen b u h hnew
    obtain ⟨a, t, hx', hf'⟩ := Fallible.bind_eq_ok.mp h
    have hapart : ∀ p ∈ old, p ∉ t := fun p hp ht => hnew p hp ((hf a).grows hf' ht)
    exact (Fallible.bind_of_ok (hx.frame hx' hapart) f).trans ((hf a).frame hf' hnew)

theorem congruent (tree : FileTree) (old : List String) :
    Congruent fun α (x _ : Discover α) => Framed tree old x :=
  ⟨pure, fault, bind⟩

theorem note {a : α} (hx : Framed tree old x) (h : x (seen ++ [path]) = .ok a t) :
    seen ⊆ t ∧ path ∈ t ∧ ((∀ p ∈ old, p ∉ t) → x (old ++ seen ++ [path]) = .ok a (old ++ t)) := by
  have hgrows := hx.grows h
  refine ⟨fun p hp => hgrows (List.mem_append_left _ hp),
    hgrows (List.mem_append_right _ (.head _)), fun hnew => ?_⟩
  rw [List.append_assoc]
  exact hx.frame h hnew

theorem sees_note {p : String} (hx : Framed tree old x) (hpath : tree.HasModule path)
    (hp : p ∈ pathsAfter (x (seen ++ [path]))) : p ∈ seen ∨ tree.HasModule p := by
  rcases hx.sees _ p hp with hp | hp
  · rcases List.mem_append.mp hp with hp | hp
    · exact .inl hp
    · exact .inr (List.mem_singleton.mp hp ▸ hpath)
  · exact .inr hp

end Framed

/-- A scan is framed by modules, when the searches of other files are. -/
theorem Search.framed_scan {s : Search} (hold : ∀ p ∈ old, s.tree.HasModule p)
    (hfindings : ∀ file, Framed s.tree old (s.findings file)) (f : Findings) (path name : String) :
    Framed s.tree old (s.scan f path name) := by
  have hsurvey (file : String) : Framed s.tree old (s.survey file) :=
    congruent_survey s s.next (Framed.congruent s.tree old) file
  have hpackage := (hfindings (Source.packageFile (notedAs path))).bind fun g =>
    .pure (addPackage f g (Source.packageFile (notedAs path)) name, true)
  have hfile := (hsurvey (notedAs path ++ ".py")).bind fun survey =>
    .pure (s.addFile f survey (notedAs path ++ ".py") (notedAs path), true)
  have hcases {seen : List String} {a : Findings × Bool} {t : List String}
      (h : s.scan f path name seen = .ok a t) : seen ⊆ t ∧
      ((∀ p ∈ old, p ∉ t) → s.scan f path name (old ++ seen) = .ok a (old ++ t)) := by
    rw [scan_apply] at h
    simp only [scan_apply, List.mem_append]
    split at h
    · rename_i hseen
      cases h
      refine ⟨List.Subset.refl _, fun _ => ?_⟩
      rw [if_pos (.inr hseen)]
    rename_i hseen
    split at h
    · rename_i hdirectory
      obtain ⟨hgrows, hnoted, hframe⟩ := hpackage.note h
      refine ⟨hgrows, fun hnew => ?_⟩
      rw [if_neg (not_or.mpr ⟨fun hp => hnew _ hp hnoted, hseen⟩), if_pos hdirectory]
      exact hframe hnew
    rename_i hdirectory
    split at h
    · rename_i hpy
      obtain ⟨hgrows, hnoted, hframe⟩ := hfile.note h
      refine ⟨hgrows, fun hnew => ?_⟩
      rw [if_neg (not_or.mpr ⟨fun hp => hnew _ hp hnoted, hseen⟩), if_neg hdirectory, if_pos hpy]
      exact hframe hnew
    · rename_i hpy
      cases h
      refine ⟨List.Subset.refl _, fun _ => ?_⟩
      have hold : notedAs path ∉ old := fun hp => (hold _ hp).elim hdirectory hpy
      rw [if_neg (not_or.mpr ⟨hold, hseen⟩), if_neg hdirectory, if_neg hpy]
  refine ⟨fun h => (hcases h).1, fun seen p hp => ?_, fun h => (hcases h).2⟩
  rw [scan_apply] at hp
  split at hp
  · exact .inl hp
  split at hp
  · rename_i hdirectory
    exact hpackage.sees_note (.inl hdirectory) hp
  split at hp
  · rename_i hpy
    exact hfile.sees_note (.inr hpy) hp
  · exact .inl hp

/-- However deep a search goes, it is framed by modules. -/
theorem framed_discoverFrom (validate : Bool) (hold : ∀ p ∈ old, tree.HasModule p) (depth : Nat)
    (source : Source) (program : Module) :
    Framed tree old (discoverFrom tree validate depth source program) := by
  have hc := Framed.congruent tree old
  induction depth generalizing source program with
  | zero => exact hc.fault .tooDeep
  | succ depth ih =>
    let s : Search := { tree, source, validate, next := discoverFrom tree validate depth }
    have hfindings (file : String) : Framed tree old (s.findings file) :=
      Search.congruent_findings s s.next hc fun source program _ _ _ =>
        ih source program
    exact Search.run_related s s.next hc fun survey _ =>
      { hc with
        ask := fun file _ => hfindings file
        scan := fun path _ f name => Search.framed_scan (s := s) hold hfindings f path name }

theorem discover_framed {f : Findings} (hold : ∀ p ∈ old, tree.HasModule p)
    (halone : discover tree validate source program [] = .ok f seen)
    (hapart : ∀ p ∈ old, p ∉ seen) :
    discover tree validate source program old = .ok f (old ++ seen) := by
  have hframed : Framed tree old (discover tree validate source program) :=
    framed_discoverFrom validate hold _ _ _
  have hrun := hframed.frame halone hapart
  rwa [List.append_nil] at hrun

theorem hasModule_of_discover {p : String}
    (hp : p ∈ pathsAfter (discover tree validate source program seen)) :
    p ∈ seen ∨ tree.HasModule p := by
  have hframed : Framed tree [] (discover tree validate source program) :=
    framed_discoverFrom validate (fun _ hp => absurd hp List.not_mem_nil) _ _ _
  exact hframed.sees seen p hp

/-- Independence of searches. The user types of a program do not depend on a search that was made
before, when the two searches see no path in common. -/
theorem discover_after_apart {validate : Bool} {source source' : Source} {program program' : Module}
    {f f' : Findings} {seen seen' : List String}
    (hearlier : discover tree validate source program [] = .ok f seen)
    (halone : discover tree validate source' program' [] = .ok f' seen')
    (hapart : ∀ p ∈ seen, p ∉ seen') :
    discover tree validate source' program' seen = .ok f' (seen ++ seen') := by
  refine discover_framed (fun p hp => ?_) halone hapart
  have hsees : p ∈ pathsAfter (discover tree validate source program []) := by
    rw [hearlier]
    exact hp
  exact (hasModule_of_discover hsees).resolve_left List.not_mem_nil

/-- The names of the types that a search finds, with the paths that have been seen then. -/
def found (x : Discover Findings) (seen : List String) : Option (List String × List String) :=
  match x seen with
  | .ok f t => some ((f.direct ++ f.indirect).map (·.name), t)
  | .error _ _ => none

theorem exists_of_found {x : Discover Findings} {names : List String}
    (h : found x seen = some (names, t)) : ∃ f, x seen = .ok f t := by
  unfold found at h
  cases hx : x seen with
  | ok f u =>
    rw [hx] at h
    cases h
    exact ⟨f, rfl⟩
  | error e u =>
    rw [hx] at h
    cases h

/-- A repository with two modules, each with a class. -/
def twoModules : FileTree where
  files := [
    (["r", "m.py"], .program [.class_ default "A" [] [] [.other] []]),
    (["r", "n.py"], .program [.class_ default "B" [] [] [.other] []])]

/-- A program that imports all names of a module, and its search. -/
def searchImporting (m : String) : Discover Findings :=
  discover twoModules true { path := "r/f.py", repository := ["r"], parts := ["f.py"] }
    [.importFrom (some m) [⟨"*", none⟩] 0]

/-- After a search for one module the other one is found as it is found alone. -/
theorem discover_twoModules : found (searchImporting "m") [] = some (["A"], ["r/m"]) ∧
    ∃ f, searchImporting "n" [] = .ok f ["r/n"] ∧
      searchImporting "n" ["r/m"] = .ok f ["r/m", "r/n"] := by
  have hfirst : found (searchImporting "m") [] = some (["A"], ["r/m"]) := by decide +kernel
  have hsecond : found (searchImporting "n") [] = some (["B"], ["r/n"]) := by decide +kernel
  obtain ⟨f, hf⟩ := exists_of_found hfirst
  obtain ⟨f', hf'⟩ := exists_of_found hsecond
  exact ⟨hfirst, f', hf', discover_after_apart hf hf' (by decide)⟩

/-- A module that was seen by an earlier search gives a later one no types. -/
theorem found_seenBefore : found (searchImporting "m") [] = some (["A"], ["r/m"]) ∧
    found (searchImporting "m") ["r/m"] = some ([], ["r/m"]) := by
  decide +kernel

end UserType
end TypeFlow
