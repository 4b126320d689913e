import TypeFlow.Command.Graphs
import TypeFlow.Proofs.ListedSearch

/-!
# Saved graphs of a repository

The files of a repository are handled one after the other, and for each of them graphs are saved.
These are its own when they could be built, and else the last ones that could be. So a file that
fails is saved with the graphs of another one, and when the first file fails there is nothing to
save and the run stops.
-/

namespace TypeFlow.Command.Graphs

open List Fallible

variable {o : Options} {directory path : String} {w w' : World} {last : Option Built} {b : Built}
  {d : Document} {place : List String}

theorem looks_build (o : Options) (path : String) : Act.Looks (build o path) :=
  (Act.Looks.readProgram path).bind fun _ => (Act.Looks.discover ..).bind fun _ =>
    (Act.Looks.compute _).bind fun _ => .pure _

/-- The graphs that were built, if any. -/
def built? : EStateM.Result Fault World Built → Option Built
  | .ok b _ => some b
  | .error _ _ => none

/-- The output file of an input file. -/
def outputOf (directory path : String) : String := outputFor directory path ".py" "_TDG.json"

def Saved (b : Built) (d : Document) : Prop := ∃ s, Eval.saveModule b.top b.store = .ok d s

/-- What there is to save for a file. -/
def contentOf (built : Act Built) : Act Document := do
  let b ← built
  match (Eval.saveModule b.top).run b.store with
  | .ok d _ => return d
  | .error f _ => throw f

theorem contentOf_some (h : Saved b d) (w : World) :
    contentOf (orUnbound (some b)) w = .ok d w := by
  obtain ⟨s, hs⟩ := h
  unfold contentOf orUnbound
  rw [bind_of_ok (x := pure b) rfl]
  simp only [EStateM.run, hs]
  rfl

theorem contentOf_none (w : World) : contentOf (orUnbound none) w = .error .unboundVariable w := rfl

/-- A turn of a run builds graphs and then saves what there is. -/
theorem runNext_eq (hformat : o.format = "json") (last : Option Built) (path : String) (w : World) :
    runNext o directory last path w =
      (do Act.save (outputOf directory path)
            (contentOf (orUnbound ((built? (build o path w)).or last)))
          return (built? (build o path w)).or last : Act (Option Built))
        (Act.worldAfter (build o path w)) := by
  have houtput (b : Option Built) : output o directory path (orUnbound b) =
      Act.save (outputOf directory path) (contentOf (orUnbound b)) := if_pos hformat
  unfold runNext
  simp only [houtput]
  rw [bind_apply, tryCatch_apply, bind_apply]
  cases build o path w with
  | ok b w₁ => rfl
  | error e w₁ => rfl

/-- The output of a file can be written to a place. -/
def Writable (w : World) (directory path : String) (place : List String) : Prop :=
  w.tree.locate (outputOf directory path) = .ok place ∧ w.tree.isDirectoryAt place = false

theorem Writable.of_directories (h : ∀ q, w'.tree.isDirectoryAt q = w.tree.isDirectoryAt q)
    (hw : Writable w directory path place) : Writable w' directory path place :=
  ⟨FileTree.locate_of_directories h hw.1, (h place).trans hw.2⟩

/-- A turn that has something to save. -/
theorem runNext_of_some (hformat : o.format = "json") (hplace : Writable w directory path place)
    (hb : (built? (build o path w)).or last = some b) (hd : Saved b d) :
    ∃ w', runNext o directory last path w = .ok (some b) w' ∧
      w.tree.Writes w'.tree place (.data d) := by
  have htree := (looks_build o path).tree w
  obtain ⟨u, hsave, hwrites⟩ := Act.save_run (w := Act.worldAfter (build o path w))
    (htree ▸ hplace.1) (htree ▸ hplace.2) (contentOf_some hd)
  refine ⟨{ Act.worldAfter (build o path w) with tree := u }, ?_, htree ▸ hwrites⟩
  rw [runNext_eq hformat, hb, bind_of_ok hsave]
  rfl

theorem runNext_of_none (hformat : o.format = "json") (hplace : Writable w directory path place)
    (hb : (built? (build o path w)).or last = none) :
    ∃ w', runNext o directory last path w = .error .unboundVariable w' ∧
      w.tree.Writes w'.tree place .empty := by
  have htree := (looks_build o path).tree w
  obtain ⟨u, hsave, hwrites⟩ := Act.save_fault (w := Act.worldAfter (build o path w))
    (htree ▸ hplace.1) (htree ▸ hplace.2) contentOf_none
  refine ⟨{ Act.worldAfter (build o path w) with tree := u }, ?_, htree ▸ hwrites⟩
  rw [runNext_eq hformat, hb, bind_of_error hsave]

/-- What building gives for each file, in the course of a run. -/
def results (o : Options) (directory : String) :
    List String → Option Built → World → List (String × Option Built)
  | [], _, _ => []
  | path :: rest, last, w =>
    let own := built? (build o path w)
    (path, own) :: results o directory rest (own.or last)
      (Act.worldAfter (runNext o directory last path w))

theorem results_paths (o : Options) (directory : String) (paths : List String)
    (last : Option Built) (w : World) :
    (results o directory paths last w).map Prod.fst = paths := by
  induction paths generalizing last w with
  | nil => rfl
  | cons path rest ih =>
    rw [results, map_cons, ih]

def lastBuilt (earlier : List (String × Option Built)) : Option Built :=
  (earlier.filterMap Prod.snd).getLast?

theorem lastBuilt_cons (e : String × Option Built) (earlier : List (String × Option Built))
    (last : Option Built) :
    (lastBuilt (e :: earlier)).or last = (lastBuilt earlier).or (e.2.or last) := by
  obtain ⟨path, own⟩ := e
  unfold lastBuilt
  cases own with
  | none => simp
  | some b =>
    rw [filterMap_cons]
    cases hrest : earlier.filterMap Prod.snd with
    | nil => rfl
    | cons c rest =>
      obtain ⟨x, hx⟩ : ∃ x, (c :: rest).getLast? = some x :=
        ⟨_, getLast?_eq_some_getLast (cons_ne_nil c rest)⟩
      dsimp only
      rw [getLast?_cons_cons, hx]
      rfl

/-- Files are handled to the end once graphs have been built, and every output that no later file
writes to has the graphs of its own file, or else the last ones before. -/
theorem foldlM_runNext (hformat : o.format = "json") {place : String → List String}
    (paths : List String) (last : Option Built) (w : World)
    (hplace : ∀ path ∈ paths, Writable w directory path (place path))
    (hsaved : ∀ e ∈ results o directory paths last w, ∀ b ∈ e.2, ∃ d, Saved b d)
    (hlast : ∀ b ∈ last, ∃ d, Saved b d)
    (hfirst : last = none → ∀ path own rest,
      results o directory paths last w = (path, own) :: rest → own ≠ none) :
    ∃ last' w', paths.foldlM (runNext o directory) last w = .ok last' w' ∧
      (∀ q, w'.tree.isDirectoryAt q = w.tree.isDirectoryAt q) ∧
      (∀ q, q ∉ paths.map place → w'.tree.file? q = w.tree.file? q) ∧
      ∀ earlier path own later, results o directory paths last w = earlier ++ (path, own) :: later →
          place path ∉ later.map (place ·.1) →
            ∃ b d, own.or ((lastBuilt earlier).or last) = some b ∧ Saved b d ∧
              w'.tree.file? (place path) = some (.data d) := by
  induction paths generalizing last w with
  | nil =>
    refine ⟨last, w, rfl, fun _ => rfl, fun _ _ => rfl, fun earlier path own later h => ?_⟩
    cases earlier <;> cases h
  | cons path rest ih =>
    rw [results] at hsaved hfirst
    have hown (b : Built) (hb : b ∈ (built? (build o path w)).or last) : ∃ d, Saved b d := by
      rcases Option.or_eq_some_iff.mp hb with hb | ⟨-, hb⟩
      · exact hsaved _ (.head _) b hb
      · exact hlast b hb
    -- a turn that fails still has graphs to save, unless it is the first one
    obtain ⟨b, hb⟩ : ∃ b, (built? (build o path w)).or last = some b := by
      rw [← Option.isSome_iff_exists, ← Option.ne_none_iff_isSome]
      intro hnone
      rw [Option.or_eq_none_iff] at hnone
      exact hfirst hnone.2 _ _ _ rfl hnone.1
    obtain ⟨d, hd⟩ := hown b hb
    obtain ⟨w₁, hrun, hwrites⟩ := runNext_of_some hformat (hplace path (.head _)) hb hd
    have hworld : Act.worldAfter (runNext o directory last path w) = w₁ := by rw [hrun]; rfl
    rw [hworld, hb] at hsaved
    obtain ⟨last', w₂, hrest, hdirectories, hothers, hfiles⟩ := ih (some b) w₁
      (fun p hp => (hplace p (.tail _ hp)).of_directories hwrites.directories)
      (fun e he => hsaved e (.tail _ he)) (fun b' hb' => Option.some.inj hb' ▸ ⟨d, hd⟩)
      (fun h => by cases h)
    refine ⟨last', w₂, ?_, fun q => (hdirectories q).trans (hwrites.directories q),
      fun q hq => ?_, fun earlier p own later heq hlater => ?_⟩
    · rw [foldlM_cons, bind_of_ok hrun]
      exact hrest
    · rw [map_cons, mem_cons, not_or] at hq
      rw [hothers q hq.2, hwrites.file, if_neg hq.1]
    · rw [results, hworld, hb] at heq
      cases earlier with
      | nil =>
        rw [nil_append, cons.injEq, Prod.mk.injEq] at heq
        obtain ⟨⟨rfl, rfl⟩, rfl⟩ := heq
        refine ⟨b, d, hb, hd, ?_⟩
        -- what this turn writes stays, since no later one writes to the same place
        have hunwritten : place path ∉ rest.map place := by
          have hpaths := congrArg (map place) (results_paths o directory rest (some b) w₁)
          rw [map_map] at hpaths
          exact hpaths ▸ hlater
        rw [hothers _ hunwritten, hwrites.file, if_pos rfl]
      | cons e earlier =>
        rw [cons_append, cons.injEq] at heq
        obtain ⟨rfl, heq⟩ := heq
        rw [lastBuilt_cons, hb]
        exact hfiles earlier p own later heq hlater

theorem runRepository_eq {paths : List String}
    (hpaths : w.tree.filesBelow o.repository ".py" = .ok paths) :
    runRepository o directory w = (do let _ ← paths.foldlM (runNext o directory) none) w := by
  have hlist : Act.programsBelow o.repository w = .ok paths w := by
    unfold Act.programsBelow
    rw [bind_of_ok (x := get) rfl, hpaths]
    rfl
  unfold runRepository
  rw [bind_of_ok hlist]

/-- Graphs of the files of a repository. When the graphs of the first file can be built, the run
ends, and the output of each file has its own graphs when they could be built, and else those of the
last file before it for which they could be. When those of the first file cannot be built, the run
stops and leaves an empty output. -/
theorem runRepository_saves {paths : List String} {place : String → List String}
    (hformat : o.format = "json") (hpaths : w.tree.filesBelow o.repository ".py" = .ok paths)
    (hplace : ∀ path ∈ paths, Writable w directory path (place path)) :
    ((∀ e ∈ results o directory paths none w, ∀ b ∈ e.2, ∃ d, Saved b d) →
      (∀ path rest, results o directory paths none w ≠ (path, none) :: rest) →
        ∃ w', runRepository o directory w = .ok () w' ∧ ∀ earlier path own later,
          results o directory paths none w = earlier ++ (path, own) :: later →
            place path ∉ later.map (place ·.1) →
              ∃ b d, own.or (lastBuilt earlier) = some b ∧ Saved b d ∧
                w'.tree.file? (place path) = some (.data d)) ∧
    ∀ path rest, results o directory paths none w = (path, none) :: rest →
      ∃ w', runRepository o directory w = .error .unboundVariable w' ∧
        w'.tree.file? (place path) = some .empty := by
  rw [runRepository_eq hpaths]
  constructor
  · intro hsaved hfirst
    obtain ⟨last', w', hrun, -, -, hfiles⟩ := foldlM_runNext hformat paths none w hplace hsaved
      (fun b hb => by cases hb) fun _ path own rest heq hown => hfirst path rest (hown ▸ heq)
    refine ⟨w', ?_, fun earlier path own later heq hlater => ?_⟩
    · rw [Fallible.bind_of_ok hrun]
      rfl
    · obtain ⟨b, d, hb, hd⟩ := hfiles earlier path own later heq hlater
      rw [Option.or_none] at hb
      exact ⟨b, d, hb, hd⟩
  · intro path rest heq
    cases paths with
    | nil => cases heq
    | cons first others =>
      rw [results, List.cons.injEq, Prod.mk.injEq] at heq
      obtain ⟨⟨rfl, hnone⟩, -⟩ := heq
      have hnone : (built? (build o first w)).or none = none := by rw [hnone]; rfl
      obtain ⟨w', hrun, hwrites⟩ := runNext_of_none hformat (hplace first (.head _)) hnone
      refine ⟨w', ?_, (hwrites.file _).trans (if_pos rfl)⟩
      rw [List.foldlM_cons, Fallible.bind_of_error (Fallible.bind_of_error hrun _)]

def reading (body : List Program.Stmt) : Contents :=
  .program [.function default "f" (.mk [] [.mk default "x" none] none [] [] none []) body [] none]

/-- Two files, of which the second has a loop that graphs cannot be built for. -/
def loopAfter : World where
  tree := { files := [
    (["r", "a.py"], reading [.return_ default (some (.name default "x" .load))]),
    (["r", "b.py"], reading [.while_ default (.name default "x" .load) [.other] []])] }

theorem filesBelow_loopAfter : loopAfter.tree.filesBelow "r" ".py" = .ok ["r/a.py", "r/b.py"] := by
  have hsorted : FileTree.sorted ["r/a.py", "r/b.py"] = ["r/a.py", "r/b.py"] := by
    unfold FileTree.sorted
    rw [mergeSort_of_pairwise (by decide)]
    rfl
  exact congrArg Except.ok hsorted

def canSave (b : Built) : Bool :=
  match Eval.saveModule b.top b.store with
  | .ok _ _ => true
  | .error _ _ => false

theorem exists_of_canSave (h : canSave b = true) : ∃ d, Saved b d := by
  unfold canSave at h
  split at h
  · rename_i d s hrun
    exact ⟨d, s, hrun⟩
  · cases h

theorem saved_unique {d' : Document} (h : Saved b d) (h' : Saved b d') : d = d' := by
  obtain ⟨s, hs⟩ := h
  obtain ⟨s', hs'⟩ := h'
  rw [hs, EStateM.Result.ok.injEq] at hs'
  exact hs'.1

theorem results_loopAfter : ∃ b d, Saved b d ∧
    results { repository := "r" } "." ["r/a.py", "r/b.py"] none loopAfter =
      [("r/a.py", some b), ("r/b.py", none)] := by
  have hshape : ((results { repository := "r" } "." ["r/a.py", "r/b.py"] none loopAfter).map
      fun e => (e.1, e.2.map canSave)) = [("r/a.py", some true), ("r/b.py", none)] := by
    decide +kernel
  generalize results { repository := "r" } "." ["r/a.py", "r/b.py"] none loopAfter = l at hshape ⊢
  rw [map_eq_cons_iff] at hshape
  obtain ⟨⟨p, own⟩, l, rfl, hfirst, hshape⟩ := hshape
  rw [map_eq_cons_iff] at hshape
  obtain ⟨⟨q, own'⟩, l, rfl, hsecond, hshape⟩ := hshape
  rw [map_eq_nil_iff] at hshape
  simp only [Prod.mk.injEq, Option.map_eq_some_iff, Option.map_eq_none_iff] at hfirst hsecond
  obtain ⟨rfl, b, rfl, hb⟩ := hfirst
  obtain ⟨rfl, rfl⟩ := hsecond
  obtain ⟨d, hd⟩ := exists_of_canSave hb
  exact ⟨b, d, hd, by rw [hshape]⟩

/-- The two outputs of a run whose second file fails. -/
def outputPlace (path : String) : List String :=
  if path = "r/a.py" then ["r_a_TDG.json"] else ["r_b_TDG.json"]

/-- A file that fails after another one is saved with the graphs of that one. -/
theorem runRepository_loopAfter : ∃ w' d,
    runRepository { repository := "r" } "." loopAfter = .ok () w' ∧
      w'.tree.file? ["r_a_TDG.json"] = some (.data d) ∧
      w'.tree.file? ["r_b_TDG.json"] = some (.data d) := by
  obtain ⟨b, d, hd, hresults⟩ := results_loopAfter
  have hplace : ∀ path ∈ ["r/a.py", "r/b.py"], Writable loopAfter "." path (outputPlace path) := by
    intro path hpath
    simp only [List.mem_cons, List.not_mem_nil, or_false] at hpath
    rcases hpath with rfl | rfl <;> exact ⟨rfl, rfl⟩
  have hrun := (runRepository_saves (o := { repository := "r" }) rfl filesBelow_loopAfter hplace).1
  rw [hresults] at hrun
  obtain ⟨w', hrun, hfiles⟩ := hrun
    (by
      intro e he b' hb'
      simp only [List.mem_cons, List.not_mem_nil, or_false] at he
      rcases he with rfl | rfl
      · exact Option.some.inj hb' ▸ ⟨d, hd⟩
      · cases hb')
    (by
      intro path rest h
      cases h)
  obtain ⟨b₁, d₁, hb₁, hd₁, hfile₁⟩ := hfiles [] _ _ _ rfl (by decide)
  obtain ⟨b₂, d₂, hb₂, hd₂, hfile₂⟩ := hfiles [_] _ _ _ rfl List.not_mem_nil
  obtain rfl : b = b₁ := Option.some.inj hb₁
  obtain rfl : b = b₂ := Option.some.inj hb₂
  obtain rfl := saved_unique hd hd₁
  obtain rfl := saved_unique hd hd₂
  exact ⟨w', d, hrun, hfile₁, hfile₂⟩

/-- A run ends, and a place has saved graphs of a name. -/
def savesNamed (place : List String) (name : String)
    (r : EStateM.Result Fault World (Option Built)) : Bool :=
  match r with
  | .ok _ w =>
    match w.tree.file? place with
    | some (.data d) => (d.field? "name").bind Document.text? == some name
    | _ => false
  | .error _ _ => false

theorem exists_of_savesNamed {name : String} {r : EStateM.Result Fault World (Option Built)}
    (h : savesNamed place name r = true) :
    ∃ b w' d, r = .ok b w' ∧ w'.tree.file? place = some (.data d) ∧
      (d.field? "name").bind Document.text? = some name := by
  unfold savesNamed at h
  split at h
  · rename_i b w'
    split at h
    · rename_i d hd
      exact ⟨b, w', d, rfl, hd, eq_of_beq h⟩
    · cases h
  · cases h

/-- There is an output for a file whose graphs cannot be built, and it is that of another file. -/
theorem runRepository_misfiles :
    ("r/b.py", none) ∈ results { repository := "r" } "." ["r/a.py", "r/b.py"] none loopAfter ∧
    ∃ w' d, runRepository { repository := "r" } "." loopAfter = .ok () w' ∧
      w'.tree.file? ["r_b_TDG.json"] = some (.data d) ∧
      (d.field? "name").bind Document.text? = some "r/a.py" := by
  obtain ⟨b, d, -, hresults⟩ := results_loopAfter
  have hsaves : savesNamed ["r_b_TDG.json"] "r/a.py" ((["r/a.py", "r/b.py"].foldlM
      (runNext { repository := "r" } ".") none : Act (Option Built)) loopAfter) = true := by
    decide +kernel
  obtain ⟨last, w', d, hrun, hfile, hname⟩ := exists_of_savesNamed hsaves
  refine ⟨hresults ▸ .tail _ (.head _), w', d, ?_, hfile, hname⟩
  rw [runRepository_eq filesBelow_loopAfter, Fallible.bind_of_ok hrun]
  rfl

end TypeFlow.Command.Graphs
