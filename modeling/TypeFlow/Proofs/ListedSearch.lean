import TypeFlow.Command.Discover
import TypeFlow.Proofs.RepositoryTypes
import TypeFlow.Proofs.Tables
import TypeFlow.Proofs.WrittenFiles

/-!
# Searching listed files

Each file that a ground truth lists is missing, gives its user types, runs out of time twice, or
stops with a fault. The first three do not concern the other files. A fault of one file stops the
search of all of them before anything is written.
-/

namespace TypeFlow

open Fallible

namespace Command

open UserType

namespace Act.Looks

theorem readProgram (path : String) : Looks (Act.readProgram path) :=
  get.bind fun _ => ofExcept _

theorem discoverInTime (path repository : String) (program : Program.Module) (validate : Bool) :
    Looks (Act.discoverInTime path repository program validate) := by
  unfold Act.discoverInTime
  refine (ofExcept _).bind fun source => ?_
  have hsearch := discover source.path repository program validate
  constructor
  · intro w
    rw [bind_of_ok (x := MonadState.get) rfl]
    cases hlate : w.timeouts with
    | zero => exact hsearch.tree w
    | succ n => rfl
  · intro w p hp
    rw [bind_of_ok (x := MonadState.get) rfl] at hp
    cases hlate : w.timeouts with
    | zero =>
      rw [hlate] at hp
      exact hsearch.sees w p hp
    | succ n =>
      rw [hlate] at hp
      exact .inl hp

end Act.Looks

namespace Discover

variable {listed : List (String × Verdict)}

/-- One search of a file, with or without looking types up. -/
def trial (file project : String) (validate : Bool) : Act Findings := do
  Act.discoverInTime file project (← Act.readProgram file) validate

theorem looks_trial (file project : String) (validate : Bool) :
    Act.Looks (trial file project validate) :=
  (Act.Looks.readProgram file).bind fun _ => .discoverInTime ..

/-- What becomes of a listed file. -/
inductive Verdict where
  | missing
  | found (f : Findings)
  /-- Both searches ran out of time. -/
  | late
  | failed

namespace Verdict

def isFailed : Verdict → Bool
  | failed => true
  | _ => false

def isFound : Verdict → Bool
  | found _ => true
  | _ => false

/-- The verdict of a search for which there is no second one. -/
def ofTrial : EStateM.Result Fault World Findings → Verdict
  | .ok f _ => found f
  | .error .timedOut _ => late
  | .error _ _ => failed

end Verdict

variable {directory : Option String} {w w' : World}

/-- What becomes of a listed file, and the world that is left. -/
def verdict (directory : Option String) (path : String) (w : World) : Verdict × World :=
  let file := inDirectory directory path
  let project := inDirectory directory (projectOf path)
  if w.tree.isFile file then
    match trial file project true w with
    | .error .timedOut w' =>
      let second := trial file project false w'
      (.ofTrial second, Act.worldAfter second)
    | first => (.ofTrial first, Act.worldAfter first)
  else (.missing, w)

theorem verdict_tree (directory : Option String) (path : String) (w : World) :
    (verdict directory path w).2.tree = w.tree := by
  unfold verdict
  dsimp only
  split
  · have hfirst := (looks_trial (inDirectory directory path)
      (inDirectory directory (projectOf path)) true).tree w
    split
    · rename_i hrun
      rw [hrun] at hfirst
      exact ((looks_trial ..).tree _).trans hfirst
    · exact hfirst
  · rfl

/-- How a search ends, given what becomes of the file. -/
def answer : Verdict × World → EStateM.Result Fault World (Option Findings)
  | (.found f, w) => .ok (some f) w
  | (.failed, w) => .error .unknownName w
  | (.missing, w) => .ok none w
  | (.late, w) => .ok none w

theorem findingsOfListed_eq (directory : Option String) (path : String) (w : World) :
    findingsOfListed directory path w = answer (verdict directory path w) := by
  unfold findingsOfListed verdict searchInTime trial
  rw [bind_of_ok (x := get) rfl]
  dsimp only
  split
  · -- two searches, the second only when the first ran out of time
    generalize (Act.readProgram (inDirectory directory path) >>= fun program =>
      Act.discoverInTime _ _ program true) = first
    generalize (Act.readProgram (inDirectory directory path) >>= fun program =>
      Act.discoverInTime _ _ program false) = second
    rw [bind_apply, tryCatch_apply, bind_apply, bind_apply]
    cases first w with
    | ok f w₁ => rfl
    | error e w₁ =>
      cases e
      case timedOut =>
        dsimp only
        rw [bind_apply, tryCatch_apply, bind_apply, bind_apply]
        cases second w₁ with
        | ok f w₂ => rfl
        | error e w₂ => cases e <;> rfl
      all_goals rfl
  · rfl

/-- How the search of a listed file ends. -/
def conclude (found : Table String Document) (path : String) :
    Verdict × World → EStateM.Result Fault World (Table String Document)
  | (.found f, w) => .ok (found.insert path f.describe) w
  | (.failed, w) => .error .unknownName w
  | (.missing, w) => .ok found w
  | (.late, w) => .ok found w

theorem searchListed_eq (directory : Option String) (found : Table String Document)
    (path : String) (w : World) :
    searchListed directory found (.text path) w =
      conclude found path (verdict directory path w) := by
  unfold searchListed
  have hpath : pathOf directory (.text path) = .ok path := rfl
  rw [bind_ofExcept hpath, bind_apply, findingsOfListed_eq]
  obtain ⟨v, w₁⟩ := verdict directory path w
  cases v <;> rfl

/-- What becomes of listed files, one after the other. -/
def verdicts (directory : Option String) : List String → World → List (String × Verdict)
  | [], _ => []
  | path :: rest, w =>
    let v := verdict directory path w
    (path, v.1) :: verdicts directory rest v.2

/-- A table has the results of the searches that succeeded, and what it had before. -/
structure Collects (listed : List (String × Verdict)) (before found : Table String Document) :
    Prop where
  nodup : before.keys.Nodup → found.keys.Nodup
  entry : ∀ p d, found.get? p = some d →
    before.get? p = some d ∨ ∃ f, (p, .found f) ∈ listed ∧ d = f.describe
  kept : ∀ p, before.contains p = true → found.contains p = true
  added : ∀ p f, (p, .found f) ∈ listed → found.contains p = true

/-- One more file whose search does not stop the others. -/
theorem Collects.step {path : String} {v : Verdict} {before found found' : Table String Document}
    {w : World} (hstep : conclude before path (v, w) = .ok found w')
    (h : Collects listed found found') : Collects ((path, v) :: listed) before found' := by
  cases v with
  | missing | late =>
    cases hstep
    refine ⟨h.nodup, fun p d hd => ?_, h.kept, fun p f hf => ?_⟩
    · rcases h.entry p d hd with hd | ⟨f, hf, hd⟩
      · exact .inl hd
      · exact .inr ⟨f, .tail _ hf, hd⟩
    · cases hf with
      | tail _ hf => exact h.added p f hf
  | failed => cases hstep
  | found f =>
    cases hstep
    refine ⟨fun hb => h.nodup (Table.nodup_insert hb path _), fun p d hd => ?_, fun p hp => ?_,
      fun p g hg => ?_⟩
    · rcases h.entry p d hd with hd | ⟨g, hg, hd⟩
      · rw [Table.get?_insert] at hd
        split at hd
        · rename_i hp
          exact .inr ⟨f, hp ▸ .head _, (Option.some.inj hd).symm⟩
        · exact .inl hd
      · exact .inr ⟨g, .tail _ hg, hd⟩
    · refine h.kept p ?_
      rw [Table.contains, Table.get?_insert]
      split
      · rfl
      · exact hp
    · cases hg with
      | head =>
        refine h.kept path ?_
        rw [Table.contains, Table.get?_insert, if_pos rfl]
        rfl
      | tail _ hg => exact h.added p g hg

/-- The search of listed files ends when none of them fails, and stops with a fault otherwise.
Either way no file changes. -/
theorem foldlM_searchListed (directory : Option String) (paths : List String)
    (before : Table String Document) (w : World) :
    (((verdicts directory paths w).all fun v => !v.2.isFailed) = true → ∃ found w',
      (paths.map Document.text).foldlM (searchListed directory) before w = .ok found w' ∧
        w'.tree = w.tree ∧ Collects (verdicts directory paths w) before found) ∧
    (((verdicts directory paths w).all fun v => !v.2.isFailed) = false → ∃ w',
      (paths.map Document.text).foldlM (searchListed directory) before w =
        .error .unknownName w' ∧ w'.tree = w.tree) := by
  induction paths generalizing before w with
  | nil =>
    refine ⟨fun _ => ⟨before, w, rfl, rfl, id, fun _ _ => .inl, fun _ => id, ?_⟩, fun h => ?_⟩
    · exact fun p f hf => absurd hf List.not_mem_nil
    · cases h
  | cons path rest ih =>
    have htree := verdict_tree directory path w
    have hstep := searchListed_eq directory before path w
    rw [verdicts, List.map_cons, List.foldlM_cons]
    generalize verdict directory path w = r at htree hstep ⊢
    obtain ⟨v, w₁⟩ := r
    dsimp only at htree hstep ⊢
    rw [List.all_cons]
    cases hend : conclude before path (v, w₁) with
    | error e w₂ =>
      -- a missing or late file is passed over, so only a failed search can stop the loop
      have hfailed : v = .failed ∧ e = .unknownName ∧ w₂ = w₁ := by
        cases v with
        | failed =>
          cases hend
          exact ⟨rfl, rfl, rfl⟩
        | missing | late | found f => cases hend
      obtain ⟨rfl, rfl, rfl⟩ := hfailed
      refine ⟨fun h => ?_, fun _ => ⟨w₂, ?_, htree⟩⟩
      · cases h
      · exact bind_of_error (hstep.trans hend) _
    | ok found w₂ =>
      have hgoes : v.isFailed = false ∧ w₂ = w₁ := by
        cases v with
        | failed => cases hend
        | missing | late | found f =>
          cases hend
          exact ⟨rfl, rfl⟩
      obtain ⟨hv, rfl⟩ := hgoes
      rw [hv, Bool.not_false, Bool.true_and, bind_of_ok (hstep.trans hend)]
      obtain ⟨hok, herror⟩ := ih found w₂
      refine ⟨fun h => ?_, fun h => ?_⟩
      · obtain ⟨found', w₃, hrun, htree', hcollects⟩ := hok h
        exact ⟨found', w₃, hrun, htree'.trans htree, hcollects.step hend⟩
      · obtain ⟨w₃, hrun, htree'⟩ := herror h
        exact ⟨w₃, hrun, htree'.trans htree⟩

/-- Searches of listed files, and faults among them. When no listed file fails, the search ends, and
the data that it writes have one entry for each file whose search succeeded, with its result, and no
other. When one fails, the search of all files stops with a fault and nothing is written. -/
theorem searchGroundTruth_collects {o : Options} {output groundTruth : String} {items : Document}
    {paths place : List String} (hworkers : 1 ≤ o.workers)
    (hdata : w.tree.readData groundTruth = .ok items)
    (hitems : items.parts = .ok (paths.map .text))
    (hplace : w.tree.locate (FileTree.withSlash output ++ "USERTYPES.json") = .ok place)
    (hfree : w.tree.isDirectoryAt place = false) :
    (((verdicts (nonEmpty? o.repository) paths w).all fun v => !v.2.isFailed) = true →
      ∃ w', ∃ found : Table String Document,
        searchGroundTruth o output groundTruth w = .ok () w' ∧
        w.tree.Writes w'.tree place (.data (.record found.entries)) ∧ found.keys.Nodup ∧
        (∀ p, found.contains p = true ↔
          ∃ f, (p, .found f) ∈ verdicts (nonEmpty? o.repository) paths w) ∧
        ∀ p d, found.get? p = some d →
          ∃ f, (p, .found f) ∈ verdicts (nonEmpty? o.repository) paths w ∧ d = f.describe) ∧
    (((verdicts (nonEmpty? o.repository) paths w).all fun v => !v.2.isFailed) = false →
      ∃ w', searchGroundTruth o output groundTruth w = .error .unknownName w' ∧
        w'.tree = w.tree) := by
  have hread : Act.readData groundTruth w = .ok items w := by
    unfold Act.readData
    rw [Fallible.bind_of_ok (x := get) rfl, hdata]
    rfl
  obtain ⟨hok, herror⟩ := foldlM_searchListed (nonEmpty? o.repository) paths {} w
  unfold searchGroundTruth
  rw [Fallible.bind_of_ok hread, Fallible.bind_ofExcept hitems, if_neg (by omega)]
  dsimp only
  constructor
  · intro hall
    obtain ⟨found, w₁, hrun, htree, hcollects⟩ := hok hall
    have hcontent (w' : World) : (pure (.record found.entries) : Act Document) w' =
        .ok (.record found.entries) w' := rfl
    obtain ⟨u, hsave, hwrites⟩ :=
      Act.save_run (w := w₁) (htree ▸ hplace) (htree ▸ hfree) hcontent
    refine ⟨{ w₁ with tree := u }, found, ?_, htree ▸ hwrites, hcollects.nodup List.nodup_nil,
      fun p => ⟨fun hp => ?_, ?_⟩, fun p d hd => ?_⟩
    · rw [Fallible.bind_of_ok hrun]
      exact hsave
    · obtain ⟨d, hd⟩ := Option.isSome_iff_exists.mp hp
      rcases hcollects.entry p d hd with hd | ⟨f, hf, -⟩
      · cases hd
      · exact ⟨f, hf⟩
    · rintro ⟨f, hf⟩
      exact hcollects.added p f hf
    · rcases hcollects.entry p d hd with hd | hf
      · cases hd
      · exact hf
  · intro hfailed
    obtain ⟨w₁, hrun, htree⟩ := herror hfailed
    exact ⟨w₁, Fallible.bind_of_error hrun _, htree⟩

theorem any_isFound_iff {p : String} :
    (listed.any fun v => v.1 == p && v.2.isFound) = true ↔ ∃ f, (p, .found f) ∈ listed := by
  rw [List.any_eq_true]
  constructor
  · rintro ⟨⟨q, v⟩, hv, h⟩
    obtain ⟨hq, hfound⟩ := Bool.and_eq_true_iff.mp h
    obtain rfl : q = p := eq_of_beq hq
    cases v with
    | found f => exact ⟨f, hv⟩
    | missing | late | failed => cases hfound
  · rintro ⟨f, hf⟩
    exact ⟨_, hf, by simp [Verdict.isFound]⟩

/-- Listed files: two with a class, of which the first is given bases, and one that is missing. -/
def listing (bases : List Program.Expr) : World where
  tree := { files := [
    (["g.json"], .data (.list [.text "r/o/a.py", .text "r/o/b.py", .text "r/o/c.py"])),
    (["r", "o", "a.py"], .program [.class_ default "A" bases [] [.other] []]),
    (["r", "o", "b.py"], .program [.class_ default "B" [] [] [.other] []])] }

/-- A missing file does not concern the others. -/
theorem searchGroundTruth_missing : ∃ w', ∃ found : Table String Document,
    searchGroundTruth {} "." "g.json" (listing []) = .ok () w' ∧
      w'.tree.file? ["USERTYPES.json"] = some (.data (.record found.entries)) ∧
      found.keys.Nodup ∧ found.contains "r/o/a.py" = true ∧ found.contains "r/o/b.py" = true ∧
      found.contains "r/o/c.py" = false := by
  have hall : ((verdicts none ["r/o/a.py", "r/o/b.py", "r/o/c.py"] (listing [])).all
      fun v => !v.2.isFailed) = true := by decide +kernel
  have hfound : (["r/o/a.py", "r/o/b.py", "r/o/c.py"].map fun p =>
      (verdicts none ["r/o/a.py", "r/o/b.py", "r/o/c.py"] (listing [])).any
        fun v => v.1 == p && v.2.isFound) = [true, true, false] := by decide +kernel
  simp only [List.map_cons, List.map_nil, List.cons.injEq, and_true] at hfound
  obtain ⟨w', found, hrun, hwrites, hnodup, hkeys, -⟩ := (@searchGroundTruth_collects
    (listing []) {} "." "g.json" _ ["r/o/a.py", "r/o/b.py", "r/o/c.py"] ["USERTYPES.json"]
    (by decide) rfl rfl rfl rfl).1 hall
  refine ⟨w', found, hrun, hwrites.file _, hnodup, ?_, ?_, ?_⟩
  · exact (hkeys _).mpr (any_isFound_iff.mp hfound.1)
  · exact (hkeys _).mpr (any_isFound_iff.mp hfound.2.1)
  · rw [← Bool.not_eq_true, hkeys]
    exact fun h => Bool.false_ne_true (hfound.2.2.symm.trans (any_isFound_iff.mpr h))

/-- A class whose base is an attribute of a number with an imaginary part. -/
def brokenBase : List Program.Expr :=
  [.attribute default (.constant default .complex) "x" .load]

/-- A search stops because its faults cannot be reported, and leaves no file at a place. -/
def stopsWithout (place : List String) (r : EStateM.Result Fault World Unit) : Bool :=
  match r with
  | .error e w => e == .unknownName && (w.tree.file? place).isNone
  | .ok _ _ => false

theorem exists_of_stopsWithout {place : List String} {r : EStateM.Result Fault World Unit}
    (h : stopsWithout place r = true) :
    ∃ w', r = .error .unknownName w' ∧ w'.tree.file? place = none := by
  cases r with
  | ok u w' => cases h
  | error e w' =>
    obtain ⟨he, hfile⟩ := Bool.and_eq_true_iff.mp h
    obtain rfl : e = .unknownName := eq_of_beq he
    exact ⟨w', rfl, Option.isNone_iff_eq_none.mp hfile⟩

/-- The user types of one file are found, but none are written, since the search of another file
fails. -/
theorem searchGroundTruth_broken :
    (∃ f, ("r/o/b.py", .found f) ∈
      verdicts none ["r/o/a.py", "r/o/b.py", "r/o/c.py"] (listing brokenBase)) ∧
    ∃ w', searchGroundTruth {} "." "g.json" (listing brokenBase) = .error .unknownName w' ∧
      w'.tree.file? ["USERTYPES.json"] = none := by
  have hfound : ((verdicts none ["r/o/a.py", "r/o/b.py", "r/o/c.py"] (listing brokenBase)).any
      fun v => v.1 == "r/o/b.py" && v.2.isFound) = true := by decide +kernel
  have hstops : stopsWithout ["USERTYPES.json"]
      (searchGroundTruth {} "." "g.json" (listing brokenBase)) = true := by decide +kernel
  exact ⟨any_isFound_iff.mp hfound, exists_of_stopsWithout hstops⟩

end Discover
end Command
end TypeFlow
