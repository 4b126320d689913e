import TypeFlow.Proofs.Searching
import TypeFlow.Score

/-!
# What a file is scored by

Scoring begins once the types of a file have been inferred. An annotation is compared with the
first slot of its name, so it is compared with the slot of its name and category wherever all slots
of that name have that category. Without an entry for the file among the user types nothing is
scored, since the description that stands for a missing one does not list unrecognized types.
-/

namespace TypeFlow.Score

open Document

variable {tree : FileTree} {t : Task} {truth : Truth} {reports : Reports} {α β : Type} {l : List α}
  {users : Document}

theorem foldlM_congr {f g : β → α → Eval β} (h : ∀ a ∈ l, ∀ b, f b a = g b a) (b : β) :
    l.foldlM f b = l.foldlM g b := by
  induction l generalizing b with
  | nil => rfl
  | cons a l ih =>
    rw [List.foldlM_cons, List.foldlM_cons, h a (.head _) b]
    exact congrArg _ (funext (ih fun a ha => h a (.tail _ ha)))

theorem mapM_congr {f g : α → Eval β} (h : ∀ a ∈ l, f a = g a) : l.mapM f = l.mapM g := by
  induction l with
  | nil => rfl
  | cons a l ih =>
    rw [List.mapM_cons, List.mapM_cons, h a (.head _), ih fun a ha => h a (.tail _ ha)]

/-! ## The slot of an annotation -/

def isNamed (a : Document) (slot : Slot) : Bool :=
  (a.field? "name").any (text slot.name == ·)

/-- An annotation has the category of a slot. -/
def isFor (a : Document) (slot : Slot) : Bool :=
  (a.field? "category").any (text slot.category == ·)

/-- What was inferred for the name and the category of an annotation. -/
def foundExactly (reports : Reports) (place : String) (a : Document) :
    Except Fault (Option (List Entry)) := do
  match reports.get? place with
  | some report => do
    let name ← a.field "name"
    return (report.find? fun (slot, _) => text slot.name == name && isFor a slot).map (·.2)
  | none => return none

section

variable (found : String → Document → Except Fault (Option (List Entry))) (place : String)

/-- The verdict on an annotation by what a rule finds for it; it is missing if that is nothing. -/
def verdictBy (a : Document) : Eval Verdict := do
  match ← ofExcept (found place a) with
  | some types => do judge types (← trueTypes (← ofExcept (a.field "type")))
  | none => return .missing

/-- Score an annotation by what a rule finds for it. -/
def scoreOneBy (tally : Tally) (a : Document) : Eval Tally := do
  let verdict ← verdictBy found place a
  let category ← ofExcept (a.field "category")
  ofExcept ({ tally with total := tally.total + 1 }.add verdict category)

/-- Score all annotations of a file by what a rule finds for them. -/
def talliesBy (truth : Truth) : Eval (List (String × Tally)) :=
  truth.mapM fun (kind, places) => do
    return (kind, ← places.entries.foldlM
      (fun tally place => do (← ofExcept place.2.parts).foldlM (scoreOneBy found place.1) tally) {})

end

/-- In every report, the slots that have the name of an annotation have its category. -/
def Unambiguous (reports : Reports) (truth : Truth) : Prop :=
  ∀ kind ∈ truth, ∀ place ∈ kind.2.entries, ∀ a ∈ place.2.parts.toOption.getD [],
    ∀ e ∈ (reports.get? place.1).getD [], isNamed a e.1 → isFor a e.1

instance (reports : Reports) (truth : Truth) : Decidable (Unambiguous reports truth) := by
  unfold Unambiguous
  infer_instance

/-- The slot of a name is the slot of the name and the category where no other category has it. -/
theorem foundFor_eq {place : String} {a : Document}
    (h : ∀ e ∈ (reports.get? place).getD [], isNamed a e.1 → isFor a e.1) :
    foundFor reports place a = foundExactly reports place a := by
  unfold foundFor foundExactly
  cases hreport : reports.get? place with
  | none => rfl
  | some report =>
    cases hname : a.field "name" with
    | error => rfl
    | ok name =>
      have hfield : a.field? "name" = some name := by
        cases a <;> simp only [field, reduceCtorEq] at hname
        split at hname <;> simp_all [field?]
      have hfind (l : Report Entry) (hl : ∀ e ∈ l, isNamed a e.1 → isFor a e.1) :
          (l.find? fun (slot, _) => text slot.name == name) =
            l.find? fun (slot, _) => text slot.name == name && isFor a slot := by
        induction l with
        | nil => rfl
        | cons e l ih =>
          have hrest := ih fun e he => hl e (.tail _ he)
          have hfirst := hl e (.head _)
          rw [isNamed, hfield, Option.any_some] at hfirst
          rw [List.find?_cons, List.find?_cons, hrest]
          cases hsame : text e.1.name == name
          · simp [hsame]
          · simp [hsame, hfirst hsame]
      rw [hreport] at h
      exact congrArg (fun o => Except.ok (Option.map Prod.snd o)) (hfind report h)

theorem talliesBy_exactly (h : Unambiguous reports truth) :
    talliesBy (foundFor reports) truth = talliesBy (foundExactly reports) truth := by
  refine mapM_congr fun kind hkind =>
    congrArg (· >>= _) (foldlM_congr (fun place hplace tally => ?_) _)
  cases hparts : place.2.parts with
  | error => rfl
  | ok annotations =>
    refine foldlM_congr (fun a ha tally => ?_) tally
    have hfound := h kind hkind place hplace a (by rw [hparts]; exact ha)
    rw [scoreOneBy, scoreOneBy, verdictBy, verdictBy, foundFor_eq hfound]

/-! ## The beginning of a run -/

/-- Infer the types of a file. There are none if it has no graph. -/
def inferFile (t : Task) (truth : Truth) (recommendations users : Document)
    (program : Program.Module) : Eval (Option Inferred) := do
  match ← orNothing (graphOf t users program) with
  | none => return none
  | some top => do
    inferTop t recommendations users top
    let i ← Inferred.add {} Eval.moduleReportKey top
    drawFor t top
    orNothing
      (inferPlaces t recommendations users (truth.flatMap fun (_, places) => places.keys) top i)

theorem scoreProgram_eq (t : Task) (truth : Truth) (recommendations users : Document)
    (program : Program.Module) :
    scoreProgram t truth recommendations users program = (do
      match ← inferFile t truth recommendations users program with
      | none => return none
      | some i => do
        let tallies ← talliesBy (foundFor i.types) truth
        return some { tallies, reports := i.shown }) := by
  unfold scoreProgram inferFile
  rw [bind_assoc]
  refine bind_congr fun top => ?_
  cases top with
  | none => rfl
  | some top =>
    simp only [bind_assoc]
    refine bind_congr fun _ => bind_congr fun i => bind_congr fun _ => bind_congr fun o => ?_
    cases o with
    | none => rfl
    | some i => exact congrArg (· >>= _) (mapM_congr fun _ _ => rfl)

def Task.groundTruth (tree : FileTree) (t : Task) : Except Fault Document :=
  if t.truth == .null then tree.readData t.truthFile else pure t.truth

/-- Scoring a file against a ground truth. -/
def scoreAgainst (tree : FileTree) (t : Task) (all : Document) : Except Fault (Option Outcome) := do
  let truth ← truthOf all t.fileName
  if truth.isEmpty || !tree.hasPath t.path then return none
  let program ← tree.readProgram t.path
  let users ← userTypesFor tree t
  let recommendations ← recommendationsFor t
  (scoreProgram t truth recommendations users program).compute

theorem scoreFile_eq_bind : scoreFile tree t = t.groundTruth tree >>= scoreAgainst tree t := by
  unfold scoreFile Task.groundTruth
  split <;> rfl

/-- What a task reads before types are inferred: the annotations and the program of its file and
the recommendations for it. -/
def opened (tree : FileTree) (t : Task) :
    Except Fault (Option (Truth × Program.Module × Document)) := do
  let all ← if t.truth == .null then tree.readData t.truthFile else pure t.truth
  let truth ← truthOf all t.fileName
  if truth.isEmpty || !tree.hasPath t.path then return none
  let program ← tree.readProgram t.path
  return some (truth, program, ← recommendationsFor t)

theorem scoreFile_eq (husers : userTypesFor tree t = .ok users) : scoreFile tree t = (do
      match ← opened tree t with
      | none => return none
      | some (truth, program, recommendations) =>
        (scoreProgram t truth recommendations users program).compute) := by
  have hrest (all : Document) : scoreAgainst tree t all = (do
      match ← (do
        let truth ← truthOf all t.fileName
        if truth.isEmpty || !tree.hasPath t.path then return none
        let program ← tree.readProgram t.path
        return some (truth, program, ← recommendationsFor t) : Except Fault _) with
      | none => return none
      | some (truth, program, recommendations) =>
        (scoreProgram t truth recommendations users program).compute) := by
    rw [scoreAgainst, bind_assoc]
    refine bind_congr fun truth => ?_
    split
    · rfl
    · rw [husers, bind_assoc]
      refine bind_congr fun program => ?_
      rw [bind_assoc]
      rfl
  unfold scoreFile opened
  split
  · rw [bind_assoc]
    exact bind_congr hrest
  · exact hrest t.truth

/-- Where scoring is reached and the name of every annotation belongs to slots of its category
only, each annotation is compared with the slot of its name and category, and is missing if there
is none. -/
theorem scoreFile_compares_own_slots {program : Program.Module} {users recommendations : Document}
    {i : Inferred} {s : Store}
    (hopened : opened tree t = .ok (some (truth, program, recommendations)))
    (husers : userTypesFor tree t = .ok users)
    (hinfer : inferFile t truth recommendations users program {} = .ok (some i) s)
    (hclear : Unambiguous i.types truth) :
    scoreFile tree t = match talliesBy (foundExactly i.types) truth s with
      | .ok tallies _ => .ok (some { tallies, reports := i.shown })
      | .error f _ => .error f := by
  have hscore : scoreProgram t truth recommendations users program {} = (do
      let tallies ← talliesBy (foundExactly i.types) truth
      return some { tallies, reports := i.shown } : Eval (Option Outcome)) s := by
    rw [scoreProgram_eq, ← talliesBy_exactly hclear]
    exact Fallible.bind_of_ok hinfer _
  have hfile : scoreFile tree t = (scoreProgram t truth recommendations users program).compute := by
    rw [scoreFile_eq husers, hopened]
    rfl
  rw [hfile, Eval.compute, EStateM.run, hscore, Fallible.bind_apply]
  cases talliesBy (foundExactly i.types) truth s <;> rfl

/-- What a task infers before scoring: its annotations, the types, and the store with them. -/
def beforeScoring (tree : FileTree) (t : Task) : Option (Truth × Inferred × Store) :=
  match opened tree t, userTypesFor tree t with
  | .ok (some (truth, program, recommendations)), .ok users =>
    match inferFile t truth recommendations users program {} with
    | .ok (some i) s => some (truth, i, s)
    | _ => none
  | _, _ => none

theorem exists_of_beforeScoring {i : Inferred} {s : Store}
    (h : beforeScoring tree t = some (truth, i, s)) : ∃ program users recommendations,
      opened tree t = .ok (some (truth, program, recommendations)) ∧
      userTypesFor tree t = .ok users ∧
      inferFile t truth recommendations users program {} = .ok (some i) s := by
  unfold beforeScoring at h
  split at h
  · rename_i truth' program recommendations users hopened husers
    split at h
    · rename_i i' s' hinfer
      cases h
      exact ⟨program, users, recommendations, hopened, husers, hinfer⟩
    · cases h
  · cases h

/-- A function with an argument that assigns a number to a variable. -/
def assigningTo (name : String) : FileTree where
  files := [(["a.py"], .program [.function default "f"
    (.mk [] [.mk default "x" none] none [] [] none [])
    [.assign default [.name default name .store] (.constant default .int)] [] none])]

/-- An annotation by its category, name and type. -/
def stated (category name type : String) : Document :=
  .record [("category", .text category), ("name", .text name), ("type", .text type)]

/-- A description that lists no type of any kind, as a search that finds none writes it. -/
def noneFound : Document :=
  .record [("direct", .list []), ("indirect", .list []), ("unrecognized", .list []),
    ("init", .list []), ("num", .int 0), ("module", .list [.text "a"])]

/-- Score an annotation of the function. -/
def scoring (a : Document) : Task where
  fileName := "a.py"
  truth := .record [("simple", .record [("a.py", .record [("global", .record
    [("f", .record [("annotations", .list [a])])])])])]
  userTypes := .record [("a.py", noneFound)]

/-- A variable with a name of its own is compared with its slot. -/
theorem scoreFile_ownName : ∃ truth i s,
    beforeScoring (assigningTo "y") (scoring (stated "local" "y" "int")) = some (truth, i, s) ∧
    Unambiguous i.types truth ∧
    scoreFile (assigningTo "y") (scoring (stated "local" "y" "int")) =
      match talliesBy (foundExactly i.types) truth s with
      | .ok tallies _ => .ok (some { tallies, reports := i.shown })
      | .error f _ => .error f := by
  have hcheck : (beforeScoring (assigningTo "y") (scoring (stated "local" "y" "int"))).any
      (fun b => decide (Unambiguous b.2.1.types b.1)) = true := by decide +kernel
  obtain ⟨⟨truth, i, s⟩, hbefore, hclear⟩ := (Option.any_eq_true _ _).mp hcheck
  obtain ⟨program, users, recommendations, hopened, husers, hinfer⟩ :=
    exists_of_beforeScoring hbefore
  have hclear := of_decide_eq_true hclear
  exact ⟨truth, i, s, hbefore, hclear, scoreFile_compares_own_slots hopened husers hinfer hclear⟩

/-- How many types a rule finds for an annotation. -/
def countFound (found : Except Fault (Option (List Entry))) : Option Nat :=
  found.toOption.bind fun types => types.map List.length

/-- An annotation of a variable that has the name of the argument is compared with the argument,
for which nothing was inferred, although the variable has a slot with its type. -/
theorem foundFor_sharedName :
    let a := stated "local" "x" "int"
    ∃ truth i s, beforeScoring (assigningTo "x") (scoring a) = some (truth, i, s) ∧
      countFound (foundFor i.types "f@global" a) = some 0 ∧
      countFound (foundExactly i.types "f@global" a) = some 1 := by
  intro a
  have hcheck : (beforeScoring (assigningTo "x") (scoring a)).any (fun b => decide
      (countFound (foundFor b.2.1.types "f@global" a) = some 0 ∧
        countFound (foundExactly b.2.1.types "f@global" a) = some 1)) = true := by decide +kernel
  obtain ⟨⟨truth, i, s⟩, hbefore, hcount⟩ := (Option.any_eq_true _ _).mp hcheck
  exact ⟨truth, i, s, hbefore, of_decide_eq_true hcount⟩

/-! ## Missing user types -/

/-- The user types that come with a task, by file. -/
def Task.listing (tree : FileTree) (t : Task) : Except Fault Document :=
  match t.userTypes with
  | .record fields => .ok (.record fields)
  | .text path => tree.readData path
  | _ => .ok (.record [])

/-- A task with a description of the user types of its file. -/
def Task.withUserTypes (t : Task) (users : Document) : Task :=
  { t with userTypes := .record [(t.fileName, users)] }

/-- A description that lists no type of any kind, and modules. -/
structure ListsNone (users modules : Document) : Prop where
  kinds : ∀ kind ∈ ["direct", "indirect", "unrecognized", "init"], users.field kind = .ok (.list [])
  modules_eq : users.field "module" = .ok modules

/-- The description that stands for a missing one, with the kind of types that it leaves out. -/
def noTypesOfAnyKind : Document :=
  .record [("direct", .list []), ("indirect", .list []), ("init", .list []), ("num", .int 0),
    ("module", .list [.text "a"]), ("unrecognized", .list [])]

theorem userTypesFor_missing {all : Document} (hall : t.listing tree = .ok all)
    (hmissing : all.holds t.fileName = .ok false) : userTypesFor tree t = .ok noUserTypes := by
  have hin : userTypesIn all t.fileName = .ok noUserTypes := by
    rw [userTypesIn, hmissing]
    rfl
  unfold userTypesFor
  cases husers : t.userTypes with
  | record fields =>
    rw [Task.listing, husers] at hall
    rw [← hin, ← Except.ok.inj hall]
  | text path =>
    rw [Task.listing, husers] at hall
    change (tree.readData path >>= fun all => userTypesIn all t.fileName) = _
    rw [show tree.readData path = .ok all from hall]
    exact hin
  | _ => rfl

theorem userTypesFor_withUserTypes (tree : FileTree) (t : Task) (users : Document) :
    userTypesFor tree (t.withUserTypes users) = .ok users := by
  simp [userTypesFor, Task.withUserTypes, userTypesIn, holds, field, bind, Except.bind]

theorem ListsNone.names {modules : Document} (h : ListsNone users modules) :
    UserType.names users = .ok [] := by
  simp [UserType.names, h.kinds, UserType.addImported, UserType.addDefined, parts, bind,
    Except.bind, pure, Except.pure]

theorem scoreProgram_congr {users' : Document}
    (hnames : UserType.names users = UserType.names users')
    (hmodules : users.field "module" = users'.field "module") (recommendations : Document)
    (program : Program.Module) :
    scoreProgram t truth recommendations users program =
      scoreProgram t truth recommendations users' program := by
  unfold scoreProgram graphOf inferTop inferPlaces inferFunction
  rw [hnames, hmodules]

theorem scoreProgram_unnamed {f : Fault} (h : UserType.names users = .error f)
    (recommendations : Document) (program : Program.Module) :
    scoreProgram t truth recommendations users program = pure none := by
  unfold scoreProgram orNothing graphOf
  rw [h]
  rfl

/-- Without an entry for its file among the user types, a task scores nothing and fails only as it
would with an entry. An entry without types counts as the description for missing ones would if
that listed every kind of types. -/
theorem scoreFile_without_entry {all users modules : Document} (hall : t.listing tree = .ok all)
    (hmissing : all.holds t.fileName = .ok false) (husers : ListsNone users modules)
    (hmodules : noUserTypes.field "module" = .ok modules) :
    (scoreFile tree t = .ok none ∨ ∃ f, scoreFile tree t = .error f ∧
      scoreFile tree (t.withUserTypes users) = .error f) ∧
    scoreFile tree (t.withUserTypes users) = scoreFile tree (t.withUserTypes noTypesOfAnyKind) := by
  have hnone : ListsNone noTypesOfAnyKind modules :=
    ⟨by simp [noTypesOfAnyKind, Document.field, List.lookup_cons], hmodules⟩
  have hunnamed : UserType.names noUserTypes = .error .missingKey := rfl
  rw [scoreFile_eq (userTypesFor_missing hall hmissing),
    scoreFile_eq (userTypesFor_withUserTypes tree t users),
    scoreFile_eq (userTypesFor_withUserTypes tree t noTypesOfAnyKind),
    show opened tree (t.withUserTypes users) = opened tree t from rfl,
    show opened tree (t.withUserTypes noTypesOfAnyKind) = opened tree t from rfl]
  constructor
  · cases opened tree t with
    | error f => exact .inr ⟨f, rfl, rfl⟩
    | ok o =>
      left
      cases o with
      | none => rfl
      | some given =>
        change (scoreProgram t given.1 given.2.2 noUserTypes given.2.1).compute = .ok none
        rw [scoreProgram_unnamed hunnamed]
        rfl
  · refine bind_congr fun o => ?_
    cases o with
    | none => rfl
    | some given =>
      exact congrArg Eval.compute (scoreProgram_congr (husers.names.trans hnone.names.symm)
        (husers.modules_eq.trans hnone.modules_eq.symm) _ _)

/-- A task that comes without user types scores nothing. -/
theorem scoreFile_unlisted :
    let t := { scoring (stated "local" "z" "int") with userTypes := .record [] }
    (scoreFile (assigningTo "y") t = .ok none ∨ ∃ f, scoreFile (assigningTo "y") t = .error f ∧
      scoreFile (assigningTo "y") (t.withUserTypes noneFound) = .error f) ∧
    scoreFile (assigningTo "y") (t.withUserTypes noneFound) =
      scoreFile (assigningTo "y") (t.withUserTypes noTypesOfAnyKind) := by
  intro t
  have hnone : ListsNone noneFound (.list [.text "a"]) :=
    ⟨by simp [noneFound, Document.field, List.lookup_cons], rfl⟩
  exact scoreFile_without_entry rfl rfl hnone rfl

/-- An annotation is not counted at all without an entry for its file, and with an entry that has
no types it is. -/
theorem scoreFile_entry_matters :
    let t := scoring (stated "local" "z" "int")
    let counts (t : Task) :=
      (scoreFile (assigningTo "y") t).toOption.map (Option.map Outcome.tallies)
    counts { t with userTypes := .record [] } = some none ∧
    counts t = some (some [("simple", { total := 1, missing := { loc := 1, total := 1 } })]) := by
  decide +kernel

end TypeFlow.Score
