import Mathlib.Algebra.Order.Field.Rat
import TypeFlow.Proofs.Scoring
import TypeFlow.Proofs.Simple
import TypeFlow.Proofs.Tables

/-!
# Counts of a score

Scoring an annotation adds one to the total and one to the counts of its verdict, so the verdicts
partition the annotations that are scored, and the shares are in order. These are all annotations
of a file unless two of its functions have the same place: then the later one replaces the other.
-/

namespace TypeFlow.Score

open List Fallible

variable {α β : Type} {l : List α} {all : Document} {truth : Truth} {category : String} {t' : Tally}
  {s s' : Store}

/-! ## The annotations of a file -/

/-- The classes of types for which a ground truth has the file. -/
def classesWith (all : Document) (fileName : String) : List (String × Document) :=
  (given all.entries).filter fun c => given (c.2.holds fileName)

def placed (cls : String × Document) : List (String × Document) :=
  (given cls.2.entries).map fun func => (func.1 ++ "@" ++ cls.1, given (func.2.field "annotations"))

/-- The functions for which a class of types has annotations in a file, by place. -/
def annotated (fileName : String) (files : Document) : List (String × Document) :=
  (given (given (files.field fileName)).entries).flatMap placed

def annotationCount (l : List (String × Document)) : Nat :=
  (l.map fun place => (given place.2.parts).length).sum

def Categorized (a : Document) : Prop :=
  ∃ c ∈ ["arg", "return", "local"], a.field "category" = .ok (.text c)

/-- Where a fold ends, it has taken the steps of a plain one. -/
theorem foldlM_eq [Inhabited β] {f : β → α → Except Fault β} {g : β → α → β}
    (hstep : ∀ b a b', f b a = .ok b' → b' = g b a) {b b' : β} (h : l.foldlM f b = .ok b') :
    b' = l.foldl g b := by
  induction l generalizing b with
  | nil =>
    cases h
    rfl
  | cons a l ih =>
    rw [foldlM_cons] at h
    obtain ⟨hfirst, h⟩ := given_of_bind h
    rw [foldl_cons, ← hstep _ _ _ hfirst]
    exact ih h

theorem mapM_eq [Inhabited β] {f : α → Except Fault β} {g : α → β}
    (hstep : ∀ a b, f a = .ok b → b = g a) {r : List β} (h : l.mapM f = .ok r) : r = l.map g := by
  induction l generalizing r with
  | nil =>
    cases h
    rfl
  | cons a l ih =>
    rw [mapM_cons] at h
    obtain ⟨hfirst, h⟩ := given_of_bind h
    obtain ⟨hrest, h⟩ := given_of_bind h
    rw [← Except.ok.inj h, hstep _ _ hfirst, ih hrest, map_cons]

theorem truthOf_eq {fileName : String} (h : truthOf all fileName = .ok truth) :
    truth = (classesWith all fileName).map fun c =>
      (c.1, Table.ofList (annotated fileName c.2)) := by
  have hclass (places places' : Table String Document) (cls : String × Document)
      (h : placesOf places cls = .ok places') :
      places' = (placed cls).foldl (fun t e => t.insert e.1 e.2) places := by
    obtain ⟨-, hfold⟩ := given_of_bind h
    rw [placed, foldl_map]
    refine foldlM_eq (fun places func places' hfunc => ?_) hfold
    obtain ⟨-, hfunc⟩ := given_of_bind hfunc
    exact (Except.ok.inj hfunc).symm
  have hfile (c : String × Document) (o : Option (String × Table String Document)) (h : (do
        if ← c.2.holds fileName then
          let places ← (← (← c.2.field fileName).entries).foldlM placesOf {}
          return some (c.1, places)
        else return none : Except Fault _) = .ok o) :
      o = if given (c.2.holds fileName) then
        some (c.1, Table.ofList (annotated fileName c.2)) else none := by
    obtain ⟨-, h⟩ := given_of_bind h
    split at h
    · replace h := given_of_binds h
      obtain ⟨hfold, h⟩ := given_of_bind h
      rw [if_pos ‹_›, ← Except.ok.inj h, foldlM_eq (fun _ _ _ h => hclass _ _ _ h) hfold,
        ← foldl_flatMap]
      rfl
    · rw [if_neg ‹_›, ← Except.ok.inj h]
  obtain ⟨-, h⟩ := given_of_bind h
  obtain ⟨hfound, h⟩ := given_of_bind h
  rw [← Except.ok.inj h, mapM_eq (fun c o h => hfile c o h) hfound, classesWith, filterMap_map,
    ← filterMap_eq_map, ← filterMap_eq_filter, filterMap_filterMap]
  refine congrFun (congrArg _ (funext fun c => ?_)) _
  by_cases hc : given (c.2.holds fileName) = true <;> simp [Option.guard, hc]

/-! ## Balanced counts -/

/-- The verdicts partition the annotations, and so do the categories under each verdict. -/
structure Tally.Balanced (t : Tally) : Prop where
  verdicts : t.total =
    t.success.total + t.similar.total + t.partly.total + t.failed.total + t.missing.total
  categories : ∀ c ∈ [t.success, t.similar, t.partly, t.failed, t.missing],
    c.total = c.arg + c.ret + c.loc

theorem Counts.add_total {c c' : Counts} (hcategory : category ∈ ["arg", "return", "local"])
    (h : c.add (.text category) = .ok c') :
    c'.total = c.total + 1 ∧ c'.arg + c'.ret + c'.loc = c.arg + c.ret + c.loc + 1 := by
  simp only [mem_cons, not_mem_nil, or_false] at hcategory
  rcases hcategory with rfl | rfl | rfl <;> cases h <;> simp <;> omega

theorem Tally.Balanced.add {t : Tally} (h : t.Balanced) {verdict : Verdict}
    (hcategory : category ∈ ["arg", "return", "local"])
    (hadd : { t with total := t.total + 1 }.add verdict (.text category) = .ok t') :
    t'.Balanced ∧ t'.total = t.total + 1 := by
  obtain ⟨hverdicts, hcategories⟩ := h
  simp only [forall_mem_cons] at hcategories
  cases verdict <;> obtain ⟨hcount, ⟨⟩⟩ := given_of_bind hadd <;>
    obtain ⟨htotal, hsum⟩ := Counts.add_total hcategory hcount <;> dsimp only at htotal hsum <;>
    refine ⟨⟨?_, by simp only [forall_mem_cons]; grind⟩, rfl⟩ <;> dsimp only <;> omega

/-- Scoring one after the other adds up. -/
theorem foldlM_counts {f : Tally → α → Eval Tally} (count : α → Nat)
    (hstep : ∀ a ∈ l, ∀ t s t' s', t.Balanced → f t a s = .ok t' s' →
      t'.Balanced ∧ t'.total = t.total + count a)
    {t : Tally} (ht : t.Balanced) (h : l.foldlM f t s = .ok t' s') :
    t'.Balanced ∧ t'.total = t.total + (l.map count).sum := by
  induction l generalizing t s with
  | nil =>
    cases h
    exact ⟨ht, rfl⟩
  | cons a l ih =>
    rw [foldlM_cons] at h
    obtain ⟨t₁, s₁, hfirst, h⟩ := bind_eq_ok.mp h
    obtain ⟨ht₁, hcount⟩ := hstep a (.head _) _ _ _ _ ht hfirst
    obtain ⟨ht', htotal⟩ := ih (fun a ha => hstep a (.tail _ ha)) ht₁ h
    exact ⟨ht', by rw [htotal, hcount, map_cons, sum_cons, Nat.add_assoc]⟩

theorem eq_ok_of_ofExcept {x : Except Fault α} {a : α} (h : (ofExcept x : Eval α) s = .ok a s') :
    x = .ok a := by
  cases x <;> cases h
  rfl

theorem talliesBy_counts {found : String → Document → Except Fault (Option (List Entry))}
    {tallies : List (String × Tally)} (h : talliesBy found truth s = .ok tallies s') :
    Forall₂ (fun c k => k.1 = c.1 ∧
      ((∀ place ∈ c.2.entries, ∀ a ∈ given place.2.parts, Categorized a) →
        k.2.Balanced ∧ k.2.total = annotationCount c.2.entries)) truth tallies := by
  refine Eval.forall₂_of_mapM (fun c s k s' hclass => ?_) h
  obtain ⟨tally, s₁, hfold, hclass⟩ := bind_eq_ok.mp hclass
  cases hclass
  refine ⟨rfl, fun hcategories => ?_⟩
  have hempty : ({} : Tally).Balanced := ⟨rfl, by decide⟩
  refine (foldlM_counts _ (fun place hplace t s t' s' ht hscore => ?_) hempty hfold).imp_right
    fun htotal => htotal.trans (Nat.zero_add _)
  obtain ⟨parts, s₂, hparts, hscore⟩ := bind_eq_ok.mp hscore
  have hparts := eq_ok_of_ofExcept hparts
  have hone := foldlM_counts (fun _ => 1) (fun a ha t s t' s' ht hone => ?_) ht hscore
  · simpa [hparts, given] using hone
  · obtain ⟨c, hc, hcategory⟩ := hcategories place hplace a (by rw [hparts]; exact ha)
    obtain ⟨verdict, s₃, -, hone⟩ := bind_eq_ok.mp hone
    rw [bind_ofExcept hcategory] at hone
    exact ht.add hc (eq_ok_of_ofExcept hone)

/-! ## Shares -/

/-- The quotient that a share stands for. -/
def Share.value (s : Share) : ℚ := s.part / s.whole

theorem Share.value_le {part part' whole whole' : Nat} (hpart : part ≤ part') (hpos : whole' ≠ 0)
    (hwhole : whole' ≤ whole) : (⟨part, whole⟩ : Share).value ≤ (⟨part', whole'⟩ : Share).value :=
  div_le_div₀ (Nat.cast_nonneg _) (Nat.cast_le.mpr hpart)
    (Nat.cast_pos.mpr (Nat.pos_of_ne_zero hpos)) (Nat.cast_le.mpr hwhole)

/-- Valid shares grow from exact to partial agreement, and no recall is above its accuracy. -/
structure Tally.Ordered (t : Tally) : Prop where
  shares : ∀ share ∈ [t.accuracy, t.recallOf], (share t.exactly).isValid →
    0 ≤ (share t.exactly).value ∧ (share t.exactly).value ≤ (share t.similarly).value ∧
      (share t.similarly).value ≤ (share t.partially).value ∧ (share t.partially).value ≤ 1
  recall_le : ∀ part ∈ [t.exactly, t.similarly, t.partially], (t.accuracy part).isValid →
    (t.recallOf part).value ≤ (t.accuracy part).value

theorem Tally.Balanced.ordered {t : Tally} (h : t.Balanced) : t.Ordered := by
  have hinferred : t.inferred ≤ t.total := by
    rw [inferred, h.verdicts]
    omega
  have hshare (whole : Nat) (hwhole : t.inferred ≤ whole) (hpos : whole ≠ 0) :
      0 ≤ (⟨t.exactly, whole⟩ : Share).value ∧
      (⟨t.exactly, whole⟩ : Share).value ≤ (⟨t.similarly, whole⟩ : Share).value ∧
      (⟨t.similarly, whole⟩ : Share).value ≤ (⟨t.partially, whole⟩ : Share).value ∧
      (⟨t.partially, whole⟩ : Share).value ≤ 1 := by
    refine ⟨div_nonneg (Nat.cast_nonneg _) (Nat.cast_nonneg _),
      Share.value_le (Nat.le_add_right _ _) hpos (Nat.le_refl _),
      Share.value_le (Nat.le_add_right _ _) hpos (Nat.le_refl _),
      div_le_one_of_le₀ (Nat.cast_le.mpr (Nat.le_trans ?_ hwhole)) (Nat.cast_nonneg _)⟩
    change t.partially ≤ t.inferred
    rw [partially, inferred]
    omega
  constructor
  · simp only [forall_mem_cons, Share.isValid, decide_eq_true_eq]
    exact ⟨hshare t.inferred (Nat.le_refl _), hshare t.total hinferred, by simp⟩
  · intro part _ hvalid
    exact Share.value_le (Nat.le_refl _) (of_decide_eq_true hvalid) hinferred

/-! ## A scored file -/

/-- What the counts for a class of types say about its annotations in a file. -/
structure Scored (fileName : String) (c : String × Document) (k : String × Tally) : Prop where
  kind_eq : k.1 = c.1
  balanced : k.2.Balanced
  ordered : k.2.Ordered
  total_eq : ((annotated fileName c.2).map Prod.fst).Nodup →
    k.2.total = annotationCount (annotated fileName c.2)

variable {tree : FileTree} {t : Task}

theorem talliesBy_of_scoreFile {o : Outcome} (hall : t.groundTruth tree = .ok all)
    (h : scoreFile tree t = .ok (some o)) : ∃ truth found s s',
      truthOf all t.fileName = .ok truth ∧ talliesBy found truth s = .ok o.tallies s' := by
  rw [scoreFile_eq_bind, hall] at h
  obtain ⟨htruth, hscore⟩ := given_of_bind (x := truthOf all t.fileName) h
  split at hscore
  · cases hscore
  · obtain ⟨-, hscore⟩ := given_of_bind hscore
    replace hscore := (given_of_bind (given_of_bind hscore).2).2
    unfold Eval.compute at hscore
    split at hscore
    · rename_i hrun
      cases hscore
      rw [EStateM.run, scoreProgram_eq] at hrun
      obtain ⟨i, s, -, hrun⟩ := bind_eq_ok.mp hrun
      cases i with
      | none => cases hrun
      | some i =>
        obtain ⟨tallies, s', htallies, hrun⟩ := bind_eq_ok.mp hrun
        cases hrun
        exact ⟨_, _, _, _, htruth, htallies⟩
    · cases hscore

/-- Where a file is scored and its annotations have categories, the verdicts partition what is
scored for each class of types, the shares are in order, and all annotations of the file are scored
if no two of its functions have the same place. -/
theorem scoreFile_partitions {all : Document} {o : Outcome} (hall : t.groundTruth tree = .ok all)
    (hcategories : ∀ c ∈ classesWith all t.fileName, ∀ place ∈ annotated t.fileName c.2,
      ∀ a ∈ given place.2.parts, Categorized a)
    (h : scoreFile tree t = .ok (some o)) :
    Forall₂ (Scored t.fileName) (classesWith all t.fileName) o.tallies := by
  obtain ⟨truth, found, s, s', htruth, htallies⟩ := talliesBy_of_scoreFile hall h
  have hcounts := talliesBy_counts htallies
  rw [truthOf_eq htruth, forall₂_map_left_iff] at hcounts
  refine ((forall₂_and_left _ _).mpr ⟨hcategories, hcounts⟩).imp ?_
  rintro c k ⟨hcategorized, hkind, hbalanced⟩
  obtain ⟨hbalanced, htotal⟩ := hbalanced
    (Table.forall_ofList (P := fun d : Document => ∀ a ∈ given d.parts, Categorized a)
      hcategorized).1
  exact ⟨hkind, hbalanced, hbalanced.ordered, fun hplaces =>
    htotal.trans (congrArg annotationCount (Table.entries_ofList hplaces))⟩

/-- The annotations of the function, for one class of types. -/
def annotating (l : List Document) : Document :=
  .record [("a.py", .record [("global", .record [("f", .record [("annotations", .list l)])])])]

/-- Annotations of two classes and of all categories. No type is found for them. -/
def twoClasses : Task :=
  { scoring .null with
    truth := .record [
      ("simple", annotating [stated "local" "z" "int", stated "arg" "a" "str",
        stated "local" "u" "int"]),
      ("generic", annotating [stated "return" "g" "typing.List[int]"])] }

theorem scoreFile_twoClasses : ∃ o, scoreFile (assigningTo "y") twoClasses = .ok (some o) ∧
    o.tallies.map (fun k => (k.1, k.2.total, k.2.missing.total, k.2.missing.loc)) =
      [("simple", 3, 3, 2), ("generic", 1, 1, 0)] ∧
    Forall₂ (Scored "a.py") (classesWith twoClasses.truth "a.py") o.tallies := by
  have hcheck : (scoreFile (assigningTo "y") twoClasses).toOption.any (·.any fun o => decide
      (o.tallies.map (fun k => (k.1, k.2.total, k.2.missing.total, k.2.missing.loc)) =
        [("simple", 3, 3, 2), ("generic", 1, 1, 0)])) = true := by
    decide +kernel
  have hcategories : ∀ c ∈ classesWith twoClasses.truth "a.py", ∀ place ∈ annotated "a.py" c.2,
      ∀ a ∈ given place.2.parts, Categorized a := by
    have hclass {l : List Document} (hl : ∀ a ∈ l, Categorized a) :
        ∀ place ∈ annotated "a.py" (annotating l), ∀ a ∈ given place.2.parts, Categorized a := by
      intro place hplace
      cases mem_singleton.mp hplace
      exact hl
    have hstated {c : String} (name type : String) (hc : c ∈ ["arg", "return", "local"]) :
        Categorized (stated c name type) := ⟨c, hc, rfl⟩
    refine forall_mem_cons.mpr ⟨hclass ?_, forall_mem_singleton.mpr (hclass ?_)⟩ <;>
      simp [hstated]
  obtain ⟨o, h, hsome⟩ := exists_of_any hcheck
  obtain ⟨o, rfl, htallies⟩ := (Option.any_eq_true _ o).mp hsome
  exact ⟨o, h, of_decide_eq_true htallies, scoreFile_partitions rfl hcategories h⟩

/-- Two functions with the same place: one of the class `b`, the other of the class `a@b`. -/
def samePlace : Task :=
  let annotations (name : String) : Document :=
    .record [("annotations", .list [stated "local" name "int"])]
  { scoring (stated "local" "y" "int") with
    truth := .record [("simple", .record [("a.py", .record [
      ("a@b", .record [("f", annotations "y")]), ("b", .record [("f@a", annotations "z")])])])] }

/-- Only one of two annotations is counted where their functions have the same place. -/
theorem scoreFile_samePlace :
    (scoreFile (assigningTo "y") samePlace).toOption.map (Option.map Outcome.tallies) =
      some (some [("simple", { total := 1, missing := { loc := 1, total := 1 } })]) ∧
    (classesWith samePlace.truth "a.py").map (fun c => annotationCount (annotated "a.py" c.2)) =
      [2] := by
  decide +kernel

end TypeFlow.Score
