import TypeFlow.Dataset
import TypeFlow.Proofs.Searching

/-!
# Classes of annotations

A dataset names typed things: variables, parameters and results, each at a place. What becomes of
them is read off the dataset alone: those that are not left out stand at their place in the full
ground truth, in order, and each stands once more in the class of its type.
-/

namespace TypeFlow.Dataset

open List

open Fallible (given given_of_bind given_of_binds)

variable {p : Place} {category : String} (g : GroundTruth)

/-! ## The typed things of a dataset -/

/-- A variable, a parameter or a result with its type. -/
structure Typed where
  place : Place
  category : String
  name : String
  type : Document

namespace Typed

def written (x : Typed) : String := x.type.text?.getD ""

/-- The type is empty, says nothing or cannot be read. -/
def isLeftOut (x : Typed) : Bool :=
  x.written = "" || x.written = "typing.Any" || Shape.classify x.written = none

def hint (x : Typed) : TypeHint := ⟨x.category, x.written, x.name⟩

end Typed

def part (d : Document) (key : String) : Document := given (d.field key)

/-- The types in one field of a document, with the keys of another field as names. -/
def typedFields (d : Document) (types names category : String) (p : Place) : List Typed :=
  ((given (part d types).fields).zip (given (part d names).fields)).map fun e =>
    ⟨p, category, e.2.1, e.1.2⟩

def typedInFunction (p : Place) (func : Document) : List Typed :=
  typedFields func "params" "params_occur" "arg" p ++
    typedFields func "variables" "fn_var_occur" "local" p ++
    [⟨p, "return", p.func, part func "ret_type"⟩]

def typedInClass (file : String) (cls : Document) : List Typed :=
  (given (part cls "funcs").parts).flatMap fun func =>
    typedInFunction ⟨file, given (part cls "q_name").key,
      Text.lastPiece (given (part func "q_name").asText) "."⟩ func

def typedInFile (file : String × Document) : List Typed :=
  typedFields file.2 "variables" "mod_var_occur" "local" ⟨file.1, moduleLevel, moduleLevel⟩ ++
    ((given (part file.2 "funcs").parts).flatMap fun func =>
      typedInFunction ⟨file.1, moduleLevel, given (part func "q_name").key⟩ func) ++
    (given (part file.2 "classes").parts).flatMap (typedInClass file.1)

def typedInData (data : Document) : List Typed :=
  (given data.entries).flatMap fun project =>
    (given (part project.2 "src_files").entries).flatMap typedInFile

/-- The typed things in all dataset files of a directory. -/
def typedIn (tree : FileTree) (directory : String) : List Typed :=
  ((given (tree.list directory)).filter (Text.endsWith · ".json")).flatMap fun name =>
    typedInData (given (tree.readData (FileTree.withSlash directory ++ name)))

/-! ## What is entered -/

/-- The annotations at a place. -/
def hintsAt (l : List Typed) (p : Place) : List TypeHint :=
  (l.filter fun x => x.place = p && !x.isLeftOut).map Typed.hint

theorem hintsAt_append (l l' : List Typed) (p : Place) :
    hintsAt (l ++ l') p = hintsAt l p ++ hintsAt l' p := by
  simp [hintsAt]

/-- The annotations of a class at a place. -/
def Truths.under (t : Truths) (kind : String) (p : Place) : List TypeHint :=
  ((t.classified.get? kind).getD {}).at? p

def ofClass (kind : String) (l : List TypeHint) : List TypeHint :=
  l.filter (Shape.classify ·.type = some kind)

theorem at?_add (p q : Place) (a : TypeHint) :
    (g.add p a).at? q = g.at? q ++ if p = q then [a] else [] := by
  obtain ⟨file, cls, func⟩ := p
  obtain ⟨file', cls', func'⟩ := q
  simp only [GroundTruth.add, GroundTruth.at?, Table.get?_insert, Place.mk.injEq]
  by_cases hfile : file = file' <;> by_cases hcls : cls = cls' <;> by_cases hfunc : func = func' <;>
    simp [hfile, hcls, hfunc, Table.get?_insert]

theorem at?_addFile (file : String) (p : Place) : (g.addFile file).at? p = g.at? p := by
  unfold GroundTruth.addFile
  split
  · rfl
  · rename_i hnew
    simp only [GroundTruth.at?, Table.get?_insert]
    split
    · rename_i hfile
      have hnone : g.get? p.file = none := by simpa [Table.contains, hfile] using hnew
      rw [hnone]
      rfl
    · rfl

/-- Ground truths after typed things have been entered. -/
structure Enters (l : List Typed) (t t' : Truths) : Prop where
  full : ∀ p, t'.full.at? p = t.full.at? p ++ hintsAt l p
  classified : ∀ kind p, t'.under kind p = t.under kind p ++ ofClass kind (hintsAt l p)
  texts : ∀ x ∈ l, x.type = .text x.written

namespace Enters

variable {l l' : List Typed} {t t' t'' : Truths}

theorem nothing (hfull : ∀ p, t'.full.at? p = t.full.at? p)
    (hclassified : t'.classified = t.classified) : Enters [] t t' where
  full p := by simp [hfull, hintsAt]
  classified kind p := by simp [Truths.under, hclassified, hintsAt, ofClass]
  texts := by simp

theorem append (h : Enters l t t') (h' : Enters l' t' t'') : Enters (l ++ l') t t'' where
  full p := by rw [h'.full, h.full, hintsAt_append, append_assoc]
  classified kind p := by
    rw [h'.classified, h.classified, hintsAt_append, append_assoc, ofClass, ofClass, ofClass,
      filter_append]
  texts x hx := (mem_append.mp hx).elim (h.texts x) (h'.texts x)

theorem foldlM {α : Type} {f : Truths → α → Except Fault Truths} {typed : α → List Typed}
    {as : List α} (h : as.foldlM f t = .ok t')
    (hstep : ∀ a t t', f t a = .ok t' → Enters (typed a) t t') :
    Enters (as.flatMap typed) t t' := by
  induction as generalizing t with
  | nil =>
    cases h
    exact nothing (fun _ => rfl) rfl
  | cons a as ih =>
    rw [foldlM_cons] at h
    obtain ⟨ha, has⟩ := given_of_bind h
    exact (hstep _ _ _ ha).append (ih has)

end Enters

variable {t t' : Truths}

theorem addType_enters {name : String} {type : Document}
    (h : addType t p category name type = .ok t') : Enters [⟨p, category, name, type⟩] t t' := by
  obtain ⟨s, rfl⟩ : ∃ s, type = .text s := by
    cases type with
    | text s => exact ⟨s, rfl⟩
    | _ => cases h
  have hhints (q : Place) : hintsAt [⟨p, category, name, .text s⟩] q =
      if p = q ∧ ¬ (isVoid (.text s) ∨ Shape.classify s = none) then [⟨category, s, name⟩]
      else [] := by
    have hvoid : isVoid (.text s) = (s == "" || s == "typing.Any") := rfl
    simp only [hintsAt, filter_cons, hvoid, Typed.isLeftOut, Typed.written, Document.text?]
    by_cases hplace : p = q <;> by_cases hempty : s = "" <;> by_cases hany : s = "typing.Any" <;>
      by_cases hshape : Shape.classify s = none <;>
      simp [hplace, hempty, hany, hshape, Typed.hint, Typed.written, Document.text?]
  suffices (∀ q, t'.full.at? q = t.full.at? q ++ hintsAt [⟨p, category, name, .text s⟩] q) ∧
      ∀ kind q, t'.under kind q = t.under kind q ++
        ofClass kind (hintsAt [⟨p, category, name, .text s⟩] q) from
    ⟨this.1, this.2, by simp [Typed.written, Document.text?]⟩
  simp only [hhints]
  unfold addType at h
  cases hv : isVoid (.text s) with
  | true =>
    rw [hv] at h
    cases h
    simp [ofClass]
  | false =>
    rw [hv] at h
    obtain ⟨-, h⟩ := given_of_bind h
    dsimp only [Document.asText, given] at h
    cases hkind : Shape.classify s with
    | none =>
      rw [hkind] at h
      cases h
      simp [ofClass]
    | some kind =>
      rw [hkind] at h
      cases h
      refine ⟨fun q => by simp [Truths.add, at?_add], fun kind' q => ?_⟩
      rw [Truths.under, Truths.add, Table.get?_insert]
      by_cases hk : kind = kind' <;> by_cases hq : p = q <;>
        simp [Truths.under, ofClass, at?_add, hkind, hk, hq]

/-- Types are entered one by one, each under the name at its position. -/
theorem foldlM_zipIdx_enters (known : List (String × Document))
    {f : Truths → (String × Document) × Nat → Except Fault Truths}
    (hf : ∀ t e t', f t e = .ok t' → ∃ name, known[e.2]? = some name ∧
      addType t p category name.1 e.1.2 = .ok t')
    {entries : List (String × Document)} {k : Nat} (h : (entries.zipIdx k).foldlM f t = .ok t') :
    Enters ((entries.zip (known.drop k)).map fun e => ⟨p, category, e.2.1, e.1.2⟩) t t' := by
  induction entries generalizing k t with
  | nil =>
    cases h
    exact .nothing (fun _ => rfl) rfl
  | cons e entries ih =>
    rw [zipIdx_cons, foldlM_cons] at h
    obtain ⟨hfirst, hothers⟩ := given_of_bind h
    obtain ⟨name, hname, hadd⟩ := hf _ _ _ hfirst
    obtain ⟨hk, rfl⟩ := List.getElem?_eq_some_iff.mp hname
    rw [List.drop_eq_getElem_cons hk]
    exact (addType_enters hadd).append (ih hothers)

theorem addTypes_enters {d : Document} {types names : String}
    (h : addTypes d types names category p t = .ok t') :
    Enters (typedFields d types names category p) t t' := by
  refine foldlM_zipIdx_enters (given (part d names).fields) (fun t e t' hstep => ?_)
    (given_of_binds h)
  replace hstep := given_of_binds hstep
  split at hstep
  · rename_i name hname
    exact ⟨_, hname, hstep⟩
  · cases hstep

theorem addFunction_enters {func : Document} (h : addFunction p t func = .ok t') :
    Enters (typedInFunction p func) t t' := by
  obtain ⟨hparams, h⟩ := given_of_bind h
  obtain ⟨hvariables, h⟩ := given_of_bind h
  obtain ⟨-, h⟩ := given_of_bind h
  exact ((addTypes_enters hparams).append (addTypes_enters hvariables)).append (addType_enters h)

theorem addClass_enters {file : String} {cls : Document} (h : addClass file t cls = .ok t') :
    Enters (typedInClass file cls) t t' := by
  refine Enters.foldlM (given_of_binds (given_of_binds h)) fun _ _ _ hfunc => ?_
  exact addFunction_enters (given_of_binds hfunc)

theorem addFile_enters {file : String × Document} (h : addFile t file = .ok t') :
    Enters (typedInFile file) t t' := by
  obtain ⟨hvariables, h⟩ := given_of_bind h
  replace h := given_of_binds h
  obtain ⟨hfunctions, h⟩ := given_of_bind h
  have hnamed : Enters [] t { t with full := t.full.addFile file.1 } :=
    .nothing (fun _ => at?_addFile ..) rfl
  refine ((hnamed.append (addTypes_enters hvariables)).append (.foldlM hfunctions
    fun _ _ _ hfunc => ?_)).append (.foldlM (given_of_binds h) fun _ _ _ => addClass_enters)
  exact addFunction_enters (given_of_binds hfunc)

theorem read_enters {tree : FileTree} {directory : String} (h : read tree directory = .ok t) :
    Enters (typedIn tree directory) {} t := by
  refine .foldlM (given_of_bind h).2 fun _ _ _ hfile => ?_
  refine .foldlM (given_of_binds hfile) fun _ _ _ hproject => ?_
  exact .foldlM (given_of_binds hproject) fun _ _ _ => addFile_enters

/-! ## Every annotation in one class -/

/-- A list holds the members of three others, each in order. -/
inductive Interleaving {α : Type} : List α → List α → List α → List α → Prop where
  | nil : Interleaving [] [] [] []
  | first {a : α} {l u v w : List α} : Interleaving l u v w → Interleaving (a :: l) (a :: u) v w
  | second {a : α} {l u v w : List α} : Interleaving l u v w → Interleaving (a :: l) u (a :: v) w
  | third {a : α} {l u v w : List α} : Interleaving l u v w → Interleaving (a :: l) u v (a :: w)

theorem classify_cases {s kind : String} (h : Shape.classify s = some kind) :
    kind = "user-defined" ∨ kind = "generic" ∨ kind = "simple" := by
  unfold Shape.classify at h
  grind

theorem interleaving_ofClass {l : List TypeHint} (h : ∀ a ∈ l, Shape.classify a.type ≠ none) :
    Interleaving l (ofClass "user-defined" l) (ofClass "generic" l) (ofClass "simple" l) := by
  induction l with
  | nil => exact .nil
  | cons a l ih =>
    have hl := ih fun b hb => h b (.tail _ hb)
    obtain ⟨kind, hkind⟩ := Option.ne_none_iff_exists'.mp (h a (.head _))
    rcases classify_cases hkind with rfl | rfl | rfl <;> simp only [ofClass, filter_cons, hkind]
    · exact hl.first
    · exact hl.second
    · exact hl.third

/-- Where a dataset can be read, the annotations at each place are those of the typed things there
that are not left out, in order, and they interleave three classes, each of which has the
annotations whose types are of that class. -/
theorem read_classifies {tree : FileTree} {directory : String} {t : Truths}
    (h : read tree directory = .ok t) (p : Place) :
    (∀ x ∈ typedIn tree directory, x.type = .text x.written) ∧
    t.full.at? p = hintsAt (typedIn tree directory) p ∧
    (∀ kind, t.under kind p = ofClass kind (t.full.at? p)) ∧
    Interleaving (t.full.at? p) (t.under "user-defined" p) (t.under "generic" p)
      (t.under "simple" p) := by
  have henters := read_enters h
  have hfull : t.full.at? p = hintsAt (typedIn tree directory) p := henters.full p
  have hunder (kind : String) : t.under kind p = ofClass kind (t.full.at? p) := by
    have hnone : ({} : Truths).under kind p = [] := by
      simp only [Truths.under, Table.ofList, foldl, Table.get?_insert, Table.get?_empty]
      repeat' split
      all_goals rfl
    rw [henters.classified, hnone, hfull, nil_append]
  refine ⟨henters.texts, hfull, hunder, ?_⟩
  rw [hunder, hunder, hunder]
  refine interleaving_ofClass fun a ha => ?_
  rw [hfull, hintsAt] at ha
  obtain ⟨x, hx, rfl⟩ := mem_map.mp ha
  have hkept := (mem_filter.mp hx).2
  simp only [Typed.isLeftOut, Bool.and_eq_true, Bool.not_eq_true', Bool.or_eq_false_iff,
    decide_eq_false_iff_not] at hkept
  exact hkept.2.2

/-- A dataset with a function of two parameters and with a variable that says nothing. -/
def typedParameters : Document :=
  .record [("p", .record [("src_files", .record [("a.py", .record [("variables", .record []),
    ("classes", .list []), ("funcs", .list [.record [("q_name", .text "f"),
      ("params", .record [("x", .text "int"), ("y", .text "int")]),
      ("params_occur", .record [("x", .null), ("y", .null)]),
      ("variables", .record [("v", .text "typing.Any"), ("w", .text "int")]),
      ("fn_var_occur", .record [("v", .null), ("w", .null)]),
      ("ret_type", .text "int")]])])])])]

theorem read_typedParameters :
    let tree : FileTree := ⟨[(["d", "a.json"], .data typedParameters)]⟩
    let p : Place := ⟨"a.py", "global", "f"⟩
    ∃ t, read tree "d" = .ok t ∧
      t.full.at? p = [⟨"arg", "int", "x"⟩, ⟨"arg", "int", "y"⟩, ⟨"local", "int", "w"⟩,
        ⟨"return", "int", "f"⟩] ∧
      t.full.at? p = hintsAt (typedIn tree "d") p ∧
      Interleaving (t.full.at? p) (t.under "user-defined" p) (t.under "generic" p)
        (t.under "simple" p) := by
  intro tree p
  have hsorted : FileTree.sorted ["a.json"] = ["a.json"] := by
    unfold FileTree.sorted
    rw [mergeSort_singleton]
    rfl
  have hlist : tree.list "d" = .ok ["a.json"] := congrArg Except.ok hsorted
  have hcheck : (read tree "d").toOption.any (fun t => decide
      (t.full.at? p = [⟨"arg", "int", "x"⟩, ⟨"arg", "int", "y"⟩, ⟨"local", "int", "w"⟩,
        ⟨"return", "int", "f"⟩])) = true := by
    unfold read
    rw [hlist]
    decide +kernel
  obtain ⟨t, h, hat⟩ := Fallible.exists_of_any hcheck
  have hall := read_classifies h p
  exact ⟨t, h, of_decide_eq_true hat, hall.2.1, hall.2.2.2⟩

end TypeFlow.Dataset
