import TypeFlow.FileTree
import TypeFlow.Type.Shape

/-! # Datasets

A dataset lists the files of projects with the types of their variables, parameters and results.
It becomes two ground truths: one of all annotations, and one for each class of types. Types that
say nothing or cannot be read are left out. -/

namespace TypeFlow.Dataset

/-- An annotation of a variable, a parameter or a result. -/
structure TypeHint where
  /-- `local`, `arg` or `return`. -/
  category : String
  type : String
  name : String
deriving DecidableEq, Repr, Inhabited

structure Place where
  file : String
  cls : String
  func : String
deriving DecidableEq, Repr, Inhabited

/-- Annotations by file, class and function. -/
abbrev GroundTruth := Table String (Table String (Table String (List TypeHint)))

/-- The class and the function of what stands at the top level of a module. -/
def moduleLevel : String := "global"

namespace GroundTruth

def at? (g : GroundTruth) (p : Place) : List TypeHint :=
  (((g.get? p.file).getD {}).get? p.cls |>.getD {}).get? p.func |>.getD []

/-- Append an annotation to those of its place. -/
def add (g : GroundTruth) (p : Place) (a : TypeHint) : GroundTruth :=
  let classes := (g.get? p.file).getD {}
  let functions := (classes.get? p.cls).getD {}
  let known := (functions.get? p.func).getD []
  g.insert p.file (classes.insert p.cls (functions.insert p.func (known ++ [a])))

/-- Enter a file, with or without annotations. -/
def addFile (g : GroundTruth) (file : String) : GroundTruth :=
  if g.contains file then g else g.insert file {}

end GroundTruth

structure Truths where
  full : GroundTruth := {}
  classified : Table String GroundTruth :=
    Table.ofList [("user-defined", {}), ("generic", {}), ("simple", {})]
deriving Inhabited

def isVoid (type : Document) : Bool := type == .text "" || type == .text "typing.Any"

/-- Enter an annotation under a class of types. -/
def Truths.add (t : Truths) (kind : String) (p : Place) (a : TypeHint) : Truths :=
  { full := t.full.add p a
    classified := t.classified.insert kind (((t.classified.get? kind).getD {}).add p a) }

/-- Enter a type, unless it says nothing or cannot be read. -/
def addType (t : Truths) (p : Place) (category name : String) (type : Document) :
    Except Fault Truths := do
  if isVoid type then return t
  let type ← type.asText
  match Shape.classify type with
  | some kind => return t.add kind p ⟨category, type, name⟩
  | none => return t

/-- Enter the types in one field of a document. Their names are the keys of another field, taken
in order. -/
def addTypes (d : Document) (types names category : String) (p : Place) (t : Truths) :
    Except Fault Truths := do
  let entries ← (← d.field types).fields
  entries.zipIdx.foldlM
    (fun t ((_, type), i) => do
      match (← (← d.field names).fields)[i]? with
      | some (name, _) => addType t p category name type
      | none => throw .outOfRange)
    t

def addFunction (p : Place) (t : Truths) (func : Document) : Except Fault Truths := do
  let t ← addTypes func "params" "params_occur" "arg" p t
  let t ← addTypes func "variables" "fn_var_occur" "local" p t
  addType t p "return" p.func (← func.field "ret_type")

/-- Enter a function at the top level. -/
def addModuleFunction (file : String) (t : Truths) (func : Document) : Except Fault Truths := do
  addFunction ⟨file, moduleLevel, ← (← func.field "q_name").key⟩ t func

/-- Enter a method, under its last name. -/
def addMethod (file cls : String) (t : Truths) (func : Document) : Except Fault Truths := do
  let name ← (← func.field "q_name").asText
  addFunction ⟨file, cls, Text.lastPiece name "."⟩ t func

def addClass (file : String) (t : Truths) (cls : Document) : Except Fault Truths := do
  let name ← (← cls.field "q_name").key
  (← (← cls.field "funcs").parts).foldlM (addMethod file name) t

def addFile (t : Truths) (file : String × Document) : Except Fault Truths := do
  let t := { t with full := t.full.addFile file.1 }
  let t ← addTypes file.2 "variables" "mod_var_occur" "local" ⟨file.1, moduleLevel, moduleLevel⟩ t
  let t ← (← (← file.2.field "funcs").parts).foldlM (addModuleFunction file.1) t
  (← (← file.2.field "classes").parts).foldlM (addClass file.1) t

def addProject (t : Truths) (project : String × Document) : Except Fault Truths := do
  (← (← project.2.field "src_files").entries).foldlM addFile t

/-- Enter all projects of a dataset file. -/
def addData (t : Truths) (data : Document) : Except Fault Truths := do
  (← data.entries).foldlM addProject t

def read (tree : FileTree) (directory : String) : Except Fault Truths := do
  let names := (← tree.list directory).filter (Text.endsWith · ".json")
  names.foldlM (fun t name => do
    addData t (← tree.readData (FileTree.withSlash directory ++ name))) {}

def describeOne (a : TypeHint) : Document :=
  .record [("category", .text a.category), ("name", .text a.name), ("type", .text a.type)]

def describeTable {α : Type} (f : α → Document) (t : Table String α) : Document :=
  .record (t.entries.map fun (k, v) => (k, f v))

def describe : GroundTruth → Document :=
  describeTable <| describeTable <| describeTable fun l =>
    .record [("annotations", .list (l.map describeOne))]

def describeClassified (t : Truths) : Document := describeTable describe t.classified

end TypeFlow.Dataset
