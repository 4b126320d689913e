import TypeFlow.Document
import TypeFlow.UserType.Source

/-! # Findings

What is known of the user types that one source file can refer to: types it imports by name,
types that come with an imported module, and types it defines itself. -/

namespace TypeFlow.UserType

structure FoundType where
  path : String
  module : String
  name : String
  attributes : Option Attributes
deriving DecidableEq, Repr, Inhabited

structure Findings where
  direct : List FoundType := []
  /-- Types that come with an imported module. -/
  indirect : List FoundType := []
  own : List (String × Option Attributes) := []
  /-- Modules and names of imported types that were not found. -/
  unrecognized : List (String × String) := []
  /-- Imported modules that were not found. -/
  unknownModules : List String := []
  modules : List String := []
  parents : Table String (List String) := {}
deriving Repr, Inhabited

namespace Findings

/-- What the survey of the file itself says. -/
def ofSurvey (s : Survey) : Findings :=
  { own := s.classes.map fun c => (c, s.attributesOf c)
    modules := s.modules
    parents := s.parents }

/-- Add the parents of a class to those known. -/
def mergeParents (known : Table String (List String)) (entry : String × List String) :
    Table String (List String) :=
  known.insert entry.1 <|
    match known.get? entry.1 with
    | some old => entry.2.foldl Survey.addNew old
    | none => entry.2

/-- Add parents of classes to those known. -/
def addParents (f : Findings) (parents : Table String (List String)) : Findings :=
  { f with parents := parents.entries.foldl mergeParents f.parents }

/-- Append a type imported by name. -/
def addDirect (f : Findings) (t : FoundType) : Findings := { f with direct := f.direct ++ [t] }

/-- Append a type that comes with a module. -/
def addIndirect (f : Findings) (t : FoundType) : Findings :=
  { f with indirect := f.indirect ++ [t] }

/-- Append a type that comes with a module, unless it is there. -/
def addNewIndirect (f : Findings) (t : FoundType) : Findings :=
  if t ∈ f.indirect then f else f.addIndirect t

/-- Append a module, unless it is there. -/
def addModule (f : Findings) (m : String) : Findings :=
  { f with modules := Survey.addNew f.modules m }

def size (f : Findings) : Nat :=
  f.direct.length + f.indirect.length + f.own.length + f.unrecognized.length

/-! ## Tidying -/

/-- The module of a type without the mark for the package of the importing file. -/
def cleanType (t : FoundType) : FoundType :=
  { t with module := if t.module = ownPackage then "." else Text.replace t.module ownPackage "" }

/-- The name of a type starts with a lower-case letter. -/
def isLowerType (t : FoundType) : Except Fault Bool :=
  match t.name.toList with
  | c :: _ => .ok (Text.isLowerChar c)
  | [] => .error .outOfRange

end Findings

/-- Two lists of types that may share entries: each entry is known by its address. -/
structure Shelf where
  entries : Array FoundType
  direct : List Nat
  indirect : List Nat
deriving Inhabited

namespace Shelf

def entry (s : Shelf) (a : Nat) : FoundType := s.entries.getD a default

def types (s : Shelf) (l : List Nat) : List FoundType := l.map s.entry

/-- Remove the first entry that equals another one. -/
def remove (s : Shelf) (l : List Nat) (a : Nat) : List Nat :=
  l.eraseP fun b => s.entry b == s.entry a

/-- A type is imported by name as well. -/
def doubles (t d : FoundType) : Bool := t.path == d.path && t.name == d.name

/-- Types that come with a module and are imported by name as well: each is listed once for
every import. -/
def repeated (s : Shelf) : List Nat :=
  s.indirect.flatMap fun a =>
    (s.direct.filter fun d => doubles (s.entry a) (s.entry d)).map fun _ => a

def clean (s : Shelf) (l : List Nat) : Shelf :=
  { s with entries := l.foldl (fun entries a => entries.modify a Findings.cleanType) s.entries }

/-- Remove the types whose names start with a lower-case letter. -/
def withoutLower (s : Shelf) (l : List Nat) : Except Fault (List Nat) := do
  let lower ← l.foldlM
    (fun marked a => do
      return if ← Findings.isLowerType (s.entry a) then marked ++ [a] else marked) []
  return lower.foldl s.remove l

/-- Remove repeated types, marks in module names and types with lower-case names. -/
def tidy (s : Shelf) : Except Fault Shelf := do
  let s := { s with indirect := s.repeated.foldl s.remove s.indirect }
  let s := (s.clean s.indirect).clean s.direct
  let direct ← s.withoutLower s.direct
  return { s with direct, indirect := ← s.withoutLower s.indirect }

end Shelf

namespace Findings

/-- Both lists of types, with entries of their own. -/
def shelf (f : Findings) : Shelf where
  entries := (f.direct ++ f.indirect).toArray
  direct := List.range f.direct.length
  indirect := (List.range f.indirect.length).map (f.direct.length + ·)

def tidy (f : Findings) : Except Fault Findings := do
  let s ← f.shelf.tidy
  return { f with direct := s.types s.direct, indirect := s.types s.indirect }

/-! ## Descriptions -/

def describeAttributes : Option Attributes → Document
  | none => .null
  | some a => .record (a.entries.map fun (name, params) =>
    (name, match params with
      | some l => .list (l.map .text)
      | none => .null))

def describeType (t : FoundType) : Document :=
  .list [.text t.path, .text t.module, .text t.name, describeAttributes t.attributes]

def describe (f : Findings) : Document :=
  .record [
    ("direct", .list (f.direct.map describeType)),
    ("indirect", .list (f.indirect.map describeType)),
    ("init", .list (f.own.map fun (name, a) => .list [.text name, describeAttributes a])),
    ("module", .list (f.modules.map .text)),
    ("num", .int f.size),
    ("unrecognized", .list (f.unrecognized.map fun (module, name) =>
      .list [.text "", .text module, .text name])),
    ("unrecognized_modules", .list (f.unknownModules.map .text))]

def line (path module name : String) : String := path ++ "," ++ module ++ "," ++ name ++ "\n"

/-- The types as lines, on request with those that the file defines. -/
def lines (f : Findings) (source : Source) (withOwn : Bool) : String :=
  let own := (f.own.map fun (name, _) =>
    line source.path (source.moduleName (Source.withoutEnding source.path)) name)
  String.join <| ((f.direct ++ f.indirect).map fun t => line t.path t.module t.name) ++
    if withOwn then own else []

end Findings
end TypeFlow.UserType
