import TypeFlow.FileTree
import TypeFlow.UserType.Findings

/-! # Discovery of user types

The user types of a source file are found by following its imports through the repository.
Packages are followed recursively. A file or package whose whole contents are imported is looked
at once: the list of those already seen outlives a failed search. -/

namespace TypeFlow.UserType

open Program

/-- A search, with the paths of the files and packages that have been seen. -/
abbrev Discover := EStateM Fault (List String)

structure Search where
  tree : FileTree
  source : Source
  /-- Look imported types up in the files that should define them. -/
  validate : Bool
  /-- Search another file. -/
  next : Source → Module → Discover Findings

namespace Search

def survey (s : Search) (path : String) : Discover Survey := do
  ofExcept (Survey.ofProgram (← ofExcept (s.tree.readProgram path)))

/-- The findings of another file of the repository, if there is such a file. -/
def findings? (s : Search) (path : String) : Discover (Option Findings) := do
  if s.tree.isFile path then
    let program ← ofExcept (s.tree.readProgram path)
    let source ← ofExcept (Source.place path (some s.source.root) s.source.separator)
    return some (← s.next source program)
  else return none

/-- The findings of another file of the repository, which has to be there. -/
def findings (s : Search) (path : String) : Discover Findings := do
  match ← s.findings? path with
  | some f => return f
  | none => throw .wrongKind

def anywhere (s : Search) (name : String) : List String := s.tree.findAll s.source.root name

/-- The files of a module anywhere in the repository, or those of packages of its name. -/
def moduleFiles (s : Search) (module : String) : List String :=
  match s.anywhere (Source.modulePath module ++ ".py") with
  | [] => s.anywhere (Source.packageFile (Source.modulePath module))
  | files => files

def addPackage (f package : Findings) (file name : String) : Findings :=
  let types := (package.indirect ++ package.direct).map fun t => { t with module := name }
  let own := package.own.map fun (cls, a) => ⟨file, name, cls, a⟩
  package.modules.foldl Findings.addModule
    ((types ++ own).foldl Findings.addNewIndirect f)

def addFile (s : Search) (f : Findings) (survey : Survey) (file path : String) : Findings :=
  survey.classes.foldl
    (fun f c => f.addIndirect ⟨file, s.source.moduleName path, c, survey.attributesOf c⟩)
    (f.addParents survey.parents)

/-- Look at the package or file at a path, unless it has been seen. The answer says whether there
is one. -/
def scan (s : Search) (f : Findings) (path name : String) : Discover (Findings × Bool) := do
  let path := if Text.endsWith path ".py" then Source.withoutEnding path else path
  if path ∈ (← get) then return (f, true)
  else if s.tree.isDirectory path then
    modify (· ++ [path])
    let file := Source.packageFile path
    return (addPackage f (← s.findings file) file name, true)
  else if s.tree.isFile (path ++ ".py") then
    modify (· ++ [path])
    return (s.addFile f (← s.survey (path ++ ".py")) (path ++ ".py") path, true)
  else return (f, false)

/-- Look at a file or package whose contents are imported: where it should be, or else anywhere
in the repository. -/
def followFile (s : Search) (f : Findings) (file : ImportedFile) : Discover Findings := do
  let (f, found) ← s.scan f (s.source.moduleAt file.level file.module) file.module
  if found then return f
  match s.moduleFiles file.module with
  | [] =>
    return { f with unknownModules := f.unknownModules ++ [Text.firstPiece file.module "."] }
  | paths => paths.foldlM (fun f path => do return (← s.scan f path file.module).1) f

def plainModuleFiles (s : Search) (module : String) : List String :=
  match s.anywhere (Source.packageFile module) with
  | [] => if Text.has module "." then s.anywhere (Source.modulePath module ++ ".py") else []
  | files => files

/-- Look at a module that is imported as such. -/
def followModule (s : Search) (f : Findings) (module : String) : Discover Findings := do
  match s.plainModuleFiles module with
  | [] => return { f with unknownModules := f.unknownModules ++ [module] }
  | paths =>
    paths.foldlM (fun f path => do
      let g ← s.findings path
      let own := g.own.map fun (cls, a) => (⟨path, module, cls, a⟩ : FoundType)
      return (g.direct ++ g.indirect ++ own).foldl Findings.addIndirect f) f

def takeFromFile (s : Search) (f : Findings) (t : ImportedType) (file path : String) :
    Discover Findings := do
  let survey ← s.survey file
  let f := f.addParents survey.parents
  return if t.name ∈ survey.classes then
      f.addDirect ⟨file, s.source.moduleName path, t.name, survey.attributesOf t.name⟩
    else f

/-- Take over a type from a package: one that the package imports by name, else one that it
defines, else one that comes with a module. -/
def takeFromPackage (s : Search) (f : Findings) (t : ImportedType) (path : String) :
    Discover Findings := do
  let file := Source.packageFile path
  let package ← s.findings file
  let moved (u : FoundType) : FoundType :=
    ⟨u.path, s.source.moduleName (Source.withoutEnding u.path), t.name, u.attributes⟩
  let named (l : List FoundType) : Option FoundType := (l.filter (·.name == t.name)).getLast?
  let own := (package.own.filter (·.1 == t.name)).getLast?.map fun (_, a) =>
    (⟨file, s.source.moduleName path, t.name, a⟩ : FoundType)
  match ((named package.direct).map moved <|> own) <|> (named package.indirect).map moved with
  | some found => return f.addDirect found
  | none => return f

/-- Take over a type from a file found somewhere in the repository. -/
def takeFromAnywhere (s : Search) (path : String) (t : ImportedType) (f : Findings)
    (file : String) : Discover Findings := do
  if !s.tree.isFile file then return f
  let mut f := f
  if Text.endsWith file "__init__.py" then
    let package ← s.findings file
    for d in package.direct do
      if t.name = d.name then f := f.addDirect d
  s.takeFromFile f t file path

def followType (s : Search) (f : Findings) (t : ImportedType) : Discover Findings := do
  let path := s.source.moduleAt t.level t.module
  if s.tree.isFile (path ++ ".py") then s.takeFromFile f t (path ++ ".py") path
  else if s.tree.isFile (Source.packageFile path) then s.takeFromPackage f t path
  else
    match s.moduleFiles t.module with
    | [] => return { f with unrecognized := f.unrecognized ++ [(t.module, t.name)] }
    | files => files.foldlM (s.takeFromAnywhere path t) f

def takeAsWritten (f : Findings) (t : ImportedType) : Findings :=
  f.addDirect ⟨"", t.module, t.name, none⟩

def run (s : Search) (program : Module) : Discover Findings := do
  let survey ← ofExcept (Survey.ofProgram program)
  let f ← survey.files.foldlM s.followFile (.ofSurvey survey)
  let f ← survey.plainModules.foldlM s.followModule f
  let f ← if s.validate then survey.types.foldlM s.followType f
    else pure (survey.types.foldl takeAsWritten f)
  ofExcept f.tidy

end Search

/-- The user types of a program. The number bounds how deep packages are followed. -/
def discoverFrom (tree : FileTree) (validate : Bool) : Nat → Source → Module → Discover Findings
  | 0, _, _ => throw .tooDeep
  | depth + 1, source, program =>
    Search.run { tree, source, validate, next := discoverFrom tree validate depth } program

/-- Packages that import each other are followed this deep before the search is given up. -/
def maxPackageDepth : Nat := 320

def discover (tree : FileTree) (validate : Bool) (source : Source) (program : Module) :
    Discover Findings :=
  discoverFrom tree validate maxPackageDepth source program

end TypeFlow.UserType
