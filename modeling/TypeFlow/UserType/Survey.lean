import TypeFlow.Program.Outline
import TypeFlow.Program.Path
import TypeFlow.Table
import TypeFlow.Vocabulary.Standard

/-! # Surveys

A survey of one program says which classes it defines, with their attributes and parents, and
what it imports. Attributes are recorded for classes that are not inside another class. -/

namespace TypeFlow.UserType

open Program

/-- The attributes of a class. Methods have the names of their parameters. -/
abbrev Attributes := Table String (Option (List String))

/-- What stands for the package of the importing file. -/
def ownPackage : String := "<Cur_Repo>"

structure ImportedType where
  module : String
  name : String
  level : Nat
deriving DecidableEq, Repr, Inhabited

structure ImportedFile where
  module : String
  level : Nat
deriving DecidableEq, Repr, Inhabited

structure Survey where
  classes : List String := []
  attributes : Table String Attributes := {}
  parents : Table String (List String) := {}
  types : List ImportedType := []
  files : List ImportedFile := []
  modules : List String := []
  plainModules : List String := []
  moduleAliases : Table (Option String) String := {}
deriving Repr, Inhabited

/-- Where a part of a program stands. -/
structure Enclosing where
  /-- The classes around it, the innermost first. -/
  classes : List String := []
  inFunction : Bool := false
deriving DecidableEq, Repr, Inhabited

/-- The class around a part of a program, if there is exactly one. -/
def Enclosing.class? (p : Enclosing) : Option String :=
  match p.classes with
  | [c] => some c
  | _ => none

namespace Survey

/-- Append a member that is not yet there. -/
def addNew (l : List String) (x : String) : List String := if x ∈ l then l else l ++ [x]

def addAttribute (s : Survey) (cls name : String) (params : Option (List String)) : Survey :=
  let known := (s.attributes.get? cls).getD {}
  { s with attributes := s.attributes.insert cls (known.insert name params) }

/-- Names among the bases of a class, the common base of all classes apart. -/
def baseNames (bases : List Expr) : List String :=
  bases.filterMap fun
    | .name _ id _ => if id = "object" then none else some id
    | _ => none

def addClass (s : Survey) (place : Enclosing) (name : String) (bases : List Expr) : Survey :=
  let known := (s.parents.get? name).getD []
  { s with
    classes := addNew s.classes name
    parents := s.parents.insert name ((baseNames bases).foldl addNew known)
    attributes :=
      if place.classes.isEmpty && !s.attributes.contains name then s.attributes.insert name {}
      else s.attributes }

/-- Record a function, which is an attribute of the class around it. -/
def addFunction (s : Survey) (place : Enclosing) (name : String) (params : List String) :
    Survey :=
  match place.class? with
  | some cls => s.addAttribute cls name (some params)
  | none => s

/-- Record the attribute that a chain from the receiver of a method starts with. -/
def addChain (s : Survey) (place : Enclosing) (e : Expr) : Except Fault Survey := do
  match place.class? with
  | none => return s
  | some cls => do
    let path ← e.path Literal.discoveryRefusal
    match Text.split path "_@_" with
    | _ :: name :: _ =>
      return if Text.startsWith path "self" then s.addAttribute cls name none else s
    | _ => return s

def addModule (s : Survey) (i : Import) : Survey :=
  if i.name ∈ s.modules then s
  else
    { s with
      modules := s.modules ++ [i.name]
      plainModules := s.plainModules ++ [i.name]
      moduleAliases := s.moduleAliases.insert i.newName i.name }

/-- Record a name imported from a module: all names and names in lower case stand for files,
others for types. -/
def addMember (s : Survey) (module : Option String) (level : Nat) (i : Import) : Survey :=
  let source := module.getD ownPackage
  let s :=
    if i.name = "*" then { s with files := s.files ++ [⟨source, level⟩] }
    else if Text.isLower i.name then
      { s with files := s.files ++ [⟨source ++ "." ++ i.name, level⟩] }
    else { s with types := s.types ++ [⟨source, i.name, level⟩] }
  match module with
  | some m =>
    if level = 0 then { s with modules := addNew s.modules (Text.firstPiece m ".") } else s
  | none => s

/-- Targets of an assignment that look like the name of a class. -/
def classTargets (targets : List Expr) : List String :=
  targets.filterMap fun
    | .name _ id _ =>
      match id.toList with
      | c :: _ => if Text.isUpperChar c then some id else none
      | [] => none
    | _ => none

/-- The value of an assignment is made by a standard type. -/
def isStandardCall : Expr → Bool
  | .call _ (.name _ id _) _ _ => id ∈ Vocabulary.standardNames
  | .call _ (.attribute _ _ attr _) _ _ => attr ∈ Vocabulary.standardNames
  | _ => false

/-- The value of an assignment names a type: an imported one, or one of `typing` with
parameters. -/
def isTypeReference (s : Survey) : Expr → Bool
  | .name _ id _ => s.types.any (·.name == id)
  | .subscript _ (.name _ id _) _ _ => s.types.any (·.name == id)
  | .subscript _ (.attribute _ (.name _ id _) _ _) _ _ => id == "typing"
  | _ => false

/-- Record the classes that an assignment outside of functions defines. -/
def addAssignment (s : Survey) (place : Enclosing) (targets : List Expr) (value : Expr) : Survey :=
  if place.inFunction then s
  else
    let names := classTargets targets
    let made := if isStandardCall value then names else []
    let named := if s.isTypeReference value then names else []
    { s with classes := s.classes ++ made ++ named }

mutual

def enter (imports : Bool) (place : Enclosing) : Part → Survey → Except Fault Survey
  | .attribute e, s => s.addChain place e
  | .function name params parts, s =>
    enterAll imports { place with inFunction := true } parts (s.addFunction place name params)
  | .class_ name bases parts, s =>
    enterAll imports { place with classes := name :: place.classes } parts
      (s.addClass place name bases)
  | .assign targets value _, s => .ok (s.addAssignment place targets value)
  | .annAssign _ _ parts, s => enterAll imports place parts s
  | .import_ names, s => .ok (if imports then names.foldl addModule s else s)
  | .importFrom module names level, s =>
    .ok (if imports then names.foldl (fun s i => s.addMember module level i) s else s)

def enterAll (imports : Bool) (place : Enclosing) : List Part → Survey → Except Fault Survey
  | [], s => .ok s
  | item :: rest, s => do enterAll imports place rest (← enter imports place item s)

end

/-- The survey of a program, with or without its imports. -/
def ofProgram (program : Module) (imports : Bool := true) : Except Fault Survey :=
  enterAll imports {} (outline program) {}

/-- The attributes of a class, if they are known. -/
def attributesOf (s : Survey) (cls : String) : Option Attributes := s.attributes.get? cls

end Survey
end TypeFlow.UserType
