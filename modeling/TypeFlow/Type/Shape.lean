import TypeFlow.Store.Basic
import TypeFlow.Vocabulary.Standard

/-! # Type expressions

Reading a written type such as `Dict[str, List[int]]`. A union stands for the list of its
members and an optional type for its content and `None`, so an expression denotes a list of
types. -/

namespace TypeFlow

/-- A type that has been read but has no cell yet. -/
inductive Shape where
  | mk (name : String) (category : Category) (elements keys values : List Shape)
deriving Inhabited

namespace Shape

def name : Shape → String
  | .mk n .. => n

def category : Shape → Category
  | .mk _ c .. => c

def leaf (name : String) (category : Category) : Shape := .mk name category [] [] []

def brackets (c : Char) (s : List Char) : Nat := s.count c

/-- Join the pieces between commas so that each part has as many opening as closing brackets,
counted from the start. Unbalanced rests are dropped. -/
def balanced (cur : List Char) (opened closed : Nat) :
    List (List Char) → List (List Char)
  | [] => []
  | s :: rest =>
    let cur := cur ++ s
    let opened := opened + brackets '[' s
    let closed := closed + brackets ']' s
    if opened = closed then cur :: balanced [] opened closed rest
    else balanced (cur ++ [',']) opened closed rest

/-- The arguments between the brackets of a type expression. -/
def arguments (inner : List Char) : List (List Char) :=
  balanced [] 0 0 (Text.piecesFrom [','] 0 [] inner)

/-- Spaces and some module names have no meaning, nor have brackets around the whole. -/
def strip (s : String) : String :=
  let s := Text.replace (Text.replace (Text.replace s " " "") "builtins." "")
    "typing_extensions." "typing."
  match s.toList with
  | '[' :: rest =>
    if 2 < rest.length + 1 && rest.getLast? == some ']' then String.ofList rest.dropLast else s
  | _ => s

/-- The text between the first opening and the last closing bracket. -/
def innerText (cs : List Char) : List Char :=
  let start := cs.takeWhile (· != '[')
  let tail := (cs.reverse.dropWhile (· != ']')).drop 1
  (cs.take tail.length).drop (start.length + 1)

/-- Read an expression with brackets by its head; `read` reads the arguments. -/
def readHeaded (read : List Char → List Shape) (s : String) : List Shape :=
  let cs := s.toList
  let head := Text.lower (String.ofList (cs.takeWhile (· != '[')))
  let inner := innerText cs
  if Text.has head "union" then (arguments inner).flatMap read
  else if Text.has head "optional" then read inner ++ [leaf "None" .builtin]
  else
    match Vocabulary.denoted? head with
    | some name =>
      if Text.has head "dict" || Text.has head "mapping" || Text.has head "callable" then
        if inner.contains ',' then
          match arguments inner with
          | [] => [leaf name .builtin]
          | key :: rest => [.mk name .builtin [] (read key) (rest.flatMap read)]
        else []
      else [.mk name .builtin ((arguments inner).flatMap read) [] []]
    | none => [leaf (Text.replace (Text.replace s "[typing.Any]" "") "[typing.any]" "") .user]

/-- Read a stripped expression; `read` reads the arguments. -/
def readStripped (read : List Char → List Shape) (s : String) : List Shape :=
  let lower := Text.lower s
  if s.isEmpty || 500 < s.length then []
  else if (lower == "union" || lower == "typing.union") && !s.contains '[' then []
  else
    match Vocabulary.denoted? lower with
    | some name => [leaf name .builtin]
    | none =>
      if s.contains '[' && s.contains ']' then readHeaded read (Text.replace s "t." "typing.")
      else [leaf s .user]

/-- Read a type expression with at most the given nesting of brackets. -/
def readNested : Nat → String → List Shape
  | 0, _ => []
  | n + 1, s => readStripped (fun part => readNested n (String.ofList part)) (strip s)

/-- Read a type expression without a check of the result. -/
def readAny (s : String) : List Shape :=
  readNested (brackets '[' s.toList + 1) s

mutual

/-- A user type whose name holds a bracket, at any depth. -/
def hasBracket : Shape → Bool
  | .mk name category elements keys values =>
    (category == .user && (name.contains '[' || name.contains ']')) ||
      anyBracket elements || anyBracket keys || anyBracket values

/-- Some shape has a user type whose name holds a bracket. -/
def anyBracket : List Shape → Bool
  | [] => false
  | s :: rest => hasBracket s || anyBracket rest

end

/-- Read a type expression. Brackets that do not pair up make it unreadable. -/
def read (s : String) : List Shape :=
  if brackets '[' s.toList ≠ brackets ']' s.toList then []
  else
    let shapes := readAny s
    if anyBracket shapes then [] else shapes

def classify (s : String) : Option String :=
  match read s with
  | [] => none
  | .mk _ category elements keys values :: _ =>
    if category == .builtin then
      if elements.isEmpty && keys.isEmpty && values.isEmpty then some "simple"
      else some "generic"
    else if category == .user then some "user-defined"
    else none

mutual

def alloc : Shape → Typing TypeId
  | .mk name category elements keys values => do
    let elements ← allocRow elements
    let keys ← allocRow keys
    let values ← allocRow values
    Eval.newCell
      { name, category, elements, keys, values
        compatible := TypeCell.compatibleNames name }

/-- Make the cells of types, in one row. -/
def allocRow (shapes : List Shape) : Typing RowId := do
  Eval.newRow (← allocAll shapes)

def allocAll : List Shape → Typing (List Entry)
  | [] => return []
  | s :: rest => do
    let t ← alloc s
    return .type t :: (← allocAll rest)

end

end Shape

/-- Read a type expression and make its cells. -/
def Eval.readTypes (s : String) : Typing (List Entry) := Shape.allocAll (Shape.read s)

end TypeFlow
