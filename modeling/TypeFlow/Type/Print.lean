import TypeFlow.Type.Simplify

/-! # Printing types

A type is tidied and simplified before it is printed, which changes its cells. Several element
types are printed as a union. -/

namespace TypeFlow.Eval

/-- Print types one after the other, separated by commas. -/
def printedList (print : Entry → Typing String) (entries : List Entry) : Typing String := do
  return Text.join "," (← entries.mapM print)

def printSide (print : Entry → Typing String) (entries : List Entry) : Typing String := do
  match entries with
  | [] => return ""
  | [e] => print e
  | _ => return "typing.Union[" ++ (← printedList print entries) ++ "]"

def nameOf (e : Entry) : Typing String := return (← type (← e.asType)).name

/-- Print the elements of a container. Two elements of which one is `None` are an optional. -/
def printElements (print : Entry → Typing String) (entries : List Entry) : Typing String := do
  match entries with
  | [a, b] => do
    let first ← nameOf a
    let isOptional ← if first = "None" then pure true else pure ((← nameOf b) == "None")
    if isOptional then
      let mut inner := ""
      if (← nameOf a) ≠ "None" then inner := inner ++ (← print a)
      if (← nameOf b) ≠ "None" then inner := inner ++ (← print b)
      return "typing.Optional[" ++ inner ++ "]"
    else printSide print entries
  | _ => printSide print entries

/-- Print a type that has been simplified; `print` prints its contents. -/
def printCell (print : Entry → Typing String) (t : TypeId) : Typing String := do
  let c ← type t
  if c.category ≠ .builtin then return c.name
  let lower := Text.lower c.name
  match Vocabulary.printed? lower with
  | none => throw (.rejectedKind ("Unknown type: " ++ c.name))
  | some form =>
    let elements ← row c.elements
    let keys ← row c.keys
    let values ← row c.values
    if lower ∈ ["dict", "callable"] ∧ 0 < keys.length + values.length then
      let k ← printSide print keys
      let v ← printSide print values
      return form ++ "[" ++ k ++ ", " ++ v ++ "]"
    else if lower ∈ ["set", "tuple", "list", "awaitable", "iterable", "sequence", "generator"]
        ∧ 0 < elements.length then
      return form ++ "[" ++ (← printElements print elements) ++ "]"
    else if lower = "optional" ∧ 0 < elements.length then
      match elements with
      | [e] => return form ++ "[" ++ (← print e) ++ "]"
      | _ => return form ++ "[typing.Union[" ++ (← printedList print elements) ++ "]"
    else if lower = "union" ∧ 0 < elements.length then
      return form ++ "[" ++ (← printedList print elements) ++ "]"
    else return form

def printTo : Nat → Entry → Typing String
  | 0, _ => throw .tooDeep
  | n + 1, .type t => do
    tidy t
    simplify t
    printCell (printTo n) t
  | _, _ => throw (.rejectedKind "t should be a TypeObject.")

def print (e : Entry) : Typing String := do printTo (← store).depth e

/-- Print the types of a row, numbered and with their categories. -/
def printNumbered (e : Entry) : Typing String := do
  match e with
  | .group r =>
    let entries ← row r
    let mut text := "Possible Types \x7b"
    for (t, i) in entries.zipIdx 1 do
      let category := (← type (← t.asType)).category
      text := text ++ " " ++ toString i ++ "." ++ category.text ++ "- " ++ (← print t)
    return text ++ " \x7d"
  | _ => throw (.rejectedKind "tlist must be a list of TypeObject.")

def printUnion (e : Entry) : Typing String := do
  match e with
  | .group r => return "Union[" ++ (← printedList print (← row r)) ++ "]"
  | _ => throw (.rejectedKind "tlist must be a list of TypeObject.")

/-- The contents of a type with the rows printed, one to a line. -/
def describe (e : Entry) : Typing String := do
  let t ← e.asType
  let elements ← printNumbered (.group (← type t).elements)
  let keys ← printNumbered (.group (← type t).keys)
  let values ← printNumbered (.group (← type t).values)
  return "Type: " ++ (← type t).name ++ "\nElement Type:" ++ elements ++ "\nKey Type:" ++ keys ++
    "\nValue Type:" ++ values ++ "\n"

end TypeFlow.Eval

namespace TypeFlow

mutual

/-- The full contents of a type as text. -/
def Ty.outline {m : Type → Type} [Monad m] [MonadExceptOf Fault m] : Ty → m String
  | .mk _ name _ elements keys values => do
    let e ← elements.outline
    let k ← keys.outline
    let v ← values.outline
    return "@Type: " ++ name ++ ", Element Type: [" ++ e ++ "], Key Type: [" ++ k ++
      "], Value Type: [" ++ v ++ "]@"

def Row.outline {m : Type → Type} [Monad m] [MonadExceptOf Fault m] : Row → m String
  | .mk _ items => Item.outlines items

def Item.outlines {m : Type → Type} [Monad m] [MonadExceptOf Fault m] : List Item → m String
  | [] => return ""
  | .type t :: rest => do
    let first ← t.outline
    return first ++ " [SEP] " ++ (← Item.outlines rest)
  | _ :: _ => throw .missingProperty

end

namespace Eval

/-- The full contents of a type as text. -/
def outline (e : Entry) : Typing String := do
  (← Ty.ofItem (m := Typing) (← treeOfEntry e)).outline

/-- The full contents of types as text, numbered from 0. -/
def outlines (entries : List Entry) : Typing String := do
  let mut text := ""
  for (e, i) in entries.zipIdx do
    text := text ++ toString i ++ " - " ++ (← outline e) ++ " \n"
  return text

end Eval
end TypeFlow
