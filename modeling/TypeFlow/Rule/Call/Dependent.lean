import TypeFlow.Rule.Call.Changing
import TypeFlow.Rule.Operator

/-! # Calls whose result depends on the arguments

Views of mappings, conversions between containers, numbers, extremes and sums. A conversion
takes the element row of its argument over, so that both containers share it. -/

namespace TypeFlow.Rule

open Eval Vocabulary

/-- Copying a container gives the same type. -/
def copyCall (operands : List Operand) : Ruling := do
  let (taken, rejected) ← sortOut ["List", "Dict", "Set"] (← (← first operands).types)
  answer (rejected :: nothing (operands.drop 1)) taken

def view (elements : List Entry) : Typing TypeId := do
  let outer ← newType "set"
  let inner ← containerOf "List" elements
  append (← type outer).elements (.type inner)
  return outer

/-- A view on each mapping among the types of the receiver. -/
def viewCall (contents : Entry → Typing (List Entry)) (operands : List Operand) : Ruling := do
  let (taken, rejected) ← sortOut ["Dict"] (← (← first operands).types)
  let outs ← taken.mapM fun e => do return Entry.type (← view (← contents e))
  answer (rejected :: nothing (operands.drop 1)) outs

def pairs (e : Entry) : Typing (List Entry) := do
  let mut outs : List Entry := []
  for k in ← keysOf e do
    for v in ← valuesOf e do outs := outs ++ [.type (← containerOf "Tuple" [k, v])]
  return outs

/-- The value of a key, if there is one. -/
def getCall (operands : List Operand) : Ruling := do
  let (values, rejected) ← mappingValues (← (← first operands).types)
  answer (rejected :: nothing (operands.drop 1)) values

/-- An absolute value keeps the type of a number. -/
def absoluteCall (operands : List Operand) : Ruling := do
  let (taken, rejected) ← sortOut numbers (← (← first operands).types)
  answer (rejected :: nothing (operands.drop 1)) (← taken.foldlM addNew [])

/-- Quotient and remainder as a pair. -/
def divmodCall (operands : List Operand) : Ruling := do
  let left ← first operands
  let right ← second operands
  let ls ← left.types
  let rs ← right.types
  let l ← widest id ls
  let r ← widest id rs
  match ← arithmetic (if l < 2 ∧ r < 2 then "%" else "/") left right with
  | some ⟨rejected, .row outs⟩ => do
    let t ← newType "Tuple"
    buildTuple t outs
    answerOne rejected t
  | _ => return none

/-- What a loop over an entry gives: keys of mappings, elements of containers, and texts and byte
strings themselves. -/
def loopItems (e : Entry) : Typing (List Entry) := do
  if ← isLike ["Dict"] e then keysOf e
  else if ← isLike ["Text", "bytes", "bytearray"] e then return [e]
  else elementsOf e

/-- The items of all that can be looped over, and the rest. -/
def allLoopItems (entries : List Entry) : Typing (List Entry × List Entry) := do
  let mut rejected : List Entry := []
  let mut items : List Entry := []
  for e in entries do
    if !(← isLike iterables e) then rejected := rejected ++ [e]
    else items := items ++ (← loopItems e)
  return (items, rejected)

/-- A generator of pairs of a number and an item. -/
def enumerateCall (operands : List Operand) : Ruling := do
  match operands with
  | o :: rest => do
    if 1 < rest.length then silent operands
    else
      let (items, rejected) ← allLoopItems (← o.types)
      let bad ← rest.mapM fun o => do unlike ["bool", "int"] (← o.types)
      let t ← newType "Generator"
      for e in items do
        let number ← newType "int"
        append (← type t).elements (.type (← containerOf "Tuple" [.type number, e]))
      answer (rejected :: bad) [.type t]
  | [] => silent operands

/-- Rounding to an integer, or with a number of digits to a float. In the second form both
arguments share what is rejected of either. -/
def roundCall (operands : List Operand) : Ruling := do
  match operands with
  | [o] => do
    let t ← newType "int"
    answer [← unlike numbers (← o.types)] [.type t]
  | [o, digits] => do
    let ls ← o.types
    let rs ← digits.types
    let t ← newType "float"
    let bad := (← unlike numbers ls) ++ (← unlike ["bool", "int"] rs)
    answer [bad, bad] [.type t]
  | _ => return none

def sortedCall (operands : List Operand) : Ruling := do
  let t ← newType "List"
  let (items, rejected) ← allLoopItems (← (← first operands).types)
  extend (← type t).elements items
  answer (rejected :: nothing (operands.drop 1)) [.type t]

/-- The level of a number that is written in its standard form; other types have none. -/
def level? (e : Entry) : Typing (Option Nat) := do
  if ← isLike numbers e then return some (← numberLevel (← cellOf e).name) else return none

def numberAt (n : Nat) : String := numbers.getD n "complex"

/-- The sum of all elements is of the widest of their types. -/
def sumCall (operands : List Operand) : Ruling := do
  let mut rejected : List Entry := []
  let mut level : Option Nat := none
  for e in ← (← first operands).types do
    if !(← isLike iterables e) then rejected := rejected ++ [e]
    for element in ← elementsOf e do
      let n? ← level? element
      level := some <| match level with
        | none => n?.getD 0
        | some n => max (n?.getD 1) n
  let t ← newType (numberAt (level.getD 0))
  answer (rejected :: nothing (operands.drop 1)) [.type t]

/-- A container that takes over the element row of each argument type in turn; texts and byte
strings are put into the row that it has at that point. -/
def converted (name : String) (entries : List Entry) : Typing (TypeId × List Entry) := do
  let t ← newType name
  let mut rejected : List Entry := []
  for e in entries do
    if !(← isLike iterables e) then rejected := rejected ++ [e]
    else if ← isLike ["Dict"] e then
      let keys := (← cellOf e).keys
      modifyType t fun c => { c with elements := keys }
    else if ← isLike ["Text", "bytes", "bytearray"] e then append (← type t).elements e
    else
      let elements := (← cellOf e).elements
      modifyType t fun c => { c with elements }
  return (t, rejected)

/-- Conversion to a tuple; further arguments are not looked at. -/
def tupleCall (operands : List Operand) : Ruling := do
  match operands with
  | [] => do answer [] [.type (← newType "Tuple")]
  | o :: _ => do
    let (t, rejected) ← converted "Tuple" (← o.types)
    answerOne [rejected] t

def listCall (operands : List Operand) : Ruling := do
  match operands with
  | [] => do answer [] [.type (← newType "List")]
  | [o] => do
    let (t, rejected) ← converted "List" (← o.types)
    answerOne [rejected] t
  | _ => silent operands

def setCall (operands : List Operand) : Ruling := do
  match operands with
  | [] => do answer [] [.type (← newType "Set")]
  | [o] => do
    let (t, rejected) ← converted "Set" (← o.types)
    answer [rejected] [.type t]
  | _ => silent operands

/-- Conversion to a frozen set, which is treated as a set unless it is empty. -/
def frozenSetCall (operands : List Operand) : Ruling := do
  match operands with
  | [] => do answer [] [.type (← newType "frozenset")]
  | o :: _ => do
    let (t, rejected) ← converted "Set" (← o.types)
    answer [rejected] [.type t]

/-- The type of a value shares the row of the value's types. With three arguments a new class is
made. -/
def typeCall (operands : List Operand) : Ruling := do
  match operands with
  | [o] => do
    let t ← newType "type"
    let elements ← o.row
    modifyType t fun c => { c with elements }
    answer [[]] [.type t]
  | [name, bases, space] => do
    let nr ← unlike ["str"] (← name.types)
    let br ← unlike ["tuple"] (← bases.types)
    let sr ← unlike ["dict"] (← space.types)
    answer [nr, br, sr] [.type (← newType "type")]
  | _ => silent operands

def nextCall (operands : List Operand) : Ruling := do
  match operands with
  | [o] => do
    let (taken, rejected) ← sortOut ["Generator"] (← o.types)
    let outs ← match taken.getLast? with
      | some e => elementsOf e
      | none => pure []
    answer [rejected] outs
  | _ => silent operands

/-- The extreme item of one argument: of a container, its first element. -/
def extremeItem (o : Operand) : Ruling := do
  let mut rejected : List Entry := []
  let mut outs : List Entry := []
  for e in ← o.types do
    if !(← isLike iterables e) then rejected := rejected ++ [e]
    else if ← isLike ["Dict"] e then outs := outs ++ (← keysOf e)
    else if ← isLike ["Text", "bytes", "bytearray"] e then outs := outs ++ [e]
    else outs := outs ++ ((← elementsOf e).head?.filter (· ≠ .absent)).toList
  answer [rejected] outs

/-- What is known of the extreme of several arguments: the types so far and the range of levels
of plain arguments. -/
structure ExtremeState where
  outs : List Entry := []
  levels : Option (Nat × Nat) := none

/-- Widen a range of levels by one plain type, low end first. -/
def widen (levels : Option (Nat × Nat)) (level : Option Nat) : Nat × Nat :=
  match levels, level with
  | none, some n => (n, n)
  | none, none => (1, 1)
  | some (low, high), some n => (min n low, max n high)
  | some (low, high), none => (max 1 low, max 1 high)

/-- Walk the types of all arguments. A mapping settles the result at once. -/
def extremeStep (state : ExtremeState) : List Entry → Typing (Except (List Entry) ExtremeState)
  | [] => return .ok state
  | e :: rest => do
    if !(← isLike iterables e) then
      let level ← level? e
      extremeStep { state with levels := some (widen state.levels level) } rest
    else if ← isLike ["Dict"] e then
      return .error (state.outs ++ (← keysOf e))
    else extremeStep { state with outs := ← addNew state.outs e } rest

/-- Walk the arguments one after the other. -/
def extremeWalk (state : ExtremeState) : List Operand → Typing (Except (List Entry) ExtremeState)
  | [] => return .ok state
  | o :: rest => do
    match ← extremeStep state (← o.types) with
    | .ok state => extremeWalk state rest
    | .error outs => return .error outs

/-- The extreme of the arguments, or of the items of a single one. Numbers between the lowest and
the highest level found are all possible. -/
def extremeCall (operands : List Operand) : Ruling := do
  let _ ← (← first operands).types
  match operands with
  | [o] => extremeItem o
  | _ => do
    match ← extremeWalk {} operands with
    | .error outs => answer (nothing operands) outs
    | .ok state => do
      let plain ← match state.levels with
        | none => pure []
        | some (low, high) =>
          (List.range' low (high + 1 - low)).mapM fun n => do
            return Entry.type (← newType (numberAt n) (.label "0"))
      answer (nothing operands) (state.outs ++ plain)

def dependentMethod (name : String) (operands : List Operand) : Ruling :=
  match name with
  | "copy" => copyCall operands
  | "items" => viewCall pairs operands
  | "keys" => viewCall keysOf operands
  | "values" => viewCall valuesOf operands
  | "get" => getCall operands
  | "enumerate" => enumerateCall operands
  | _ => silent operands

def dependentFunction (name : String) (operands : List Operand) : Ruling :=
  match name with
  | "abs" => absoluteCall operands
  | "divmod" => divmodCall operands
  | "enumerate" => enumerateCall operands
  | "round" => roundCall operands
  | "sorted" => sortedCall operands
  | "sum" => sumCall operands
  | "tuple" => tupleCall operands
  | "list" => listCall operands
  | "set" => setCall operands
  | "frozenset" => frozenSetCall operands
  | "type" => typeCall operands
  | "next" => nextCall operands
  | "max" | "min" => extremeCall operands
  | _ => silent operands

end TypeFlow.Rule
