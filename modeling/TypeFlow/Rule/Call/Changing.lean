import TypeFlow.Rule.Basic

/-! # Calls of methods that change their receiver

The result of such a call is the type of the receiver afterwards. -/

namespace TypeFlow.Rule

open Eval

/-- The entries that are like one of the named types, and the rest. -/
def sortOut (names : List String) (entries : List Entry) :
    Typing (List Entry × List Entry) := do
  let mut taken : List Entry := []
  let mut rejected : List Entry := []
  for e in entries do
    if ← isLike names e then taken := taken ++ [e] else rejected := rejected ++ [e]
  return (taken, rejected)

/-- The elements of all lists among entries in one new list, and what is not a list. -/
def gatherLists (entries : List Entry) : Typing (TypeId × List Entry) := do
  let t ← newType "List"
  let (lists, rejected) ← sortOut ["List"] entries
  for e in lists do extend (← type t).elements (← elementsOf e)
  return (t, rejected)

/-- A list with the arguments at its end. A receiver that is no list at all stays as it is. -/
def appendCall (operands : List Operand) : Ruling := do
  let target ← (← first operands).types
  let (t, rejected) ← gatherLists target
  for o in operands.drop 1 do extendByKind (← type t).elements (← o.types)
  answer (rejected :: nothing (operands.drop 1))
    (if rejected.length = target.length then target else [.type t])

/-- A container without contents. -/
def clearCall (operands : List Operand) : Ruling := do
  let (taken, rejected) ← sortOut ["List", "Dict", "set"] (← (← first operands).types)
  let outs ← taken.mapM fun e => do return .type (← newType (← cellOf e).name)
  answer (rejected :: nothing (operands.drop 1)) outs

/-- Add a built-in type to a row unless it is there. -/
def extendByName (r : RowId) (name : String) : Typing Unit := do
  if !(← nameInRow name r) then append r (.type (← newType name))

/-- Add to a row what an argument ranges over. -/
def extendByItems (r : RowId) (e : Entry) : Typing Unit := do
  if ← isLike ["list", "tuple", "set", "frozenset", "Generator"] e then
    extendByKind r (← elementsOf e)
  else if ← isLike ["str", "IO"] e then extendByName r "str"
  else if ← isLike ["bytes", "bytearray"] e then extendByName r "bytes"
  else if ← isLike ["Dict"] e then extendByKind r (← keysOf e)

def extensions : List String :=
  ["List", "Tuple", "str", "bytes", "bytearray", "Set", "frozenset", "Dict", "Generator", "IO"]

/-- A list with the items of the arguments at its end. All arguments share what is rejected of
any of them. -/
def extendCall (operands : List Operand) : Ruling := do
  let (t, rejected) ← gatherLists (← (← first operands).types)
  let elements := (← type t).elements
  let mut bad : List Entry := []
  for o in operands.drop 1 do
    for e in ← o.types do
      if !(← isLike extensions e) then bad := bad ++ [e]
      extendByItems elements e
  answer (rejected :: (operands.drop 1).map fun _ => bad) [.type t]

/-- A list with the arguments inserted. The position is checked apart from the arguments. -/
def insertCall (operands : List Operand) : Ruling := do
  let (t, rejected) ← gatherLists (← (← first operands).types)
  let position ← match operands with
    | _ :: o :: _ => do pure [← unlike ["int", "bool"] (← o.types)]
    | _ => pure []
  for o in operands.drop 1 do extendByKind (← type t).elements (← o.types)
  answer (rejected :: position ++ nothing (operands.drop 1)) [.type t]

/-- The container from which an item was taken. -/
def popCall (operands : List Operand) : Ruling := do
  let (taken, rejected) ← sortOut ["List", "Dict", "Set"] (← (← first operands).types)
  answer (rejected :: nothing (operands.drop 1)) taken

/-- Copies of the containers from which an item was removed, the last one twice. -/
def removeCall (operands : List Operand) : Ruling := do
  let (taken, rejected) ← sortOut ["List", "Set"] (← (← first operands).types)
  let copies ← taken.mapM fun e => do return Entry.type (← copyType (← e.asType))
  answer (rejected :: nothing (operands.drop 1)) (copies ++ copies.getLast?.toList)

/-- A copy of the last entry that is like one of the named types, and what is rejected. -/
def copyOfLast (names : List String) (entries : List Entry) :
    Typing (Option TypeId × List Entry) := do
  let (taken, rejected) ← sortOut names entries
  match taken.getLast? with
  | some e => return (some (← copyType (← e.asType)), rejected)
  | none => return (none, rejected)

/-- The answer with a copy, if there is one. -/
def answerCopy (rejected : List (List Entry)) (copy : Option TypeId) : Ruling :=
  answer rejected (copy.map Entry.type).toList

/-- Types that a set or a mapping can be updated from. -/
def updates : List String :=
  ["List", "Tuple", "range", "str", "bytes", "bytearray", "Set", "frozenset", "Dict", "IO"]

/-- Update a set or a mapping from one type of the argument. -/
def updateStep (t : TypeId) (e : Entry) : Typing Unit := do
  if ← isLike ["str", "IO"] e then extendByName (← type t).elements "str"
  else if ← isLike ["bytes", "bytearray"] e then extendByName (← type t).elements "bytes"
  else if ← isLike ["Dict"] (.type t) then
    extend (← type t).keys (← keysOf e)
    extend (← type t).values (← valuesOf e)
    modifyType t fun c => { c with elements := c.keys }
  else extend (← type t).elements (← elementsOf e)

/-- A set or a mapping with the contents of the argument added. -/
def updateCall (operands : List Operand) : Ruling := do
  match operands with
  | [] => silent operands
  | target :: arguments => do
    let (copy, rejected) ← copyOfLast ["Dict", "Set"] (← target.types)
    match arguments, copy with
    | o :: rest, some t => do
      let mut bad : List Entry := []
      for e in ← o.types do
        if !(← isLike updates e) then bad := bad ++ [e] else updateStep t e
      answerCopy (rejected :: bad :: nothing rest) copy
    | _, _ => answerCopy (rejected :: nothing arguments) copy

/-- A set cut down to what it shares with the arguments. -/
def intersectionCall (operands : List Operand) : Ruling := do
  let (copy, rejected) ← copyOfLast ["Set"] (← (← first operands).types)
  let bad ← (operands.drop 1).mapM fun o => do unlike ["Set"] (← o.types)
  answerCopy (rejected :: bad) copy

/-- A set without what is in the argument. -/
def differenceCall (operands : List Operand) : Ruling := do
  let (copy, rejected) ← copyOfLast ["Set"] (← (← first operands).types)
  let bad ← unlike ["Set"] (← (← second operands).types)
  answerCopy (rejected :: bad :: nothing (operands.drop 2)) copy

/-- A set with the arguments added. -/
def addCall (operands : List Operand) : Ruling := do
  let (copy, rejected) ← copyOfLast ["Set"] (← (← first operands).types)
  for o in operands.drop 1 do
    let entries ← o.types
    match copy with
    | some t => extendByKind (← type t).elements entries
    | none => pure ()
  answerCopy (rejected :: nothing (operands.drop 1)) copy

/-- A set together with what only the argument holds. Elements are told apart by name. -/
def symmetricDifferenceCall (operands : List Operand) : Ruling := do
  let (copy, rejected) ← copyOfLast ["Set"] (← (← first operands).types)
  let mut bad : List Entry := []
  for e in ← (← second operands).types do
    if !(← isLike ["Set"] e) then bad := bad ++ [e]
    else
      for element in ← elementsOf e do
        let name := (← cellOf element).name
        let t ← require copy .missingProperty
        let elements := (← type t).elements
        if !(← nameInRow name elements) then append elements element
  answerCopy (rejected :: bad :: nothing (operands.drop 2)) copy

/-- The pair that was taken out of a mapping. -/
def popItemCall (operands : List Operand) : Ruling := do
  let t ← newType "Tuple"
  let (taken, rejected) ← sortOut ["Dict"] (← (← first operands).types)
  for e in taken do
    extend (← type t).elements (← keysOf e)
    extend (← type t).elements (← valuesOf e)
  answer (rejected :: nothing (operands.drop 1)) [.type t]

/-- The values of the mappings among entries, and what is rejected. -/
def mappingValues (entries : List Entry) : Typing (List Entry × List Entry) := do
  let (taken, rejected) ← sortOut ["Dict"] entries
  let values ← taken.mapM valuesOf
  return (values.flatten.filter (· ≠ .absent), rejected)

/-- The value of a key, or the default that is put there. -/
def setDefaultCall (operands : List Operand) : Ruling := do
  let (values, rejected) ← mappingValues (← (← first operands).types)
  let outs ← match operands with
    | [_, _, o] => do (← o.types).foldlM addNew values
    | _ => pure values
  answer (rejected :: nothing (operands.drop 1)) outs

def changingCall (name : String) (operands : List Operand) : Ruling :=
  match name with
  | "append" => appendCall operands
  | "clear" => clearCall operands
  | "extend" => extendCall operands
  | "insert" => insertCall operands
  | "pop" => popCall operands
  | "remove" | "discard" => removeCall operands
  | "update" => updateCall operands
  | "intersection_update" => intersectionCall operands
  | "difference_update" => differenceCall operands
  | "add" => addCall operands
  | "symmetric_difference_update" => symmetricDifferenceCall operands
  | "popitem" => popItemCall operands
  | "setdefault" => setDefaultCall operands
  | _ => silent operands

end TypeFlow.Rule
