import TypeFlow.Rule.Basic

/-! # Rules of containers

Displays, comprehensions, conversions, membership, iteration, subscripts and destructuring. A
display keeps the types of all its operands, repeated ones too, so that destructuring can tell
them apart. -/

namespace TypeFlow.Rule

open Eval

/-- Conversion to bytes. Sequences and mappings are rejected as far as their contents are not
integers. -/
def toBytes (left : Operand) : Ruling := do
  let ls ← left.types
  let result ← newType "bytes"
  let mut rejected : List Entry := []
  for e in ls do
    if ← isLike ["List", "Tuple", "Set"] e then
      let bad ← unlike ["int", "bool"] (← elementsOf e)
      rejected := rejected ++ [.type (← containerOf (← cellOf e).name bad)]
    else if (← cellOf e).name = "Dict" then
      let bad ← unlike ["int", "bool"] (← keysOf e)
      let t ← newType "Dict"
      extend (← type t).keys bad
      rejected := rejected ++ [.type t]
    else if !(← isLike ["int", "bool"] e) then rejected := rejected ++ [e]
  answerOne [rejected] result

def toText : Ruling := do answerOne [[]] (← newType "Text")

/-- Conversion of something iterable to a container. -/
def toContainer (name : String) (left : Operand) : Ruling := do
  let ls ← left.types
  let result ← newType name
  let elements := (← type result).elements
  let mut rejected : List Entry := []
  for e in ls do
    if !(← isLike Vocabulary.iterables e) then rejected := rejected ++ [e]
    else if ← isLike ["Text"] e then append elements (.type (← newType "Text"))
    else extend elements (← elementsOf e)
  answerOne [rejected] result

def toMapping (left : Operand) : Ruling := do
  let _ ← left.types
  answerOne [[], []] (← newType "Dict")

def typeOf (left : Operand) : Ruling := do
  let _ ← left.types
  answerOne [[]] (← newType "type")

def membership (right : Operand) : Ruling := do
  let rs ← right.types
  let result ← newType "bool"
  answerOne [[], ← unlike Vocabulary.iterables rs] result

/-- The variable of a loop: elements of containers, keys of mappings, texts of texts and files. -/
def iteration (left : Operand) : Ruling := do
  let ls ← left.types
  let mut rejected : List Entry := []
  let mut outs : List Entry := []
  for e in ls do
    if !(← isLike Vocabulary.iterables e) then rejected := rejected ++ [e]
    else if ← isLike ["Text"] e then outs := outs ++ [.type (← newType "Text")]
    else if ← isLike ["Dict"] e then outs := outs ++ (← keysOf e)
    else if ← isLike ["IO"] e then outs := outs ++ [.type (← newType "Text")]
    else outs := outs ++ (← elementsOf e)
  answer [rejected] outs

/-- A list with one more element. -/
def appended (left right : Operand) : Ruling := do
  let ls ← left.types
  let rs ← right.types
  let result ← newType "List"
  let elements := (← type result).elements
  let mut rejected : List Entry := []
  for e in ls do
    if !(← isLike ["List"] e) then rejected := rejected ++ [e]
    else extend elements (← elementsOf e)
  extend elements rs
  answerOne [rejected, []] result

/-- Append to a row in place what has no like in it. -/
def extendNew (r : RowId) (entries : List Entry) : Typing Unit :=
  entries.forM fun e => do
    if !(← existSame e (← Eval.row r)) then append r e

/-- What an index into a list cannot be. -/
def badIndexes (targets indexes : List Entry) : Typing (List Entry) := do
  if ← existType (.text "List") targets then unlike ["int", "bool"] indexes else return []

def assignedItem (e : Entry) (indexes values : List Entry) : Typing (Option Entry) := do
  if ← isLike ["List"] e then
    let t ← containerOf "List" (← elementsOf e)
    extendNew (← type t).elements values
    return some (.type t)
  else if ← isLike ["Dict"] e then
    let t ← newType "Dict"
    extend (← type t).keys (← keysOf e)
    extend (← type t).values (← valuesOf e)
    extendNew (← type t).keys indexes
    extendNew (← type t).values values
    return some (.type t)
  else if (← categoryOf e) = .user then return some e
  else return none

/-- Assignment to an item. Without a value the contents of the container become unknown. -/
def itemWrite (operands : List Operand) : Ruling := do
  match operands with
  | [target, index] => do
    let ts ← target.types
    let is ← index.types
    let ir ← badIndexes ts is
    let mut tr : List Entry := []
    let mut outs : List Entry := []
    for e in ts do
      if !(← isLike ["Dict", "List"] e) then tr := tr ++ [e]
      else if ← isLike ["List"] e then outs := outs ++ [.type (← newType "List")]
      else if ← isLike ["Dict"] e then outs := outs ++ [.type (← newType "Dict")]
    answer [tr, ir] outs
  | target :: index :: value :: rest => do
    let ts ← target.types
    let is ← index.types
    let vs ← value.types
    let ir ← badIndexes ts is
    let mut tr : List Entry := []
    let mut outs : List Entry := []
    for e in ts do
      let cell ← cellOf e
      if cell.name ∉ ["Dict", "List"] ∧ cell.category ≠ .user then tr := tr ++ [e]
      else
        match ← assignedItem e is vs with
        | some t => outs := outs ++ [t]
        | none => pure ()
    answer ([tr, ir, []] ++ nothing rest) outs
  | _ => return none

/-- What an index of a read cannot be: nothing is ruled out for a mapping, and lists, tuples and
texts take integers. -/
def badReadIndexes (targets : List Entry) (indexes : List (List Entry)) :
    Typing (List (List Entry)) := do
  if ← existType (.text "Dict") targets then return nothing indexes
  let sequential ←
    if ← existType (.text "List") targets then pure true
    else if ← existType (.text "Tuple") targets then pure true
    else existType (.text "Text") targets
  if sequential then indexes.mapM (unlike ["int", "bool"]) else return nothing indexes

/-- The items of a container. Texts consist of texts; `whole` says that a text gives itself, as
byte strings then do too. -/
def itemsOf (whole : Bool) (e : Entry) : Typing (List Entry) := do
  if whole then
    if ← isLike ["Text", "bytes", "bytearray"] e then return [e]
  else
    if ← isLike ["Text"] e then return [.type (← newType "Text")]
  if ← isLike ["Dict"] e then valuesOf e
  else elementsOf e

/-- The items of those containers that take an index, and the rest. -/
def itemsOfAll (whole : Bool) (targets : List Entry) : Typing (List Entry × List Entry) := do
  let mut rejected : List Entry := []
  let mut outs : List Entry := []
  for e in targets do
    if !(← isLike Vocabulary.subscriptables e) then rejected := rejected ++ [e]
    else outs := outs ++ (← itemsOf whole e)
  return (rejected, ← distinct outs)

/-- Reading an item or a slice, with up to three indexes. -/
def itemRead (operands : List Operand) : Ruling := do
  match operands with
  | [] => return none
  | [target] => do
    let ts ← target.types
    let (tr, outs) ← itemsOfAll true ts
    answer [tr] outs
  | target :: indexes => do
    if 3 < indexes.length then return none
    let ts ← target.types
    let is ← indexes.mapM Operand.types
    let ir ← badReadIndexes ts is
    let (tr, outs) ← itemsOfAll (indexes.length < 3) ts
    answer (tr :: ir) outs

/-- All types of operands, one after the other. -/
def allTypes (operands : List Operand) : Typing (List Entry) := do
  return (← operands.mapM Operand.types).flatten

def display (name : String) (operands : List Operand) : Ruling := do
  let t ← containerOf name (← allTypes operands)
  answer (nothing operands) [.type t]

/-- A mapping with given keys and values; its keys are its elements. -/
def mappingOf (keys values : List Entry) : Typing TypeId := do
  let t ← containerOf "Dict" keys
  modifyType t fun c => { c with keys := c.elements }
  extend (← type t).values values
  return t

/-- A display of a mapping: the first half of the operands are keys, the rest values. -/
def mappingDisplay (operands : List Operand) : Ruling := do
  let half := operands.length / 2
  let keys ← allTypes (operands.take half)
  let values ← allTypes (operands.drop half)
  let t ← mappingOf keys values
  answer (nothing operands) [.type t]

/-- A text put together from parts. -/
def joinedText (operands : List Operand) : Ruling := do
  match operands with
  | [] => answer [] []
  | _ => answer (nothing operands) [.type (← newType "Text")]

def comprehension (name : String) (operands : List Operand) : Ruling := do
  match operands with
  | [o] => do
    let t ← containerOf name (← o.types)
    answer [[]] [.type t]
  | _ => silent operands

def mappingComprehension (operands : List Operand) : Ruling := do
  match operands with
  | [key, value] => do
    let ks ← key.types
    let vs ← value.types
    let t ← mappingOf ks vs
    answer [[], []] [.type t]
  | _ => return none

def yielding (operands : List Operand) : Ruling := do
  let t ← newType "Generator"
  let elements := (← type t).elements
  for o in operands do extendNew elements (← o.types)
  answer (nothing operands) [.type t]

def choice (operands : List Operand) : Ruling := do
  if operands.length ≠ 2 then
    throw (.rejectedValue
      ("IfExp requires 2 arguements, currently get " ++ toString operands.length))
  let mut outs : List Entry := []
  for o in operands do outs ← (← o.types).foldlM addNew outs
  answer [[], []] outs

/-- The elements of all entries, each of which has to be a type. -/
def allElements (entries : List Entry) : Typing (List Entry) := do
  return (← entries.mapM elementsOf).flatten

def inputs (o : Operand) : Typing (List NodeId) := return (← o.asNode).ins.filterMap id

/-- The elements of the types of those inputs that `take` picks. -/
def inputElements (take : NodeKind → Bool) (o : Operand) : Typing (List Entry) := do
  let mut outs : List Entry := []
  for n in ← inputs o do
    let node ← Eval.node n
    if take node.kind then outs := outs ++ (← allElements (← Eval.row node.types))
  return outs

def listUnpacking (operands : List Operand) : Ruling := do
  match operands with
  | [o] => do answer [[]] (← distinct (← inputElements (·.symbol?.isSome) o))
  | _ => throw (.rejectedValue "The length of input nodes for ListWrite should be 1")

/-- Destructuring of a tuple; in a loop, of the elements that the loop ranges over. -/
def tupleUnpacking (operands : List Operand) : Ruling := do
  match operands with
  | [o] => do
    if (← o.asNode).name ≠ "forin" then
      let take := fun kind : NodeKind => kind.symbol?.isSome || kind.operation?.isSome
      answer [[]] (← distinct (← inputElements take o))
    else
      let types := typesOf (← o.types)
      let elements ← types.mapM fun t => do Eval.row (← type t).elements
      answer [[]] (← distinct elements.flatten)
  | _ => throw (.rejectedValue "The length of input nodes for TupleWrite should be 1")

/-- Assignment passes the types of the value on, as the same row. -/
def assignment : Operand → Ruling
  | .missing => throw (.rejectedValue
      ("Cannot find the right value in assignment. This happens because you use a feature that " ++
        "is not supported by HiTyper."))
  | o => do return some ⟨[[]], .row (← o.row)⟩

end TypeFlow.Rule
