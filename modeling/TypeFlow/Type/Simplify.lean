import TypeFlow.Type.Compare

/-! # Simplification of types

A row of types is simplified by dropping types that are identical to an earlier one and then,
as long as there are any, types that are included in another one. Containers are simplified
before they are compared, which gives them new rows. -/

namespace TypeFlow.Eval

/-- Drop the types that are identical to an earlier one, simplifying each of them first. -/
def distinctBy (simplify : TypeId → Typing Unit) (entries : List Entry) : Typing (List Entry) :=
  entries.foldlM
    (fun outs e => do
      match e with
      | .type t => simplify t
      | _ => pure ()
      if ← existSame e outs then return outs else return outs ++ [e])
    []

/-- Drop included types one at a time, at most the given number of times. -/
def dropIncluded : Nat → List Entry → Typing (List Entry)
  | 0, outs => return outs
  | n + 1, outs => do
    match ← Ty.lastIncluded discardForeign (← trees outs) with
    | some i => dropIncluded n (outs.erase (outs.getD i .absent))
    | none => return outs

def maximalBy (simplify : TypeId → Typing Unit) (entries : List Entry) : Typing (List Entry) := do
  let outs ← distinctBy simplify entries
  dropIncluded (outs.length + 1) outs

def simplifiedContainers : List String :=
  ["set", "frozenset", "tuple", "list", "awaitable", "iterable", "union", "generator"]

/-- The first entry that is a type named `None`. -/
def findNone : List Entry → Typing (Option Entry)
  | [] => return none
  | e :: rest => do
    if Text.lower (← type (← e.asType)).name = "none" then return some e else findNone rest

def simplifyTo : Nat → TypeId → Typing Unit
  | 0, _ => throw .tooDeep
  | n + 1, t => do
    let c ← type t
    let lower := Text.lower c.name
    if lower ∈ simplifiedContainers then
      let elements ← newRow (← maximalBy (simplifyTo n) (← row c.elements))
      modifyType t fun c => { c with elements }
    else if lower = "dict" then
      let keys ← newRow (← maximalBy (simplifyTo n) (← row c.keys))
      modifyType t fun c => { c with keys }
      let values ← newRow (← maximalBy (simplifyTo n) (← row c.values))
      modifyType t fun c => { c with values }
    else if lower = "optional" then
      let rest ← distinctBy (simplifyTo n) (← row c.elements)
      let elements ← newRow rest
      modifyType t fun c => { c with elements }
      match ← findNone rest with
      | some e => modifyRow elements (·.erase e)
      | none => pure ()

def simplify (t : TypeId) : Typing Unit := do simplifyTo (← store).depth t

/-- Drop the types that are identical to an earlier one. -/
def distinct (entries : List Entry) : Typing (List Entry) := do
  let depth := (← store).depth
  distinctBy (simplifyTo depth) entries

def maximal (entries : List Entry) : Typing (List Entry) := do
  let depth := (← store).depth
  maximalBy (simplifyTo depth) entries

def typesOf (entries : List Entry) : List TypeId :=
  entries.filterMap fun
    | .type t => some t
    | _ => none

/-- Drop entries that are not types from elements and keys, at any depth up to a given one. The
rows of elements and keys become new ones; that of values stays. -/
def tidyTo : Nat → TypeId → Typing Unit
  | 0, _ => throw .tooDeep
  | n + 1, t => do
    let c ← type t
    let es := typesOf (← row c.elements)
    for e in es do tidyTo n e
    let elements ← newRow (es.map .type)
    modifyType t fun c => { c with elements }
    let ks := typesOf (← row c.keys)
    for k in ks do tidyTo n k
    let keys ← newRow (ks.map .type)
    modifyType t fun c => { c with keys }
    for v in typesOf (← row c.values) do tidyTo n v

/-- Drop entries that are not types. -/
def tidy (t : TypeId) : Typing Unit := do tidyTo (← store).depth t

/-- One type for a row: the only one, or the union of several. -/
def combine (r : RowId) : Typing Entry := do
  match ← row r with
  | [] => return .absent
  | [e] => return e
  | _ => do
    let t ← newType "Union"
    modifyType t fun c => { c with elements := r }
    return .type t

def buildTuple (t : TypeId) (elements : RowId) : Typing Unit :=
  modifyType t fun c => { c with name := "Tuple", elements }

def buildList (t : TypeId) (elements : RowId) : Typing Unit :=
  modifyType t fun c => { c with name := "List", elements }

def buildSet (t : TypeId) (elements : RowId) : Typing Unit :=
  modifyType t fun c => { c with name := "Set", elements }

/-- Make a type a mapping; its keys are its elements. -/
def buildDict (t : TypeId) (keys values : RowId) : Typing Unit :=
  modifyType t fun c => { c with name := "Dict", elements := keys, keys, values }

end TypeFlow.Eval
