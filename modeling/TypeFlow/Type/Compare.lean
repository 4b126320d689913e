import TypeFlow.Type.Inclusion

/-! # Comparison in the store

The comparisons of type trees, asked of cells. Comparing two rows drops the entries that are not
types from both of them. -/

namespace TypeFlow.Eval

/-- Drop the entries of a row that are not types. -/
def discardForeign (r : RowId) : Typing Unit :=
  modifyRow r fun entries => entries.filter fun
    | .type _ => true
    | _ => false

def trees (entries : List Entry) : Typing (List Item) := do
  let s ← store
  return entries.map (Store.unfoldItem (s.unfoldType s.depth) (s.unfoldRow s.depth))

/-- Two types denote the same type. -/
def identical (l r : Entry) : Typing Bool := do
  let l ← treeOfEntry l
  let r ← treeOfEntry r
  Ty.identical discardForeign (← Ty.ofItem l) (← Ty.ofItem r)

/-- Two rows hold the same types. -/
def identicalRows (l r : RowId) : Typing Bool := do
  Ty.identicalRows discardForeign (← treeOfRow l) (← treeOfRow r)

/-- Two types share a rank or a name. -/
def similar (l r : Entry) : Typing Bool := do
  Ty.similar (← Ty.ofItem (← treeOfEntry l)) (← Ty.ofItem (← treeOfEntry r))

/-- Whether a type is included in another one; no answer for two types of one name that are not
containers. -/
def inclusion (l r : Entry) : Typing (Option Bool) := do
  Ty.inclusion discardForeign (← Ty.ofItem (← treeOfEntry l)) (← Ty.ofItem (← treeOfEntry r))

def existSame (l : Entry) (rs : List Entry) : Typing Bool := do
  Ty.existSame discardForeign (← treeOfEntry l) (← trees rs)

def findSame (l : Entry) (rs : List Entry) : Typing (Option Entry) := do
  return (← Ty.findSame discardForeign (← treeOfEntry l) (← trees rs)).map Item.entry

def existSimilar (l : Entry) (rs : List Entry) : Typing Bool := do
  Ty.existSimilar (← treeOfEntry l) (← trees rs)

def existOptional (l : Entry) (rs : List Entry) : Typing Bool := do
  Ty.existOptional (← treeOfEntry l) (← trees rs)

def existIncluded (l : Entry) (rs : List Entry) : Typing Bool := do
  Ty.existIncluded discardForeign (← treeOfEntry l) (← trees rs)

/-- Integer and float stand for one another when an exact match is asked for. -/
def existNumbers (l : Entry) (rs : List Entry) (exact : Bool) : Typing Bool := do
  Ty.existNumbers (← treeOfEntry l) (← trees rs) exact

/-- Some entry is a user type with the same last component. -/
def existUserType (l : Entry) (rs : List Entry) : Typing Bool := do
  Ty.existUserType (← treeOfEntry l) (← trees rs)

/-- Some entry is of the type that a name or a type denotes. -/
def existType (t : Entry) (rs : List Entry) : Typing Bool := do
  Ty.existType (← treeOfEntry t) (← trees rs)

/-- Some entry of a row is of the type that a name denotes. -/
def nameInRow (name : String) (r : RowId) : Typing Bool := do existType (.text name) (← row r)

/-- Every type of the second row is met by the first. -/
def setIncluded (ls rs : List Entry) : Typing Bool := do
  Ty.setIncluded discardForeign (← trees ls) (← trees rs)

/-- Every type of the second row is met by the first, contents apart. -/
def setSimilar (ls rs : List Entry) : Typing Bool := do
  Ty.setSimilar discardForeign (← trees ls) (← trees rs)

/-- A value of the first type may stand for one of the second. -/
def compatible (l r : Entry) : Typing Bool := do
  let l ← type (← l.asType)
  let r ← r.asType
  return l.compatible.contains (← type r).name

/-- A value of a type may stand for one of some entry. -/
def existCompatible (l : Entry) (rs : List Entry) : Typing Bool := do
  for r in rs do
    if ← compatible l r then return true
  existSame l rs

def hasName (t : TypeId) (name : String) : Typing Bool := do
  let a ← Ty.rank (m := Typing) (← type t).name
  let b ← Ty.rank (m := Typing) name
  return a == b

/-- A type denotes the same type as one of several names. -/
def hasNameIn (t : TypeId) : List String → Typing Bool
  | [] => return false
  | name :: rest => do if ← hasName t name then return true else hasNameIn t rest

end TypeFlow.Eval
