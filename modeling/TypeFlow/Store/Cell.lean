/-! # Cells of the type store

Types and lists of types are shared: a change made through one holder shows through every other.
Each of them therefore lives in a numbered cell, and holders keep the number. -/

namespace TypeFlow

structure TypeId where
  index : Nat
deriving DecidableEq, Repr, Inhabited

/-- Identity of a shared list of types. -/
structure RowId where
  index : Nat
deriving DecidableEq, Repr, Inhabited

structure NodeId where
  index : Nat
deriving DecidableEq, Repr, Inhabited

structure GraphId where
  index : Nat
deriving DecidableEq, Repr, Inhabited

/-- What a row holds at one position: a type, a bare name that stands for a built-in type,
nothing, or a nested row. -/
inductive Entry where
  | type (t : TypeId)
  | text (s : String)
  | absent
  | group (r : RowId)
deriving DecidableEq, Repr, Inhabited

/-- The category of a type: 0 for built-in, 1 for the standard library, 2 for user types. A few
rules leave a label in place of the number. -/
inductive Category where
  | code (n : Int)
  | label (s : String)
deriving DecidableEq, Repr, Inhabited

namespace Category

def builtin : Category := .code 0

def user : Category := .code 2

def text : Category → String
  | .code n => toString n
  | .label s => s

end Category

/-- A type. Containers list the types of their elements; mappings those of keys and values. -/
structure TypeCell where
  name : String
  category : Category
  elements : RowId
  keys : RowId
  values : RowId
  /-- Symbol and order of the variable at which a recommended type came in. -/
  origin : Option String := none
  originOrder : Option Int := none
  /-- The type was recommended, not inferred. -/
  added : Bool := false
  /-- Names of the types that a value of this type may stand for. -/
  compatible : List String := []
deriving DecidableEq, Repr, Inhabited

namespace TypeCell

/-- The four kinds of number stand for one another; every other type only for itself. -/
def compatibleNames (name : String) : List String :=
  if name ∈ ["bool", "int", "float", "complex"] then ["int", "float", "complex", "bool"]
  else [name]

end TypeCell
end TypeFlow
