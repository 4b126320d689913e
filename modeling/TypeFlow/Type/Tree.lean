import TypeFlow.Store.Basic
import TypeFlow.Vocabulary.Standard

/-! # Types as trees

The contents of a type unfolded into a tree. Comparison of types is a function of the trees; the
identities are kept at the nodes, so that an answer about a tree is an answer about the cells. -/

namespace TypeFlow

mutual

/-- A type with its elements, keys and values. -/
inductive Ty where
  | mk (id : TypeId) (name : String) (category : Category) (elements keys values : Row)

inductive Row where
  | mk (id : RowId) (items : List Item)

/-- What stands at one position of a row. -/
inductive Item where
  | type (t : Ty)
  | text (s : String)
  | absent
  | group (r : Row)

end

namespace Ty

def id : Ty → TypeId
  | .mk i .. => i

def name : Ty → String
  | .mk _ n .. => n

def category : Ty → Category
  | .mk _ _ c .. => c

def elements : Ty → Row
  | .mk _ _ _ e _ _ => e

def keys : Ty → Row
  | .mk _ _ _ _ k _ => k

def values : Ty → Row
  | .mk _ _ _ _ _ v => v

/-- The name in lower case, by which standard types are looked up. -/
def lowerName (t : Ty) : String := Text.lower t.name

def isBuiltin (t : Ty) : Bool := t.category == .builtin

def isUser (t : Ty) : Bool := t.category == .user

end Ty

namespace Row

def id : Row → RowId
  | .mk i _ => i

def items : Row → List Item
  | .mk _ l => l

end Row

namespace Item

/-- Entries other than types. -/
def isForeign : Item → Bool
  | .type _ => false
  | _ => true

def entry : Item → Entry
  | .type t => .type t.id
  | .text s => .text s
  | .absent => .absent
  | .group r => .group r.id

end Item

namespace Store

def unfoldItem (typeOf : TypeId → Ty) (rowOf : RowId → Row) : Entry → Item
  | .type t => .type (typeOf t)
  | .text s => .text s
  | .absent => .absent
  | .group r => .group (rowOf r)

mutual

def unfoldType (s : Store) : Nat → TypeId → Ty
  | 0, t =>
    let c := s.typeAt t
    .mk t "" .builtin (.mk c.elements []) (.mk c.keys []) (.mk c.values [])
  | n + 1, t =>
    let c := s.typeAt t
    .mk t c.name c.category (s.unfoldRow n c.elements) (s.unfoldRow n c.keys)
      (s.unfoldRow n c.values)

def unfoldRow (s : Store) : Nat → RowId → Row
  | 0, r => .mk r []
  | n + 1, r =>
    .mk r ((s.rowAt r).map (unfoldItem (s.unfoldType n) (s.unfoldRow n)))

end

end Store

namespace Eval

def tree (t : TypeId) : Typing Ty := return (← store).unfoldType (← store).depth t

def treeOfRow (r : RowId) : Typing Row := return (← store).unfoldRow (← store).depth r

def treeOfEntry (e : Entry) : Typing Item := do
  let s ← store
  return Store.unfoldItem (s.unfoldType s.depth) (s.unfoldRow s.depth) e

end Eval
end TypeFlow
