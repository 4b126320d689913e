import TypeFlow.Store.Graph

/-! # The store

One store holds the cells of all types, rows, nodes and graphs. Computations on it may stop with
a fault; what they wrote before stays written. -/

namespace TypeFlow

/-- All cells, by number. -/
structure Store where
  types : Array TypeCell := #[]
  rows : Array (List Entry) := #[]
  nodes : Array Node := #[]
  graphs : Array Graph := #[]
deriving Inhabited

namespace Store

/-- No chain of types and rows without repetition is longer than this. -/
def depth (s : Store) : Nat := 2 * (s.types.size + s.rows.size) + 2

def typeAt (s : Store) (t : TypeId) : TypeCell := s.types.getD t.index default

def rowAt (s : Store) (r : RowId) : List Entry := s.rows.getD r.index []

def nodeAt (s : Store) (n : NodeId) : Node := s.nodes.getD n.index default

def graphAt (s : Store) (g : GraphId) : Graph := s.graphs.getD g.index default

end Store

abbrev Eval := EStateM Fault Store

/-- The store that a computation leaves, with or without a fault. -/
def Eval.finish {α : Type} (x : Eval α) (s : Store) : Store :=
  match x s with
  | .ok _ t => t
  | .error _ t => t

/-- Nodes and graphs are the same, and no cell is gone. -/
structure Store.Grows (s t : Store) : Prop where
  nodes : t.nodes = s.nodes
  graphs : t.graphs = s.graphs
  types : s.types.size ≤ t.types.size
  rows : s.rows.size ≤ t.rows.size

namespace Store.Grows

theorem refl (s : Store) : s.Grows s := ⟨rfl, rfl, Nat.le_refl _, Nat.le_refl _⟩

theorem trans {s t u : Store} (h₁ : s.Grows t) (h₂ : t.Grows u) : s.Grows u :=
  ⟨h₂.nodes.trans h₁.nodes, h₂.graphs.trans h₁.graphs, Nat.le_trans h₁.types h₂.types,
    Nat.le_trans h₁.rows h₂.rows⟩

end Store.Grows

/-- Computations on types and rows. They read nodes and graphs but leave them as they are. -/
structure Typing (α : Type) where
  run : Eval α
  grows : ∀ s : Store, s.Grows (run.finish s)

namespace Typing

variable {α β : Type}

/-- What a computation and those that continue it leave. -/
theorem grows_bind (x : Typing α) (f : α → Typing β) (s : Store) :
    s.Grows (Eval.finish (x.run >>= fun a => (f a).run) s) := by
  have hx := x.grows s
  simp only [Eval.finish, bind, EStateM.bind] at hx ⊢
  cases h : x.run s with
  | ok a t =>
    rw [h] at hx
    exact hx.trans ((f a).grows t)
  | error e t =>
    rw [h] at hx
    exact hx

/-- What a computation and its handler leave. -/
theorem grows_tryCatch (x : Typing α) (f : Fault → Typing α) (s : Store) :
    s.Grows (Eval.finish (tryCatch x.run fun e => (f e).run) s) := by
  have hx := x.grows s
  simp only [Eval.finish, tryCatch, tryCatchThe, MonadExceptOf.tryCatch] at hx ⊢
  delta EStateM.tryCatch
  cases h : x.run s with
  | ok a t =>
    rw [h] at hx
    exact hx
  | error e t =>
    rw [h] at hx
    exact hx.trans ((f e).grows t)

instance : Monad Typing where
  pure a := ⟨pure a, Store.Grows.refl⟩
  bind x f := ⟨x.run >>= fun a => (f a).run, grows_bind x f⟩

instance : MonadExceptOf Fault Typing where
  throw e := ⟨throw e, Store.Grows.refl⟩
  tryCatch x f := ⟨tryCatch x.run fun e => (f e).run, grows_tryCatch x f⟩

instance : MonadLift Typing Eval := ⟨run⟩

end Typing

namespace Eval

def store : Typing Store := ⟨get, Store.Grows.refl⟩

def type (t : TypeId) : Typing TypeCell := return (← store).typeAt t

def row (r : RowId) : Typing (List Entry) := return (← store).rowAt r

def node (n : NodeId) : Typing Node := return (← store).nodeAt n

def graph (g : GraphId) : Typing Graph := return (← store).graphAt g

def modifyType (t : TypeId) (f : TypeCell → TypeCell) : Typing Unit where
  run := modify fun s => { s with types := s.types.modify t.index f }
  grows _ := ⟨rfl, rfl, Nat.le_of_eq (Array.size_modify ..).symm, Nat.le_refl _⟩

def modifyRow (r : RowId) (f : List Entry → List Entry) : Typing Unit where
  run := modify fun s => { s with rows := s.rows.modify r.index f }
  grows _ := ⟨rfl, rfl, Nat.le_refl _, Nat.le_of_eq (Array.size_modify ..).symm⟩

def modifyNode (n : NodeId) (f : Node → Node) : Eval Unit :=
  modify fun s => { s with nodes := s.nodes.modify n.index f }

def modifyGraph (g : GraphId) (f : Graph → Graph) : Eval Unit :=
  modify fun s => { s with graphs := s.graphs.modify g.index f }

def newRow (entries : List Entry) : Typing RowId where
  run := modifyGet fun s => (⟨s.rows.size⟩, { s with rows := s.rows.push entries })
  grows _ := ⟨rfl, rfl, Nat.le_refl _, (Array.size_push ..) ▸ Nat.le_succ _⟩

def newCell (cell : TypeCell) : Typing TypeId where
  run := modifyGet fun s => (⟨s.types.size⟩, { s with types := s.types.push cell })
  grows _ := ⟨rfl, rfl, (Array.size_push ..) ▸ Nat.le_succ _, Nat.le_refl _⟩

/-- Make a type without elements, keys and values. -/
def newType (name : String) (category : Category := .builtin) (added : Bool := false) :
    Typing TypeId := do
  let elements ← newRow []
  let keys ← newRow []
  let values ← newRow []
  newCell
    { name, category, elements, keys, values, added
      compatible := TypeCell.compatibleNames name }

def newNode (n : Node) : Eval NodeId :=
  modifyGet fun s => (⟨s.nodes.size⟩, { s with nodes := s.nodes.push n })

def newGraph (g : Graph) : Eval GraphId :=
  modifyGet fun s => (⟨s.graphs.size⟩, { s with graphs := s.graphs.push g })

def append (r : RowId) (e : Entry) : Typing Unit :=
  modifyRow r (· ++ [e])

end Eval

namespace Entry

/-- The type at a position; anything else has no type's properties. -/
def asType : Entry → Typing TypeId
  | .type t => pure t
  | _ => throw .missingProperty

/-- The entries a value ranges over: those of a row, or the letters of a text. -/
def each : Entry → Typing (List Entry)
  | .group r => Eval.row r
  | .text s => pure (s.toList.map fun c => .text (String.singleton c))
  | _ => throw .wrongKind

end Entry

/-- The element of a list at a position, counted from the end when negative. -/
def at? {α : Type} (l : List α) (i : Int) : Option α :=
  if 0 ≤ i then l[i.toNat]?
  else if -(l.length : Int) ≤ i then l[(l.length + i).toNat]?
  else none

/-- The element of a list at a position, counted from the end when negative. -/
def elementAt {α : Type} (l : List α) (i : Int) : Typing α :=
  match at? l i with
  | some a => pure a
  | none => throw .outOfRange

/-- A value that has to be there. -/
def require {α : Type} (o : Option α) (fault : Fault) : Typing α :=
  match o with
  | some a => pure a
  | none => throw fault

end TypeFlow
