/-! # Tables

Finite maps that remember the order in which their keys first came in. Assigning to a key that
is present keeps its place; a key that is removed and put back moves to the end. -/

namespace TypeFlow

/-- Entries in order of insertion, each key once. -/
structure Table (α β : Type) where
  entries : List (α × β) := []
deriving Repr, Inhabited, DecidableEq

namespace Table

variable {α β γ : Type} [DecidableEq α]

def empty : Table α β := ⟨[]⟩

def keys (t : Table α β) : List α := t.entries.map Prod.fst

def values (t : Table α β) : List β := t.entries.map Prod.snd

def size (t : Table α β) : Nat := t.entries.length

/-- Look a key up among entries. -/
def lookup (k : α) : List (α × β) → Option β
  | [] => none
  | (k', v) :: rest => if k' = k then some v else lookup k rest

/-- Assign a key among entries, at the end when it is new. -/
def assign (k : α) (v : β) : List (α × β) → List (α × β)
  | [] => [(k, v)]
  | (k', v') :: rest => if k' = k then (k', v) :: rest else (k', v') :: assign k v rest

def get? (t : Table α β) (k : α) : Option β := lookup k t.entries

def contains (t : Table α β) (k : α) : Bool := (t.get? k).isSome

/-- Assign a value to a key. -/
def insert (t : Table α β) (k : α) (v : β) : Table α β := ⟨assign k v t.entries⟩

def erase (t : Table α β) (k : α) : Table α β := ⟨t.entries.filter (·.1 ≠ k)⟩

/-- Apply a function to every value. -/
def map (f : β → γ) (t : Table α β) : Table α γ := ⟨t.entries.map fun e => (e.1, f e.2)⟩

/-- Assign pairs one after the other. -/
def ofList (l : List (α × β)) : Table α β := l.foldl (fun t e => t.insert e.1 e.2) empty

@[simp] theorem get?_empty (k : α) : (empty : Table α β).get? k = none := rfl

theorem lookup_assign (k j : α) (v : β) (l : List (α × β)) :
    lookup j (assign k v l) = if k = j then some v else lookup j l := by
  induction l with
  | nil => simp [assign, lookup]
  | cons e rest ih =>
    obtain ⟨i, w⟩ := e
    by_cases h : i = k
    · subst h
      by_cases hj : i = j <;> simp [assign, lookup, hj]
    · by_cases hj : i = j
      · subst hj
        simp [assign, lookup, h, Ne.symm h]
      · simp [assign, lookup, h, hj, ih]

theorem get?_insert (t : Table α β) (k j : α) (v : β) :
    (t.insert k v).get? j = if k = j then some v else t.get? j :=
  lookup_assign k j v t.entries

theorem keys_assign (k : α) (v : β) (l : List (α × β)) :
    (assign k v l).map Prod.fst =
      if k ∈ l.map Prod.fst then l.map Prod.fst else l.map Prod.fst ++ [k] := by
  induction l with
  | nil => simp [assign]
  | cons e rest ih =>
    obtain ⟨i, w⟩ := e
    by_cases h : i = k
    · simp [assign, h]
    · by_cases hr : k ∈ rest.map Prod.fst <;> simp_all [assign, Ne.symm h]

/-- Assignment keeps the order of the keys and appends a new one. -/
theorem keys_insert (t : Table α β) (k : α) (v : β) :
    (t.insert k v).keys = if k ∈ t.keys then t.keys else t.keys ++ [k] :=
  keys_assign k v t.entries

end Table
end TypeFlow
