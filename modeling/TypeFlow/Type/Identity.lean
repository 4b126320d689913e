import TypeFlow.Type.Tree

/-! # Identity of types

Two types are identical when they denote the same type: standard types by rank and, for
containers, by their contents; user types by the last component of their name. Rows are compared
as sets. A comparison of rows first discards entries that are not types; `discard` says what that
means for the shared row, and the comparison itself never looks at such entries. -/

namespace TypeFlow.Ty

/-- The rank of a name that has to be standard. -/
def rank {m : Type → Type} [Monad m] [MonadExceptOf Fault m] (name : String) : m Nat :=
  match Vocabulary.rank? (Text.lower name) with
  | some n => pure n
  | none => throw .missingKey

/-- The type that an item has to be. -/
def ofItem {m : Type → Type} [Monad m] [MonadExceptOf Fault m] : Item → m Ty
  | .type t => pure t
  | _ => throw .missingProperty

def elementContainers : List String :=
  ["list", "tuple", "set", "iterable", "optional", "union", "sequence", "generator"]

variable {m : Type → Type} [Monad m] [MonadExceptOf Fault m]

/-- Two dotted names end in the same component, letter case apart. -/
def sameShortName (l r : String) : Bool :=
  Text.lower (Text.lastPiece l ".") == Text.lower (Text.lastPiece r ".")

/-- Ranks that differ but still match: a literal stands for text and numbers, and an iterable for
every container. -/
def looselyEqual (l : String) (a : Nat) (r : String) (b : Nat) : Bool :=
  (l == "literal" && b ≤ 3) || (r == "literal" && a ≤ 3) ||
    (l == "iterable" && 11 ≤ b && b ≤ 17) || (r == "iterable" && 11 ≤ a && a ≤ 17)

mutual

/-- Two types denote the same type. -/
def identical (discard : RowId → m Unit) (l r : Ty) : m Bool :=
  match l, r with
  | l@(.mk _ ln lc le lk lv), r@(.mk _ rn rc re rk rv) => do
    if lc ≠ .builtin ∧ rc ≠ .builtin then
      return ln == rn || (lc == rc && lc == .user && sameShortName ln rn)
    else if lc = .builtin ∧ rc = .builtin then
      let a ← rank ln
      let b ← rank rn
      let lower := Text.lower ln
      if a = b then
        if lower = "dict" then
          if ← identicalRows discard lk rk then identicalRows discard lv rv else return false
        else if lower ∈ elementContainers then identicalRows discard le re
        else return true
      else return looselyEqual lower a (Text.lower rn) b
    else if lc = .builtin ∧ rc = .user ∧ Text.lower ln = "type" ∧ le.items.length = 1 then
      match _h : le with
      | .mk _ [.type t] => identical discard t r
      | _ => throw .missingProperty
    else if rc = .builtin ∧ lc = .user ∧ Text.lower rn = "type" ∧ re.items.length = 1 then
      match _h : re with
      | .mk _ [.type t] => identical discard t l
      | _ => throw .missingProperty
    else
      return (lc == .user || rc == .user) && sameShortName ln rn
termination_by sizeOf l + sizeOf r
decreasing_by all_goals subst_vars; simp only [Ty.mk.sizeOf_spec, Row.mk.sizeOf_spec,
  List.cons.sizeOf_spec, Item.type.sizeOf_spec]; omega

/-- Two rows hold the same types. A type named `Any` matches every row. -/
def identicalRows (discard : RowId → m Unit) (l r : Row) : m Bool :=
  match l, r with
  | .mk li ls, .mk ri rs => do
    if ls.any Item.isForeign || rs.any Item.isForeign then
      discard li
      discard ri
    match ← coveredBy discard ls rs with
    | some answer => return answer
    | none => return (← coveredBy discard rs ls).getD true
termination_by sizeOf l + sizeOf r

/-- Whether every type of a row has its like in another one; no answer when that leaves the
question to the other direction. -/
def coveredBy (discard : RowId → m Unit) (ls rs : List Item) : m (Option Bool) :=
  match ls with
  | [] => return none
  | .type t :: rest => do
    if t.lowerName = "any" then return some true
    else if ← identicalToSome discard t rs then coveredBy discard rest rs
    else return some false
  | .text _ :: rest | .absent :: rest | .group _ :: rest => coveredBy discard rest rs
termination_by sizeOf ls + sizeOf rs

/-- A type has its like among others. -/
def identicalToSome (discard : RowId → m Unit) (t : Ty) (rs : List Item) : m Bool :=
  match rs with
  | [] => return false
  | .type r :: rest => do
    if ← identical discard t r then return true else identicalToSome discard t rest
  | .text _ :: rest | .absent :: rest | .group _ :: rest => identicalToSome discard t rest
termination_by sizeOf t + sizeOf rs

end

/-- Similar types share a rank or a name; contents do not count. -/
def similar (l r : Ty) : m Bool := do
  if l.isBuiltin && r.isBuiltin then
    let a ← rank l.name
    let b ← rank r.name
    if a = b then return true
  return l.lowerName == r.lowerName

/-- A built-in type without contents. -/
def leaf (name : String) : Ty := .mk ⟨0⟩ name .builtin (.mk ⟨0⟩ []) (.mk ⟨0⟩ []) (.mk ⟨0⟩ [])

/-- A row holds a type identical to the given one. A bare name in the row counts as a built-in
type, unless it is a placeholder in angle brackets. -/
def existSame (discard : RowId → m Unit) (l : Item) : List Item → m Bool
  | [] => return false
  | .text s :: rest => do
    if Text.startsWith s "<" && Text.endsWith s ">" then existSame discard l rest
    else if ← similar (← ofItem l) (leaf s) then return true
    else existSame discard l rest
  | r :: rest => do
    if ← identical discard (← ofItem l) (← ofItem r) then return true
    else existSame discard l rest

def findSame (discard : RowId → m Unit) (l : Item) : List Item → m (Option Item)
  | [] => return none
  | .text s :: rest => do
    if ← similar (← ofItem l) (leaf s) then return some (.text s) else findSame discard l rest
  | .type r :: rest => do
    if ← identical discard (← ofItem l) r then return some (.type r)
    else findSame discard l rest
  | .absent :: rest | .group _ :: rest => findSame discard l rest

end TypeFlow.Ty
