import TypeFlow.Type.Identity

/-! # Inclusion of types

A container is included in another one of the same name when each of its element types is found
there, possibly as an optional type or included in a larger one. -/

namespace TypeFlow.Ty

variable {m : Type → Type} [Monad m] [MonadExceptOf Fault m]

def inclusionContainers : List String :=
  ["List", "Tuple", "Dict", "Set", "Iterable", "Optional", "Union", "Sequence", "Generator"]

/-- A row holds an optional type around the given one. -/
def existOptional (l : Item) : List Item → m Bool
  | [] => return false
  | r :: rest => do
    let r ← ofItem r
    if r.lowerName = "optional" then
      match r.elements.items with
      | [e] => do
        let inner ← rank (← ofItem e).name
        let outer ← rank (← ofItem l).name
        if inner = outer then return true else existOptional l rest
      | _ => existOptional l rest
    else existOptional l rest

def anyIncludes (test : Ty → m (Option Bool)) : List Item → m Bool
  | [] => return false
  | .type r :: rest => do
    if (← test r) = some true then return true else anyIncludes test rest
  | _ => throw .missingProperty

mutual

/-- Whether a type is included in another one; no answer for two types of one name that are not
containers. -/
def inclusion (discard : RowId → m Unit) : Ty → Ty → m (Option Bool)
  | .mk _ ln _ le lk lv, .mk _ rn _ re rk rv => do
    if rn = "Optional" ∧ re.items.length = 1 then
      let inner ← ofItem (re.items.headD .absent)
      if ln = inner.name then return some true
    if ln ≠ rn then return some false
    else if ln = "Dict" then
      if ← includedRow discard lk rk then return some (← includedRow discard lv rv)
      else return some false
    else if ln ∈ inclusionContainers then return some (← includedRow discard le re)
    else return none
termination_by structural l => l

/-- Every type of a row is found in another one. -/
def includedRow (discard : RowId → m Unit) : Row → Row → m Bool
  | .mk _ ls, r => includedItems discard ls r.items
termination_by structural l => l

/-- Every item is found among others. -/
def includedItems (discard : RowId → m Unit) : List Item → List Item → m Bool
  | [], _ => return true
  | l :: rest, rs => do
    if ← existSame discard l rs then includedItems discard rest rs
    else if ← existOptional l rs then includedItems discard rest rs
    else if ← existIncluded discard l rs then includedItems discard rest rs
    else return false
termination_by structural ls => ls

def existIncluded (discard : RowId → m Unit) : Item → List Item → m Bool
  | .type t, rs => anyIncludes (inclusion discard t) rs
  | _, [] => return false
  | _, _ :: _ => throw .missingProperty
termination_by structural l => l

end

def included (discard : RowId → m Unit) (l r : Ty) : m Bool := do
  return (← inclusion discard l r).getD false

def existSimilar (l : Item) : List Item → m Bool
  | [] => return false
  | r :: rest => do
    if ← similar (← ofItem l) (← ofItem r) then return true else existSimilar l rest

/-- Integers and floats stand for one another when an exact match is asked for. -/
def existNumbers (l : Item) (rs : List Item) (exact : Bool) : m Bool := do
  if !exact then return false
  if (← ofItem l).name ∉ ["int", "float"] then return false
  go rs
where
  go : List Item → m Bool
    | [] => return false
    | r :: rest => do if (← ofItem r).name ∈ ["int", "float"] then return true else go rest

/-- A row holds a user type with the same last component. -/
def existUserType (l : Item) : List Item → m Bool
  | [] => return false
  | r :: rest => do
    let l' ← ofItem l
    let r' ← ofItem r
    if l'.category == r'.category && l'.isUser &&
        Text.lastPiece l'.name "." == Text.lastPiece r'.name "." then return true
    else existUserType l rest

/-- Every type of the second row is met by the first one. `close` says when a type of the first
row meets one of the second as it stands. -/
def meetsAll (discard : RowId → m Unit) (close : Item → List Item → m Bool) (ls : List Item) :
    List Item → m Bool
  | [] => return true
  | r :: rest => do
    if ← close r ls then meetsAll discard close ls rest
    else if ← existUserType r ls then meetsAll discard close ls rest
    else if ← existIncluded discard r ls then meetsAll discard close ls rest
    else return false

/-- Every type of the second row is identical to one of the first, or included in it. -/
def setIncluded (discard : RowId → m Unit) (ls rs : List Item) : m Bool :=
  meetsAll discard (fun r ls => existSame discard r ls) ls rs

/-- Every type of the second row is similar to one of the first, or included in it. -/
def setSimilar (discard : RowId → m Unit) (ls rs : List Item) : m Bool :=
  meetsAll discard
    (fun r ls => do if ← existSimilar r ls then return true else existNumbers r ls true) ls rs

/-- A type is of the kind that a name or a second type denotes. -/
def existType (t : Item) : List Item → m Bool
  | [] => return false
  | r :: rest => do
    match t with
    | .text s =>
      let r ← ofItem r
      if r.isBuiltin then
        if (← rank s) = (← rank r.name) then return true
      if r.isUser && r.name == s then return true
      existType t rest
    | .type t' =>
      let r ← ofItem r
      if r.isBuiltin && t'.isBuiltin then
        if (← rank t'.name) = (← rank r.name) then return true
      if t'.name == r.name then return true
      existType t rest
    | _ => existType t rest

/-- The last position whose type is included in the type at another position. -/
def lastIncluded (discard : RowId → m Unit) (items : List Item) : m (Option Nat) :=
  go items.length none
where
  inner (i : Nat) (l : Item) : List (Item × Nat) → m Bool
    | [] => return false
    | (r, j) :: rest => do
      if i = j then inner i l rest
      else if ← included discard (← ofItem l) (← ofItem r) then return true
      else inner i l rest
  go : Nat → Option Nat → m (Option Nat)
    | 0, found => return found
    | n + 1, found => do
      let i := items.length - (n + 1)
      if ← inner i (items.getD i .absent) items.zipIdx then go n (some i) else go n found

end TypeFlow.Ty
