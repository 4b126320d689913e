import TypeFlow.Build.Name

/-! # Attributes

A chain of attributes is treated as a variable of its own. The first time that a chain with one
attribute is read, an operation takes the attribute from its object. Attributes of the receiver
belong to the class and are known to the whole module. -/

namespace TypeFlow.Build

open Program

structure Chain where
  path : String
  attr : String
  access : Access
  /-- The value of the chain is not used. -/
  unused : Bool
  pos : Position
deriving Repr, Inhabited

/-- The chain is read: it is loaded, or an augmented assignment reads its operands. -/
def isRead (access : Access) : Build Bool := return access == .load || (← get).augmented

def takeAttribute (c : Chain) (value : Build Unit) : Build NodeId := do
  let op ← newOperation "." c.pos (some c.attr)
  reading op value
  addNode op
  return op

/-- An attribute of a value that has no name. -/
def visitPlain (c : Chain) (value : Build Unit) : Build Unit := do
  let op ← takeAttribute c value
  feed op c.unused

/-! ## Attributes of the receiver -/

/-- An attribute of the class that is being read. -/
def ownAttribute (c : Chain) (order : Nat) : Build SymbolInfo := do
  match (← get).classes with
  | frame :: _ =>
    return { symbol := c.attr, order, owner := some frame.name, scope := "attribute" }
  | [] => throw .outOfRange

def readOwn (c : Chain) : Build Unit := do
  if !(← inClass) then throw (.rejectedValue "self should be used within a class.")
  let v ← vars .class_
  if v.counts.contains c.attr then
    let order ← again .class_ c.attr
    let info ← ownAttribute c order
    let n ← match v.latest.get? c.attr with
      | some (some current) => newRead info [some current] c.unused c.pos
      | _ => do
        let n ← newRead info [] c.unused c.pos
        if ← inFunction then addToModule n
        pure n
    setLatest .class_ c.attr (some n)
    addNode n
  else
    setCount .class_ c.attr 0
    let n ← newRead (← ownAttribute c 0) [] c.unused c.pos
    setLatest .class_ c.attr (some n)
    addToModule n
    addToFunction n

def deleteOwn (c : Chain) : Build Unit := do
  if (← count? .class_ c.attr).isSome then forget .class_ c.attr

def writeOwn (c : Chain) : Build Unit := do
  let order ← next .class_ c.attr
  let n ← newWrite (← ownAttribute c order) c.pos
  setLatest .class_ c.attr (some n)
  addToModule n
  addToFunction n

def visitOwn (c : Chain) : Build Unit := do
  if ← isRead c.access then readOwn c
  else if c.access = .delete then deleteOwn c
  else writeOwn c

/-! ## Chains with one attribute -/

/-- A chain has no current node in a scope. -/
def isFresh (t : Tier) (key : String) : Build Bool := do
  return !(← occurs t key) || !(← isCurrent t key)

def readFresh (c : Chain) (value : Build Unit) : Build Unit := do
  let op ← takeAttribute c value
  let t := if ← inFunction then Tier.function else .module
  setCount t c.path 0
  let scope := if t = .module then "global" else "local"
  let n ← newRead { symbol := c.path, order := 0, scope } [some op] c.unused c.pos
  setLatest t c.path (some n)
  if t = .module then addToModule n else addToFunction n

def writeFresh (c : Chain) : Build Unit := do
  if ← atTop then
    setCount .module c.path 0
    let n ← newWrite { symbol := c.path, order := 0, scope := "global" } c.pos
    setLatest .module c.path (some n)
    addToModule n
  else if ← inFunction then
    setCount .function c.path 0
    let n ← newWrite { symbol := c.path, order := 0 } c.pos
    setLatest .function c.path (some n)
    addToFunction n

/-- Read a chain of the module again. A function that has not yet touched the chain starts from
nothing; when the value is not used, the missing definition is kept as an input. -/
def rereadChain (c : Chain) (keepsGap : Bool) : Build NodeId := do
  let order ← again .module c.path
  let info : SymbolInfo := { symbol := c.path, order, scope := "global" }
  match ← latest .module c.path with
  | some current => newRead info [some current] c.unused c.pos
  | none => do
    let used := (← consumer c.unused).isSome
    let n ← newRead info (if used || !keepsGap then [] else [none]) c.unused c.pos
    if ← inFunction then addToModule n
    return n

def visitKnownGlobal (c : Chain) : Build Unit := do
  if ← isRead c.access then
    let n ← rereadChain c true
    setLatest .module c.path (some n)
    addNode n
  else if c.access = .delete then forget .module c.path
  else
    let order ← again .module c.path
    let n ← newWrite { symbol := c.path, order, scope := "global" } c.pos
    setLatest .module c.path (some n)
    addToModule n

/-- Read a chain of the function again. -/
def rereadLocal (c : Chain) : Build Unit := do
  let order ← again .function c.path
  let n ← newRead { symbol := c.path, order } [← latest .function c.path] c.unused c.pos
  setLatest .function c.path (some n)
  addToFunction n

def visitKnownLocal (c : Chain) : Build Unit := do
  if ← isRead c.access then rereadLocal c
  else if c.access = .delete then forget .function c.path
  else
    let order ← again .function c.path
    let n ← newWrite { symbol := c.path, order } c.pos
    setLatest .function c.path (some n)
    addToFunction n

def visitShort (c : Chain) (value : Build Unit) : Build Unit := do
  let fresh := (← isFresh .module c.path) && (← isFresh .function c.path)
  if (← isRead c.access) && fresh then readFresh c value
  else if c.access = .store && !(← occurs .module c.path) && !(← occurs .function c.path) then
    writeFresh c
  else if (← occurs .module c.path) || !(← inFunction) then visitKnownGlobal c
  else if ← occurs .function c.path then visitKnownLocal c

/-! ## Longer chains -/

/-- Read a longer chain of the module. -/
def readLongGlobal (c : Chain) : Build Unit := do
  if ← occurs .module c.path then
    let n ← rereadChain c false
    setLatest .module c.path (some n)
    addNode n
  else
    setCount .module c.path 0
    let n ← newRead { symbol := c.path, order := 0, scope := "global" } [] c.unused c.pos
    setLatest .module c.path (some n)
    addToModule n

/-- Read a longer chain of the function. -/
def readLongLocal (c : Chain) : Build Unit := do
  if ← isFresh .function c.path then
    let order ← next .function c.path
    let n ← newRead { symbol := c.path, order } [] c.unused c.pos
    setLatest .function c.path (some n)
    addToFunction n
  else rereadLocal c

/-- Write a longer chain. A chain that the module knows is written there and in the function. -/
def writeLong (c : Chain) : Build Unit := do
  if (← atTop) || (← occurs .module c.path) then
    let order ← next .module c.path
    let n ← newWrite { symbol := c.path, order, scope := "global" } c.pos
    setLatest .module c.path (some n)
    addToModule n
  if ← inFunction then
    let order ← next .function c.path
    let n ← newWrite { symbol := c.path, order } c.pos
    setLatest .function c.path (some n)
    addToFunction n

/-- Meet a longer chain. Its objects are not looked at. -/
def visitLong (c : Chain) : Build Unit := do
  let global := (← atTop) || (← occurs .module c.path)
  if ← isRead c.access then
    if global then readLongGlobal c
    else if ← inFunction then readLongLocal c
  else if c.access = .delete then
    if global then forget .module c.path
    else if ← inFunction then forget .function c.path
  else writeLong c

def visitAttribute (value : Expr) (attr : String) (access : Access) (pos : Position)
    (visitValue : Build Unit) : Build Unit := do
  let path ← pathOf (.attribute pos value attr access)
  let unused ← takeUnused
  let c : Chain := { path, attr, access, unused, pos }
  if Expr.isVague path then visitPlain c visitValue
  else if Expr.attributeCount path = 1 then
    if value.isConstant then visitPlain c visitValue
    else if value.name? = some "self" then visitOwn c
    else visitShort c visitValue
  else visitLong c

end TypeFlow.Build
