import TypeFlow.Build.Branch

/-! # Handlers and contexts

A handler may run after any write of the `try` body, so it starts with a merge of them all; after
the handlers, what they wrote is merged with what the body left. Names that handlers and contexts
bind are forgotten afterwards. -/

namespace TypeFlow.Build

open Program

/-! ## The body of a `try` statement -/

def enterTry : Build Unit := do
  Eval.modifyGraph (← graphAtHand) fun g => { g with tryDepth := g.tryDepth + 1 }

def closeTry : Build Unit := do
  Eval.modifyGraph (← graphAtHand) fun g => { g with tryDepth := g.tryDepth - 1 }

/-- Drop the buffer of a `try` body that has been closed. -/
def dropTry : Build Unit := do
  Eval.modifyGraph (← graphAtHand) fun g =>
    { g with tryBuffer := if g.tryDepth < g.tryBuffer.length
        then g.tryBuffer.eraseIdx g.tryDepth.toNat else g.tryBuffer }

def bodyWrites : Build (Table String (List NodeId)) := do
  let g ← Eval.graph (← graphAtHand)
  if (g.tryBuffer.length : Int) < g.tryDepth then return {}
  elementAt g.tryBuffer (g.tryDepth - 1)

/-- The innermost scope. -/
def innermost : Build Tier := do
  if ← inFunction then return .function
  else if ← inClass then return .class_
  else return .module

/-- The scope in which a variable has a current node, and that node. Scopes are tried in the
given order. -/
def holder (key : String) (tiers : List Tier) : Build (Option (Tier × NodeId)) := do
  let w ← get
  return tiers.findSome? fun t =>
    match (vars? t w).bind (·.latest.get? key) with
    | some (some n) => some (t, n)
    | _ => none

def mergeWrites : Build Unit := do
  for (key, writes) in (← bodyWrites).entries do
    let (t, nodes) ← match ← holder key [.module, .class_, .function] with
      | some (t, n) => pure (t, n :: writes)
      | none => do pure (← innermost, writes)
    let m ← newMerge (nodes.map some)
    setLatest t key (some m)
    addNode m

/-! ## Handlers -/

/-- Forget the occurrences of a bound name and of the chains that start with it. -/
def forgetOccurrences (t : Tier) (name : String) : Build Unit := do
  match vars? t (← get) with
  | none => pure ()
  | some v =>
    if v.counts.contains name then
      let keeps (key : String) : Bool :=
        key ≠ name && !Text.startsWith key (name ++ "_@_")
      setVariables t { v with counts := ⟨v.counts.entries.filter fun e => keeps e.1⟩ }

def bindError (name : String) (pos : Position) : Build Unit := do
  let n ← Eval.newSymbol { symbol := name, order := 0 }
  Eval.setPosition n pos
  Eval.append (← Eval.typesRow n) (.type (← Eval.newType "Exception"))
  let t := if ← inFunction then Tier.function else .module
  setCount t name 1
  setLatest t name (some n)
  addNode n

def enterHandler : Build Unit := do
  Eval.modifyGraph (← graphAtHand) fun g => { g with exceptDepth := g.exceptDepth + 1 }

def leaveHandlers : Build Unit := do
  Eval.modifyGraph (← graphAtHand) fun g => { g with exceptDepth := 0, exceptBuffer := [] }

def visitHandler (pos : Position) (name : Option String) (body : Build Unit) : Build Unit := do
  let before ← snapshot
  match name with
  | some name => bindError name pos
  | none => pure ()
  enterHandler
  body
  restoreLatest before
  match name with
  | some name => do
    forgetOccurrences .function name
    forgetOccurrences .module name
  | none => pure ()

def occurrenceTier (n : NodeId) : Build (Option Tier) := do
  match (← Eval.node n).kind.symbol? with
  | some info => return tierOf info.scope
  | none => throw .missingProperty

def mergeHandled (buffers : List (Table String NodeId)) (key : String) : Build Unit := do
  let left := (← holder key [.module, .function, .class_]).map (·.2)
  let nodes := left.toList ++ buffers.filterMap (·.get? key)
  match nodes with
  | [n] => do
    match ← occurrenceTier n with
    | some t => setLatest t key (some n)
    | none => pure ()
  | _ => do
    let m ← newMerge (nodes.map some)
    setLatest (← innermost) key (some m)
    addNode m

def mergeHandlers : Build Unit := do
  let buffers := (← Eval.graph (← graphAtHand)).exceptBuffer
  for key in buffers.flatMap Table.keys do mergeHandled buffers key

/-- A `try` statement. -/
def visitTry (body handlers orElse finalBody : Build Unit) : Build Unit := do
  let before ← snapshot
  enterTry
  body
  let after ← snapshot
  restoreLatest before
  mergeWrites
  closeTry
  dropTry
  handlers
  restoreLatest after
  orElse
  mergeHandlers
  finalBody
  leaveHandlers

/-! ## Contexts -/

/-- A context that is entered, and what its value is assigned to. -/
def visitContext (value : Build Unit) (target : Option (Expr × Build Unit)) : Build Unit := do
  match target with
  | none => do
    unusedValue value
    modify fun w => { w with contextNames := [] :: w.contextNames }
  | some (e, visitTarget) => do
    let pos ← require (← get).contextPositions.head? .outOfRange
    let op ← newOperation "=" pos
    reading op do
      value
      visitTarget
      let path ← pathOf e
      modify fun w => { w with contextNames := [path] :: w.contextNames }
    addNode op

/-- Forget a name that a context bound, and the chains that start with it. -/
def forgetBound (name : String) : Build Unit := do
  let t ← if ← occurs .function name then pure (some Tier.function)
    else if ← occurs .module name then pure (some .module)
    else pure none
  match t with
  | none => pure ()
  | some t => do
    forgetLatest t name
    let v ← vars t
    let isPart (key : String) : Bool := Text.startsWith key (name ++ "_@_")
    let gone := v.counts.keys.filter isPart
    let latest := v.latest.entries.filter fun e => !(gone.contains e.1)
    setVariables t { v with latest := ⟨latest⟩ }
    forgetOccurrences t name

/-- A `with` statement. It forgets the names of its last context. -/
def visitWith (pos : Position) (items body : Build Unit) : Build Unit := do
  modify fun w => { w with contextPositions := pos :: w.contextPositions }
  items
  body
  match (← get).contextNames with
  | [] => throw .outOfRange
  | names :: rest => do
    for name in names do forgetBound name
    modify fun w =>
      { w with contextNames := rest, contextPositions := w.contextPositions.tail }

end TypeFlow.Build
