import TypeFlow.Build.Branch

/-! # Loops

After a loop, a variable that its body touched is merged with what it held before. -/

namespace TypeFlow.Build

open Program

def enterLoop : Build Unit := do
  Eval.modifyGraph (← graphAtHand) fun g => { g with loopDepth := g.loopDepth + 1 }

/-- The current node of a variable and the one before the loop. Loops with a condition first ask
what a variable of the module was before. -/
def loopEnds (t : Tier) (before : Variables) (overElements : Bool) (key : String) :
    Build (Option (Link × Link)) := do
  if t = .module && !overElements then
    let old ← latestIn before key
    if old.isNone then return none
    return some (← latest t key, old)
  else
    let current ← latest t key
    if current.isNone then return none
    return some (current, ← latestIn before key)

/-- Merge a variable after a loop that touched it. A loop over elements leaves a variable alone
that had no current node before; other loops need one. -/
def joinLoopVariable (t : Tier) (before : Variables) (overElements : Bool) (key : String) :
    Build Unit := do
  match before.counts.get? key, (← vars t).counts.get? key with
  | some old, some now =>
    if old < now && (!overElements || before.latest.contains key) then
      match ← loopEnds t before overElements key with
      | some (some current, some old) => do
        let m ← newMerge [some current, some old]
        setLatest t key (some m)
        addNode m
      | _ => pure ()
  | _, _ => pure ()

/-- Merge the variables of the innermost scope and of the module after a loop. -/
def joinLoop (before : Snapshot) (overElements : Bool) : Build Unit := do
  let inner :=
    if before.function.isSome then [Tier.function]
    else if before.class_.isSome then [.class_] else []
  for t in inner ++ [.module] do
    match before.tier t with
    | some v => do
      for key in (← vars t).counts.keys do joinLoopVariable t v overElements key
    | none => pure ()

def leastOccurrences (nodes : List Node) : Table String Node :=
  nodes.foldl
    (fun least node =>
      match node.kind.symbol? with
      | none => least
      | some info =>
        match least.get? info.symbol with
        | none => least.insert info.symbol node
        | some known =>
          if known.kind.symbol?.any (info.order < ·.order) then least.insert info.symbol node
          else least)
    .empty

/-- The first occurrence of each variable in the body of a loop has at most one input. -/
def checkLoopBody : Build Unit := do
  let g ← Eval.graph (← graphAtHand)
  if (g.loopBuffer.length : Int) < g.loopDepth then return ()
  let nodes ← (← elementAt g.loopBuffer (g.loopDepth - 1)).mapM fun n => do Eval.node n
  if (leastOccurrences nodes).values.any (1 < ·.ins.length) then
    throw (.rejectedValue "Symbol nodes should not have more than 1 input nodes.")

def closeLoop : Build Unit := do
  Eval.modifyGraph (← graphAtHand) fun g => { g with loopDepth := g.loopDepth - 1 }

/-- Drop the buffer of a loop over elements that has been closed. -/
def dropLoop : Build Unit := do
  Eval.modifyGraph (← graphAtHand) fun g =>
    { g with loopBuffer := if g.loopDepth < g.loopBuffer.length
        then g.loopBuffer.eraseIdx g.loopDepth.toNat else g.loopBuffer }

/-- Leave the body of a loop with a condition, in which some node has to have been added. -/
def leaveWhile : Build Unit := do
  let g ← graphAtHand
  let graph ← Eval.graph g
  let depth := graph.loopDepth - 1
  let _ ← elementAt graph.loopBuffer depth
  Eval.modifyGraph g fun graph =>
    { graph with loopDepth := depth, loopBuffer := graph.loopBuffer.eraseIdx depth.toNat }

/-- Loops cannot have an `else` part. -/
def refuseElse (orElse : List Stmt) : Build Unit := do
  if !orElse.isEmpty then
    throw (.rejectedValue
      "Currently HiTyper does not support for loops with else statements.")

/-- Read a loop over the elements of a value until it has been closed. Its buffer is still there. -/
def readFor (pos : Position) (orElse : List Stmt) (target iter body : Build Unit) :
    Build NodeId := do
  refuseElse orElse
  let op ← newOperation "forin" pos
  reading op do
    target
    iter
  let before ← snapshot
  enterLoop
  body
  joinLoop before true
  checkLoopBody
  closeLoop
  return op

def visitFor (pos : Position) (orElse : List Stmt) (target iter body : Build Unit) :
    Build Unit := do
  let op ← readFor pos orElse target iter body
  dropLoop
  addNode op

def visitWhile (orElse : List Stmt) (test body : Build Unit) : Build Unit := do
  refuseElse orElse
  unusedValue test
  let before ← snapshot
  enterLoop
  body
  checkLoopBody
  joinLoop before false
  leaveWhile

end TypeFlow.Build
