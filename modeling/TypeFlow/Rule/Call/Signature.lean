import TypeFlow.Rule.Basic

/-! # Calls of functions with a signature

Arguments are checked against the parameter types of a signature. Of several parameter lists
those count that have as many parameters as there are arguments, and if there are none, those
that have more. -/

namespace TypeFlow.Rule

open Eval Vocabulary

/-- The first of several names that a type is like. -/
def likeness (e : Entry) : List String → Typing (Option String)
  | [] => return none
  | name :: rest => do
    if ← isLike [name] e then return some name else likeness e rest

/-- Read type expressions one after the other. -/
def readAll (written : List String) : Typing (List Entry) := do
  return (← written.mapM readTypes).flatten

/-- The types a parameter takes. Some parameter types refer to the receiver. -/
def parameterTypes (receiver : Option Entry) (written : String) : Typing (List Entry) := do
  match groups.lookup written with
  | some names => readAll names
  | none =>
    match receiver, written with
    | some e, "@elementtype@" => elementsOf e
    | some e, "@keytype@" => keysOf e
    | some e, "@valuetype@" => valuesOf e
    | _, _ => readTypes written

/-- The type a parameter is checked against; `none` when everything is taken. -/
def Parameter.checked? : Parameter → Option String
  | .opt => none
  | .req type => if type = "Any" then none else some type

def ofOtherType (valid entries : List Entry) : Typing (List Entry) :=
  entries.filterM fun e => return !(← existType e valid)

/-- The types of an argument that a parameter does not take. -/
def rejectedArgument (receiver : Option Entry) (p : Parameter) (o : Operand) :
    Typing (List Entry) := do
  match Parameter.checked? p with
  | none => return []
  | some written => do
    let valid ← parameterTypes receiver written
    ofOtherType valid (← o.types)

/-- Add to the rejected types of each argument those that its parameter does not take. -/
def checkArguments (receiver : Option Entry) :
    List Parameter → List Operand → List (List Entry) → Typing (List (List Entry))
  | p :: ps, o :: os, r :: rs => do
    let bad ← rejectedArgument receiver p o
    return (r ++ bad) :: (← checkArguments receiver ps os rs)
  | _, _, rs => return rs

/-- The parameter lists that are tried for a number of arguments. -/
def applicable (alternatives : List (List Parameter)) (n : Nat) : List (List Parameter) :=
  match alternatives.filter (·.length = n) with
  | [] => alternatives.filter (n < ·.length)
  | exact => exact

/-- What is known about a method call while the types of the receiver are walked. -/
structure MethodState where
  receiver : List Entry := []
  arguments : List (List Entry)
  result : List Entry := []

/-- Check the arguments of a method for one type of the receiver. -/
def methodStep (signature : Signature) (e : Entry) (arguments : List Operand)
    (state : MethodState) : Typing MethodState := do
  match signature.alternatives with
  | [] => return state
  | [[]] => return { state with result := ← readTypes signature.result }
  | [parameters] => do
    if parameters.length < arguments.length then
      return { state with receiver := state.receiver ++ [e] }
    let rejected ← checkArguments (some e) parameters arguments state.arguments
    return { state with arguments := rejected, result := ← readTypes signature.result }
  | alternatives =>
    (applicable alternatives arguments.length).foldlM
      (fun state parameters => do
        let rejected ← checkArguments (some e) parameters arguments state.arguments
        return { state with arguments := rejected, result := ← readTypes signature.result })
      state

def methodCall (name : String) (operands : List Operand) : Ruling := do
  let target ← first operands
  let arguments := operands.drop 1
  let owners := receivers name
  let mut state : MethodState := { arguments := nothing arguments }
  for e in ← target.types do
    match ← likeness e owners with
    | some owner =>
      match method? owner name with
      | some signature => state ← methodStep signature e arguments state
      | none => pure ()
    | none =>
      if !owners.isEmpty then state := { state with receiver := state.receiver ++ [e] }
  answer (state.receiver :: state.arguments) state.result

/-- One empty list for each parameter that takes everything. -/
def unchecked (parameters : List Parameter) : List (List Entry) :=
  nothing (parameters.filter fun p => (Parameter.checked? p).isNone)

/-- The types that each of several parameters takes, over all parameter lists. -/
def allParameterTypes (alternatives : List (List Parameter)) (n : Nat) :
    Typing (List (List Entry)) :=
  alternatives.foldlM
    (fun valid parameters =>
      (valid.zip parameters).mapM fun (types, p) => do
        match Parameter.checked? p with
        | none => return types
        | some written => return types ++ (← parameterTypes none written))
    (List.replicate n [])

/-- The types of arguments that no parameter list takes; positions without a checked parameter
take everything. -/
def rejectedByAll (valid : List (List Entry)) (operands : List Operand) :
    Typing (List (List Entry)) :=
  (valid.zip operands).mapM fun (types, o) => do
    let entries ← o.types
    if types.isEmpty then return [] else ofOtherType types entries

/-- The call of a function with several parameter lists. -/
def overloadedCall (signature : Signature) (operands : List Operand) : Ruling := do
  let n := operands.length
  let exact := signature.alternatives.filter (·.length = n)
  let valid ← allParameterTypes exact n
  let rejected ← rejectedByAll valid operands
  let result ← readTypes signature.result
  if !exact.isEmpty then
    answer (rejected ++ exact.flatMap unchecked) result
  else
    let longer := signature.alternatives.filter (n < ·.length)
    let rejected ← longer.foldlM
      (fun rejected parameters => checkArguments none parameters operands rejected) rejected
    answer (rejected ++ longer.flatMap fun parameters => unchecked (parameters.take n)) result

/-- The call of a function that is not a method. -/
def functionCall (name : String) (operands : List Operand) : Ruling := do
  match standaloneFunctions.lookup name with
  | none => silent operands
  | some signature =>
    match signature.alternatives with
    | [parameters] =>
      if parameters.length < operands.length then silent operands
      else do
        let rejected ← checkArguments none parameters operands (nothing operands)
        let result ← readTypes signature.result
        answer (rejected ++ unchecked (parameters.take operands.length)) result
    | _ => overloadedCall signature operands

end TypeFlow.Rule
