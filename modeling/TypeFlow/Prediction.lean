import TypeFlow.Document
import TypeFlow.Table

/-! # Predictions of a model server

A model server answers with predicted types for every class and function of a program, each type
with its probability. Recommendations keep the types in order, by class and function. The
predictions for a module stand under the class and function `global`. -/

namespace TypeFlow.Prediction

/-- Annotations by class and function. -/
abbrev Recommendations := Table String (Table String (List Document))

/-- The name under which the module and its functions are kept. -/
def moduleKey : String := "global"

def typesOf (predicted : Document) : Except Fault (List Document) := do
  (← predicted.parts).mapM (·.item 0)

def annotationOf (category : String) (name : Document) (types : List Document) : Document :=
  .record [("category", .text category), ("name", name), ("type", .list types)]

/-- Annotations for the named predictions in a field, if there is such a field. -/
def named (category : String) (d : Document) (field : String) : Except Fault (List Document) := do
  if !(← d.holds field) then return []
  (← (← d.field field).entries).mapM fun (name, predicted) => do
    return annotationOf category (.text name) (← typesOf predicted)

/-- The annotation for the result of a function, if one is predicted. -/
def result (func name : Document) : Except Fault (List Document) := do
  if !(← func.holds "ret_type_p") then return []
  let types ← typesOf (← func.field "ret_type_p")
  return [annotationOf "return" (.text (Text.lastPiece (← name.asText) ".")) types]

def addFunction (cls : String) (r : Recommendations) (func : Document) :
    Except Fault Recommendations := do
  let name ← func.field "q_name"
  let key ← name.key
  let args ← named "arg" func "params_p"
  let result ← result func name
  let locals ← named "local" func "variables_p"
  return r.insert cls (((r.get? cls).getD {}).insert key (args ++ result ++ locals))

def addClass (r : Recommendations) (cls : Document) : Except Fault Recommendations := do
  let name ← (← cls.field "q_name").key
  (← (← cls.field "funcs").parts).foldlM (addFunction name) (r.insert name {})

def addVariables (r : Recommendations) (vars : Document) : Except Fault Recommendations := do
  let found ← (← vars.entries).mapM fun (name, predicted) => do
    return annotationOf "local" (.text name) (← typesOf predicted)
  let functions := (r.get? moduleKey).getD {}
  let known := (functions.get? moduleKey).getD []
  return r.insert moduleKey (functions.insert moduleKey (known ++ found))

def describe (r : Recommendations) : Document :=
  .record (r.entries.map fun (cls, functions) =>
    (cls, .record (functions.entries.map fun (name, annotations) =>
      (name, .record [("annotations", .list annotations)]))))

def read (d : Document) : Except Fault Recommendations := do
  let r ← (← (← d.field "classes").parts).foldlM addClass {}
  let r := r.insert moduleKey (Table.empty.insert moduleKey [])
  let r ← (← (← d.field "funcs").parts).foldlM (addFunction moduleKey) r
  addVariables r (← d.field "variables_p")

/-- The recommendations in an answer of a model server. There are none when the server does not
answer, or answers that it has none. -/
def ofAnswer : Option Document → Except Fault (Option Document)
  | some (.record fields) => do
    match ← (Document.record fields).field "response" with
    | .null => return none
    | d => return some (describe (← read d))
  | _ => return none

end TypeFlow.Prediction
