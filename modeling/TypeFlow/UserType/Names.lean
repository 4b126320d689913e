import TypeFlow.Document

/-! # Names of user types

A description of user types lists the types that a file imports directly, those that come with
an imported module, those that it defines itself, and those whose definition was not found. -/

namespace TypeFlow.UserType

/-- Append the names that stand third in the entries of a list, each once. -/
def addImported (names : List Document) (entries : Document) : Except Fault (List Document) := do
  (← entries.parts).foldlM
    (fun names entry => do
      let name ← entry.item 2
      return if names.contains name then names else names ++ [name])
    names

def addDefined (names : List Document) (entries : Document) : Except Fault (List Document) := do
  (← entries.parts).foldlM
    (fun names entry => do
      if names.contains entry then return names
      return names ++ [← entry.item 0])
    names

def names (description : Document) : Except Fault (List Document) := do
  let names ← addImported [] (← description.field "direct")
  let names ← addImported names (← description.field "indirect")
  let names ← addImported names (← description.field "unrecognized")
  addDefined names (← description.field "init")

end TypeFlow.UserType
