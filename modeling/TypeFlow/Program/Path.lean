import TypeFlow.Program.Expr
import TypeFlow.Fault
import TypeFlow.Text.Basic

/-! # Paths and constants

An expression that names something by a chain of attributes has a path, in which `_@_` stands
between the components and `()` after a call. -/

namespace TypeFlow.Program

namespace Literal

/-- The type of a constant, with the wording for constants that have none. An ellipsis says
nothing about types. -/
def typeName (refusal : String) : Literal → Except Fault (Option String)
  | .text => .ok (some "Text")
  | .bytes => .ok (some "bytes")
  | .bool => .ok (some "bool")
  | .float => .ok (some "float")
  | .int => .ok (some "int")
  | .none => .ok (some "None")
  | .ellipsis => .ok Option.none
  | .complex => .error (.rejectedKind (refusal ++ "<class 'complex'>"))

/-- How graph building words the refusal of a constant. -/
def graphRefusal : String := "Currently HiTyper does not support constant of type: "

/-- How the search for user types words the refusal of a constant. -/
def discoveryRefusal : String := "Currently we do not suupport constant of type: "

end Literal

namespace Expr

/-- What stands for a component that is not a name, an attribute, a call or a constant. -/
def unnamed : String := "<Other>"

def path (refusal : String) : Expr → Except Fault String
  | .attribute _ value attr _ => do return (← value.path refusal) ++ "_@_" ++ attr
  | .name _ id _ => .ok id
  | .constant _ kind => do
    match ← kind.typeName refusal with
    | some t => .ok t
    | none => .error .missingProperty
  | .call _ func _ _ => do return (← func.path refusal) ++ "()"
  | _ => .ok unnamed

/-- Paths of arguments, each with its end mark. -/
def argumentPaths (refusal : String) : List Expr → Except Fault String
  | [] => .ok ""
  | e :: rest => do
    let first ← e.path refusal
    return first ++ "_&" ++ (← argumentPaths refusal rest)

def callPath (refusal : String) : Expr → Except Fault String
  | .call _ func args _ => do
    let callee ← func.path refusal
    return callee ++ "(" ++ (← argumentPaths refusal args) ++ ")"
  | _ => .error .missingProperty

def constantType (refusal : String) : Expr → Except Fault (Option String)
  | .constant _ kind => kind.typeName refusal
  | _ => .error (.rejectedValue "Only Support Constant AST node.")

/-- A path has a component that cannot be spelled out. -/
def isVague (path : String) : Bool := Text.has path unnamed

def attributeCount (path : String) : Nat := Text.count path "_@_"

end Expr
end TypeFlow.Program
