import TypeFlow.Program.Operator
import TypeFlow.Store.Node

/-! # Expressions

Expressions of a program with their positions. Of a constant only its kind is kept. -/

namespace TypeFlow.Program

/-- What happens to the variable or element that an expression names. -/
inductive Access where
  | load
  | store
  | delete
deriving DecidableEq, Repr, Inhabited

inductive Literal where
  | text
  | bytes
  | bool
  | int
  | float
  | none
  | ellipsis
  | complex
deriving DecidableEq, Repr, Inhabited

inductive Form where
  | list
  | set
  | generator
deriving DecidableEq, Repr, Inhabited

mutual

inductive Expr where
  | boolOp (pos : Position) (op : BoolOp) (values : List Expr)
  | named (pos : Position) (target value : Expr)
  | binary (pos : Position) (op : BinaryOp) (left right : Expr)
  | unary (pos : Position) (op : UnaryOp) (operand : Expr)
  | lambda (pos : Position) (params : Params) (body : Expr)
  | conditional (pos : Position) (test body orElse : Expr)
  /-- A key that is absent stands for an unpacked mapping. -/
  | dict (pos : Position) (keys : List (Option Expr)) (values : List Expr)
  | set (pos : Position) (elements : List Expr)
  | comprehension (pos : Position) (form : Form) (element : Expr) (clauses : List Clause)
  | dictComprehension (pos : Position) (key value : Expr) (clauses : List Clause)
  | await (pos : Position) (value : Expr)
  | yield (pos : Position) (value : Option Expr)
  | yieldFrom (pos : Position) (value : Expr)
  | compare (pos : Position) (left : Expr) (ops : List CompareOp) (comparators : List Expr)
  | call (pos : Position) (func : Expr) (args : List Expr) (keywords : List Keyword)
  | formatted (pos : Position) (value : Expr) (spec : Option Expr)
  | joined (pos : Position) (values : List Expr)
  | constant (pos : Position) (kind : Literal)
  | attribute (pos : Position) (value : Expr) (attr : String) (access : Access)
  | subscript (pos : Position) (value index : Expr) (access : Access)
  | starred (pos : Position) (value : Expr)
  | name (pos : Position) (id : String) (access : Access)
  | list (pos : Position) (elements : List Expr) (access : Access)
  | tuple (pos : Position) (elements : List Expr) (access : Access)
  | slice (pos : Position) (lower upper step : Option Expr)

/-- One `for` clause of a comprehension with its conditions. -/
inductive Clause where
  | mk (target iter : Expr) (conditions : List Expr)

/-- A named argument of a call; an unpacked mapping has no name. -/
inductive Keyword where
  | mk (name : Option String) (value : Expr)

inductive Param where
  | mk (pos : Position) (name : String) (hint : Option Expr)

/-- The parameters of a function, by kind. Defaults belong to the last of the positional
parameters; each keyword parameter has one or none. -/
inductive Params where
  | mk (positional plain : List Param) (variadic : Option Param) (keyword : List Param)
      (keywordDefaults : List (Option Expr)) (mapping : Option Param) (defaults : List Expr)

end

instance : Inhabited Expr := ⟨.constant default .none⟩
instance : Inhabited Clause := ⟨.mk default default []⟩
instance : Inhabited Keyword := ⟨.mk none default⟩
instance : Inhabited Param := ⟨.mk default "" none⟩
instance : Inhabited Params := ⟨.mk [] [] none [] [] none []⟩

namespace Expr

def position : Expr → Position
  | .boolOp p .. | .named p .. | .binary p .. | .unary p .. | .lambda p .. | .conditional p ..
  | .dict p .. | .set p .. | .comprehension p .. | .dictComprehension p .. | .await p ..
  | .yield p .. | .yieldFrom p .. | .compare p .. | .call p .. | .formatted p .. | .joined p ..
  | .constant p .. | .attribute p .. | .subscript p .. | .starred p .. | .name p .. | .list p ..
  | .tuple p .. | .slice p .. => p

def isConstant : Expr → Bool
  | .constant .. => true
  | _ => false

def name? : Expr → Option String
  | .name _ id _ => some id
  | _ => none

end Expr

def Param.name : Param → String
  | .mk _ name _ => name

def Param.position : Param → Position
  | .mk p _ _ => p

def Params.names : Params → List String
  | .mk positional plain variadic keyword _ mapping _ =>
    (positional ++ plain ++ variadic.toList ++ keyword ++ mapping.toList).map Param.name

end TypeFlow.Program
