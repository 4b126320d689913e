import TypeFlow.Program.Expr

/-! # Statements

Statements of a program with their positions. Asynchronous functions, loops and contexts are
treated like the plain ones. -/

namespace TypeFlow.Program

/-- A pattern of a `match` statement. Names that patterns bind are not kept. -/
inductive Pattern where
  | value (value : Expr)
  | singleton
  | sequence (patterns : List Pattern)
  | mapping (keys : List Expr) (patterns : List Pattern)
  | object (cls : Expr) (patterns named : List Pattern)
  | star
  | capture (pattern : Option Pattern)
  | alternatives (patterns : List Pattern)
deriving Inhabited

/-- An imported name, and the name it gets. -/
structure Import where
  name : String
  newName : Option String
deriving DecidableEq, Repr, Inhabited

/-- A context that is entered, and what its value is assigned to. -/
structure Context where
  value : Expr
  target : Option Expr
deriving Inhabited

mutual

inductive Stmt where
  | function (pos : Position) (name : String) (params : Params) (body : List Stmt)
      (decorators : List Expr) (returns : Option Expr)
  | class_ (pos : Position) (name : String) (bases : List Expr) (keywords : List Keyword)
      (body : List Stmt) (decorators : List Expr)
  | return_ (pos : Position) (value : Option Expr)
  | delete (targets : List Expr)
  | assign (pos : Position) (targets : List Expr) (value : Expr)
  | augAssign (pos : Position) (target : Expr) (op : BinaryOp) (value : Expr)
  | annAssign (pos : Position) (target hint : Expr) (value : Option Expr)
  | for_ (pos : Position) (target iter : Expr) (body orElse : List Stmt)
  | while_ (pos : Position) (test : Expr) (body orElse : List Stmt)
  | if_ (pos : Position) (test : Expr) (body orElse : List Stmt)
  | with_ (pos : Position) (items : List Context) (body : List Stmt)
  | match_ (subject : Expr) (cases : List Case)
  | raise (exc cause : Option Expr)
  | try_ (body : List Stmt) (handlers : List Handler) (orElse finalBody : List Stmt)
  /-- A `try` statement whose handlers each take a part of a group of errors. -/
  | tryStar (body : List Stmt) (handlers : List Handler) (orElse finalBody : List Stmt)
  | assert (test : Expr) (message : Option Expr)
  | import_ (names : List Import)
  | importFrom (module : Option String) (names : List Import) (level : Nat)
  | expr (value : Expr)
  /-- `pass`, `break`, `continue`, `global` and `nonlocal`. -/
  | other

/-- A handler of a `try` statement, with the name it gives to the error. -/
inductive Handler where
  | mk (pos : Position) (kind : Option Expr) (name : Option String) (body : List Stmt)

/-- A case of a `match` statement. -/
inductive Case where
  | mk (pattern : Pattern) (guard : Option Expr) (body : List Stmt)

end

instance : Inhabited Stmt := ⟨.other⟩
instance : Inhabited Handler := ⟨.mk default none none []⟩
instance : Inhabited Case := ⟨.mk default none []⟩

abbrev Module := List Stmt

end TypeFlow.Program
