import TypeFlow.Document
import TypeFlow.Program.Stmt

/-! # Reading program trees

A program tree comes as a document. Every node is a record with its class under `_`, its position
under `p` and its parts under their field names. Absent fields stand for nothing or for the empty
list. The reader is bounded by the depth of the document. -/

namespace TypeFlow.Program

/-- A field of a node; absent ones read as nothing. -/
def part (d : Document) (key : String) : Document := (d.field? key).getD .null

/-- The items of a list; anything else has none. -/
def partItems (d : Document) (key : String) : List Document :=
  match part d key with
  | .list items => items
  | _ => []

def partText? (d : Document) (key : String) : Option String := (part d key).text?

/-- A name in a field; an absent one reads as empty. -/
def partText (d : Document) (key : String) : String := (partText? d key).getD ""

def nodeClass (d : Document) : String := partText d "_"

def readPosition (d : Document) : Position :=
  match part d "p" with
  | .list [.int line, .int column, .int columnEnd] => ⟨line, column, columnEnd⟩
  | _ => ⟨0, 0, 0⟩

/-- The way in which a node is used. -/
def readAccess (d : Document) : Access :=
  match partText d "ctx" with
  | "Store" => .store
  | "Del" => .delete
  | _ => .load

def readLiteral (d : Document) : Literal :=
  match partText d "k" with
  | "str" => .text
  | "bytes" => .bytes
  | "bool" => .bool
  | "int" => .int
  | "float" => .float
  | "None" => .none
  | "Ellipsis" => .ellipsis
  | _ => .complex

/-- An operator between two operands. -/
def BinaryOp.ofName : String → BinaryOp
  | "Add" => .add
  | "Sub" => .sub
  | "Mult" => .mult
  | "Div" => .div
  | "FloorDiv" => .floorDiv
  | "Mod" => .mod
  | "Pow" => .pow
  | "LShift" => .shiftLeft
  | "RShift" => .shiftRight
  | "BitOr" => .bitOr
  | "BitXor" => .bitXor
  | "BitAnd" => .bitAnd
  | _ => .matMult

def UnaryOp.ofName : String → UnaryOp
  | "UAdd" => .plus
  | "USub" => .minus
  | "Not" => .not
  | _ => .invert

def BoolOp.ofName : String → BoolOp
  | "And" => .and
  | _ => .or

def CompareOp.ofName : String → CompareOp
  | "Eq" => .eq
  | "NotEq" => .notEq
  | "Lt" => .lt
  | "LtE" => .ltE
  | "Gt" => .gt
  | "GtE" => .gtE
  | "Is" => .is
  | "IsNot" => .isNot
  | "In" => .within
  | _ => .notWithin

def readCompareOps (d : Document) : List CompareOp :=
  (partItems d "ops").map fun op => .ofName (op.text?.getD "")

/-- Read something that may be absent. -/
def readOption {α : Type} (read : Document → α) : Document → Option α
  | .null => none
  | d => some (read d)

def readParam (expr : Document → Expr) (d : Document) : Param :=
  .mk (readPosition d) (partText d "arg") (readOption expr (part d "annotation"))

def readParams (expr : Document → Expr) (d : Document) : Params :=
  let params (key : String) : List Param := (partItems d key).map (readParam expr)
  let param? (key : String) : Option Param := readOption (readParam expr) (part d key)
  .mk (params "posonlyargs") (params "args") (param? "vararg") (params "kwonlyargs")
    ((partItems d "kw_defaults").map (readOption expr)) (param? "kwarg")
    ((partItems d "defaults").map expr)

def readKeyword (expr : Document → Expr) (d : Document) : Keyword :=
  .mk (partText? d "arg") (expr (part d "value"))

def readClause (expr : Document → Expr) (d : Document) : Clause :=
  .mk (expr (part d "target")) (expr (part d "iter")) ((partItems d "ifs").map expr)

def readExprWith (expr : Document → Expr) (d : Document) : Expr :=
  let p := readPosition d
  let e (key : String) : Expr := expr (part d key)
  let e? (key : String) : Option Expr := readOption expr (part d key)
  let es (key : String) : List Expr := (partItems d key).map expr
  let clauses := (partItems d "generators").map (readClause expr)
  let op := partText d "op"
  match nodeClass d with
  | "BoolOp" => .boolOp p (.ofName op) (es "values")
  | "NamedExpr" => .named p (e "target") (e "value")
  | "BinOp" => .binary p (.ofName op) (e "left") (e "right")
  | "UnaryOp" => .unary p (.ofName op) (e "operand")
  | "Lambda" => .lambda p (readParams expr (part d "args")) (e "body")
  | "IfExp" => .conditional p (e "test") (e "body") (e "orelse")
  | "Dict" => .dict p ((partItems d "keys").map (readOption expr)) (es "values")
  | "Set" => .set p (es "elts")
  | "ListComp" => .comprehension p .list (e "elt") clauses
  | "SetComp" => .comprehension p .set (e "elt") clauses
  | "GeneratorExp" => .comprehension p .generator (e "elt") clauses
  | "DictComp" => .dictComprehension p (e "key") (e "value") clauses
  | "Await" => .await p (e "value")
  | "Yield" => .yield p (e? "value")
  | "YieldFrom" => .yieldFrom p (e "value")
  | "Compare" => .compare p (e "left") (readCompareOps d) (es "comparators")
  | "Call" => .call p (e "func") (es "args") ((partItems d "keywords").map (readKeyword expr))
  | "FormattedValue" => .formatted p (e "value") (e? "format_spec")
  | "JoinedStr" => .joined p (es "values")
  | "Attribute" => .attribute p (e "value") (partText d "attr") (readAccess d)
  | "Subscript" => .subscript p (e "value") (e "slice") (readAccess d)
  | "Starred" => .starred p (e "value")
  | "Name" => .name p (partText d "id") (readAccess d)
  | "List" => .list p (es "elts") (readAccess d)
  | "Tuple" => .tuple p (es "elts") (readAccess d)
  | "Slice" => .slice p (e? "lower") (e? "upper") (e? "step")
  | _ => .constant p (readLiteral d)

def readExpr : Nat → Document → Expr
  | 0, _ => default
  | depth + 1, d => readExprWith (readExpr depth) d

def readImport (d : Document) : Import := ⟨partText d "name", partText? d "asname"⟩

/-- Read a context of a `with` statement. -/
def readContext (expr : Document → Expr) (d : Document) : Context :=
  ⟨expr (part d "context_expr"), readOption expr (part d "optional_vars")⟩

def readPattern (expr : Document → Expr) : Nat → Document → Pattern
  | 0, _ => default
  | depth + 1, d =>
    let patterns (key : String) : List Pattern :=
      (partItems d key).map (readPattern expr depth)
    match nodeClass d with
    | "MatchValue" => .value (expr (part d "value"))
    | "MatchSequence" => .sequence (patterns "patterns")
    | "MatchMapping" => .mapping ((partItems d "keys").map expr) (patterns "patterns")
    | "MatchClass" =>
      .object (expr (part d "cls")) (patterns "patterns") (patterns "kwd_patterns")
    | "MatchStar" => .star
    | "MatchAs" => .capture (readOption (readPattern expr depth) (part d "pattern"))
    | "MatchOr" => .alternatives (patterns "patterns")
    | _ => .singleton

def readHandler (expr : Document → Expr) (stmt : Document → Stmt) (d : Document) : Handler :=
  .mk (readPosition d) (readOption expr (part d "type")) (partText? d "name")
    ((partItems d "body").map stmt)

/-- Read a case of a `match` statement. -/
def readCase (expr : Document → Expr) (pattern : Document → Pattern) (stmt : Document → Stmt)
    (d : Document) : Case :=
  .mk (pattern (part d "pattern")) (readOption expr (part d "guard"))
    ((partItems d "body").map stmt)

/-- Read a statement whose parts are read by given functions. -/
def readStmtWith (expr : Document → Expr) (pattern : Document → Pattern)
    (stmt : Document → Stmt) (d : Document) : Stmt :=
  let p := readPosition d
  let e (key : String) : Expr := expr (part d key)
  let e? (key : String) : Option Expr := readOption expr (part d key)
  let es (key : String) : List Expr := (partItems d key).map expr
  let body (key : String) : List Stmt := (partItems d key).map stmt
  let handlers := (partItems d "handlers").map (readHandler expr stmt)
  let imports := (partItems d "names").map readImport
  match nodeClass d with
  | "FunctionDef" | "AsyncFunctionDef" =>
    .function p (partText d "name") (readParams expr (part d "args")) (body "body")
      (es "decorator_list") (e? "returns")
  | "ClassDef" =>
    .class_ p (partText d "name") (es "bases") ((partItems d "keywords").map (readKeyword expr))
      (body "body") (es "decorator_list")
  | "Return" => .return_ p (e? "value")
  | "Delete" => .delete (es "targets")
  | "Assign" => .assign p (es "targets") (e "value")
  | "AugAssign" => .augAssign p (e "target") (.ofName (partText d "op")) (e "value")
  | "AnnAssign" => .annAssign p (e "target") (e "annotation") (e? "value")
  | "For" | "AsyncFor" => .for_ p (e "target") (e "iter") (body "body") (body "orelse")
  | "While" => .while_ p (e "test") (body "body") (body "orelse")
  | "If" => .if_ p (e "test") (body "body") (body "orelse")
  | "With" | "AsyncWith" => .with_ p ((partItems d "items").map (readContext expr)) (body "body")
  | "Match" => .match_ (e "subject") ((partItems d "cases").map (readCase expr pattern stmt))
  | "Raise" => .raise (e? "exc") (e? "cause")
  | "Try" => .try_ (body "body") handlers (body "orelse") (body "finalbody")
  | "TryStar" => .tryStar (body "body") handlers (body "orelse") (body "finalbody")
  | "Assert" => .assert (e "test") (e? "msg")
  | "Import" => .import_ imports
  | "ImportFrom" =>
    let level := match part d "level" with
      | .int n => n.toNat
      | _ => 0
    .importFrom (partText? d "module") imports level
  | "Expr" => .expr (e "value")
  | _ => .other

/-- Read a statement down to a depth. -/
def readStmt : Nat → Document → Stmt
  | 0, _ => default
  | depth + 1, d =>
    readStmtWith (readExpr depth) (readPattern (readExpr depth) depth) (readStmt depth) d

def ofDocument (d : Document) : Module := (partItems d "body").map (readStmt d.depth)

def Expr.ofDocument (d : Document) : Expr := readExpr d.depth d

end TypeFlow.Program
