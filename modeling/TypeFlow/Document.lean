import TypeFlow.Fault
import TypeFlow.Store.Cell
import TypeFlow.Text.Basic

/-! # Documents

Nested records, lists and scalars: the form in which graphs are saved, repositories describe
their types and a model server answers. -/

namespace TypeFlow

/-- A structured value. Fields of a record stand in the order in which they were written. -/
inductive Document where
  | null
  | bool (b : Bool)
  | int (n : Int)
  /-- `mantissa` times ten to the power `-exponent`. -/
  | decimal (mantissa : Int) (exponent : Nat)
  | text (s : String)
  | list (items : List Document)
  | record (fields : List (String × Document))
  /-- A type that is not spelled out. -/
  | type (t : TypeId)
deriving Repr, Inhabited

namespace Document

mutual

/-- Two documents are the same, fields in the same order. -/
def same : Document → Document → Bool
  | .null, .null => true
  | .bool b, .bool b' => b == b'
  | .int n, .int n' => n == n'
  | .decimal m e, .decimal m' e' => m == m' && e == e'
  | .text s, .text s' => s == s'
  | .list l, .list l' => sameItems l l'
  | .record l, .record l' => sameFields l l'
  | .type t, .type t' => t == t'
  | _, _ => false
termination_by structural d => d

def sameItems : List Document → List Document → Bool
  | [], [] => true
  | d :: rest, d' :: rest' => d.same d' && sameItems rest rest'
  | _, _ => false
termination_by structural l => l

def sameField : String × Document → String × Document → Bool
  | (key, d), (key', d') => key == key' && d.same d'
termination_by structural f => f

def sameFields : List (String × Document) → List (String × Document) → Bool
  | [], [] => true
  | f :: rest, f' :: rest' => sameField f f' && sameFields rest rest'
  | _, _ => false
termination_by structural l => l

end

instance : BEq Document := ⟨same⟩

mutual

def depth : Document → Nat
  | .list items => depthOfItems items + 1
  | .record fields => depthOfFields fields + 1
  | _ => 1

/-- The number of levels of the deepest item. -/
def depthOfItems : List Document → Nat
  | [] => 0
  | d :: rest => max d.depth (depthOfItems rest)

def depthOfField : String × Document → Nat
  | (_, d) => d.depth

/-- The number of levels of the deepest field. -/
def depthOfFields : List (String × Document) → Nat
  | [] => 0
  | f :: rest => max (depthOfField f) (depthOfFields rest)

end

def field? (key : String) : Document → Option Document
  | .record fields => fields.lookup key
  | _ => none

def text? : Document → Option String
  | .text s => some s
  | _ => none

/-- The field of a document that has to be a record with that field. -/
def field (key : String) : Document → Except Fault Document
  | .record fields =>
    match fields.lookup key with
    | some d => .ok d
    | none => .error .missingKey
  | _ => .error .wrongKind

/-- The parts a document ranges over: items of a list, keys of a record, letters of a text. -/
def parts : Document → Except Fault (List Document)
  | .list items => .ok items
  | .record fields => .ok (fields.map fun f => .text f.1)
  | .text s => .ok (s.toList.map fun c => .text (String.singleton c))
  | _ => .error .wrongKind

/-- A text is a key of a record, an item of a list or a part of a text. -/
def holds (key : String) : Document → Except Fault Bool
  | .record fields => .ok (fields.any (·.1 == key))
  | .list items => .ok (items.contains (.text key))
  | .text s => .ok (Text.has s key)
  | _ => .error .wrongKind

/-- All of several texts are keys, items or parts, as far as one looks. -/
def holdsAll (d : Document) : List String → Except Fault Bool
  | [] => .ok true
  | key :: rest => do if ← d.holds key then d.holdsAll rest else return false

def item (i : Nat) : Document → Except Fault Document
  | .list items =>
    match items[i]? with
    | some d => .ok d
    | none => .error .outOfRange
  | .text s =>
    match s.toList[i]? with
    | some c => .ok (.text (String.singleton c))
    | none => .error .outOfRange
  | .record _ => .error .missingKey
  | _ => .error .wrongKind

/-- The number of items, fields or letters. -/
def length : Document → Except Fault Nat
  | .list items => .ok items.length
  | .record fields => .ok fields.length
  | .text s => .ok s.length
  | _ => .error .wrongKind

/-- The text of a document that has to be one. -/
def asText : Document → Except Fault String
  | .text s => .ok s
  | _ => .error .missingProperty

def key : Document → Except Fault String
  | .text s => .ok s
  | .null => .ok "null"
  | .bool b => .ok (if b then "true" else "false")
  | .int n => .ok (toString n)
  | _ => .error .wrongKind

/-- The fields of a record; anything else may only be empty. -/
def entries : Document → Except Fault (List (String × Document))
  | .record fields => .ok fields
  | .list [] => .ok []
  | .text "" => .ok []
  | _ => .error .wrongKind

/-- The fields of a document that has to be a record. -/
def fields : Document → Except Fault (List (String × Document))
  | .record fields => .ok fields
  | _ => .error .missingProperty

def ofText? : Option String → Document
  | some s => .text s
  | none => .null

/-- A document for a number that may be absent. -/
def ofInt? : Option Int → Document
  | some n => .int n
  | none => .null

end Document
end TypeFlow
