import TypeFlow.Archive.Graph

/-! # Descriptions of saved nodes

Nodes that were read back, as documents that show what they hold. -/

namespace TypeFlow.Archive

def isSet : Document → Bool
  | .null => false
  | .bool b => b
  | .int n => n ≠ 0
  | .text s => s ≠ ""
  | .list l => !l.isEmpty
  | .record l => !l.isEmpty
  | _ => true

mutual

def TypeRecord.describe : TypeRecord → Document
  | .mk name category added _ origin originOrder elements keys values =>
    .record <|
      [("t", name), ("c", category)] ++
      (if elements.isEmpty then [] else [("e", .list (describeTypes elements))]) ++
      (if keys.isEmpty then [] else [("k", .list (describeTypes keys))]) ++
      (if values.isEmpty then [] else [("v", .list (describeTypes values))]) ++
      (if isSet added then [("a", .bool true)] else []) ++
      (if origin == .null && originOrder == .null then []
        else [("s", .list [origin, originOrder])])

def describeTypes : List TypeRecord → List Document
  | [] => []
  | t :: rest => t.describe :: describeTypes rest

end

def describeSides (left right : List TypeRecord) : Document :=
  .list [.list (describeTypes left), .list (describeTypes right)]

namespace NodeRecord

/-- The types of a node, with those that are rejected. -/
def describeTypes (n : NodeRecord) : List (String × Document) :=
  match n.detail with
  | .branch _ _ left right leftRejected rightRejected =>
    ("types", describeSides left right) ::
      if leftRejected.isEmpty && rightRejected.isEmpty then []
      else [("rej", describeSides leftRejected rightRejected)]
  | _ =>
    ("types", .list (Archive.describeTypes n.types)) ::
      if n.rejected.isEmpty then [] else [("rej", .list (Archive.describeTypes n.rejected))]

def describeDetail (n : NodeRecord) : List (String × Document) :=
  match n.detail with
  | .symbol extra scope _ owner order context tag _ =>
    [("tag", tag), ("order", order), ("scope", scope), ("cls", owner), ("ctx", context),
      ("extra", extra)]
  | .operation _ func attr splitIndex _ =>
    [("tag", .int 0), ("func", func), ("attr", attr), ("split", splitIndex)]
  | .branch var outTypes _ _ _ _ =>
    [("tag", .int 0), ("var", var),
      ("outtypes", .list (outTypes.map fun t => (t.map TypeRecord.describe).getD .null))]
  | .merge var => [("tag", .int 0), ("var", var)]
  | .known _ => [("tag", .int 0)]

/-- A node among the nodes that its neighbours refer to. -/
def describe (nodes : Array NodeRecord) (n : NodeRecord) : Document :=
  let ids (l : List Nat) : Document := .list (l.map fun i => (nodes.getD i default).id)
  .record <|
    [("id", n.id), ("kind", n.kind), ("name", n.name),
      ("pos", .list [n.line, n.column, n.columnEnd]), ("ins", ids n.ins), ("outs", ids n.outs)] ++
    n.describeTypes ++ n.describeDetail

end NodeRecord
end TypeFlow.Archive
