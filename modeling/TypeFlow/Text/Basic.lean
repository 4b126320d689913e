/-! # Pieces of text

Cutting a text at every occurrence of a separator, from left to right and without overlap.
Replacement, substring tests and counts are all read off the pieces. -/

namespace TypeFlow.Text

/-- Cut at a separator. `skip` characters of a separator already found are still to be passed,
and `piece` holds the current piece backwards. -/
def piecesFrom (sep : List Char) : Nat → List Char → List Char → List (List Char)
  | _, piece, [] => [piece.reverse]
  | skip + 1, piece, _ :: rest => piecesFrom sep skip piece rest
  | 0, piece, c :: rest =>
    if sep.isPrefixOf (c :: rest) then
      piece.reverse :: piecesFrom sep (sep.length - 1) [] rest
    else
      piecesFrom sep 0 (c :: piece) rest

/-- The pieces of a text between occurrences of a nonempty separator. -/
def split (s sep : String) : List String :=
  (piecesFrom sep.toList 0 [] s.toList).map String.ofList

/-- Replace every occurrence of a nonempty text. -/
def replace (s old new : String) : String :=
  String.intercalate new (split s old)

/-- Number of occurrences of a nonempty text, without overlap. -/
def count (s sub : String) : Nat :=
  (split s sub).length - 1

def has (s sub : String) : Bool :=
  sub.isEmpty || 0 < count s sub

def firstPiece (s sep : String) : String :=
  (split s sep).headD ""

def lastPiece (s sep : String) : String :=
  (split s sep).getLastD ""

def startsWith (s start : String) : Bool :=
  start.toList.isPrefixOf s.toList

def endsWith (s stop : String) : Bool :=
  stop.toList.isSuffixOf s.toList

def join (sep : String) (parts : List String) : String :=
  String.intercalate sep parts

end TypeFlow.Text
