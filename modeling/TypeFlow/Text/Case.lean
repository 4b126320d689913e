import TypeFlow.Text.Case.Spans

/-! # Letter case

Lower-casing of a text and the tests for lower and upper case, over all of Unicode. Two letters
need more than a shift: dotted capital I becomes two characters, and a capital sigma at the end
of a word becomes a final sigma. -/

namespace TypeFlow.Text

def isLowerChar (c : Char) : Bool :=
  if c.toNat < 128 then c.isLower else lowerSpans.any (·.contains c.toNat)

def isUpperChar (c : Char) : Bool :=
  if c.toNat < 128 then c.isUpper else upperSpans.any (·.contains c.toNat)

def isTitleChar (c : Char) : Bool :=
  titleSpans.any (·.contains c.toNat)

def isCased (c : Char) : Bool :=
  isLowerChar c || isUpperChar c || isTitleChar c

/-- Characters that are skipped when the end of a word is looked for. -/
def isIgnorable (c : Char) : Bool :=
  ignorableSpans.any (·.contains c.toNat)

def lowerChar (c : Char) : Char :=
  if c.toNat < 128 then c.toLower
  else
    match lowerShifts.find? (·.1.contains c.toNat) with
    | some (_, shift) => Char.ofNat (c.toNat + shift).toNat
    | none => c

/-- A capital sigma ends a word when a cased letter stands before it and none after it,
ignorable characters apart. The text before it is given backwards. -/
def endsWord (before after : List Char) : Bool :=
  (match before.dropWhile isIgnorable with
    | c :: _ => isCased c
    | [] => false) &&
  (match after.dropWhile isIgnorable with
    | c :: _ => !isCased c
    | [] => true)

/-- Lower-case the characters of a text, the text before them being given backwards. -/
def lowerFrom (before : List Char) : List Char → List Char
  | [] => []
  | c :: after =>
    (if c = 'Σ' then [if endsWord before after then 'ς' else 'σ']
      else if c = 'İ' then ['i', '̇']
      else [lowerChar c]) ++ lowerFrom (c :: before) after

def lower (s : String) : String :=
  String.ofList (lowerFrom [] s.toList)

/-- A text is in lower case when it has a cased letter and all of them are lower case. -/
def isLower (s : String) : Bool :=
  s.toList.all (fun c => !(isUpperChar c || isTitleChar c)) && s.toList.any isLowerChar

end TypeFlow.Text
