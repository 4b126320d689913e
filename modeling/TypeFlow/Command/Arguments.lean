import TypeFlow.Fault
import TypeFlow.Text.Number

/-! # Command-line arguments

Options have a letter and a name. A name may be shortened as long as it stays unique, a value may
follow its option after `=`, directly after its letter or as the next argument, and letters of
options without values may be joined. Everything else is an error with exit code 2; asking for
help ends with exit code 0. -/

namespace TypeFlow.Command

inductive Expects where
  | help
  | nothing
  | text
  | number
  | oneOf (allowed : List String)
deriving DecidableEq, Repr, Inhabited

structure Opt where
  letter : Char
  name : String
  expects : Expects := .text
  required : Bool := false
deriving DecidableEq, Repr, Inhabited

inductive Value where
  | given
  | text (s : String)
  | number (n : Int)
deriving DecidableEq, Repr, Inhabited

def misuse : Fault := .exit 2

namespace Opt

def help : Opt := { letter := 'h', name := "help", expects := .help }

def takesValue (o : Opt) : Bool := o.expects ≠ .help ∧ o.expects ≠ .nothing

def short (o : Opt) : String := "-" ++ String.singleton o.letter

def long (o : Opt) : String := "--" ++ o.name

def forms (o : Opt) : List String := [o.short, o.long]

end Opt

structure Match where
  opt : Opt
  byLetter : Bool
  value : Option String := none
deriving DecidableEq, Repr, Inhabited

inductive Word where
  | plain
  /-- The mark after which all arguments are plain. -/
  | separator
  /-- It looks like an option and is none. -/
  | unknown
  | option (m : Match)
deriving DecidableEq, Repr, Inhabited

def exactly? (opts : List Opt) (form : String) (value : Option String) : Option Match :=
  (opts.find? fun o => form ∈ o.forms).map fun o => ⟨o, form == o.short, value⟩

def cutAtEquals (s : String) : String × Option String :=
  match Text.split s "=" with
  | first :: second :: rest => (first, some (Text.join "=" (second :: rest)))
  | _ => (s, none)

/-- Options that an argument may stand for: names it begins, or a letter and a value. -/
def candidates (opts : List Opt) (s : String) : List Match :=
  if Text.startsWith s "--" then
    let (name, value) := cutAtEquals s
    (opts.filter fun o => Text.startsWith o.long name).map fun o => ⟨o, false, value⟩
  else
    (opts.filter fun o => o.short.toList == s.toList.take 2).map fun o =>
      ⟨o, true, some (String.ofList (s.toList.drop 2))⟩

/-- An argument that is no form of an option, but may be a shortened or joined one. -/
def classifyLoose (opts : List Opt) (s : String) : Except Fault Word :=
  match candidates opts s with
  | [m] => .ok (.option m)
  | _ :: _ :: _ => .error misuse
  | [] => .ok (if Text.looksNegative s || Text.has s " " then .plain else .unknown)

/-- What an argument is before any separator. -/
def classify (opts : List Opt) (s : String) : Except Fault Word :=
  if !Text.startsWith s "-" then .ok .plain
  else
    match exactly? opts s none with
    | some m => .ok (.option m)
    | none =>
      if s = "-" then .ok .plain
      else
        match cutAtEquals s with
        | (form, some value) =>
          match exactly? opts form (some value) with
          | some m => .ok (.option m)
          | none => classifyLoose opts s
        | (_, none) => classifyLoose opts s

def classifyAll (opts : List Opt) : List String → Except Fault (List (String × Word))
  | [] => .ok []
  | s :: rest =>
    if s = "--" then .ok ((s, .separator) :: rest.map fun t => (t, .plain))
    else do
      let word ← classify opts s
      return (s, word) :: (← classifyAll opts rest)

/-- The options joined in one argument: those before the last, the last, and its value. -/
structure Joined where
  before : List Opt := []
  last : Opt
  value : Option String := none

/-- Take letters of options apart, after an option without a value. -/
def joinedLetters (opts : List Opt) (o : Opt) : List Char → Except Fault Joined
  | [] => .ok { last := o }
  | c :: rest =>
    match opts.find? (·.letter == c) with
    | none => .error misuse
    | some next =>
      if next.takesValue then
        .ok { before := [o], last := next
              value := if rest.isEmpty then none else some (String.ofList rest) }
      else do
        let j ← joinedLetters opts next rest
        return { j with before := o :: j.before }

/-- Take the options of an argument apart. -/
def joined (opts : List Opt) (m : Match) : Except Fault Joined :=
  match m.value with
  | none => .ok { last := m.opt }
  | some v =>
    if m.opt.takesValue then .ok { last := m.opt, value := some v }
    else if m.byLetter && !v.isEmpty then joinedLetters opts m.opt v.toList
    else .error misuse

/-- What has been read so far. -/
structure Settings where
  values : List (String × Value) := []
  /-- There were arguments that belong to no option. -/
  surplus : Bool := false
deriving DecidableEq, Repr, Inhabited

namespace Settings

/-- Set an option. The last value counts. -/
def set (s : Settings) (o : Opt) (v : Value) : Settings :=
  { s with values := (o.name, v) :: s.values }

def has (s : Settings) (name : String) : Bool := s.values.any (·.1 == name)

def text? (s : Settings) (name : String) : Option String :=
  match s.values.lookup name with
  | some (.text t) => some t
  | _ => none

def text (s : Settings) (name : String) (otherwise : String := "") : String :=
  (s.text? name).getD otherwise

def number (s : Settings) (name : String) (otherwise : Int) : Int :=
  match s.values.lookup name with
  | some (.number n) => n
  | _ => otherwise

def apply (s : Settings) (o : Opt) (v : String) : Except Fault Settings :=
  match o.expects with
  | .help => .error (.exit 0)
  | .nothing => .ok (s.set o .given)
  | .text => .ok (s.set o (.text v))
  | .number =>
    match Text.int? v with
    | some n => .ok (s.set o (.number n))
    | none => .error misuse
  | .oneOf allowed => if v ∈ allowed then .ok (s.set o (.text v)) else .error misuse

/-- Act on joined options, given the value of the last. -/
def applyAll (s : Settings) (j : Joined) (v : String) : Except Fault Settings := do
  let s ← j.before.foldlM (fun s o => s.apply o "") s
  s.apply j.last v

end Settings

/-- Read arguments one after the other. -/
def consume (opts : List Opt) : List (String × Word) → Settings → Except Fault Settings
  | [], s => .ok s
  | (_, .option m) :: rest, s => do
    let j ← joined opts m
    match j.value with
    | some v => consume opts rest (← s.applyAll j v)
    | none =>
      if j.last.takesValue then
        match rest with
        | (v, .plain) :: rest => consume opts rest (← s.applyAll j v)
        | _ => throw misuse
      else consume opts rest (← s.applyAll j "")
  | _ :: rest, s => consume opts rest { s with surplus := true }

def readArguments (opts : List Opt) (args : List String) : Except Fault Settings := do
  let opts := Opt.help :: opts
  let s ← consume opts (← classifyAll opts args) {}
  if opts.any fun o => o.required && !s.has o.name then throw misuse
  if s.surplus then throw misuse
  return s

/-- Find the command among arguments. Options before it can only ask for help. -/
def readCommand {α : Type} (commands : String → Option (List String → Except Fault α)) :
    Bool → List String → Except Fault α
  | surplus, [] => .error (if surplus then misuse else .missingProperty)
  | surplus, s :: rest => do
    if s = "--" then throw misuse
    match ← classify [Opt.help] s with
    | .option m =>
      let _ ← Settings.applyAll {} (← joined [Opt.help] m) ""
      throw misuse
    | .unknown => readCommand commands true rest
    | _ =>
      match commands s with
      | none => throw misuse
      | some read => do
        let a ← read rest
        if surplus then throw misuse
        return a

end TypeFlow.Command
