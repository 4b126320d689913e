import TypeFlow.Text.Basic

/-! # Signatures of built-in functions and methods

What the arguments of a built-in function may be and what it returns. Functions that change
their receiver, and functions whose result depends on their arguments, have rules of their own
and no signature here. -/

namespace TypeFlow.Vocabulary

/-- A parameter. Only required parameters are checked. Their type is written as a type
expression, as the name of a group of types between at signs, or as one of `@elementtype@`,
`@keytype@` and `@valuetype@`, which refer to the receiver. -/
inductive Parameter where
  | opt
  | req (type : String)
deriving DecidableEq, Repr

/-- Parameter lists that a function takes, and the type it returns. -/
structure Signature where
  alternatives : List (List Parameter)
  result : String
deriving DecidableEq, Repr

namespace Signature

def plain (parameters : List Parameter) (result : String) : Signature := ⟨[parameters], result⟩

def overloaded (alternatives : List (List Parameter)) (result : String) : Signature :=
  ⟨alternatives, result⟩

/-- A function of which nothing is known. -/
def unknown : Signature := ⟨[], ""⟩

end Signature

open Signature

/-- Groups of types, by name. -/
def groups : List (String × List String) := [
  ("@iterable@", ["list", "tuple", "range", "str", "bytes", "bytearray", "set", "frozenset",
    "dict", "Generator", "IO"]),
  ("@byte-like@", ["bytes", "bytearray"]),
  ("@set-like@", ["set", "frozenset"]),
  ("@subscriptable@", ["list", "tuple", "str", "bytes", "bytearray", "dict"]),
  ("@number@", ["bool", "int", "float", "complex"]),
  ("@hashable@", []),
  ("@sequence@", ["str", "bytes", "bytearray", "tuple", "list", "range"]),
  ("@collection@", ["set", "frozenset", "dict"]),
  ("@path-like@", ["str", "bytes"])]

def group (name : String) : List String := (groups.lookup name).getD []

/-- Types that a loop can range over. -/
def iterables : List String := group "@iterable@"

/-- Types that take an index. -/
def subscriptables : List String := group "@subscriptable@"

/-- Kinds of number, the narrower first. -/
def numbers : List String := group "@number@"

def changingMethods : List String := [
  "append", "clear", "extend", "insert", "pop", "remove", "update", "intersection_update",
  "difference_update", "symmetric_difference_update", "add", "discard", "popitem", "setdefault"]

/-- Functions and methods whose result depends on the types of the arguments. -/
def dependentFunctions : List String := [
  "abs", "divmod", "enumerate", "frozenset", "list", "next", "round", "set", "sorted", "sum",
  "tuple", "type", "max", "min", "copy", "items", "keys", "values", "pop", "popitem", "get"]

def standaloneFunctions : List (String × Signature) := [
  ("all", plain [.req "@iterable@"] "bool"),
  ("any", plain [.req "@iterable@"] "bool"),
  ("ascii", plain [.req "Any"] "str"),
  ("bin", plain [.req "int"] "str"),
  ("bool", plain [.req "Any"] "bool"),
  ("bytearray", overloaded [[.req "str", .req "str", .opt], [.req "int"],
    [.req "@iterable@"]] "bytearray"),
  ("bytes", overloaded [[.req "str", .req "str", .opt], [.req "int"],
    [.req "@iterable@"]] "bytes"),
  ("callable", plain [.req "Any"] "bool"),
  ("chr", plain [.req "int"] "str"),
  ("complex", overloaded [[.req "str"], [.req "int", .opt], []] "complex"),
  ("dict", plain [] "dict"),
  ("dir", plain [.opt] "List[str]"),
  ("float", overloaded [[.opt], [.opt]] "float"),
  ("globals", plain [] "dict"),
  ("hasattr", plain [.req "Any", .req "str"] "bool"),
  ("hash", plain [.req "@hashable@"] "int"),
  ("hex", plain [.req "int"] "str"),
  ("id", plain [.req "Any"] "int"),
  ("int", overloaded [[.req "@number@", .opt], [.req "str", .opt]] "int"),
  ("isinstance", plain [.req "Any", .req "Any"] "bool"),
  ("issubclass", plain [.req "Any", .req "Any"] "bool"),
  ("len", overloaded [[.req "@sequence@"], [.req "@collection@"]] "int"),
  ("locals", plain [] "dict"),
  ("memoryview", plain [.req "Any"] "memoryview"),
  ("oct", plain [.req "int"] "str"),
  ("open", plain [.req "@path-like@", .opt, .opt, .opt, .opt, .opt, .opt, .opt] "IO"),
  ("ord", plain [.req "str"] "int"),
  ("range", plain [.opt, .req "int", .opt] "range"),
  ("repr", plain [.req "Any"] "str"),
  ("slice", plain [.opt, .req "int", .opt] "range"),
  ("str", plain [.req "Any", .opt, .opt] "str")]

/-- Methods of `int`. -/
def intMethods : List (String × Signature) := [
  ("bit_length", plain [] "int"),
  ("bit_count", plain [] "int"),
  ("to_bytes", plain [.req "int", .req "str", .opt] "bytes"),
  ("from_bytes", plain [.req "int", .req "str", .opt] "int"),
  ("as_integer_ratio", plain [] "Tuple[int]")]

/-- Methods of `float`. -/
def floatMethods : List (String × Signature) := [
  ("as_integer_ratio", plain [] "Tuple[int]"),
  ("is_integer", plain [] "bool"),
  ("hex", plain [] "str")]

/-- Methods of `list`. -/
def listMethods : List (String × Signature) := [
  ("index", plain [.req "@elementtype@", .opt, .opt] "int"),
  ("count", plain [.req "@elementtype@"] "int"),
  ("reverse", plain [] "None"),
  ("sort", plain [.opt, .opt] "None")]

/-- Methods of `tuple`. -/
def tupleMethods : List (String × Signature) := [
  ("index", plain [.req "@elementtype@", .opt, .opt] "int"),
  ("count", plain [.req "@elementtype@"] "int")]

/-- Methods of `range`. -/
def rangeMethods : List (String × Signature) := [
  ("index", plain [.req "@elementtype@", .opt, .opt] "int"),
  ("count", plain [.req "@elementtype@"] "int")]

/-- Methods of `str`. -/
def strMethods : List (String × Signature) := [
  ("index", plain [.req "str", .opt, .opt] "int"),
  ("count", plain [.req "str"] "int"),
  ("capitalize", plain [] "str"),
  ("casefold", plain [] "str"),
  ("center", plain [.req "int", .opt] "str"),
  ("encode", plain [.opt, .opt] "bytes"),
  ("endswith", plain [.req "str", .opt, .opt] "bool"),
  ("expandtabs", plain [.opt] "str"),
  ("find", plain [.req "str", .opt, .opt] "int"),
  ("format", plain [] "str"),
  ("format_map", plain [.opt] "str"),
  ("isalnum", plain [] "bool"),
  ("isalpha", plain [] "bool"),
  ("isascii", plain [] "bool"),
  ("isdecimal", plain [] "bool"),
  ("isdigit", plain [] "bool"),
  ("isidentifier", plain [] "bool"),
  ("islower", plain [] "bool"),
  ("isnumeric", plain [] "bool"),
  ("isprintable", plain [] "bool"),
  ("isspace", plain [] "bool"),
  ("istitle", plain [] "bool"),
  ("isupper", plain [] "bool"),
  ("join", plain [.req "@iterable@"] "str"),
  ("ljust", plain [.req "int", .opt] "str"),
  ("lower", plain [] "str"),
  ("lstrip", plain [.opt] "str"),
  ("maketrans", overloaded [[.req "dict"], [.req "str", .req "str"], [.req "str", .req "str",
    .req "str"]] "dict"),
  ("partition", plain [.req "str"] "Tuple[str]"),
  ("removeprefix", plain [.req "str"] "str"),
  ("removesuffix", plain [.req "str"] "str"),
  ("replace", plain [.req "str", .req "str", .opt] "str"),
  ("rfind", plain [.req "str", .opt, .opt] "int"),
  ("rindex", plain [.req "str", .opt, .opt] "int"),
  ("rjust", plain [.req "int", .opt] "str"),
  ("rpartition", plain [.req "str"] "Tuple[str]"),
  ("rsplit", plain [.opt, .opt] "List[str]"),
  ("rstrip", plain [.opt] "str"),
  ("split", plain [.opt, .opt] "List[str]"),
  ("splitlines", plain [.opt] "List[str]"),
  ("startswith", plain [.req "str", .opt, .opt] "bool"),
  ("strip", plain [.opt] "str"),
  ("swapcase", plain [] "str"),
  ("title", plain [] "str"),
  ("translate", plain [.req "a", .req "s"] "str"),
  ("upper", plain [] "str"),
  ("zfill", plain [.req "int"] "str")]

/-- Methods of `bytes`. -/
def bytesMethods : List (String × Signature) := [
  ("hex", plain [.opt, .opt] "str"),
  ("index", plain [.req "@byte-like@", .opt, .opt] "int"),
  ("count", plain [.req "@byte-like@"] "int"),
  ("removeprefix", plain [.req "@byte-like@"] "bytes"),
  ("removesuffix", plain [.req "@byte-like@"] "bytes"),
  ("decode", plain [.opt, .opt] "str"),
  ("endswith", plain [.req "@byte-like@", .opt, .opt] "bool"),
  ("find", plain [.req "@byte-like@", .opt, .opt] "int"),
  ("join", plain [.req "@iterable@"] "bytes"),
  ("maketrans", plain [.req "@byte-like@", .req "@byte-like@"] "bytes"),
  ("partition", plain [.req "@byte-like@"] "Tuple[bytes]"),
  ("replace", plain [.req "@byte-like@", .req "bytes", .opt] "bytes"),
  ("rfind", plain [.req "@byte-like@", .opt, .opt] "int"),
  ("rindex", plain [.req "@byte-like@", .opt, .opt] "int"),
  ("rpartition", plain [.req "@byte-like@"] "Tuple[bytes]"),
  ("startswith", plain [.req "@byte-like@", .opt, .opt] "bool"),
  ("translate", plain [.req "bytes", .opt] "bytes"),
  ("center", plain [.req "int", .opt] "bytes"),
  ("ljust", plain [.req "int", .opt] "bytes"),
  ("lstrip", plain [.opt] "bytes"),
  ("rjust", plain [.req "int", .opt] "bytes"),
  ("rsplit", plain [.opt, .opt] "List[bytes]"),
  ("rstrip", plain [.opt] "bytes"),
  ("split", plain [.opt, .opt] "List[bytes]"),
  ("capitalize", plain [] "bytes"),
  ("expandtabs", plain [.opt] "bytes"),
  ("isalnum", plain [] "bool"),
  ("isalpha", plain [] "bool"),
  ("isascii", plain [] "bool"),
  ("isdigit", plain [] "bool"),
  ("islower", plain [] "bool"),
  ("isspace", plain [] "bool"),
  ("istitle", plain [] "bool"),
  ("isupper", plain [] "bool"),
  ("lower", plain [] "bytes"),
  ("splitlines", plain [.opt] "List[bytes]"),
  ("swapcase", plain [] "bytes"),
  ("title", plain [] "bytes"),
  ("upper", plain [] "bytes"),
  ("zfill", plain [.req "int"] "bytes")]

/-- Methods of `bytearray`. -/
def bytearrayMethods : List (String × Signature) := [
  ("hex", plain [.opt, .opt] "str"),
  ("index", plain [.req "@byte-like@", .opt, .opt] "int"),
  ("count", plain [.req "@byte-like@"] "int"),
  ("removeprefix", plain [.req "@byte-like@"] "bytes"),
  ("removesuffix", plain [.req "@byte-like@"] "bytes"),
  ("decode", plain [.opt, .opt] "str"),
  ("endswith", plain [.req "@byte-like@", .opt, .opt] "bool"),
  ("find", plain [.req "bytes", .opt, .opt] "int"),
  ("join", plain [.req "@iterable@"] "bytearray"),
  ("maketrans", plain [.req "@byte-like@", .req "@byte-like@"] "bytes"),
  ("partition", plain [.req "@byte-like@"] "Tuple[bytearray]"),
  ("replace", plain [.req "@byte-like@", .req "@byte-like@", .opt] "bytearray"),
  ("rfind", plain [.req "@byte-like@", .opt, .opt] "int"),
  ("rindex", plain [.req "@byte-like@", .opt, .opt] "int"),
  ("rpartition", plain [.req "@byte-like@"] "Tuple[bytearray]"),
  ("startswith", plain [.req "@byte-like@", .opt, .opt] "bool"),
  ("translate", plain [.req "bytes", .opt] "bytearray"),
  ("center", plain [.req "int", .opt] "bytearray"),
  ("ljust", plain [.req "int", .opt] "bytearray"),
  ("lstrip", plain [.opt] "bytearray"),
  ("rjust", plain [.req "int", .opt] "bytearray"),
  ("rsplit", plain [.opt, .opt] "List[bytearray]"),
  ("rstrip", plain [.opt] "bytearray"),
  ("split", plain [.opt, .opt] "List[bytearray]"),
  ("capitalize", plain [] "bytearray"),
  ("expandtabs", plain [.opt] "bytearray"),
  ("isalnum", plain [] "bool"),
  ("isalpha", plain [] "bool"),
  ("isascii", plain [] "bool"),
  ("isdigit", plain [] "bool"),
  ("islower", plain [] "bool"),
  ("isspace", plain [] "bool"),
  ("istitle", plain [] "bool"),
  ("isupper", plain [] "bool"),
  ("lower", plain [] "bytearray"),
  ("splitlines", plain [.opt] "List[bytearray]"),
  ("swapcase", plain [] "bytearray"),
  ("title", plain [] "bytearray"),
  ("upper", plain [] "bytearray"),
  ("zfill", plain [.req "int"] "bytearray")]

/-- Methods of `memoryview`. -/
def memoryviewMethods : List (String × Signature) := [
  ("tobytes", plain [.opt] "bytes"),
  ("hex", plain [.opt, .opt] "str"),
  ("tolist", plain [] "List"),
  ("toreadonly", plain [] "memoryview"),
  ("release", plain [] "None"),
  ("cast", overloaded [[.req "str", .opt], [.req "str", .opt]] "memoryview")]

/-- Methods of `set`. -/
def setMethods : List (String × Signature) := [
  ("isdisjoint", plain [.req "@set-like@"] "bool"),
  ("issubset", plain [.req "@iterable@"] "bool"),
  ("issuperset", plain [.req "@iterable@"] "bool"),
  ("union", plain [.req "@iterable@"] "set"),
  ("intersection", plain [.req "@iterable@"] "set"),
  ("difference", plain [.req "@iterable@"] "set"),
  ("symmetric_difference", plain [.req "@iterable@"] "set")]

/-- Methods of `frozenset`. -/
def frozensetMethods : List (String × Signature) := [
  ("isdisjoint", plain [.req "t", .req "s"] "bool"),
  ("issubset", plain [.req "t", .req "i"] "bool"),
  ("issuperset", plain [.req "t", .req "i"] "bool"),
  ("union", plain [.req "t", .req "i"] "frozenset"),
  ("intersection", plain [.req "t", .req "i"] "frozenset"),
  ("difference", plain [.req "t", .req "i"] "frozenset"),
  ("symmetric_difference", plain [.req "t", .req "i"] "frozenset")]

/-- Methods of `dict`. -/
def dictMethods : List (String × Signature) := []

/-- Methods of `Generator`. -/
def generatorMethods : List (String × Signature) := [
  ("__iter__", unknown),
  ("__next__", unknown),
  ("send", unknown),
  ("throw", unknown),
  ("close", unknown)]

/-- Methods of `Iterable`. -/
def iterableMethods : List (String × Signature) := [
  ("__iter__", unknown)]

/-- Methods of `Callable`. -/
def callableMethods : List (String × Signature) := [
  ("__call__", unknown)]

/-- Methods of `IO`. -/
def ioMethods : List (String × Signature) := [
  ("close", unknown),
  ("read", plain [] "str")]

def methods : List (String × List (String × Signature)) := [
  ("int", intMethods), ("float", floatMethods), ("list", listMethods), ("tuple", tupleMethods),
  ("range", rangeMethods), ("str", strMethods), ("bytes", bytesMethods),
  ("bytearray", bytearrayMethods), ("memoryview", memoryviewMethods), ("set", setMethods),
  ("frozenset", frozensetMethods), ("dict", dictMethods), ("Generator", generatorMethods),
  ("Iterable", iterableMethods), ("Callable", callableMethods), ("IO", ioMethods)]

def receivers (name : String) : List String :=
  (methods.filter fun owner => (owner.2.lookup name).isSome).map Prod.fst

def method? (receiver name : String) : Option Signature :=
  (methods.lookup receiver).bind (·.lookup name)

end TypeFlow.Vocabulary
