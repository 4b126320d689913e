import TypeFlow.Text.Case

/-! # Names of standard types

The names that denote standard types, how each of them is printed, which type a written name
denotes, and which names denote the same type. Look-ups go by the lower-case name. -/

namespace TypeFlow.Vocabulary

def builtinNames : List String := [
  "int", "float", "complex", "bool", "list", "tuple", "range", "str", "bytes", "bytearray",
  "memoryview", "set", "frozenset", "dict", "dict_keys", "dict_values", "dict_items", "None"]

def typingNames : List String := [
  "Tuple", "Union", "Optional", "Type", "Dict", "List", "Set", "Pattern", "Match", "Text",
  "Generator", "Callable", "NoReturn", "AnyStr", "TypedDict", "FrozenSet", "DefaultDict",
  "OrderedDict", "ByteString", "ItemsView", "KeysView", "Mapping", "MappingView",
  "MutableMapping", "MutableSequence", "MutableSet", "Sequence", "ValuesView", "Iterable",
  "AbstractSet", "NewType", "Generic", "Any", "TypeAlias", "Concatenate", "Literal", "ClassVar",
  "Final", "Annotated", "TypeGuard", "ParamSpec", "ParamSpecArgs", "ParamSpecKwargs", "Protocol",
  "NamedTuple", "ChainMap", "Counter", "Deque", "IO", "TextIO", "BinaryIO", "Hashable", "Sized",
  "Collection", "Container", "Iterator", "Reversible"]

def collectionNames : List String := [
  "ChainMap", "Counter", "deque", "defaultdict", "namedtuple", "OrderedDict", "UserDict",
  "UserList", "UserString"]

def abstractNames : List String := [
  "Container", "Hashable", "Iterable", "Iterator", "Reversible", "Generator", "Sized", "Callable",
  "Collection", "Sequence", "MutableSequence", "ByteString", "Set", "MutableSet", "Mapping",
  "MutableMapping", "MappingView", "ItemsView", "KeysView", "ValuesView", "Awaitable",
  "Coroutine", "AsyncIterable", "AsyncIterator", "AsyncGenerator"]

def errorNames : List String := [
  "BaseException", "Exception", "ArithmeticError", "BufferError", "LookupError", "AssertionError",
  "AttributeError", "EOFError", "GeneratorExit", "ImportError", "ModuleNotFoundError",
  "IndexError", "KeyError", "KeyboardInterrupt", "MemoryError", "NameError",
  "NotImplementedError", "OSError", "OverflowError", "RecursionError", "ReferenceError",
  "RuntimeError", "StopIteration", "StopAsyncIteration", "SyntaxError", "IndentationError",
  "TabError", "SystemError", "SystemExit", "TypeError", "UnboundLocalError", "UnicodeError",
  "UnicodeEncodeError", "UnicodeTranslateError", "ValueError", "ZeroDivisionError",
  "EnvironmentError", "IOError", "WindowsError", "BlockingIOError", "ChildProcessError",
  "ConnectionError", "BrokenPipeError", "ConnectionAbortedError", "ConnectionRefusedError",
  "ConnectionResetError", "FileExistsError", "FileNotFoundError", "InterruptedError",
  "IsADirectoryError", "NotADirectoryError", "PermissionError", "ProcessLookupError",
  "TimeoutError"]

def warningNames : List String := [
  "Warning", "DeprecationWarning", "PendingDeprecationWarning", "RuntimeWarning", "SyntaxWarning",
  "UserWarning", "FutureWarning", "ImportWarning", "UnicodeWarning", "BytesWarning",
  "EncodingWarning", "ResourceWarning"]

/-- Types that are treated as a more common alternative. -/
def alternatives : List (String × String) := [
  ("dict_keys", "set"), ("dict_values", "set"), ("dict_items", "set"),
  ("typing.NoReturn", "None"), ("typing.AnyStr", "str"), ("typing.ByteString", "str"),
  ("typing.TypedDict", "Dict"), ("typing.FrozenSet", "frozenset"), ("typing.DeafultDict", "Dict"),
  ("typing.OrderedDict", "Dict"), ("typing.ItemsView", "Set"), ("typing.KeysView", "Set"),
  ("typing.Mapping", "Dict"), ("typing.MappingView", "Dict"), ("typing.MutableMapping", "Dict"),
  ("typing.MutableSequence", "List"), ("typing.MutableSet", "Set"), ("typing.Sequence", "List"),
  ("typing.ValuesView", "List"), ("typing.AbstractSet", "Set"), ("typing.Text", "str"),
  ("collections.ChainMap", "Dict"), ("collections.Counter", "Dict"),
  ("collections.OrderedDict", "Dict"), ("collections.defaultdict", "Dict"),
  ("collections.UserDict", "Dict"), ("collections.UserList", "List"),
  ("collections.UserString", "str"), ("collections.abc.Iterable", "List"),
  ("collections.abc.Generator", "Generator"), ("collections.abc.Callable", "Callable"),
  ("collections.abc.MutableSequence", "List"), ("collections.abc.ByteString", "str"),
  ("collections.abc.Set", "Set"), ("collections.abc.MutableSet", "Set"),
  ("collections.abc.Mapping", "Dict"), ("collections.abc.MutableMapping", "Dict"),
  ("collections.abc.MappingView", "Dict"), ("collections.abc.ItemsView", "Set"),
  ("collections.abc.KeysView", "Set"), ("collections.abc.ValuesView", "Set"),
  ("collections.abc.AsyncIterable", "List"), ("collections.abc.AsyncGenerator", "Generator")]

def standardNames : List String :=
  typingNames ++ builtinNames ++ collectionNames ++ abstractNames ++ errorNames ++ warningNames

def find? {α : Type} (l : List (String × α)) (name : String) : Option α :=
  l.lookup name

/-- How a standard type is printed, by lower-case name. The first entry for a name counts. -/
def printed : List (String × String) :=
  (builtinNames ++ errorNames ++ warningNames).map (fun n => (Text.lower n, n)) ++
    typingNames.map (fun n => (Text.lower n, "typing." ++ n)) ++
    collectionNames.map (fun n => (Text.lower n, "collections." ++ n)) ++
    abstractNames.map (fun n => (Text.lower n, "collections.abc." ++ n))

def printed? (lowerName : String) : Option String := find? printed lowerName

/-- A printed form belongs to some standard type. -/
def isPrinted (form : String) : Bool :=
  printed.any fun e => e.2 == form && printed? e.1 == some form

def withModule (module : String) (names : List String) : List (String × String) :=
  names.flatMap fun n => [(Text.lower (module ++ n), n), (Text.lower n, n)]

/-- The type that a written name denotes, by lower-case name. The first entry for a name counts:
common alternatives of printed types come before the types' own names. -/
def denoted : List (String × String) :=
  (alternatives.filter fun e => isPrinted e.1).map (fun e => (Text.lower e.1, e.2)) ++
    (builtinNames ++ errorNames ++ warningNames).map (fun n => (Text.lower n, n)) ++
    withModule "typing." typingNames ++
    withModule "collections." collectionNames ++
    withModule "collections_abc." abstractNames

def denoted? (lowerName : String) : Option String := find? denoted lowerName

/-- Names that share a rank denote the same type. Numbers have the ranks up to 3 and iterable
containers those from 11 to 17. -/
def sharedRanks : List (String × Nat) := [
  ("text", 0), ("str", 0), ("bool", 1), ("int", 1), ("float", 2), ("complex", 3),
  ("generator", 11), ("iterator", 11), ("list", 12), ("tuple", 13), ("range", 14), ("set", 15),
  ("frozenset", 16), ("dict", 17)]

/-- Every other standard name has a rank of its own, from 1000 on. -/
def ownRanks : List (String × Nat) :=
  let names := (builtinNames ++ errorNames ++ warningNames ++ typingNames ++ collectionNames ++
    abstractNames).map Text.lower
  (names.filter fun n => (sharedRanks.lookup n).isNone).eraseDups.zipIdx 1000

def ranks : List (String × Nat) := sharedRanks ++ ownRanks

def rank? (lowerName : String) : Option Nat := find? ranks lowerName

/-- Built-in types in three groups: plain ones, generic ones and rare ones. -/
def builtinGroups : List (String × List String) := [
  ("element", ["bool", "int", "float", "None", "Any", "Text", "type", "bytes"]),
  ("generic", ["List", "Tuple", "Set", "Dict", "Union", "Optional", "Callable", "Iterable",
    "Sequence", "Generator"]),
  ("rare", ["complex", "bytearray", "Frozenset", "memoryview", "range"])]

end TypeFlow.Vocabulary
