import AlgoTrade.Lib.TextPatterns
import AlgoTrade.Sandbox.SyntaxTree

/-! # The safety check of strategy code

`validate_code_safety` and what it calls: a search of the source text for patterns,
and a walk of the syntax tree with a check of each node.

* `dangerousPatterns`: the patterns, with their texts.
* `checkNode`: the checks of a node, by its class.
* `validateCodeSafety`: the error, or none for code that is accepted. -/

namespace AlgoTrade.Sandbox

open TextPattern (Atom)

/-! ## Names -/

/-- `SAFE_IMPORT_MODULES`, sorted. -/
def safeImportModules : List String :=
  ["collections", "copy", "datetime", "decimal", "fractions", "functools", "itertools", "json",
    "math", "numpy", "pandas", "statistics", "time"]

/-- Ends of dunder names that a string may not contain. -/
def forbiddenDunderSuffixes : List String :=
  ["builtins__", "import__", "class__", "bases__", "subclasses__", "mro__", "globals__", "code__",
    "func__", "dict__", "module__", "getattribute__", "setattr__", "delattr__", "init__",
    "reduce__", "getstate__", "setstate__", "call__", "getitem__", "setitem__", "delitem__",
    "iter__", "next__", "traceback__", "closure__", "defaults__", "kwdefaults__", "loader__",
    "spec__", "path__", "file__", "cached__", "package__"]

def operatorAccessorNames : List String :=
  ["attrgetter", "itemgetter", "methodcaller"]

/-- Methods that read or write files, evaluate strings, or reach import machinery. -/
def dangerousMethodNames : List String :=
  ["read_csv", "read_table", "read_fwf", "read_excel", "read_xml", "read_html", "read_json",
    "read_pickle", "read_parquet", "read_orc", "read_feather", "read_hdf", "read_sql",
    "read_sql_query", "read_sql_table", "read_clipboard", "read_gbq", "read_sas", "read_spss",
    "read_stata", "to_csv", "to_excel", "to_xml", "to_html", "to_json", "to_pickle", "to_parquet",
    "to_orc", "to_feather", "to_hdf", "to_sql", "to_clipboard", "to_gbq", "to_stata", "to_latex",
    "tofile", "save", "savez", "savez_compressed", "savetxt", "load", "loadtxt", "genfromtxt",
    "fromfile", "memmap", "DataSource", "eval", "query", "getframe", "currentframe", "stack",
    "getouterframes", "urlopen", "_urlopen", "get_filepath_or_buffer", "_get_filepath_or_buffer",
    "file_exists", "file_open", "open_url", "load_module", "exec_module", "create_module",
    "find_module", "find_spec", "path_hook", "path_hooks", "get_data", "get_code", "get_source",
    "get_resource_reader"]

/-- The dunder attributes of a module that may be read. -/
def safeModuleDunderAttrs : List String :=
  ["__name__", "__doc__", "__all__"]

/-- Attributes that lead to frames, tracebacks, code or closures. -/
def dangerousFrameAttrs : List String :=
  ["gi_frame", "gi_code", "gi_yieldfrom", "cr_frame", "cr_code", "cr_await", "ag_frame",
    "ag_code", "ag_await", "f_globals", "f_locals", "f_back", "f_builtins", "f_code", "f_trace",
    "f_lasti", "f_lineno", "tb_frame", "tb_next", "tb_lasti", "tb_lineno", "func_globals",
    "func_code", "func_closure", "func_dict"]

def dangerousSubmoduleAttrs : List String :=
  ["ctypeslib", "distutils", "f2py"]

def pandasNumpyRoots : List String :=
  ["pd", "pandas", "np", "numpy"]

def dangerousPdNumpyAttrs : List String :=
  ["io", "compat", "util", "core", "arrays", "plotting", "errors", "testing", "tseries", "api",
    "conftest", "lib"]

def dangerousModules : List String :=
  ["os", "sys", "subprocess", "shutil", "resource", "operator", "pymysql", "sqlite3", "psycopg2",
    "sqlalchemy", "requests", "urllib", "socket", "ftplib", "telnetlib", "smtplib", "marshal",
    "shelve", "ctypes", "cffi", "multiprocessing", "threading", "concurrent", "asyncio",
    "importlib", "imp", "builtins", "codeop", "runpy", "tempfile", "glob", "pathlib"]

def dangerousCallNames : List String :=
  ["eval", "exec", "compile", "__import__", "getattr", "setattr", "delattr", "globals", "vars",
    "dir", "breakpoint", "open", "input", "exit", "quit"]

def dangerousDunderAttrs : List String :=
  ["__builtins__", "__import__", "__class__", "__bases__", "__subclasses__", "__mro__",
    "__globals__", "__code__", "__func__", "__dict__", "__module__", "__loader__", "__spec__",
    "__path__", "__file__", "__cached__", "__package__"]

/-! ## Texts -/

inductive ParseError
  | syntaxError | other
  deriving DecidableEq, Repr

/-- The interpreter's parser, and what it counts as lower case, as a word character
and as white space. -/
structure Interpreter extends TextPattern.CharClasses where
  parse : String → Except ParseError Node
  lower : String → String

def startsWith (text start : String) : Bool := start.toList.isPrefixOf text.toList

def endsWith (text end_ : String) : Bool := end_.toList.isSuffixOf text.toList

def contains (text part : String) : Bool := text.toList.tails.any fun t => part.toList.isPrefixOf t

def splitDots (text : String) : List String := (text.toList.splitOn '.').map String.ofList

/-- A name that starts and ends with two underscores. -/
def isDunder (name : String) : Bool := startsWith name "__" && endsWith name "__"

/-- `_string_has_forbidden_dunder`. -/
def stringHasForbiddenDunder (py : Interpreter) (text : String) : Bool :=
  contains text "__" && forbiddenDunderSuffixes.any (contains (py.lower text))

/-! ## Imports and attribute chains -/

/-- The first attribute of a chain that leads into the root's internals, with the
chain up to it. -/
def internalPath (path : String) : List String → Option String
  | [] => none
  | attr :: attrs =>
    if attr ∈ dangerousPdNumpyAttrs ∨ startsWith attr "_" then some (path ++ "." ++ attr)
    else internalPath (path ++ "." ++ attr) attrs

/-- `_dangerous_pd_numpy_internal`. -/
def dangerousPdNumpyInternal (root : Option String) (attrs : List String) : Option String :=
  root.bind fun root => if root ∈ pandasNumpyRoots then internalPath root attrs else none

/-- `_dangerous_pd_numpy_import`. -/
def dangerousPdNumpyImport (name : String) : Option String :=
  match (splitDots name).filter (· ≠ "") with
  | root :: attrs =>
    let aliasRoot :=
      if root = "pandas" then "pd" else if root = "numpy" then "np" else root
    if (dangerousPdNumpyInternal (some aliasRoot) attrs).isSome ∨
        attrs.any (· ∈ dangerousSubmoduleAttrs) then some name
    else none
  | [] => none

/-- `_is_safe_import_name`: the error. -/
def importNameError (name : String) : Option String :=
  if (splitDots name).headD "" ∉ safeImportModules then some ("Import not allowed: " ++ name)
  else
    (dangerousPdNumpyImport name).map fun blocked =>
      "Import not allowed: dangerous pandas/numpy submodule " ++ blocked

/-- `_fold_string_constant`. -/
def foldStringConstant : Node → Option String
  | .constant (.str s) => some s
  | .binOp left .add right =>
    match foldStringConstant left, foldStringConstant right with
    | some l, some r => some (l ++ r)
    | _, _ => none
  | _ => none

/-- `_is_operator_accessor_call`, of the function called. -/
def isOperatorAccessor : Node → Bool
  | .attributeExpr (.name id) attr _ => id = "operator" ∧ attr ∈ operatorAccessorNames
  | .name id => id ∈ operatorAccessorNames
  | _ => false

/-- `_attribute_access_chain`. -/
def attributeAccessChain : Node → Option String × List String
  | .attributeExpr value attr _ =>
    let chain := attributeAccessChain value
    (chain.1, chain.2 ++ [attr])
  | .name id => (some id, [])
  | _ => (none, [])

/-! ## The checks of a node -/

/-- An error, when the condition holds. -/
def errorIf (condition : Bool) (message : String) : Option String :=
  if condition then some message else none

def moduleNotAllowed (name : String) : String :=
  "Import not allowed: \u0027" ++ name ++ "\u0027. Allowed modules: " ++
    ", ".intercalate safeImportModules

/-- The module of an import; the message has its own text. -/
def checkModule (name : String) : Option String :=
  errorIf (importNameError name).isSome (moduleNotAllowed name)

/-- A name imported from a module. -/
def checkImportedName (module : String) (a : Alias) : Option String :=
  [errorIf (a.name = "*") "Wildcard imports are not allowed",
    errorIf (startsWith a.name "_") ("Private import attributes are not allowed: " ++ a.name),
    errorIf (String.ofList (a.name.toList.dropWhile (· = '_')) ∈ dangerousModules)
      ("Unsafe imported module detected: " ++ a.name),
    errorIf (a.name ∈ dangerousDunderAttrs ∨ isDunder a.name)
      ("Unsafe import attribute detected: " ++ a.name),
    errorIf (a.name ∈ dangerousMethodNames)
      ("Unsafe imported capability detected: " ++ a.name),
    importNameError (module ++ "." ++ a.name)].findSome? id

def internalAccess (node : Node) : Option String :=
  let chain := attributeAccessChain node
  (dangerousPdNumpyInternal chain.1 chain.2).map fun internal =>
    "Unsafe pandas/numpy internal access detected: " ++ internal

/-- The function of a call. -/
def checkCallee : Node → Option String
  | .name id => errorIf (id ∈ dangerousCallNames) ("Unsafe function call detected: " ++ id ++ "()")
  | .attributeExpr value attr ctx =>
    [match value with
      | .name id =>
        errorIf (id ∈ dangerousModules) ("Unsafe module call detected: " ++ id ++ "." ++ attr)
      | _ => none,
      internalAccess (.attributeExpr value attr ctx),
      errorIf (attr ∈ dangerousMethodNames)
        ("Unsafe method call detected: ." ++ attr ++ "()")].findSome? id
  | _ => none

def checkCall (py : Interpreter) (func : Node) (args : List Node) : Option String :=
  [errorIf (isOperatorAccessor func)
      "operator.attrgetter/itemgetter/methodcaller are not allowed",
    checkCallee func,
    errorIf (args.any fun arg => (foldStringConstant arg).any (stringHasForbiddenDunder py))
      "Unsafe dunder string argument detected"].findSome? id

def checkAttribute (value : Node) (attr : String) (ctx : AttributeContext) : Option String :=
  [errorIf (attr ∈ dangerousDunderAttrs ∨ isDunder attr ∧ attr ∉ safeModuleDunderAttrs)
      ("Unsafe attribute access detected: ." ++ attr),
    errorIf (attr ∈ dangerousMethodNames) ("Unsafe method access detected: ." ++ attr),
    errorIf (attr ∈ dangerousFrameAttrs)
      ("Unsafe frame/closure attribute access detected: ." ++ attr),
    match value with
    | .name id =>
      errorIf (attr ∈ dangerousSubmoduleAttrs ∧ (id = "np" ∨ id = "numpy"))
        ("Unsafe submodule access detected: " ++ id ++ "." ++ attr)
    | _ => none,
    internalAccess (.attributeExpr value attr ctx)].findSome? id

/-- The checks of one node; classes that are not listed have none. -/
def checkNode (py : Interpreter) : Node → Option String
  | .constant (.str s) =>
    errorIf (stringHasForbiddenDunder py s) "Unsafe dunder string literal detected"
  | .importStmt names => names.findSome? fun a => checkModule a.name
  | .importFrom module names =>
    match module with
    | none => none
    | some module =>
      -- the empty name is false too
      if module = "" then none
      else (checkModule module).or (names.findSome? (checkImportedName module))
  | .call func args _ => checkCall py func args
  | .attributeExpr value attr ctx => checkAttribute value attr ctx
  | .binOp left .add right =>
    errorIf ((foldStringConstant (.binOp left .add right)).any (stringHasForbiddenDunder py))
      "Unsafe dunder string concatenation detected"
  | _ => none

/-! ## The patterns -/

/-- A pattern with its text. -/
structure Pattern where
  source : String
  atoms : List Atom
  deriving DecidableEq, Repr

/-- The text with its dots escaped. -/
def escaped (text : String) : String :=
  String.ofList (text.toList.flatMap fun c => if c = '.' then ['\\', '.'] else [c])

def group (names : List String) : String := "(" ++ "|".intercalate names ++ ")"

/-- The text as a whole word. -/
def whole (text : String) : Pattern where
  source := "\\b" ++ escaped text ++ "\\b"
  atoms := [.boundary, .text [text], .boundary]

/-- A call of the name. -/
def called (name : String) : Pattern where
  source := "\\b" ++ name ++ "\\s*\\("
  atoms := [.boundary, .text [name], .spaces false, .text ["("]]

def imported (name : String) : Pattern where
  source := "\\bimport\\s+" ++ name ++ "\\b"
  atoms := [.boundary, .text ["import"], .spaces true, .text [name], .boundary]

/-- A call of one of the names on any receiver. -/
def methodCalled (names : List String) : Pattern where
  source := "\\." ++ group names ++ "\\s*\\("
  atoms := [.text ["."], .text names, .spaces false, .text ["("]]

/-- One of the names after a dot. -/
def attributeNamed (names : List String) : Pattern where
  source := "\\." ++ group names ++ "\\b"
  atoms := [.text ["."], .text names, .boundary]

/-- A call of a name of one of the roots. -/
def memberCalled (roots names : List String) : Pattern where
  source := "\\b" ++ group roots ++ "\\." ++ group names ++ "\\s*\\("
  atoms := [.boundary, .text roots, .text ["."], .text names, .spaces false, .text ["("]]

/-- A name of one of the roots. -/
def memberNamed (roots names : List String) : Pattern where
  source := "\\b" ++ group roots ++ "\\." ++ group names ++ "\\b"
  atoms := [.boundary, .text roots, .text ["."], .text names, .boundary]

/-- `dangerous_patterns`. -/
def dangerousPatterns : List Pattern :=
  ["os.system", "os.popen", "os.spawn", "os.exec", "os.fork", "os.environ", "os.getenv",
    "os.putenv", "os.remove", "os.unlink", "os.rmdir", "os.makedirs", "os.mkdir", "os.listdir",
    "os.walk", "os.scandir", "os.path", "subprocess", "commands"].map whole ++
  ["__import__", "eval", "exec", "compile", "open", "file"].map called ++
  [whole "__builtins__"] ++
  ["os", "sys", "subprocess", "shutil", "pymysql", "sqlite3", "psycopg", "sqlalchemy",
    "requests", "urllib", "http", "socket", "ftplib", "telnetlib", "smtplib", "ssl", "pickle",
    "cpickle", "marshal", "shelve", "ctypes", "cffi", "multiprocessing", "threading",
    "concurrent", "asyncio", "signal", "resource", "importlib", "imp", "builtins", "code",
    "codeop", "runpy", "tempfile", "glob", "pathlib", "io", "operator"].map imported ++
  [⟨"\\boperator\\." ++ group operatorAccessorNames ++ "\\b",
    [.boundary, .text ["operator."], .text operatorAccessorNames, .boundary]⟩] ++
  ["getattr", "setattr", "delattr"].map called ++
  ["__getattribute__", "__setattr__", "__delattr__", "__dict__", "__class__", "__bases__",
    "__subclasses__", "__mro__", "__module__", "__globals__", "__code__", "__func__"].map whole ++
  ["globals", "vars", "dir", "breakpoint"].map called ++
  [⟨"\\b__builtins__\\s*[\\[.]",
    [.boundary, .text ["__builtins__"], .spaces false, .oneOf ['[', '.']]⟩,
    called "__import__",
    whole "importlib",
    methodCalled ["read_csv", "read_table", "read_fwf", "read_excel", "read_xml", "read_html",
      "read_json", "read_pickle", "read_parquet", "read_orc", "read_feather", "read_hdf",
      "read_sql", "read_sql_query", "read_sql_table", "read_clipboard", "read_gbq", "read_sas",
      "read_spss", "read_stata"],
    methodCalled ["to_csv", "to_excel", "to_xml", "to_html", "to_json", "to_pickle",
      "to_parquet", "to_orc", "to_feather", "to_hdf", "to_sql", "to_clipboard", "to_gbq",
      "to_stata", "to_latex", "tofile"],
    memberCalled ["np", "numpy"] ["save", "savez", "savez_compressed", "savetxt", "load",
      "loadtxt", "genfromtxt", "fromfile", "memmap", "DataSource"],
    methodCalled ["eval", "query"],
    attributeNamed ["gi_frame", "gi_code", "cr_frame", "cr_code", "ag_frame", "ag_code",
      "f_globals", "f_locals", "f_back", "f_builtins", "f_code", "f_trace", "tb_frame",
      "tb_next", "func_globals", "func_code", "func_closure"],
    memberNamed ["np", "numpy"] ["ctypeslib", "distutils", "f2py"],
    memberNamed ["pd", "pandas"] ["io", "compat", "_libs", "_testing"],
    ⟨"\\b(np|numpy)\\.lib\\b", [.boundary, .text ["np", "numpy"], .text [".lib"], .boundary]⟩,
    methodCalled ["urlopen", "_urlopen", "get_filepath_or_buffer", "_get_filepath_or_buffer"],
    ⟨"\\b(sys\\._getframe|inspect\\.(currentframe|stack|getouterframes|getframeinfo))\\b",
      [.boundary, .text ["sys._getframe", "inspect.currentframe", "inspect.stack",
        "inspect.getouterframes", "inspect.getframeinfo"], .boundary]⟩]

/-! ## The validation -/

/-- The checks of the nodes, as they come. -/
def checkTree (py : Interpreter) (tree : Node) : Option String :=
  (walk tree).findSome? (checkNode py)

/-- `validate_code_safety`: the error, none for code that is accepted. -/
def validateCodeSafety (py : Interpreter) (code : String) : Option String :=
  match dangerousPatterns.find? fun pattern =>
    TextPattern.search py.toCharClasses pattern.atoms code with
  | some pattern => some ("Unsafe code pattern detected: " ++ pattern.source)
  | none =>
    match py.parse code with
    | .error .syntaxError => some "Code syntax error"
    | .error .other => some "Code parse failed"
    | .ok tree => checkTree py tree

end AlgoTrade.Sandbox
