import DefTable.Run

/-!
# The command line

What the program answers to its arguments (`CommandLine.execute`), given a reader of arguments: either a run is asked for,
or the reader has the answer already. `CommandLine.read` is such a reader. It goes from left to right: the first wrong
argument, or the first that asks for help or the version, settles the request. The value of an option follows it,
directly or as the next argument, or behind an equals sign; options of one letter can share a dash, up to the first that
has a value.
-/

namespace DefTable.CommandLine

/-- The options with a value. -/
inductive Setting where
  | input | output | variableName | namespacePath
deriving DecidableEq, Repr

def Setting.isPath : Setting → Bool
  | .input => true
  | .output => true
  | _ => false

/-- The options without a value. -/
inductive Flag where
  | verbose | help | version
deriving DecidableEq, Repr

inductive Choice where
  | setting (s : Setting)
  | flag (f : Flag)
deriving DecidableEq, Repr

def Choice.ofName? : String → Option Choice
  | "input" => some (.setting .input)
  | "output" => some (.setting .output)
  | "variable" => some (.setting .variableName)
  | "namespace" => some (.setting .namespacePath)
  | "verbose" => some (.flag .verbose)
  | "help" => some (.flag .help)
  | "version" => some (.flag .version)
  | _ => none

def Choice.ofLetter? : Char → Option Choice
  | 'i' => some (.setting .input)
  | 'o' => some (.setting .output)
  | 'v' => some (.flag .verbose)
  | 'h' => some (.flag .help)
  | 'V' => some (.flag .version)
  | _ => none

inductive UsageError where
  | unexpected (argument : String)
  | unexpectedValue (value : String)
  | missingValue
  | repeated
  | emptyPath
  | missingInput
deriving DecidableEq, Repr

def UsageError.message : UsageError → String
  | unexpected argument => "unexpected argument '" ++ argument ++ "' found"
  | unexpectedValue value => "unexpected value '" ++ value ++ "' found; no more were expected"
  | missingValue => "a value is required but none was supplied"
  | repeated => "the argument cannot be used multiple times"
  | emptyPath => "a value is required but none was supplied"
  | missingInput => "the following required arguments were not provided:\n  --input <INPUT>"

/-- What the arguments before some place say. -/
structure Choices where
  input : Option String
  output : Option String
  variableName : Option String
  namespacePath : Option String
  verbose : Bool
deriving DecidableEq, Repr

def Choices.start : Choices :=
  ⟨none, none, none, none, false⟩

inductive Stop where
  | help
  | version
  | wrong (e : UsageError)
deriving DecidableEq, Repr

namespace Choices

def value? (c : Choices) : Setting → Option String
  | .input => c.input
  | .output => c.output
  | .variableName => c.variableName
  | .namespacePath => c.namespacePath

def withValue (c : Choices) (value : String) : Setting → Choices
  | .input => { c with input := some value }
  | .output => { c with output := some value }
  | .variableName => { c with variableName := some value }
  | .namespacePath => { c with namespacePath := some value }

/-- Sets the value of an option, which must not have one, and which must not be an empty path. -/
def assign (c : Choices) (s : Setting) (value : String) : Except Stop Choices :=
  if (c.value? s).isSome then .error (.wrong .repeated)
  else if s.isPath && value.isEmpty then .error (.wrong .emptyPath)
  else .ok (c.withValue value s)

def turnOn (c : Choices) : Flag → Except Stop Choices
  | .verbose => if c.verbose then .error (.wrong .repeated) else .ok { c with verbose := true }
  | .help => .error .help
  | .version => .error .version

end Choices

/-! ## Reading the arguments -/

def isValue (argument : String) : Bool :=
  argument = "-" || !(['-'].isPrefixOf argument.toList)

def withoutEquals : List Char → List Char
  | '=' :: value => value
  | value => value

/-- Reads the letters behind a dash; the last one may leave its option without a value. -/
def readLetters (c : Choices) : List Char → Except Stop (Choices × Option Setting)
  | [] => .ok (c, none)
  | l :: ls =>
    match Choice.ofLetter? l with
    | none => .error (.wrong (.unexpected (String.ofList ['-', l])))
    | some (.flag f) => do
      let c ← c.turnOn f
      readLetters c ls
    | some (.setting s) =>
      match ls with
      | [] => .ok (c, some s)
      | value => do
        let c ← c.assign s (String.ofList (withoutEquals value))
        return (c, none)

/-- Reads what follows two dashes: a name, and a value if there is an equals sign. -/
def readName (c : Choices) (text : List Char) : Except Stop (Choices × Option Setting) :=
  match Choice.ofName? (String.ofList (text.takeWhile (· ≠ '='))), text.dropWhile (· ≠ '=') with
  | none, _ => .error (.wrong (.unexpected ("--" ++ String.ofList text)))
  | some (.flag f), [] => do
    let c ← c.turnOn f
    return (c, none)
  | some (.flag _), _ :: value => .error (.wrong (.unexpectedValue (String.ofList value)))
  | some (.setting s), [] => .ok (c, some s)
  | some (.setting s), _ :: value => do
    let c ← c.assign s (String.ofList value)
    return (c, none)

/-- Reads an argument that is not the value of the one before. -/
def readArgument (c : Choices) (argument : String) : Except Stop (Choices × Option Setting) :=
  match argument.toList with
  | '-' :: '-' :: text => readName c text
  | '-' :: l :: ls => readLetters c (l :: ls)
  | _ => .error (.wrong (.unexpected argument))

/-- Reads the arguments behind an option that may still lack its value. Nothing may follow two dashes alone. -/
def readArguments (c : Choices) : Option Setting → List String → Except Stop Choices
  | none, [] => .ok c
  | some _, [] => .error (.wrong .missingValue)
  | some s, a :: as =>
    if isValue a then do
      let c ← c.assign s a
      readArguments c none as
    else .error (.wrong .missingValue)
  | none, a :: as =>
    if a = "--" then
      match as with
      | [] => .ok c
      | a :: _ => .error (.wrong (.unexpected a))
    else do
      let (c, s) ← readArgument c a
      readArguments c s as

structure Task where
  input : String
  output : Option String
  settings : Settings
deriving DecidableEq, Repr

/-- The run that choices describe. -/
def Choices.task (c : Choices) : Except Stop Task :=
  match c.input with
  | none => .error (.wrong .missingInput)
  | some input =>
    let default := Settings.default
    .ok ⟨input, c.output,
      ⟨c.variableName.getD default.variableName, c.namespacePath.getD default.namespacePath, default.qualifier,
        default.generator⟩⟩

/-! ## Answers -/

/-- What the program leaves for its caller. -/
structure Answer where
  status : Nat
  output : String
  errors : String
deriving DecidableEq, Repr

def versionText : String :=
  Settings.default.generator ++ " 0.1.0\n"

def usageText : String :=
  "Usage: " ++ Settings.default.generator ++ " [OPTIONS] --input <INPUT>\n"

def helpText : String :=
  "Generate a Rust table of parsed jq builtin definitions\n\n" ++ usageText ++ "\nOptions:\n"
    ++ "  -i, --input <INPUT>          Path to the jq definition source\n"
    ++ "  -o, --output <OUTPUT>        Output path for the generated file (default: stdout)\n"
    ++ "      --variable <VARIABLE>    Name of the generated static [default: "
    ++ Settings.default.variableName ++ "]\n"
    ++ "      --namespace <NAMESPACE>  Namespace the generated file is compiled into [default: "
    ++ Settings.default.namespacePath ++ "]\n"
    ++ "  -v, --verbose                Enable verbose logging\n"
    ++ "  -h, --help                   Print help\n"
    ++ "  -V, --version                Print version\n"

/-- The answer to arguments that ask for no run. -/
def Stop.answer : Stop → Answer
  | help => ⟨0, helpText, ""⟩
  | version => ⟨0, versionText, ""⟩
  | wrong e => ⟨2, "", "error: " ++ e.message ++ "\n\n" ++ usageText⟩

/-- The run that arguments ask for, or else the answer to them. -/
def read (arguments : List String) : Except Answer Task :=
  let task := do
    let c ← readArguments Choices.start none arguments
    c.task
  task.mapError Stop.answer

def indented (text : String) : String :=
  String.ofList (text.toList.flatMap fun c => if c = '\n' then ['\n', ' ', ' ', ' ', ' '] else [c])

/-- An error of a run as the program reports it. -/
def report (e : GenerationError) : String :=
  match e.cause? with
  | none => "Error: " ++ e.message ++ "\n"
  | some cause => "Error: " ++ e.message ++ "\n\nCaused by:\n    " ++ indented cause ++ "\n"

/-- The answer of the program to its arguments, by a reader of arguments and the rules of the generated file. -/
def execute {m : Type → Type} [Monad m] (reader : List String → Except Answer Task) (rules : Rules)
    (storage : Storage m) (arguments : List String) : m Answer := do
  match reader arguments with
  | .error answer => return answer
  | .ok task =>
    match ← task.settings.run rules storage task.input task.output with
    | .error e => return ⟨1, "", report e⟩
    | .ok text => return ⟨0, text, ""⟩

end DefTable.CommandLine
