/-!
# Options

An option is named by a letter after one dash or a word after two, and its value stands in the same
argument or the next. An argument that starts with a dash is never a value of its own. A value is
settled only when the next option, or the end, shows that it is complete, whereas an unknown
argument fails at once, whatever is still to be settled.
-/

namespace GoIface.CommandLine

structure Options where
  target : String
  dir : String
  package : Option String
  output : Option String
deriving Repr, DecidableEq

/-- Why arguments ask for no run. -/
inductive Usage where
  | help
  | version
  | missingRequired
  | unknownArgument
  | invalidValue
  | tooManyValues
  | repeated
deriving Repr, DecidableEq

def Usage.message : Usage → String
  | help => "help was asked for"
  | version => "the version was asked for"
  | missingRequired => "an option that is required was not given"
  | unknownArgument => "unexpected argument"
  | invalidValue => "invalid or missing value of an option"
  | tooManyValues => "unexpected value of an option"
  | repeated => "an option cannot be given multiple times"

/-- The options that take a value. -/
inductive Key where
  | target | dir | package | output
deriving Repr, DecidableEq

/-- What the name of an option stands for. -/
inductive Switch where
  | value (key : Key)
  | help
  | version
deriving Repr, DecidableEq

def Switch.ofWord? : String → Option Switch
  | "target" => some (.value .target)
  | "dir" => some (.value .dir)
  | "package" => some (.value .package)
  | "output" => some (.value .output)
  | "help" => some .help
  | "version" => some .version
  | _ => none

def Switch.ofLetter? : Char → Option Switch
  | 't' => some (.value .target)
  | 'd' => some (.value .dir)
  | 'p' => some (.value .package)
  | 'o' => some (.value .output)
  | 'h' => some .help
  | 'V' => some .version
  | _ => none

/-- What an argument says by itself. -/
inductive Argument where
  /-- Two dashes: no option follows. -/
  | terminator
  | word (switch : Option Switch) (attached : Option String)
  | letter (switch : Option Switch) (attached : Option String)
  | plain (text : String)
deriving Repr, DecidableEq

/-- The name and the value of a word, which the first equals sign divides. -/
def divideWord (cs : List Char) : String × Option String :=
  (String.ofList (cs.takeWhile (· != '=')),
    (cs.dropWhile (· != '=')).tail? |>.map String.ofList)

/-- The value right after a letter, with or without an equals sign. -/
def attachedValue : List Char → Option String
  | [] => none
  | '=' :: cs => some (String.ofList cs)
  | cs => some (String.ofList cs)

def Argument.of (text : String) : Argument :=
  match text.toList with
  | ['-', '-'] => .terminator
  | '-' :: '-' :: cs =>
    let (name, value) := divideWord cs
    .word (Switch.ofWord? name) value
  | '-' :: c :: cs => .letter (Switch.ofLetter? c) (attachedValue cs)
  | _ => .plain text

abbrev Values := List (Key × String)

/-- An option whose value is not settled yet, and the value as far as it is known. -/
structure Pending where
  key : Key
  value : Option String
deriving Repr, DecidableEq

/-- Whether an option may be given without any text. -/
def Key.allowsEmpty : Key → Bool
  | target | package => true
  | dir | output => false

def Values.settle (values : Values) (p : Pending) : Except Usage Values :=
  match p.value with
  | none => .error .invalidValue
  | some text =>
    if (values.lookup p.key).isSome then .error .repeated
    else if text.isEmpty && !p.key.allowsEmpty then .error .invalidValue
    else .ok ((p.key, text) :: values)

def Values.settle? (values : Values) : Option Pending → Except Usage Values
  | none => .ok values
  | some p => values.settle p

/-- The values that arguments give, read after others that are settled but for one. -/
def valuesFrom (values : Values) (pending : Option Pending) :
    List Argument → Except Usage Values
  | [] => values.settle? pending
  | .terminator :: rest =>
    if rest.isEmpty then values.settle? pending else .error .unknownArgument
  | .word none _ :: _ | .letter none _ :: _ => .error .unknownArgument
  | .word (some .help) (some _) :: _ | .word (some .version) (some _) :: _ =>
    .error .tooManyValues
  | .word (some .help) none :: _ | .letter (some .help) _ :: _ => do
    let _ ← values.settle? pending
    throw .help
  | .word (some .version) none :: _ | .letter (some .version) _ :: _ => do
    let _ ← values.settle? pending
    throw .version
  | .word (some (.value key)) (some text) :: rest
  | .letter (some (.value key)) (some text) :: rest => do
    valuesFrom (← (← values.settle? pending).settle ⟨key, some text⟩) none rest
  | .word (some (.value key)) none :: rest | .letter (some (.value key)) none :: rest => do
    valuesFrom (← values.settle? pending) (some ⟨key, none⟩) rest
  | .plain text :: rest =>
    match pending with
    | some ⟨key, none⟩ => valuesFrom values (some ⟨key, some text⟩) rest
    | _ => .error .unknownArgument

def Options.ofValues (values : Values) : Except Usage Options :=
  match values.lookup .target with
  | none => .error .missingRequired
  | some target =>
    .ok ⟨target, (values.lookup .dir).getD ".", values.lookup .package, values.lookup .output⟩

/-- The options that arguments ask to run with. -/
def Options.parse (args : List String) : Except Usage Options := do
  ofValues (← valuesFrom [] none (args.map Argument.of))

/-- What is told about the options. -/
def usageLines : List String :=
  ["Usage: interfake [OPTIONS] --target <TARGET>",
    "",
    "Options:",
    "  -t, --target <TARGET>    Interface to look up",
    "  -d, --dir <DIR>          Package directory to read [default: .]",
    "  -p, --package <PACKAGE>  Package name of the generated code (default: fake_<package>)",
    "  -o, --output <OUTPUT>    Output file (default: stdout)",
    "  -h, --help               Print help",
    "  -V, --version            Print version"]

end GoIface.CommandLine
