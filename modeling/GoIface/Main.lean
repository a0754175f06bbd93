import GoIface.CommandLine.Run

/-!
# The program

Puts the questions of a run to the machine, and prints or writes what it delivers.
-/

namespace GoIface.CommandLine

def faultOf : IO.Error → FileFault
  | .alreadyExists _ code text | .interrupted _ code text | .noFileOrDirectory _ code text
  | .invalidArgument _ code text | .permissionDenied _ code text
  | .resourceExhausted _ code text | .inappropriateType _ code text
  | .noSuchThing _ code text => .ofCode code.toNat text
  | .otherError code text | .resourceBusy code text | .resourceVanished code text
  | .unsupportedOperation code text | .hardwareFault code text
  | .unsatisfiedConstraints code text | .illegalOperation code text | .protocolError code text
  | .timeExpired code text => .ofCode code.toNat text
  | .unexpectedEof => .other 0 "end of file"
  | .userError text => .other 0 text

def attempt {α : Type} (act : IO α) : IO (Except FileFault α) := do
  try
    return .ok (← act)
  catch e =>
    return .error (faultOf e)

def answer : (q : Query) → IO q.Answer
  | .list dir => attempt do
    return (← (← IO.FS.realPath dir).readDir).toList.map (·.fileName)
  | .read file => attempt (IO.FS.readBinFile file)
  | .isDir path => do
    match ← attempt do (← IO.FS.realPath path).isDir with
    | .ok b => return b
    | .error _ => return false

/-- What a reading ends in on this machine. -/
def perform {α : Type} : Reading α → IO α
  | .done a => return a
  | .ask q next => do perform (next (← answer q))

def write (cwd file text : String) : IO (Except RunError Unit) := do
  let dir := Path.absoluteDir cwd file
  match ← attempt (IO.FS.createDirAll dir) with
  | .error fault => return .error (.makingDirs dir fault)
  | .ok _ =>
    match ← attempt (IO.FS.writeBinFile file text.toUTF8) with
    | .error fault => return .error (.writing file fault)
    | .ok _ => return .ok ()

def deliver (cwd : String) (d : Delivery) : IO (Except RunError Unit) :=
  match d.file with
  | none => do
    IO.print d.text
    return .ok ()
  | some file => write cwd file d.text

def currentSetting : IO Setting := do
  let cwd := (← IO.currentDir).toString
  let gopath ← IO.getEnv "GOPATH"
  let goroot ← IO.getEnv "GOROOT"
  return ⟨cwd, GoEnv.ofVariables gopath goroot (← IO.getEnv "HOME"), ⟨"linux", "amd64"⟩⟩

def runHere (options : Options) : IO (Except RunError Unit) := do
  let setting ← currentSetting
  match ← perform (delivery setting options).run with
  | .ok d => deliver setting.cwd d
  | .error e => return .error e

end GoIface.CommandLine

open GoIface.CommandLine in
def main (args : List String) : IO UInt32 := do
  match Options.parse args with
  | .ok options =>
    match ← runHere options with
    | .ok _ => return 0
    | .error e =>
      IO.eprintln ("interfake: " ++ e.message)
      return 1
  | .error .help =>
    usageLines.forM fun line => IO.println line
    return 0
  | .error .version =>
    IO.println "interfake 0.1.0"
    return 0
  | .error usage =>
    IO.eprintln ("error: " ++ usage.message)
    usageLines.forM fun line => IO.eprintln line
    return 2
