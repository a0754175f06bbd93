import GoIface.CommandLine.Options
import GoIface.Files.Resolution
import GoIface.Model.Report

/-!
# Runs

A run reads a package, finds an interface in it and makes its report, which is printed or goes to a
file. All reading comes before any writing, and what fails in it leaves the files as they were
(`run_of_error`).
-/

namespace GoIface.CommandLine

inductive RunError where
  | importing (dir : String) (cause : ExtractError)
  | parsing (cause : ExtractError)
  | finding (cause : ExtractError)
  | makingDirs (dir : String) (fault : FileFault)
  | writing (file : String) (fault : FileFault)
deriving Repr, DecidableEq

/-- The message of an error with that of its cause after it. -/
def chain : ExtractError → String
  | .io path fault => (ExtractError.io path fault).message ++ ": " ++ fault.message
  | e => e.message

def RunError.message : RunError → String
  | importing dir cause => "failed importing " ++ dir ++ ": " ++ chain cause
  | parsing cause => "failed parsing source files: " ++ chain cause
  | finding cause => chain cause
  | makingDirs dir fault =>
    "failed making output parent directory " ++ dir ++ ": " ++ fault.message
  | writing file fault => "failed writing " ++ file ++ ": " ++ fault.message

/-- A text to print, or to put into a file if one is given. -/
structure Delivery where
  text : String
  file : Option String
deriving Repr, DecidableEq

variable (setting : Setting) (options : Options)

/-- The interface that is asked for. -/
def declared : ExceptT RunError Reading Declared := do
  let package ← (importPackage setting options.dir).adapt (.importing options.dir)
  let files ← (extractFiles (setting.lookupFrom options.dir) package.importPath
    package.files).adapt .parsing
  ExceptT.mk (pure ((findInterface files options.target package.importPath).mapError .finding))

/-- The package of the fake, unless one is given. -/
def outPackage (d : Declared) : String := options.package.getD ("fake_" ++ d.package)

/-- The import path of the directory that the output goes into. -/
def outPath : Reading String :=
  match options.output with
  | some file => setting.importPathOf (Path.absoluteDir setting.cwd file)
  | none => return ""

/-- What a run delivers, which only takes reading. -/
def delivery : ExceptT RunError Reading Delivery := do
  let d ← declared setting options
  return ⟨d.report (outPackage options d) (← outPath setting options), options.output⟩

/-- What is so after a run. -/
structure Outcome where
  files : FileSystem
  printed : String
  error : Option RunError

/-- Writes a file and makes the directories above it. -/
def writeOutput (cwd file text : String) (fs : FileSystem) : FileSystem × Option RunError :=
  let dir := Path.absoluteDir cwd file
  match fs.makeDirs dir with
  | (fs, some fault) => (fs, some (.makingDirs dir fault))
  | (fs, none) =>
    match fs.writeFile file text.toUTF8 with
    | .ok fs => (fs, none)
    | .error fault => (fs, some (.writing file fault))

def Delivery.perform (d : Delivery) (cwd : String) (fs : FileSystem) : Outcome :=
  match d.file with
  | none => ⟨fs, d.text, none⟩
  | some file =>
    let (fs, error) := writeOutput cwd file d.text fs
    ⟨fs, "", error⟩

def run (fs : FileSystem) : Outcome :=
  match (delivery setting options).run.on fs with
  | .ok d => d.perform setting.cwd fs
  | .error e => ⟨fs, "", some e⟩

theorem run_of_error {fs : FileSystem} {e : RunError}
    (h : (delivery setting options).run.on fs = .error e) :
    run setting options fs = ⟨fs, "", some e⟩ := by
  simp [run, h]

end GoIface.CommandLine
