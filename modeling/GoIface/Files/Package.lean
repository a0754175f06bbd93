import GoIface.Files.Environment
import GoIface.Model.Extraction

/-!
# Packages in directories

The files of a package are the Go files of its directory that are no tests, suit the host and are
not marked as ignored, in the order of their names. One that cannot be read as text fails the whole
directory.
-/

namespace GoIface

/-- Readings that may fail. -/
abbrev Extract := ExceptT ExtractError Reading

/-- A directory read as a package. -/
structure PackageDir where
  dir : String
  importPath : String
  files : List String
deriving Repr

def isSourceName (name : String) : Bool :=
  let cs := name.toList
  ".go".toList.isSuffixOf cs && !"_test.go".toList.isSuffixOf cs && !startsWith cs "_"
    && !startsWith cs "."

def Extract.readText (path : String) : Extract String := do
  match ← Reading.readText path with
  | .ok text => return text
  | .error fault => throw (.io path fault)

/-- Whether the entry of a name belongs to the package. -/
def belongs (host : Platform) (dir name : String) : Extract Bool := do
  let path := Path.join dir name
  if !isSourceName name || !host.accepts name then return false
  else if ← Reading.isDir path then return false
  else return !isIgnored (← Extract.readText path)

def goFiles (host : Platform) (dir : String) : Extract (List String) := do
  match ← Reading.list dir with
  | .error fault => throw (.io dir fault)
  | .ok names =>
    let names ← names.filterM (belongs host dir)
    return (names.mergeSort fun a b => decide (a ≤ b)).map (Path.join dir)

def importPackage (setting : Setting) (dir : String) : Extract PackageDir := do
  let files ← goFiles setting.host dir
  return ⟨dir, ← setting.importPathOf dir, files⟩

/-- Tells the name of the package with an import path. -/
abbrev Lookup := String → Reading (Option String)

/-- The model of one file. A path that is not that of a Go file is passed over. -/
def extractFile (lookup : Lookup) (importPath path : String) : Extract (Option FileModel) := do
  if Path.isGoFile path then
    let source ← Extract.readText path
    let file ← ExceptT.mk (pure (readFile path source))
    let asked := unnamedPaths source file.imports
    let names ← asked.mapM fun p => do return (p, ← lookup p)
    let resolve := fun p => (names.lookup p).join
    some <$> ExceptT.mk (pure (FileModel.ofFile resolve path source importPath file))
  else return none

def extractFiles (lookup : Lookup) (importPath : String) (paths : List String) :
    Extract (List FileModel) := do
  return (← paths.mapM (extractFile lookup importPath)).filterMap id

/-- The models of the files of a directory. -/
def extractPackage (setting : Setting) (lookup : Lookup) (dir : String) :
    Extract (List FileModel) := do
  let package ← importPackage setting dir
  extractFiles lookup package.importPath package.files

end GoIface
