import GoIface.Files.ModuleFile
import GoIface.Files.Platform
import GoIface.Files.Reading

/-!
# Where packages are

Packages lie below the `src` directories that the environment names and in the module whose file
lies nearest above them. The place of a directory in either gives the import path of its package;
the module goes first.
-/

namespace GoIface

structure GoEnv where
  gopath : List String
  goroot : Option String
deriving Repr, DecidableEq

/-- What a run depends on besides its arguments and the files. -/
structure Setting where
  cwd : String
  env : GoEnv
  host : Platform
deriving Repr, DecidableEq

/-- The environment from its variables. An empty one counts as unset, except for the home. -/
def GoEnv.ofVariables (gopath goroot home : Option String) : GoEnv :=
  let given := gopath.filter (!·.isEmpty)
  let default := (home.map fun h => [Path.join h "go"]).getD []
  ⟨(given.map fun list => (splitAt (· == ':') list.toList).map String.ofList).getD default,
    goroot.filter (!·.isEmpty)⟩

namespace Setting

variable (setting : Setting)

def absolute (path : String) : String := Path.absolute setting.cwd path

/-- The `src` directories in the order they are searched. -/
def srcDirs : List String :=
  (setting.env.goroot.toList ++ setting.env.gopath).map fun dir =>
    setting.absolute (Path.join dir "src")

end Setting

structure Module where
  root : String
  path : String
deriving Repr, DecidableEq

def Module.at? (root : String) : Reading (Option Module) := do
  match ← Reading.readText (Path.join root "go.mod") with
  | .ok text => return (moduleDirective text).map (⟨root, ·⟩)
  | .error _ => return none

/-- The module of the nearest directory above, or of the directory itself, that tells a path. -/
def Module.enclosing? (dir : String) : Reading (Option Module) :=
  (Path.ancestors dir).findSomeM? Module.at?

/-- The import path of a directory in a module. -/
def Module.importPath? (m : Module) (dir : String) : Option String :=
  (Path.below? m.root dir).map (joinImportPath m.path)

/-- The import path of the package in a directory, empty if it is neither in a module nor below a
`src` directory. -/
def Setting.importPathOf (setting : Setting) (dir : String) : Reading String := do
  let dir := setting.absolute dir
  match (← Module.enclosing? dir).bind (·.importPath? dir) with
  | some path => return path
  | none => return (setting.srcDirs.findSome? (Path.below? · dir)).getD ""

end GoIface
