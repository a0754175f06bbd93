import GoIface.Files.Package
import GoIface.Lexeme.Reader

/-!
# Finding packages by import path

Seen from a directory, a package is looked for in the `vendor` directories from the nearest outward,
then in the enclosing module, then below each `src` directory. The first place with a file that has
a package clause answers; a place that cannot be read in full is passed over.
-/

namespace GoIface

/-- A directory that holds the packages below an import path, or all packages if that is empty. -/
structure SearchRoot where
  serves : String
  dir : String
deriving Repr, DecidableEq

/-- What an import path says beyond the one that a root serves. -/
def SearchRoot.rest? (root : SearchRoot) (importPath : String) : Option (List Char) :=
  if root.serves.isEmpty then some importPath.toList
  else if importPath = root.serves then some []
  else do Text.dropStart? ['/'] (← Text.dropStart? root.serves.toList importPath.toList)

/-- Where a root would have the package of an import path. -/
def SearchRoot.candidate? (root : SearchRoot) (importPath : String) : Option String :=
  (root.rest? importPath).map fun rest =>
    (segments (String.ofList rest)).foldl Path.join root.dir

def vendorRoot? (dir : String) : Reading (Option SearchRoot) := do
  let vendor := Path.join dir "vendor"
  return if ← Reading.isDir vendor then some ⟨"", vendor⟩ else none

/-- The roots that are searched from a directory, in order. -/
def Setting.searchRoots (setting : Setting) (dir : String) : Reading (List SearchRoot) := do
  let dir := setting.absolute dir
  let vendors ← (Path.ancestors dir).filterMapM vendorRoot?
  let enclosing ← Module.enclosing? dir
  let modules := enclosing.toList.map fun m => ⟨m.path, m.root⟩
  return vendors ++ modules ++ setting.srcDirs.map (⟨"", ·⟩)

/-- The package that a file says it belongs to. -/
def packageOfFile (path : String) : Reading (Option String) := do
  match ← Reading.readText path with
  | .ok text => return packageNameOf text
  | .error _ => return none

/-- The package that the first telling file of a directory belongs to. -/
def packageInDir (host : Platform) (dir : String) : Reading (Option String) := do
  match ← (goFiles host dir).run with
  | .ok files => files.findSomeM? packageOfFile
  | .error _ => return none

def packageAt (host : Platform) (importPath : String) (root : SearchRoot) :
    Reading (Option String) :=
  match root.candidate? importPath with
  | some dir => packageInDir host dir
  | none => return none

/-- The name of the package that an import path means to files of a directory. -/
def Setting.lookupFrom (setting : Setting) (dir : String) : Lookup := fun importPath => do
  (← setting.searchRoots dir).findSomeM? (packageAt setting.host importPath)

end GoIface
