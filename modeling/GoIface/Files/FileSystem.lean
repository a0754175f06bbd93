import GoIface.Files.Fault
import GoIface.Files.Path

/-!
# File systems

A file system is a tree of directories and files with a working directory. A path is followed one
stretch at a time from the root or the working directory, and every stretch, an idle one too, needs
a directory to start from. There are no links, so going up undoes going down.
-/

namespace GoIface

inductive Entry where
  | file (content : ByteArray)
  | dir (entries : List (String × Entry))

namespace Entry

def find? : List String → Entry → Option Entry
  | [], e => some e
  | name :: names, .dir entries => (entries.lookup name).bind (find? names)
  | _ :: _, .file _ => none

def isDir : Entry → Bool
  | dir _ => true
  | file _ => false

/-- Replaces the entry of a name, or adds it as the last. -/
def setEntry (name : String) (e : Entry) : List (String × Entry) → List (String × Entry)
  | [] => [(name, e)]
  | (n, old) :: rest =>
    if n = name then (name, e) :: rest else (n, old) :: setEntry name e rest

/-- Puts an entry where the names lead, making directories of what is not there. -/
def put : List String → Entry → Entry → Entry
  | [], _, new => new
  | name :: names, .dir entries, new =>
    .dir (setEntry name (put names ((entries.lookup name).getD (.dir [])) new) entries)
  | _ :: _, .file content, _ => .file content

/-- Removes the entry where the names lead. -/
def erase : List String → Entry → Entry
  | [name], .dir entries => .dir (entries.filter (·.1 != name))
  | name :: names, .dir entries =>
    match entries.lookup name with
    | some e => .dir (setEntry name (erase names e) entries)
    | none => .dir entries
  | _, e => e

end Entry

structure FileSystem where
  root : Entry
  cwd : String

namespace FileSystem

/-- The longest name a file may have, in bytes. -/
def nameLimit : Nat := 255

/-- Follows stretches from a place, which is given by its names from the innermost out. -/
def follow (root : Entry) (place : List String) : List String → Except FileFault (List String)
  | [] => .ok place
  | s :: rest =>
    match root.find? place.reverse with
    | some (.dir entries) =>
      if Path.isIdle s then follow root place rest
      else if s == ".." then follow root place.tail rest
      else if nameLimit < s.utf8ByteSize then .error .nameTooLong
      else if (entries.lookup s).isSome then follow root (s :: place) rest
      else .error .missing
    | _ => .error .notDirectory

/-- The stretches from the root to where a path leads. -/
def stretchesOf (fs : FileSystem) (path : String) : Except FileFault (List String) :=
  if path.isEmpty then .error .missing
  else if path.toList.contains (Char.ofNat 0) then .error .nulInName
  else .ok (Path.stretches (Path.join fs.cwd path)).tail

/-- The names from the root to where a path leads. -/
def locate (fs : FileSystem) (path : String) : Except FileFault (List String) := do
  return (← follow fs.root [] (← fs.stretchesOf path)).reverse

def entry (fs : FileSystem) (path : String) : Except FileFault Entry := do
  match fs.root.find? (← fs.locate path) with
  | some e => return e
  | none => throw .missing

def list (fs : FileSystem) (path : String) : Except FileFault (List String) := do
  match ← fs.entry path with
  | .dir entries => return entries.map (·.1)
  | .file _ => throw .notDirectory

def read (fs : FileSystem) (path : String) : Except FileFault ByteArray := do
  match ← fs.entry path with
  | .file content => return content
  | .dir _ => throw .isDirectory

def isDir (fs : FileSystem) (path : String) : Bool :=
  match fs.entry path with
  | .ok e => e.isDir
  | .error _ => false

/-- Where a new entry may go. -/
structure Site where
  /-- The names from the root to the directory it goes into. -/
  dir : List String
  name : String
  /-- Whether the path ends in a slash. -/
  slash : Bool

def Site.isTooLong (s : Site) : Bool := nameLimit < s.name.utf8ByteSize

/-- The place that a path names, none if it names a directory by itself or by going up. -/
def site? (fs : FileSystem) (path : String) : Except FileFault (Option Site) := do
  let stretches ← fs.stretchesOf path
  let named := (stretches.reverse.dropWhile (·.isEmpty)).reverse
  match named.getLast? with
  | none => return none
  | some last =>
    let dir ← follow fs.root [] (named.dropLast ++ [""])
    if last == "." || last == ".." then return none
    else return some ⟨dir.reverse, last, named.length != stretches.length⟩

def put (fs : FileSystem) (names : List String) (e : Entry) : FileSystem :=
  { fs with root := fs.root.put names e }

/-- Writes a whole file, whose directory must be there. -/
def writeFile (fs : FileSystem) (path : String) (content : ByteArray) :
    Except FileFault FileSystem := do
  match ← fs.site? path with
  | none => throw .isDirectory
  | some site =>
    let names := site.dir ++ [site.name]
    if site.slash then throw .isDirectory
    else if site.isTooLong then throw .nameTooLong
    else if (fs.root.find? names).any Entry.isDir then throw .isDirectory
    else return fs.put names (.file content)

/-- Makes one directory, whose own directory must be there. -/
def makeDir (fs : FileSystem) (path : String) : Except FileFault FileSystem := do
  match ← fs.site? path with
  | none => throw .alreadyExists
  | some site =>
    let names := site.dir ++ [site.name]
    if site.isTooLong then throw .nameTooLong
    else if (fs.root.find? names).isSome then throw .alreadyExists
    else return fs.put names (.dir [])

/-- Makes a directory unless it is there, and says what the file system is then. -/
def ensureDir (fs : FileSystem) (path : String) : FileSystem × Option FileFault :=
  match fs.makeDir path with
  | .ok fs => (fs, none)
  | .error fault => (fs, if fs.isDir path then none else some fault)

/-- Makes a directory and up to `n` directories above it. -/
def makeDirsWithin : Nat → FileSystem → String → FileSystem × Option FileFault
  | 0, fs, path => fs.ensureDir path
  | n + 1, fs, path =>
    match fs.ensureDir path, Path.parent? path with
    | (fs, some .missing), some parent =>
      match makeDirsWithin n fs parent with
      | (fs, none) => fs.ensureDir path
      | failed => failed
    | done, _ => done

/-- Makes a directory and all that are missing above it. What was made stays even if another cannot
be. -/
def makeDirs (fs : FileSystem) (path : String) : FileSystem × Option FileFault :=
  if path.isEmpty then (fs, none) else makeDirsWithin (Path.stretches path).length fs path

/-- Removes a file. -/
def removeFile (fs : FileSystem) (path : String) : Except FileFault FileSystem := do
  let names ← fs.locate path
  if fs.isDir path then throw .isDirectory
  return { fs with root := fs.root.erase names }

end FileSystem

end GoIface
