import GoIface.ImportPath
import GoIface.Text.Affix

/-!
# Paths

A path is text, and how it is spelled is kept wherever it can be: joining and going up only add or
cut at the end. Its steps are what it says beyond its spelling, so neither doubled slashes nor
points in the middle count, while `..` does. Making a path absolute spells out its steps after the
working directory.
-/

namespace GoIface.Path

/-- What stands between the slashes of a path. -/
def stretches (p : String) : List String :=
  (splitAt (· == '/') p.toList).map String.ofList

def ofStretches (ss : List String) : String := String.intercalate "/" ss

inductive Step where
  | root | here | up
  | down (name : String)
deriving Repr, DecidableEq

/-- A stretch that leads nowhere. -/
def isIdle (s : String) : Bool := s == "" || s == "."

def step? (s : String) : Option Step :=
  if isIdle s then none else if s == ".." then some .up else some (.down s)

def isAbsolute (p : String) : Bool := p.toList.head? == some '/'

/-- A point counts as a step only at the start. -/
def steps (p : String) : List Step :=
  let later := ((stretches p).drop 1).filterMap step?
  match (stretches p).head? with
  | some "." => .here :: later
  | some s => if isAbsolute p then .root :: later else (step? s).toList ++ later
  | none => []

def endsInSlash (p : String) : Bool := p.toList.getLast? == some '/'

def join (base p : String) : String :=
  if isAbsolute p then p
  else if base.isEmpty || endsInSlash base then base ++ p
  else base ++ "/" ++ p

def dropIdle (ss : List String) : List String := (ss.reverse.dropWhile isIdle).reverse

/-- The path without its last step. Neither the empty path nor a root has one. -/
def parent? (p : String) : Option String :=
  match stretches p with
  | [] => none
  | first :: others =>
    match dropIdle others with
    | [] => if first.isEmpty then none else some ""
    | others =>
      match dropIdle others.dropLast with
      | [] => some (if first.isEmpty then "/" else first)
      | others => some (ofStretches (first :: others))

def ancestorsWithin : Nat → String → List String
  | 0, p => [p]
  | n + 1, p => p :: ((parent? p).map (ancestorsWithin n)).getD []

/-- The path, its parent, the parent of that, and so on. -/
def ancestors (p : String) : List String := ancestorsWithin (stretches p).length p

/-- The text of a step that may follow another. -/
def Step.text? : Step → Option String
  | root | here => none
  | up => some ".."
  | down name => some name

/-- Where a path starts from: a root, which may be spelled with two slashes, or the directory. -/
def base (cwd p : String) : String :=
  match p.toList with
  | '/' :: '/' :: '/' :: _ => "/"
  | '/' :: '/' :: _ => "//"
  | '/' :: _ => "/"
  | _ => cwd

/-- The path from the root. The empty path names nothing and stays as it is, and a slash at the end
is kept. -/
def absolute (cwd p : String) : String :=
  if p.isEmpty then p
  else
    let spelled := ((steps p).filterMap Step.text?).foldl join (base cwd p)
    if endsInSlash p && !endsInSlash spelled then spelled ++ "/" else spelled

/-- The directory that a file lies in. -/
def absoluteDir (cwd p : String) : String :=
  let p := absolute cwd p
  (parent? p).getD p

def dropSteps? : List Step → List Step → Option (List Step)
  | [], steps => some steps
  | b :: bs, s :: ss => if b = s then dropSteps? bs ss else none
  | _ :: _, [] => none

def Step.name? : Step → Option String
  | down name => some name
  | _ => none

/-- The names that lead from `base` down to a path below it, with slashes between. -/
def below? (base p : String) : Option String := do
  let rest ← dropSteps? (steps base) (steps p)
  return ofStretches (← rest.mapM Step.name?)

def fileName? (p : String) : Option String := (steps p).getLast?.bind Step.name?

/-- Whether a path names a file whose name has more to it than the ending `.go`. -/
def isGoFile (p : String) : Bool :=
  ((fileName? p).bind fun name => Text.dropEnd? ".go".toList name.toList).any (!·.isEmpty)

end GoIface.Path
