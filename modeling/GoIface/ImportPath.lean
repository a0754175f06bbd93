/-!
# Import paths

An import path is text whose segments stand between slashes. Unless its package says otherwise, a
package is taken to be named by the last segment up to its first point.
-/

namespace GoIface

/-- The stretches of a text between the characters of which `p` holds, at least one. -/
def splitAt (p : Char → Bool) : List Char → List (List Char)
  | [] => [[]]
  | c :: cs =>
    match p c, splitAt p cs with
    | true, parts => [] :: parts
    | false, part :: parts => (c :: part) :: parts
    | false, [] => [[c]]

def lastSegment (path : String) : String :=
  String.ofList (path.toList.reverse.takeWhile (· != '/')).reverse

def guessedName (path : String) : String :=
  String.ofList ((lastSegment path).toList.takeWhile (· != '.'))

/-- The segments of a path that hold something. -/
def segments (path : String) : List String :=
  ((splitAt (· == '/') path.toList).filter (!·.isEmpty)).map String.ofList

/-- One path below another, either of which may be empty. -/
def joinImportPath (base below : String) : String :=
  if below.isEmpty then base else if base.isEmpty then below else base ++ "/" ++ below

end GoIface
