import GoIface.ImportPath
import GoIface.Text.Affix
import GoIface.Text.Blank
import GoIface.Text.Word

/-!
# Headers of files

The header of a file is read line by line up to the first line that is neither empty nor looks like
part of a comment. A build line in it that names `ignore` takes the file out of every build.
-/

namespace GoIface

def textLines (text : String) : List (List Char) := splitAt (· == '\n') text.toList

/-- What follows the mark of a build line. -/
def buildLine? (line : List Char) : Option (List Char) :=
  (Text.dropStart? "//go:build".toList line).or (Text.dropStart? "// +build".toList line)

def isConditionChar (c : Char) : Bool := Text.isAlphanumeric c || c == '_' || c == '!'

/-- Whether a build line names `ignore` and does not negate it. -/
def namesIgnore (condition : List Char) : Bool :=
  (splitAt (!isConditionChar ·) condition).contains "ignore".toList

def startsWith (cs : List Char) (start : String) : Bool := start.toList.isPrefixOf cs

/-- Reads lines without white space around them. -/
def isIgnoredHeader : List (List Char) → Bool
  | [] => false
  | line :: rest =>
    if line.isEmpty || startsWith line "/*" || startsWith line "*" then isIgnoredHeader rest
    else if !startsWith line "//" then false
    else if (buildLine? line).any namesIgnore then true
    else isIgnoredHeader rest

def isIgnored (text : String) : Bool := isIgnoredHeader ((textLines text).map Text.trim)

end GoIface
