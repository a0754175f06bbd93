import GoIface.Files.Header

/-!
# Module files

The path of a module stands on a line of its own after the word `module`, perhaps in quotes. The
first such line counts.
-/

namespace GoIface

def beforeComment : List Char → List Char
  | '/' :: '/' :: _ => []
  | c :: cs => c :: beforeComment cs
  | [] => []

/-- The path on a line that tells one. -/
def modulePath? (line : List Char) : Option String := do
  let rest ← Text.dropStart? "module".toList (Text.trim (beforeComment line))
  let path := Text.trimBy (· == '"') (Text.trim rest)
  if rest.head?.any Text.isBlank && !path.isEmpty then some (String.ofList path) else none

def moduleDirective (text : String) : Option String := (textLines text).findSome? modulePath?

end GoIface
