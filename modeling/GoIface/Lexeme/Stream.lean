import GoIface.Diagnostic

/-!
# Reading lexemes one at a time

A stream gives the lexemes of a text one by one and gathers the diagnostics of the faulty ones it
has given, until they are taken.
-/

namespace GoIface

structure LexemeStream where
  left : List Lexeme
  gathered : List Diagnostic
deriving Repr

namespace LexemeStream

def ofSource (source : String) : LexemeStream := ⟨lex source, []⟩

/-- The next lexeme, none at the end of the text. -/
def next (s : LexemeStream) : Option Lexeme × LexemeStream :=
  match s.left with
  | [] => (none, s)
  | l :: left => (some l, ⟨left, s.gathered ++ l.diagnostic?.toList⟩)

def takeDiagnostics (s : LexemeStream) : List Diagnostic × LexemeStream :=
  (s.gathered, { s with gathered := [] })

end LexemeStream

end GoIface
