import GoIface.Lexeme

/-!
# Diagnostics

What can be wrong with a text, each fault with the span it is reported at. A text is rejected
either for all the faulty lexemes it has or, if it has none, for the first fault of its grammar.
-/

namespace GoIface

/-- What would have been accepted. -/
inductive Wanted where
  | token (t : Token)
  | identifier
  | semicolon
  | declarationEnd
  | declaration
  | importPath
  | type
  | arrayLength
  | expression
  | structField
deriving Repr, DecidableEq

def Wanted.text : Wanted → String
  | token t => "'" ++ t.text ++ "'"
  | identifier => "identifier"
  | semicolon => "';' or newline"
  | declarationEnd => "';' or newline after top level declaration"
  | declaration => "declaration"
  | importPath => "import path"
  | type => "type"
  | arrayLength => "array length"
  | expression => "expression"
  | structField => "field name or embedded type"

/-- What there was instead. -/
inductive Found where
  | textEnd
  | newline
  | token (t : Token)
deriving Repr, DecidableEq

def Found.text : Found → String
  | textEnd => "EOF"
  | newline => "newline"
  | token t => "'" ++ t.text ++ "'"

/-- An inserted semicolon is found as the line break it stands for. -/
def Found.ofNext : List Lexeme → Found
  | [] => .textEnd
  | l :: _ => if l.isInserted then .newline else .token l.token

inductive ParseFault where
  | expected (wanted : Wanted) (found : Found)
  | unexpected (t : Token)
  | missingCloser
  | tooDeep
  | openLength
  | noTypeArguments
  | lateImport
  | mixedParameters
deriving Repr, DecidableEq

def ParseFault.message : ParseFault → String
  | expected wanted found => "expected " ++ wanted.text ++ ", found " ++ found.text
  | unexpected t => "unexpected '" ++ t.text ++ "'"
  | missingCloser => "unbalanced brackets: missing closer"
  | tooDeep => "exceeded max nesting depth"
  | openLength => "[...] array type outside a composite literal"
  | noTypeArguments => "expected type argument list"
  | lateImport => "imports must appear before other declarations"
  | mixedParameters => "mixed named and unnamed parameters"

inductive Fault where
  | lex (fault : LexError)
  | parse (fault : ParseFault)
deriving Repr, DecidableEq

def Fault.message : Fault → String
  | lex fault => fault.message
  | parse fault => fault.message

abbrev Diagnostic := Located Fault

def Lexeme.diagnostic? (l : Lexeme) : Option Diagnostic :=
  l.fault?.map fun fault => ⟨.lex fault, l.span⟩

/-- Why a text is no file. -/
inductive Rejection where
  | lexical (first : Diagnostic) (others : List Diagnostic)
  | grammatical (error : Located ParseFault)
deriving Repr, DecidableEq

def Rejection.first : Rejection → Diagnostic
  | lexical first _ => first
  | grammatical e => ⟨.parse e.fault, e.span⟩

def Rejection.diagnostics : Rejection → List Diagnostic
  | lexical first others => first :: others
  | grammatical e => [⟨.parse e.fault, e.span⟩]

end GoIface
