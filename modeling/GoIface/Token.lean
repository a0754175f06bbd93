/-!
# Tokens

A token is an identifier, a literal, a keyword or a mark. What is none of these is a faulty token,
which names its fault. Identifiers and literals carry their text, the rest have a fixed spelling.
-/

namespace GoIface

inductive Keyword where
  | breakKw | caseKw | chanKw | constKw | continueKw | defaultKw | deferKw | elseKw
  | fallthroughKw | forKw | funcKw | goKw | gotoKw | ifKw | importKw | interfaceKw | mapKw
  | packageKw | rangeKw | returnKw | selectKw | structKw | switchKw | typeKw | varKw
deriving Repr, DecidableEq

namespace Keyword

def text : Keyword → String
  | breakKw => "break"
  | caseKw => "case"
  | chanKw => "chan"
  | constKw => "const"
  | continueKw => "continue"
  | defaultKw => "default"
  | deferKw => "defer"
  | elseKw => "else"
  | fallthroughKw => "fallthrough"
  | forKw => "for"
  | funcKw => "func"
  | goKw => "go"
  | gotoKw => "goto"
  | ifKw => "if"
  | importKw => "import"
  | interfaceKw => "interface"
  | mapKw => "map"
  | packageKw => "package"
  | rangeKw => "range"
  | returnKw => "return"
  | selectKw => "select"
  | structKw => "struct"
  | switchKw => "switch"
  | typeKw => "type"
  | varKw => "var"

def all : List Keyword :=
  [breakKw, caseKw, chanKw, constKw, continueKw, defaultKw, deferKw, elseKw, fallthroughKw, forKw,
    funcKw, goKw, gotoKw, ifKw, importKw, interfaceKw, mapKw, packageKw, rangeKw, returnKw,
    selectKw, structKw, switchKw, typeKw, varKw]

theorem mem_all (k : Keyword) : k ∈ all := by cases k <;> decide

def ofText? (s : String) : Option Keyword := all.find? (·.text == s)

end Keyword

/-- Operators and delimiters. -/
inductive Mark where
  | ellipsis | shlAssign | shrAssign | andNotAssign
  | addAssign | subAssign | mulAssign | divAssign | modAssign | andAssign | orAssign | xorAssign
  | shl | shr | andNot | logicalAnd | logicalOr | equal | notEqual | lessEqual | greaterEqual
  | increment | decrement | define | arrow
  | assign | plus | minus | star | slash | percent | amp | pipe | caret | tilde | bang
  | less | greater
  | lparen | rparen | lbrack | rbrack | lbrace | rbrace | comma | semi | colon | dot
deriving Repr, DecidableEq

namespace Mark

def text : Mark → String
  | ellipsis => "..."
  | shlAssign => "<<="
  | shrAssign => ">>="
  | andNotAssign => "&^="
  | addAssign => "+="
  | subAssign => "-="
  | mulAssign => "*="
  | divAssign => "/="
  | modAssign => "%="
  | andAssign => "&="
  | orAssign => "|="
  | xorAssign => "^="
  | shl => "<<"
  | shr => ">>"
  | andNot => "&^"
  | logicalAnd => "&&"
  | logicalOr => "||"
  | equal => "=="
  | notEqual => "!="
  | lessEqual => "<="
  | greaterEqual => ">="
  | increment => "++"
  | decrement => "--"
  | define => ":="
  | arrow => "<-"
  | assign => "="
  | plus => "+"
  | minus => "-"
  | star => "*"
  | slash => "/"
  | percent => "%"
  | amp => "&"
  | pipe => "|"
  | caret => "^"
  | tilde => "~"
  | bang => "!"
  | less => "<"
  | greater => ">"
  | lparen => "("
  | rparen => ")"
  | lbrack => "["
  | rbrack => "]"
  | lbrace => "\x7b"
  | rbrace => "\x7d"
  | comma => ","
  | semi => ";"
  | colon => ":"
  | dot => "."

/-- Every mark, the longer spellings before the shorter. -/
def all : List Mark :=
  [ellipsis, shlAssign, shrAssign, andNotAssign,
    addAssign, subAssign, mulAssign, divAssign, modAssign, andAssign, orAssign, xorAssign,
    shl, shr, andNot, logicalAnd, logicalOr, equal, notEqual, lessEqual, greaterEqual,
    increment, decrement, define, arrow,
    assign, plus, minus, star, slash, percent, amp, pipe, caret, tilde, bang, less, greater,
    lparen, rparen, lbrack, rbrack, lbrace, rbrace, comma, semi, colon, dot]

theorem mem_all (m : Mark) : m ∈ all := by cases m <;> decide

end Mark

inductive LiteralKind where
  | int | float | imaginary | rune | string | rawString
deriving Repr, DecidableEq

/-- Why a stretch of text is no token. -/
inductive LexError where
  | invalidToken
  | invalidNumber
  | unterminatedRawString
  | unterminatedComment
deriving Repr, DecidableEq

def LexError.message : LexError → String
  | invalidToken => "invalid token"
  | invalidNumber => "invalid numeric literal"
  | unterminatedRawString => "unterminated raw string"
  | unterminatedComment => "unterminated comment"

inductive Token where
  | ident (name : String)
  | literal (kind : LiteralKind) (text : String)
  | keyword (kw : Keyword)
  | mark (m : Mark)
  | faulty (fault : LexError)
deriving Repr, DecidableEq

namespace Token

/-- The spelling that the kind of a token fixes, empty where it fixes none. -/
def fixedText : Token → String
  | keyword k => k.text
  | mark m => m.text
  | ident _ | literal _ _ | faulty _ => ""

def text : Token → String
  | ident name => name
  | literal _ text => text
  | faulty _ => "<error>"
  | t => t.fixedText

/-- Whether a line break after the token ends a statement. -/
def endsStatement : Token → Bool
  | ident _ | literal _ _ => true
  | keyword k => (k matches .breakKw | .continueKw | .fallthroughKw | .returnKw)
  | mark m => (m matches .increment | .decrement | .rparen | .rbrack | .rbrace)
  | faulty _ => false

end Token

end GoIface
