import GoIface.Piece

/-!
# Lexemes

A lexeme is a token with the span it was read from. Where a line ends after a token that may end a
statement, a semicolon is inserted: an empty lexeme at the first line break of the gap, or at the
end of the text. A break inside a block comment counts. The byte order mark belongs to a gap only
at the very start of the text.
-/

namespace GoIface

structure Lexeme where
  token : Token
  span : Span
deriving Repr, DecidableEq

namespace Lexeme

def insertedSemi (offset : Nat) : Lexeme := ⟨.mark .semi, .point offset⟩

/-- A semicolon that was written covers a byte. -/
def isInserted (l : Lexeme) : Bool := l.token == .mark .semi && l.span.isEmpty

def fault? (l : Lexeme) : Option LexError :=
  match l.token with
  | .faulty fault => some fault
  | _ => none

end Lexeme

/-- How far into a piece its first line break is. -/
def Piece.breakAt? (p : Piece) : Option Nat :=
  if p.text.any Delimited.isLineBreak then
    some (byteCount (p.text.takeWhile (!Delimited.isLineBreak ·)))
  else none

/-- The lexemes of pieces that start at `offset`, where `ends` says whether the token before them
may end a statement. -/
def lexemesFrom (offset : Nat) (ends : Bool) : List Piece → List Lexeme
  | [] => if ends then [.insertedSemi offset] else []
  | p :: ps =>
    let stop := offset + p.size
    match p.kind with
    | .token t => ⟨t, offset, stop⟩ :: lexemesFrom stop t.endsStatement ps
    | .blank | .lineComment => lexemesFrom stop ends ps
    | .newline | .blockComment =>
      match ends, p.breakAt? with
      | true, some n => .insertedSemi (offset + n) :: lexemesFrom stop false ps
      | _, _ => lexemesFrom stop ends ps
    | .byteOrderMark =>
      if offset = 0 then lexemesFrom stop ends ps
      else ⟨.faulty .invalidToken, offset, stop⟩ :: lexemesFrom stop false ps

def lex (source : String) : List Lexeme := lexemesFrom 0 false (pieces source.toList)

end GoIface
