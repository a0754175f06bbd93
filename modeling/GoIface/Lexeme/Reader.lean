import GoIface.Diagnostic

/-!
# Reading a text piece by piece

A reader scans only as much of a text as it takes to find the next lexeme. An inserted semicolon
waits until it is asked for the lexeme after the token that ended the line.
-/

namespace GoIface

structure LexemeReader where
  /-- What has not been scanned, with the offset of its start. -/
  rest : List Char
  offset : Nat
  /-- Whether the last token may end a statement. -/
  ends : Bool
  /-- Where the inserted semicolon is that comes next. -/
  semiAt? : Option Nat
  gathered : List Diagnostic
  /-- Whether the end of the text has been met. -/
  ended : Bool
deriving Repr

namespace LexemeReader

def ofSource (source : String) : LexemeReader := ⟨source.toList, 0, false, none, [], false⟩

def takeDiagnostics (r : LexemeReader) : List Diagnostic × LexemeReader :=
  (r.gathered, { r with gathered := [] })

/-- A line ends at an offset. -/
def endLine (r : LexemeReader) (offset : Nat) : LexemeReader :=
  if r.ends then { r with ends := false, semiAt? := some offset } else r

def fail (r : LexemeReader) (fault : LexError) (span : Span) : Option Lexeme × LexemeReader :=
  (some ⟨.faulty fault, span⟩,
    { r with ends := false, gathered := r.gathered ++ [⟨.lex fault, span⟩] })

/-- What a piece gives, which may be nothing. -/
def pass (r : LexemeReader) (p : Piece) (rest : List Char) : Option Lexeme × LexemeReader :=
  let span : Span := ⟨r.offset, r.offset + p.size⟩
  let after := { r with rest := rest, offset := span.stop }
  match p.kind with
  | .token (.faulty fault) => after.fail fault span
  | .token t => (some ⟨t, span⟩, { after with ends := t.endsStatement })
  | .blank | .lineComment => (none, after)
  | .newline | .blockComment =>
    match p.breakAt? with
    | some n => (none, after.endLine (r.offset + n))
    | none => (none, after)
  | .byteOrderMark => if r.offset = 0 then (none, after) else after.fail .invalidToken span

@[simp]
theorem rest_endLine (r : LexemeReader) (offset : Nat) : (r.endLine offset).rest = r.rest := by
  unfold endLine
  split <;> rfl

@[simp]
theorem ended_endLine (r : LexemeReader) (offset : Nat) : (r.endLine offset).ended = r.ended := by
  unfold endLine
  split <;> rfl

@[simp]
theorem rest_pass (r : LexemeReader) (p : Piece) (rest : List Char) :
    (r.pass p rest).2.rest = rest := by
  unfold pass
  split <;> (try split) <;> simp [fail]

@[simp]
theorem ended_pass (r : LexemeReader) (p : Piece) (rest : List Char) :
    (r.pass p rest).2.ended = r.ended := by
  unfold pass
  split <;> (try split) <;> simp [fail]

/-- The next lexeme, none at the end of the text. -/
def next (r : LexemeReader) : Option Lexeme × LexemeReader :=
  match r.semiAt? with
  | some offset => (some (.insertedSemi offset), { r with semiAt? := none })
  | none =>
    if _ : r.ended then (none, r)
    else
      match _ : r.rest with
      | [] => next ({ r with ended := true }.endLine r.offset)
      | c :: cs =>
        let scanned := Piece.scan c cs
        let passed := r.pass ⟨scanned.1, scanned.2.text⟩ scanned.2.rest
        match passed.1 with
        | some l => (some l, passed.2)
        | none => next passed.2
termination_by r.rest.length + (!r.ended).toNat
decreasing_by
  · simp [*]
  · have hlength := (Piece.cuts_scan c cs).length_rest
    have hrest : r.rest = c :: cs := ‹_›
    simp only [rest_pass, ended_pass, hrest, List.length_cons]
    omega

end LexemeReader

/-- The package name if a text starts with a package clause. Nothing after the first two lexemes is
scanned. -/
def packageNameOf (source : String) : Option String :=
  let first := (LexemeReader.ofSource source).next
  let second := first.2.next
  match first.1.map Lexeme.token, second.1.map Lexeme.token with
  | some (.keyword .packageKw), some (.ident name) => some name
  | _, _ => none

end GoIface
