import GoIface.Piece.Delimited
import GoIface.Piece.Numeral
import GoIface.Span
import GoIface.Text.Letter

/-!
# Pieces

A text falls into pieces: tokens, and what stands between tokens. What a piece is depends only on
the text from its start on. Scanning takes something every time (`cuts_scan`), and the pieces put
together are the text (`flatMap_pieces`).
-/

namespace GoIface

open GoIface.Text

inductive PieceKind where
  | token (t : Token)
  /-- Spaces and tabs. -/
  | blank
  | newline
  | lineComment
  | blockComment
  | byteOrderMark
deriving Repr, DecidableEq

structure Piece where
  kind : PieceKind
  text : List Char
deriving Repr, DecidableEq

namespace Piece

def size (p : Piece) : Nat := byteCount p.text

def isSpace (c : Char) : Bool := c == ' ' || c == '\t'

def startsIdent (c : Char) : Bool := isLetter c || c == '_'

def continuesIdent (c : Char) : Bool := startsIdent c || isDecimalDigit c

/-- A keyword if the text is one, else an identifier. -/
def word (text : String) : Token :=
  match Keyword.ofText? text with
  | some k => .keyword k
  | none => .ident text

/-- The longest mark that a text starts with. -/
def leadingMark? (cs : List Char) : Option Mark :=
  Mark.all.find? fun m => m.text.toList.isPrefixOf cs

/-- A mark, or one faulty character. -/
def mark (c : Char) (cs : List Char) : PieceKind × Cut :=
  match leadingMark? (c :: cs) with
  | some m => (.token (.mark m), ⟨m.text.toList, (c :: cs).drop m.text.toList.length⟩)
  | none => (.token (.faulty .invalidToken), ⟨[c], cs⟩)

/-- Opens a comment if the `/` before `cs` does. -/
def comment? : List Char → Option (PieceKind × Cut)
  | '/' :: cs => some (.lineComment, (Cut.run (!Delimited.isLineBreak ·) cs).after ['/', '/'])
  | '*' :: cs =>
    match Delimited.throughCommentEnd cs with
    | some k => some (.blockComment, k.after ['/', '*'])
    | none => some (.token (.faulty .unterminatedComment), ⟨'/' :: '*' :: cs, []⟩)
  | _ => none

/-- White space and the byte order mark. -/
def gap? (c : Char) (cs : List Char) : Option (PieceKind × Cut) :=
  if isSpace c then some (.blank, (Cut.run isSpace cs).after [c])
  else if c == '\n' then some (.newline, ⟨[c], cs⟩)
  else if c == '\r' then
    match cs with
    | '\n' :: rest => some (.newline, ⟨[c, '\n'], rest⟩)
    | _ => some (.newline, ⟨[c], cs⟩)
  else if c == '\ufeff' then some (.byteOrderMark, ⟨[c], cs⟩)
  else none

/-- A literal other than a number, from its opening quote. -/
def literal? (c : Char) (cs : List Char) : Option (Token × Cut) :=
  if c == '\x60' then some (Delimited.rawString c cs)
  else if c == '"' then some (Delimited.literal .string c true cs)
  else if c == '\'' then some (Delimited.literal .rune c false cs)
  else none

/-- Identifiers, keywords and literals. -/
def word? (c : Char) (cs : List Char) : Option (Token × Cut) :=
  if startsIdent c then
    let k := (Cut.run continuesIdent cs).after [c]
    some (word (String.ofList k.text), k)
  else if c.isDigit || (c == '.' && cs.head?.any (·.isDigit)) then
    some (Numeral.token (c :: cs))
  else literal? c cs

/-- The first piece of the text `c :: cs`. -/
def scan (c : Char) (cs : List Char) : PieceKind × Cut :=
  match gap? c cs, word? c cs with
  | some p, _ => p
  | none, some t => t.map .token id
  | none, none => if c == '/' then (comment? cs).getD (mark c cs) else mark c cs

theorem Mark.text_ne_nil (m : Mark) : m.text.toList ≠ [] := by cases m <;> decide

theorem cuts_mark (c : Char) (cs : List Char) : (mark c cs).2.Cuts (c :: cs) := by
  unfold mark
  split
  · next m hm =>
    have hp : m.text.toList.isPrefixOf (c :: cs) := by
      rw [leadingMark?] at hm
      simpa using List.find?_some hm
    obtain ⟨rest, hrest⟩ := List.isPrefixOf_iff_prefix.1 hp
    exact ⟨by simp [Cut.whole, ← hrest], Mark.text_ne_nil m⟩
  · exact ⟨rfl, by simp⟩

theorem cuts_comment? {cs : List Char} {p : PieceKind × Cut} (h : comment? cs = some p) :
    p.2.Cuts ('/' :: cs) := by
  unfold comment? at h
  split at h
  · obtain rfl := Option.some.inj h
    exact ⟨by simp, by simp [Cut.after]⟩
  · split at h
    · next hk =>
      obtain rfl := Option.some.inj h
      exact ⟨by simp [Delimited.whole_of_throughCommentEnd hk], by simp [Cut.after]⟩
    · obtain rfl := Option.some.inj h
      exact ⟨by simp [Cut.whole], by simp⟩
  · simp at h

theorem cuts_gap? {c : Char} {cs : List Char} {p : PieceKind × Cut} (h : gap? c cs = some p) :
    p.2.Cuts (c :: cs) := by
  unfold gap? at h
  split at h
  · obtain rfl := Option.some.inj h
    exact ⟨Cut.whole_after _ _ |>.trans (by simp), by simp [Cut.after]⟩
  split at h
  · obtain rfl := Option.some.inj h
    exact ⟨rfl, by simp⟩
  split at h
  · split at h <;>
    · obtain rfl := Option.some.inj h
      exact ⟨rfl, by simp⟩
  split at h
  · obtain rfl := Option.some.inj h
    exact ⟨rfl, by simp⟩
  · simp at h

theorem cuts_word? {c : Char} {cs : List Char} {p : Token × Cut} (h : word? c cs = some p) :
    p.2.Cuts (c :: cs) := by
  unfold word? at h
  split at h
  · obtain rfl := Option.some.inj h
    exact ⟨Cut.whole_after _ _ |>.trans (by simp), by simp [Cut.after]⟩
  split at h
  · next hc =>
    obtain rfl := Option.some.inj h
    refine ⟨Numeral.whole_token _, Numeral.token_text_ne_nil ?_ cs⟩
    rcases Bool.or_eq_true _ _ ▸ hc with hc | hc
    · exact .inl (by simp [Numeral.isDecimal, hc])
    · exact .inr (by simp_all)
  unfold literal? at h
  split at h
  · obtain rfl := Option.some.inj h
    exact ⟨Delimited.whole_rawString _ _, Delimited.rawString_text_ne_nil _ _⟩
  split at h
  · obtain rfl := Option.some.inj h
    exact ⟨Delimited.whole_literal _ _ _ _, Delimited.literal_text_ne_nil _ _ _ _⟩
  split at h
  · obtain rfl := Option.some.inj h
    exact ⟨Delimited.whole_literal _ _ _ _, Delimited.literal_text_ne_nil _ _ _ _⟩
  · simp at h

theorem cuts_scan (c : Char) (cs : List Char) : (scan c cs).2.Cuts (c :: cs) := by
  unfold scan
  split
  · next h _ => exact cuts_gap? ‹_›
  · next h _ => exact cuts_word? ‹_›
  · split
    · next h =>
      rcases hk : comment? cs with _ | p
      · exact cuts_mark c cs
      · exact eq_of_beq h ▸ cuts_comment? hk
    · exact cuts_mark c cs

end Piece

def pieces : List Char → List Piece
  | [] => []
  | c :: cs =>
    ⟨(Piece.scan c cs).1, (Piece.scan c cs).2.text⟩ :: pieces (Piece.scan c cs).2.rest
termination_by cs => cs.length
decreasing_by exact Nat.lt_succ_of_le (Piece.cuts_scan c cs).length_rest

theorem flatMap_pieces (cs : List Char) : (pieces cs).flatMap (·.text) = cs := by
  fun_induction pieces cs with
  | case1 => rfl
  | case2 c cs ih =>
    rw [List.flatMap_cons, ih]
    exact (Piece.cuts_scan c cs).1

end GoIface
