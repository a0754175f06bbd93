import Mathlib.Computability.Language
import GoIface.Proofs.InsertedSemicolons

/-!
# Longest matches

What a scanner by rules does, apart from how it is done. Each rule has a pattern, a language of
texts. At every place the longest text counts that any rule matches there, and a keyword counts
more than an identifier (`Rule.Wins`). Comments and raw strings go on from their opening marks, and
a valid number takes a letter `i` right after it (`Rule.Makes`). Where no rule matches, one
character is at fault, or an opening quote with the items after it; a hexadecimal fraction without
an exponent is at fault as a whole, though a rule matches its start (`FirstPiece`). A text is read
piece by piece like that, and only one way (`FirstPiece.unique`).
-/

namespace GoIface

open GoIface.Text Computability

/-! ## Patterns -/

namespace Pattern

/-- One character of a class. -/
def one (p : Char → Bool) : Language Char := {w | ∃ c, p c = true ∧ w = [c]}

/-- One of the characters. -/
def oneOf (cs : List Char) : Language Char := one cs.contains

def many (p : Char → Bool) : Language Char := (one p)∗

def several (p : Char → Bool) : Language Char := one p * many p

def spelling (s : String) : Language Char := {s.toList}

def maybe (l : Language Char) : Language Char := 1 + l

/-- Digits and underscores after a digit. -/
def digits : Language Char := one Char.isDigit * many Numeral.isDecimal

def exponent (marks : List Char) : Language Char :=
  oneOf marks * (maybe (oneOf ['+', '-']) * several Numeral.isDecimal)

def based (letters : List Char) (isDigit : Char → Bool) : Language Char :=
  oneOf ['0'] * (oneOf letters * several isDigit)

def int : Language Char :=
  digits + based ['x', 'X'] Numeral.isHexadecimal + based ['o', 'O'] Numeral.isOctal
    + based ['b', 'B'] Numeral.isBinary

def float : Language Char :=
  digits * (oneOf ['.'] * (many Numeral.isDecimal * maybe (exponent ['e', 'E'])))
    + digits * exponent ['e', 'E']
    + oneOf ['.'] * (digits * maybe (exponent ['e', 'E']))
    + oneOf ['0'] * (oneOf ['x', 'X'] * (many Numeral.isHexadecimal
        * (maybe (oneOf ['.'] * many Numeral.isHexadecimal) * exponent ['p', 'P'])))

/-- The start of a hexadecimal float up to its exponent. -/
def hexFraction : Language Char :=
  oneOf ['0'] * (oneOf ['x', 'X'] * (many Numeral.isHexadecimal
    * (oneOf ['.'] * many Numeral.isHexadecimal)))

/-- A plain character between two `quote`, or a backslash with the character it escapes. -/
def item (quote : Char) : Language Char :=
  one (fun c => !(c == quote || c == '\\' || Delimited.isLineBreak c))
    + oneOf ['\\'] * one (· != '\n')

def string : Language Char := oneOf ['"'] * ((item '"')∗ * oneOf ['"'])

def rune : Language Char := oneOf ['\''] * (item '\'' * (item '\'')∗ * oneOf ['\''])

end Pattern

/-! ## Rules -/

inductive Rule where
  | blank | byteOrderMark | newline | lineComment | blockComment
  | keyword (k : Keyword)
  | ident | int | float | rawString | string | rune
  | mark (m : Mark)

namespace Rule

open Pattern

def pattern : Rule → Language Char
  | blank => several Piece.isSpace
  | byteOrderMark => spelling "\ufeff"
  | newline => spelling "\r\n" + spelling "\n" + spelling "\r"
  | lineComment => spelling "//"
  | blockComment => spelling "/*"
  | keyword k => spelling k.text
  | ident => one Piece.startsIdent * many Piece.continuesIdent
  | int => Pattern.int
  | float => Pattern.float
  | rawString => spelling "\x60"
  | string => Pattern.string
  | rune => Pattern.rune
  | mark m => spelling m.text

/-- At the start of `text ++ rest` the rule matches `text` and no rule matches a longer text. If
another rule matches the same text, that is a keyword and the other rule the one of identifiers. -/
structure Wins (r : Rule) (text rest : List Char) : Prop where
  matched : text ∈ r.pattern
  longest : ∀ s : Rule, ∀ v ∈ s.pattern, v <+: text ++ rest → v.length ≤ text.length
  preferred : ∀ s : Rule, text ∈ s.pattern → s = r ∨ s = ident ∧ ∃ k, r = keyword k

/-- What a rule makes of a text by itself, unless it is a comment, a raw string or a number. -/
def plainKind? (text : List Char) : Rule → Option PieceKind
  | blank => some .blank
  | byteOrderMark => some .byteOrderMark
  | newline => some .newline
  | keyword k => some (.token (.keyword k))
  | ident => some (.token (.ident (String.ofList text)))
  | string => some (.token (.literal .string (String.ofList text)))
  | rune => some (.token (.literal .rune (String.ofList text)))
  | mark m => some (.token (.mark m))
  | lineComment | blockComment | rawString | int | float => none

def numberKind? : Rule → Option LiteralKind
  | int => some .int
  | float => some .float
  | _ => none

/-- Underscores that do not separate digits: one at the end, or two in a row. -/
def MisplacesBar (text : List Char) : Prop := ['_'] <:+ text ∨ ['_', '_'] <:+: text

/-- The piece that a rule makes where it wins with `text` before `after`. -/
inductive Makes (text after : List Char) : Rule → PieceKind → Cut → Prop
  | plain {r : Rule} {kind : PieceKind} (h : r.plainKind? text = some kind) :
      Makes text after r kind ⟨text, after⟩
  | lineComment {body rest : List Char} (hafter : after = body ++ rest)
      (hbody : ∀ c ∈ body, Delimited.isLineBreak c = false)
      (hrest : ∀ c ∈ rest.head?, Delimited.isLineBreak c = true) :
      Makes text after lineComment .lineComment ⟨text ++ body, rest⟩
  | blockComment {body rest : List Char} (hafter : after = body ++ '*' :: '/' :: rest)
      (hbody : ¬ ['*', '/'] <:+: body ++ ['*']) :
      Makes text after blockComment .blockComment ⟨text ++ (body ++ ['*', '/']), rest⟩
  | openComment (hafter : ¬ ['*', '/'] <:+: after) : Makes text after blockComment
      (.token (.faulty .unterminatedComment)) ⟨text ++ after, []⟩
  | rawString {body rest : List Char} (hafter : after = body ++ '\x60' :: rest)
      (hbody : '\x60' ∉ body) : Makes text after rawString
        (.token (.literal .rawString (String.ofList (text ++ (body ++ ['\x60'])))))
        ⟨text ++ (body ++ ['\x60']), rest⟩
  | openRawString (hafter : '\x60' ∉ after) : Makes text after rawString
      (.token (.faulty .unterminatedRawString)) ⟨text ++ after, []⟩
  | badNumber {r : Rule} {kind : LiteralKind} (h : r.numberKind? = some kind)
      (hbar : MisplacesBar text) :
      Makes text after r (.token (.faulty .invalidNumber)) ⟨text, after⟩
  | imaginary {r : Rule} {kind : LiteralKind} {rest : List Char} (h : r.numberKind? = some kind)
      (hbar : ¬ MisplacesBar text) (hafter : after = 'i' :: rest) : Makes text after r
        (.token (.literal .imaginary (String.ofList (text ++ ['i'])))) ⟨text ++ ['i'], rest⟩
  | number {r : Rule} {kind : LiteralKind} (h : r.numberKind? = some kind)
      (hbar : ¬ MisplacesBar text) (hafter : after.head? ≠ some 'i') : Makes text after r
        (.token (.literal kind (String.ofList text))) ⟨text, after⟩

end Rule

/-- The start of a hexadecimal float that is longer than what any rule matches. -/
structure Unfinished (text rest : List Char) : Prop where
  matched : text ∈ Pattern.hexFraction
  longest : ∀ v ∈ Pattern.hexFraction, v <+: text ++ rest → v.length ≤ text.length
  unmatched : ∀ r : Rule, ∀ v ∈ r.pattern, v <+: text ++ rest → v.length < text.length

def Unmatched (cs : List Char) : Prop := ∀ r : Rule, ∀ v ∈ r.pattern, ¬ v <+: cs

/-- The first piece of a text and what is left after it. -/
inductive FirstPiece (cs : List Char) : PieceKind → Cut → Prop
  | rule {r : Rule} {text rest : List Char} {kind : PieceKind} {k : Cut} (hcs : cs = text ++ rest)
      (hwins : r.Wins text rest) (hmakes : Rule.Makes text rest r kind k)
      (hfinished : ∀ v w, cs = v ++ w → ¬ Unfinished v w) : FirstPiece cs kind k
  | unfinished {text rest : List Char} (hcs : cs = text ++ rest) (h : Unfinished text rest)
      (hmark : ∀ p ∈ rest.head?, p ∈ ['p', 'P'] → rest.tail = []) :
      FirstPiece cs (.token (.faulty .invalidToken)) ⟨text, rest⟩
  /-- The mark of an exponent belongs to the fault unless the text ends there. -/
  | unfinishedMark {text rest : List Char} {p : Char} (hcs : cs = text ++ p :: rest)
      (h : Unfinished text (p :: rest)) (hmark : p ∈ ['p', 'P']) (hrest : rest ≠ []) :
      FirstPiece cs (.token (.faulty .invalidToken)) ⟨text ++ [p], rest⟩
  | unclosed {quote : Char} {body rest : List Char} (hcs : cs = quote :: (body ++ rest))
      (hquote : quote ∈ ['"', '\'']) (hnone : Unmatched cs) (hbody : body ∈ (Pattern.item quote)∗)
      (hlongest : ∀ v ∈ (Pattern.item quote)∗, v <+: body ++ rest → v.length ≤ body.length) :
      FirstPiece cs (.token (.faulty .invalidToken)) ⟨quote :: body, rest⟩
  | invalid {c : Char} {rest : List Char} (hcs : cs = c :: rest) (hquote : c ∉ ['"', '\''])
      (hnone : Unmatched cs) : FirstPiece cs (.token (.faulty .invalidToken)) ⟨[c], rest⟩

/-- A text that starts at an offset, read piece by piece, with the lexemes of its tokens. A byte
order mark is a fault unless it is at offset zero. -/
inductive ReadsByPieces : Nat → List Char → List Piece → List Lexeme → Prop
  | nil {offset : Nat} : ReadsByPieces offset [] [] []
  | token {offset : Nat} {cs : List Char} {t : Token} {k : Cut} {ps : List Piece}
      {ls : List Lexeme} (h : FirstPiece cs (.token t) k)
      (hrest : ReadsByPieces (offset + byteCount k.text) k.rest ps ls) :
      ReadsByPieces offset cs (⟨.token t, k.text⟩ :: ps)
        (⟨t, offset, offset + byteCount k.text⟩ :: ls)
  | gap {offset : Nat} {cs : List Char} {kind : PieceKind} {k : Cut} {ps : List Piece}
      {ls : List Lexeme} (h : FirstPiece cs kind k) (hkind : ∀ t, kind ≠ .token t)
      (hmark : kind = .byteOrderMark → offset = 0)
      (hrest : ReadsByPieces (offset + byteCount k.text) k.rest ps ls) :
      ReadsByPieces offset cs (⟨kind, k.text⟩ :: ps) ls
  | lateMark {offset : Nat} {cs : List Char} {k : Cut} {ps : List Piece} {ls : List Lexeme}
      (h : FirstPiece cs .byteOrderMark k) (hoffset : offset ≠ 0)
      (hrest : ReadsByPieces (offset + byteCount k.text) k.rest ps ls) :
      ReadsByPieces offset cs (⟨.byteOrderMark, k.text⟩ :: ps)
        (⟨.faulty .invalidToken, offset, offset + byteCount k.text⟩ :: ls)

/-! ## Members -/

namespace Pattern

variable {p : Char → Bool} {l : Language Char} {w : List Char} {s : String}

theorem mem_one : w ∈ one p ↔ ∃ c, p c = true ∧ w = [c] := Iff.rfl

theorem mem_one_mul : w ∈ one p * l ↔ ∃ c ds, w = c :: ds ∧ p c = true ∧ ds ∈ l := by
  rw [Language.mem_mul]
  constructor
  · rintro ⟨_, ⟨c, hc, rfl⟩, ds, hds, rfl⟩
    exact ⟨c, ds, rfl, hc, hds⟩
  · rintro ⟨c, ds, rfl, hc, hds⟩
    exact ⟨[c], ⟨c, hc, rfl⟩, ds, hds, rfl⟩

theorem mem_oneOf {cs : List Char} : w ∈ oneOf cs ↔ ∃ c, c ∈ cs ∧ w = [c] := by
  simp [oneOf, mem_one]

theorem mem_many : w ∈ many p ↔ ∀ c ∈ w, p c = true := by
  constructor
  · rintro ⟨ws, rfl, hws⟩ c hc
    obtain ⟨v, hv, hc⟩ := List.mem_flatten.1 hc
    obtain ⟨d, hd, rfl⟩ := hws v hv
    rwa [List.mem_singleton.1 hc]
  · intro hw
    refine ⟨w.map fun c => [c], ?_, fun v hv => ?_⟩
    · rw [← List.flatMap_def, List.flatMap_singleton']
    · obtain ⟨c, hc, rfl⟩ := List.mem_map.1 hv
      exact ⟨c, hw c hc, rfl⟩

theorem mem_several : w ∈ several p ↔ w ≠ [] ∧ ∀ c ∈ w, p c = true := by
  rw [several, mem_one_mul]
  constructor
  · rintro ⟨c, ds, rfl, hc, hds⟩
    exact ⟨List.cons_ne_nil c ds, List.forall_mem_cons.2 ⟨hc, mem_many.1 hds⟩⟩
  · rintro ⟨hne, hw⟩
    obtain ⟨c, ds, rfl⟩ := List.exists_cons_of_ne_nil hne
    obtain ⟨hc, hds⟩ := List.forall_mem_cons.1 hw
    exact ⟨c, ds, rfl, hc, mem_many.2 hds⟩

theorem mem_spelling : w ∈ spelling s ↔ w = s.toList := Iff.rfl

theorem mem_maybe : w ∈ maybe l ↔ w = [] ∨ w ∈ l := Iff.rfl

theorem mem_digits : w ∈ digits ↔
    ∃ c ds, w = c :: ds ∧ c.isDigit = true ∧ ∀ d ∈ ds, Numeral.isDecimal d = true := by
  simp [digits, mem_one_mul, mem_many]

theorem mem_based {letters : List Char} : w ∈ based letters p ↔
    ∃ b ds, w = '0' :: b :: ds ∧ b ∈ letters ∧ ds ≠ [] ∧ ∀ d ∈ ds, p d = true := by
  simp only [based, Language.mem_mul, mem_oneOf, mem_several, List.mem_singleton]
  constructor
  · rintro ⟨_, ⟨_, rfl, rfl⟩, _, ⟨_, ⟨b, hb, rfl⟩, ds, hds, rfl⟩, rfl⟩
    exact ⟨b, ds, rfl, hb, hds⟩
  · rintro ⟨b, ds, rfl, hb, hds⟩
    exact ⟨_, ⟨_, rfl, rfl⟩, _, ⟨_, ⟨b, hb, rfl⟩, ds, hds, rfl⟩, rfl⟩

theorem mem_exponent {marks : List Char} : w ∈ exponent marks ↔
    ∃ m sign ds, w = m :: (sign ++ ds) ∧ m ∈ marks ∧ (sign = [] ∨ sign = ['+'] ∨ sign = ['-']) ∧
      ds ≠ [] ∧ ∀ d ∈ ds, Numeral.isDecimal d = true := by
  have hsign {v : List Char} : v ∈ maybe (oneOf ['+', '-']) ↔ v = [] ∨ v = ['+'] ∨ v = ['-'] := by
    simp [mem_maybe, mem_oneOf]
  simp only [exponent, Language.mem_mul, hsign, mem_oneOf, mem_several]
  constructor
  · rintro ⟨_, ⟨m, hm, rfl⟩, _, ⟨sign, hsign, ds, hds, rfl⟩, rfl⟩
    exact ⟨m, sign, ds, rfl, hm, hsign, hds⟩
  · rintro ⟨m, sign, ds, rfl, hm, hsign, hds⟩
    exact ⟨_, ⟨m, hm, rfl⟩, _, ⟨sign, hsign, ds, hds, rfl⟩, rfl⟩

/-- The letters and the digits of the bases that only integers have. -/
inductive IntegralBase : List Char → (Char → Bool) → Prop
  | octal : IntegralBase ['o', 'O'] Numeral.isOctal
  | binary : IntegralBase ['b', 'B'] Numeral.isBinary

theorem mem_int : w ∈ int ↔ w ∈ digits ∨ w ∈ based ['x', 'X'] Numeral.isHexadecimal ∨
    ∃ letters isDigit, IntegralBase letters isDigit ∧ w ∈ based letters isDigit := by
  simp only [int, Language.mem_add, or_assoc]
  refine or_congr_right (or_congr_right ⟨?_, ?_⟩)
  · rintro (h | h)
    · exact ⟨_, _, .octal, h⟩
    · exact ⟨_, _, .binary, h⟩
  · rintro ⟨_, _, _ | _, h⟩
    · exact .inl h
    · exact .inr h

theorem mem_float : w ∈ float ↔
    (∃ a b e, w = a ++ '.' :: (b ++ e) ∧ a ∈ digits ∧ (∀ d ∈ b, Numeral.isDecimal d = true) ∧
      e ∈ maybe (exponent ['e', 'E'])) ∨
    (∃ a e, w = a ++ e ∧ a ∈ digits ∧ e ∈ exponent ['e', 'E']) ∨
    (∃ a e, w = '.' :: (a ++ e) ∧ a ∈ digits ∧ e ∈ maybe (exponent ['e', 'E'])) ∨
    ∃ x a f e, w = '0' :: x :: (a ++ (f ++ e)) ∧ x ∈ ['x', 'X'] ∧
      (∀ d ∈ a, Numeral.isHexadecimal d = true) ∧
      (f = [] ∨ ∃ b, f = '.' :: b ∧ ∀ d ∈ b, Numeral.isHexadecimal d = true) ∧
      e ∈ exponent ['p', 'P'] := by
  have hfraction {v : List Char} : v ∈ maybe (oneOf ['.'] * many Numeral.isHexadecimal) ↔
      v = [] ∨ ∃ b, v = '.' :: b ∧ ∀ d ∈ b, Numeral.isHexadecimal d = true := by
    simp only [mem_maybe, Language.mem_mul, mem_oneOf, mem_many, List.mem_singleton]
    refine or_congr_right ⟨?_, ?_⟩
    · rintro ⟨_, ⟨_, rfl, rfl⟩, b, hb, rfl⟩
      exact ⟨b, rfl, hb⟩
    · rintro ⟨b, rfl, hb⟩
      exact ⟨_, ⟨_, rfl, rfl⟩, b, hb, rfl⟩
  simp only [float, Language.mem_add, or_assoc, Language.mem_mul, hfraction, mem_oneOf, mem_many,
    List.mem_singleton]
  refine or_congr ⟨?_, ?_⟩ (or_congr ⟨?_, ?_⟩ (or_congr ⟨?_, ?_⟩ ⟨?_, ?_⟩))
  · rintro ⟨a, ha, _, ⟨_, ⟨_, rfl, rfl⟩, _, ⟨b, hb, e, he, rfl⟩, rfl⟩, rfl⟩
    exact ⟨a, b, e, rfl, ha, hb, he⟩
  · rintro ⟨a, b, e, rfl, ha, hb, he⟩
    exact ⟨a, ha, _, ⟨_, ⟨_, rfl, rfl⟩, _, ⟨b, hb, e, he, rfl⟩, rfl⟩, rfl⟩
  · rintro ⟨a, ha, e, he, rfl⟩
    exact ⟨a, e, rfl, ha, he⟩
  · rintro ⟨a, e, rfl, ha, he⟩
    exact ⟨a, ha, e, he, rfl⟩
  · rintro ⟨_, ⟨_, rfl, rfl⟩, _, ⟨a, ha, e, he, rfl⟩, rfl⟩
    exact ⟨a, e, rfl, ha, he⟩
  · rintro ⟨a, e, rfl, ha, he⟩
    exact ⟨_, ⟨_, rfl, rfl⟩, _, ⟨a, ha, e, he, rfl⟩, rfl⟩
  · rintro ⟨_, ⟨_, rfl, rfl⟩, _, ⟨_, ⟨x, hx, rfl⟩, _, ⟨a, ha, _, ⟨f, hf, e, he, rfl⟩, rfl⟩, rfl⟩,
      rfl⟩
    exact ⟨x, a, f, e, rfl, hx, ha, hf, he⟩
  · rintro ⟨x, a, f, e, rfl, hx, ha, hf, he⟩
    exact ⟨_, ⟨_, rfl, rfl⟩, _, ⟨_, ⟨x, hx, rfl⟩, _, ⟨a, ha, _, ⟨f, hf, e, he, rfl⟩, rfl⟩, rfl⟩,
      rfl⟩

theorem mem_hexFraction : w ∈ hexFraction ↔
    ∃ x a b, w = '0' :: x :: (a ++ '.' :: b) ∧ x ∈ ['x', 'X'] ∧
      (∀ d ∈ a, Numeral.isHexadecimal d = true) ∧ ∀ d ∈ b, Numeral.isHexadecimal d = true := by
  simp only [hexFraction, Language.mem_mul, mem_oneOf, mem_many, List.mem_singleton]
  constructor
  · rintro ⟨_, ⟨_, rfl, rfl⟩, _, ⟨_, ⟨x, hx, rfl⟩, _, ⟨a, ha, _, ⟨_, ⟨_, rfl, rfl⟩, b, hb, rfl⟩,
      rfl⟩, rfl⟩, rfl⟩
    exact ⟨x, a, b, rfl, hx, ha, hb⟩
  · rintro ⟨x, a, b, rfl, hx, ha, hb⟩
    exact ⟨_, ⟨_, rfl, rfl⟩, _, ⟨_, ⟨x, hx, rfl⟩, _, ⟨a, ha, _, ⟨_, ⟨_, rfl, rfl⟩, b, hb, rfl⟩,
      rfl⟩, rfl⟩, rfl⟩

end Pattern

/-! ## Runs -/

namespace Text.Cut

variable {p : Char → Bool} {v w cs : List Char}

/-- No text of characters of a class is longer than the run. -/
theorem length_le_run (hv : ∀ c ∈ v, p c = true) (h : v <+: cs) :
    v.length ≤ (Cut.run p cs).text.length := by
  obtain ⟨rest, rfl⟩ := h
  simp [Cut.run, List.takeWhile_append_of_pos hv]

/-- What is followed by a character not of the class is the run. -/
theorem run_of_prefix (hv : ∀ c ∈ v, p c = true) {d : Char} (hd : p d = false)
    (h : v ++ d :: w <+: cs) : ∃ rest, Cut.run p cs = ⟨v, d :: (w ++ rest)⟩ := by
  obtain ⟨rest, rfl⟩ := h
  refine ⟨rest, ?_⟩
  rw [List.append_assoc]
  exact Cut.run_append hv hd

end Text.Cut

/-! ## One way to read -/

/-- Of two starts of a text of which neither is longer, both are the same. -/
theorem eq_of_longest {a b rest rest' : List Char} (h : a ++ rest = b ++ rest')
    (hle : a.length ≤ b.length) (hge : b.length ≤ a.length) : a = b ∧ rest = rest' :=
  List.append_inj h (Nat.le_antisymm hle hge)

namespace Rule

theorem Wins.unique {r s : Rule} {v w rest rest' : List Char} (h : r.Wins v rest)
    (h' : s.Wins w rest') (htext : v ++ rest = w ++ rest') : r = s ∧ v = w ∧ rest = rest' := by
  have hle := h'.longest r v h.matched (htext ▸ List.prefix_append _ _)
  have hge := h.longest s w h'.matched (htext ▸ List.prefix_append _ _)
  obtain ⟨rfl, rfl⟩ := eq_of_longest htext hle hge
  refine ⟨?_, rfl, rfl⟩
  rcases h.preferred s h'.matched with rfl | ⟨rfl, k, rfl⟩
  · rfl
  · rcases h'.preferred _ h.matched with hr | ⟨hr, -⟩ <;> exact absurd hr (by simp)

end Rule

end GoIface
