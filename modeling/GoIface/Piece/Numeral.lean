import GoIface.Text.Cut
import GoIface.Token

/-!
# Numerals

A numeral is cut off as far as its digits, its point and its exponent reach. An exponent without
digits is left alone, and so is a base without digits, which leaves the `0` before it. The one
exception is a hexadecimal fraction, which must have an exponent: without one it is faulty as far
as it was read.

An underscore may stand between digits only, so a numeral that ends in one or has two in a row is
faulty. The letter `i` right after a numeral makes it imaginary.
-/

namespace GoIface.Numeral

open GoIface.Text

def isDecimal (c : Char) : Bool := c.isDigit || c == '_'

def isHexadecimal (c : Char) : Bool :=
  isDecimal c || ('a' ≤ c && c ≤ 'f') || ('A' ≤ c && c ≤ 'F')

def isOctal (c : Char) : Bool := ('0' ≤ c && c ≤ '7') || c == '_'

def isBinary (c : Char) : Bool := c == '0' || c == '1' || c == '_'

/-- The sign that may stand before the digits of an exponent. -/
def sign : List Char → Cut
  | '+' :: cs => ⟨['+'], cs⟩
  | '-' :: cs => ⟨['-'], cs⟩
  | cs => ⟨[], cs⟩

/-- A mark, a sign or none, and digits. -/
def exponent (isMark : Char → Bool) : List Char → Option Cut
  | [] => none
  | m :: cs =>
    let digits := Cut.run isDecimal (sign cs).rest
    if isMark m && !digits.text.isEmpty then some (digits.after (m :: (sign cs).text)) else none

def decimalExponent : List Char → Option Cut := exponent fun c => c == 'e' || c == 'E'

def binaryExponent : List Char → Option Cut := exponent fun c => c == 'p' || c == 'P'

/-- A decimal numeral, or one that starts with its point. -/
def decimal (cs : List Char) : LiteralKind × Cut :=
  let digits := Cut.run isDecimal cs
  match digits.rest with
  | '.' :: fraction =>
    let k := (Cut.run isDecimal fraction).after (digits.text ++ ['.'])
    (.float, k.extend decimalExponent)
  | r =>
    match decimalExponent r with
    | some e => (.float, e.after digits.text)
    | none => (.int, digits)

/-- What a hexadecimal fraction without exponent takes with it: the mark of the exponent, unless
the text ends there. -/
def strayMark : List Char → Option Cut
  | p :: c :: cs => if p == 'p' || p == 'P' then some ⟨[p], c :: cs⟩ else none
  | _ => none

/-- The digits of a base after `0` and its letter, or the numeral before the letter if there are
none. -/
def based (letter : Char) (isDigit : Char → Bool) (cs : List Char) : Option LiteralKind × Cut :=
  let digits := Cut.run isDigit cs
  if digits.text.isEmpty then (decimal ('0' :: letter :: cs)).map some id
  else (some .int, digits.after ['0', letter])

def hexadecimal (letter : Char) (cs : List Char) : Option LiteralKind × Cut :=
  let digits := Cut.run isHexadecimal cs
  let before := '0' :: letter :: digits.text
  match digits.rest with
  | '.' :: fraction =>
    let k := (Cut.run isHexadecimal fraction).after (before ++ ['.'])
    match binaryExponent k.rest with
    | some e => (some .float, e.after k.text)
    | none => (none, k.extend strayMark)
  | r =>
    match binaryExponent r with
    | some e => (some .float, e.after before)
    | none => based letter isHexadecimal cs

/-- The numeral at the start of a text, without a kind if it is an incomplete fraction. -/
def numeral : List Char → Option LiteralKind × Cut
  | '0' :: b :: cs =>
    if b == 'x' || b == 'X' then hexadecimal b cs
    else if b == 'o' || b == 'O' then based b isOctal cs
    else if b == 'b' || b == 'B' then based b isBinary cs
    else (decimal ('0' :: b :: cs)).map some id
  | cs => (decimal cs).map some id

def hasPair (c : Char) : List Char → Bool
  | a :: b :: cs => (a == c && b == c) || hasPair c (b :: cs)
  | _ => false

def misplacesBar (text : List Char) : Bool := text.getLast? == some '_' || hasPair '_' text

/-- The token of the numeral at the start of a text. A text that starts with neither a digit nor a
point has an empty one. -/
def token (cs : List Char) : Token × Cut :=
  match numeral cs with
  | (none, k) => (.faulty .invalidToken, k)
  | (some kind, k) =>
    if misplacesBar k.text then (.faulty .invalidNumber, k)
    else match k.rest with
      | 'i' :: r => (.literal .imaginary (String.ofList (k.text ++ ['i'])), ⟨k.text ++ ['i'], r⟩)
      | _ => (.literal kind (String.ofList k.text), k)

theorem whole_sign (cs : List Char) : (sign cs).whole = cs := by
  fun_cases sign cs <;> rfl

theorem whole_of_exponent {isMark : Char → Bool} {cs : List Char} {k : Cut}
    (h : exponent isMark cs = some k) : k.whole = cs := by
  cases cs with
  | nil => simp [exponent] at h
  | cons m cs =>
    simp only [exponent] at h
    split at h
    · obtain rfl := Option.some.inj h
      rw [Cut.whole_after, Cut.whole_run]
      exact congrArg (m :: ·) (whole_sign cs)
    · simp at h

theorem whole_of_strayMark {cs : List Char} {k : Cut} (h : strayMark cs = some k) :
    k.whole = cs := by
  unfold strayMark at h
  split at h
  · split at h
    · obtain rfl := Option.some.inj h
      rfl
    · simp at h
  · simp at h

theorem whole_decimal (cs : List Char) : (decimal cs).2.whole = cs := by
  have h : (Cut.run isDecimal cs).text ++ (Cut.run isDecimal cs).rest = cs := Cut.whole_run _ _
  simp only [decimal]
  split
  · next hr =>
    rw [Cut.whole_extend _ decimalExponent fun _ _ => whole_of_exponent]
    simpa [hr] using h
  · split
    · next he => simpa [whole_of_exponent he] using h
    · exact h

theorem whole_based (letter : Char) (isDigit : Char → Bool) (cs : List Char) :
    (based letter isDigit cs).2.whole = '0' :: letter :: cs := by
  simp only [based]
  split
  · simp [whole_decimal]
  · simp

theorem whole_hexadecimal (letter : Char) (cs : List Char) :
    (hexadecimal letter cs).2.whole = '0' :: letter :: cs := by
  have h : (Cut.run isHexadecimal cs).text ++ (Cut.run isHexadecimal cs).rest = cs :=
    Cut.whole_run _ _
  simp only [hexadecimal]
  split
  · next hr =>
    split
    · next he =>
      rw [Cut.whole_after, whole_of_exponent he, ← Cut.whole, Cut.whole_after, Cut.whole_run]
      simpa [hr] using h
    · rw [Cut.whole_extend _ _ fun _ _ => whole_of_strayMark, Cut.whole_after, Cut.whole_run]
      simpa [hr] using h
  · split
    · next he => simpa [whole_of_exponent he] using h
    · exact whole_based letter isHexadecimal cs

theorem whole_numeral (cs : List Char) : (numeral cs).2.whole = cs := by
  unfold numeral
  split
  · split
    · exact whole_hexadecimal _ _
    · split
      · exact whole_based _ _ _
      · split
        · exact whole_based _ _ _
        · simp [whole_decimal]
  · simp [whole_decimal]

theorem whole_token (cs : List Char) : (token cs).2.whole = cs := by
  have h := whole_numeral cs
  unfold token
  split
  · next hk => simpa [hk] using h
  · next hk =>
    split
    · simpa [hk] using h
    · split
      · next hr => simpa [hk, Cut.whole, hr] using h
      · simpa [hk] using h

theorem decimal_text_ne_nil {c : Char} (h : isDecimal c ∨ c = '.') (cs : List Char) :
    (decimal (c :: cs)).2.text ≠ [] := by
  simp only [decimal]
  split
  · exact Cut.extend_text_ne_nil (by simp [Cut.after]) _
  · next hr =>
    have hc : isDecimal c := by
      rcases h with h | rfl
      · exact h
      · exact absurd rfl (hr cs)
    split <;> simp [Cut.after, Cut.run, hc]

theorem numeral_text_ne_nil {c : Char} (h : isDecimal c ∨ c = '.') (cs : List Char) :
    (numeral (c :: cs)).2.text ≠ [] := by
  unfold numeral
  split
  · next b _ _ =>
    have hb (isDigit : Char → Bool) (cs : List Char) : (based b isDigit cs).2.text ≠ [] := by
      simp only [based]
      split
      · exact decimal_text_ne_nil (.inl rfl) _
      · simp [Cut.after]
    split
    · simp only [hexadecimal]
      split
      · split
        · simp [Cut.after]
        · exact Cut.extend_text_ne_nil (by simp [Cut.after]) _
      · split
        · simp [Cut.after]
        · exact hb _ _
    · split
      · exact hb _ _
      · split
        · exact hb _ _
        · exact decimal_text_ne_nil (.inl rfl) _
  · exact decimal_text_ne_nil h cs

theorem token_text_ne_nil {c : Char} (h : isDecimal c ∨ c = '.') (cs : List Char) :
    (token (c :: cs)).2.text ≠ [] := by
  have hn := numeral_text_ne_nil h cs
  unfold token
  split
  · next hk => simpa [hk] using hn
  · next hk =>
    split
    · simpa [hk] using hn
    · split
      · simp
      · simpa [hk] using hn

end GoIface.Numeral
