import GoIface.Text.Cut
import GoIface.Token

/-!
# Comments and quoted literals

Comments, raw strings, strings and runes run from an opening to a closing text. A comment or raw
string that is never closed is faulty up to the end of the text. A string or rune stays on its
line: unclosed, it is faulty up to its last whole item, an item being a plain character or a
backslash with the character it escapes. A rune may hold several items but not none.
-/

namespace GoIface.Delimited

open GoIface.Text

def isLineBreak (c : Char) : Bool := c == '\n' || c == '\r'

/-- Everything through the first `*/`. -/
def throughCommentEnd : List Char → Option Cut
  | '*' :: '/' :: cs => some ⟨['*', '/'], cs⟩
  | c :: cs => (throughCommentEnd cs).map (·.after [c])
  | [] => none

/-- The longest run of whole items of a literal between two `quote`. -/
def items (quote : Char) : List Char → Cut
  | '\\' :: c :: cs => if c == '\n' then ⟨[], '\\' :: c :: cs⟩ else (items quote cs).after ['\\', c]
  | c :: cs =>
    if c == quote || c == '\\' || isLineBreak c then ⟨[], c :: cs⟩ else (items quote cs).after [c]
  | [] => ⟨[], []⟩

/-- The token of a literal from its opening quote, the rest of the text being `cs`. -/
def literal (kind : LiteralKind) (quote : Char) (mayBeEmpty : Bool) (cs : List Char) :
    Token × Cut :=
  let inside := items quote cs
  match inside.rest with
  | c :: rest =>
    if c == quote && (mayBeEmpty || !inside.text.isEmpty) then
      let text := quote :: inside.text ++ [quote]
      (.literal kind (String.ofList text), ⟨text, rest⟩)
    else (.faulty .invalidToken, inside.after [quote])
  | [] => (.faulty .invalidToken, inside.after [quote])

/-- The token of a raw string from its opening quote, the rest of the text being `cs`. -/
def rawString (quote : Char) (cs : List Char) : Token × Cut :=
  let body := (Cut.run (· != quote) cs).after [quote]
  match body.rest with
  | c :: rest =>
    let text := body.text ++ [c]
    (.literal .rawString (String.ofList text), ⟨text, rest⟩)
  | [] => (.faulty .unterminatedRawString, body)

theorem whole_of_throughCommentEnd {cs : List Char} {k : Cut} (h : throughCommentEnd cs = some k) :
    k.whole = cs := by
  fun_induction throughCommentEnd cs generalizing k with
  | case1 =>
    obtain rfl := Option.some.inj h
    rfl
  | case2 c cs _ ih =>
    obtain ⟨e, he, rfl⟩ := Option.map_eq_some_iff.1 h
    simp [ih he]
  | case3 => simp at h

theorem whole_items (quote : Char) (cs : List Char) : (items quote cs).whole = cs := by
  fun_induction items quote cs <;> simp_all [Cut.whole, Cut.after]

theorem whole_literal (kind : LiteralKind) (quote : Char) (mayBeEmpty : Bool) (cs : List Char) :
    (literal kind quote mayBeEmpty cs).2.whole = quote :: cs := by
  have h := whole_items quote cs
  simp only [literal]
  split
  · split
    · simp_all [Cut.whole]
    · simp [h]
  · simp [h]

theorem whole_rawString (quote : Char) (cs : List Char) :
    (rawString quote cs).2.whole = quote :: cs := by
  have h : ((Cut.run (· != quote) cs).after [quote]).whole = quote :: cs := by simp
  simp only [rawString]
  split
  · simp_all [Cut.whole]
  · exact h

theorem literal_text_ne_nil (kind : LiteralKind) (quote : Char) (mayBeEmpty : Bool)
    (cs : List Char) : (literal kind quote mayBeEmpty cs).2.text ≠ [] := by
  simp only [literal]
  split
  · split <;> simp [Cut.after]
  · simp [Cut.after]

theorem rawString_text_ne_nil (quote : Char) (cs : List Char) :
    (rawString quote cs).2.text ≠ [] := by
  simp only [rawString]
  split <;> simp [Cut.after]

end GoIface.Delimited
