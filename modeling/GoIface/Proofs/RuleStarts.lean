import GoIface.Proofs.LongestNumerals
import GoIface.Proofs.Prolonging

/-!
# Where rules may match

A rule only matches where the text starts right for it (`Rule.starts_of_mem`), and that leaves one
rule in most places: a first character that is a space or a quote says which, a letter leaves
keywords and identifiers, a digit numbers. Other characters leave comments and marks.
-/

namespace GoIface

open GoIface.Text GoIface.Pattern

/-! ## First characters -/

/-- The character starts a comment or a mark, or no rule. -/
def beginsMark (c : Char) : Bool :=
  !(Piece.isSpace c || Delimited.isLineBreak c || c == '\ufeff' || Piece.startsIdent c || c.isDigit
    || c == '\x60' || c == '"' || c == '\'')

theorem Mark.cons_of_prefix {m : Mark} {c : Char} {cs : List Char} (h : m.text.toList <+: c :: cs) :
    ∃ ds, m.text.toList = c :: ds ∧ ds <+: cs := by
  obtain ⟨d, ds, hds⟩ := List.exists_cons_of_ne_nil (Piece.Mark.text_ne_nil m)
  rw [hds, List.cons_prefix_cons] at h
  obtain ⟨rfl, h⟩ := h
  exact ⟨ds, hds, h⟩

theorem Mark.beginsMark_head (m : Mark) : ∀ c ∈ m.text.toList.head?, beginsMark c = true := by
  cases m <;> rintro _ ⟨⟩ <;> rfl

/-- No mark looks like the start of a number. -/
theorem Mark.not_startsNumeral {m : Mark} {c : Char} {ds : List Char}
    (h : m.text.toList = c :: ds) : Numeral.startsNumeral c ds = false := by
  cases m <;> cases h <;> rfl

theorem beginsMark_of_prefix {m : Mark} {c : Char} {cs : List Char}
    (h : m.text.toList <+: c :: cs) : beginsMark c = true := by
  obtain ⟨ds, hds, -⟩ := Mark.cons_of_prefix h
  exact m.beginsMark_head c (by simp [hds])

theorem Piece.word?_eq_none_iff {c : Char} {cs : List Char} : word? c cs = none ↔
    startsIdent c = false ∧ Numeral.startsNumeral c cs = false ∧
      c ≠ '\x60' ∧ c ≠ '"' ∧ c ≠ '\'' := by
  have hstarts : (c.isDigit || (c == '.' && cs.head?.any (·.isDigit)))
      = Numeral.startsNumeral c cs := rfl
  unfold word? literal?
  rw [hstarts]
  rcases startsIdent c with _ | _ <;> rcases Numeral.startsNumeral c cs with _ | _ <;>
    simp [ite_eq_iff]

namespace Rule

/-- Whether the rule may match at the start of the text `c :: cs`. -/
def starts (c : Char) (cs : List Char) : Rule → Bool
  | blank => Piece.isSpace c
  | byteOrderMark => c == '\ufeff'
  | newline => Delimited.isLineBreak c
  | lineComment => c == '/' && cs.head? == some '/'
  | blockComment => c == '/' && cs.head? == some '*'
  | keyword _ | ident => Piece.startsIdent c
  | int => c.isDigit
  | float => Numeral.startsNumeral c cs
  | rawString => c == '\x60'
  | string => c == '"'
  | rune => c == '\''
  | mark m => m.text.toList.isPrefixOf (c :: cs)

theorem starts_of_digits {c : Char} {cs v : List Char} (hv : v ∈ digits) {w : List Char}
    (hpre : v ++ w <+: c :: cs) : c.isDigit = true := by
  obtain ⟨d, ds, rfl, hd, -⟩ := mem_digits.1 hv
  obtain ⟨rest, hrest⟩ := hpre
  obtain rfl : d = c := (List.cons.inj hrest).1
  exact hd

theorem starts_int {c : Char} {cs v : List Char} (hv : v ∈ Pattern.int) (hpre : v <+: c :: cs) :
    c.isDigit = true := by
  have hbased {letters : List Char} {p : Char → Bool} (hv : v ∈ Pattern.based letters p) :
      c.isDigit = true := by
    obtain ⟨b, ds, rfl, -⟩ := mem_based.1 hv
    obtain ⟨rest, hrest⟩ := hpre
    obtain rfl : '0' = c := (List.cons.inj hrest).1
    rfl
  rcases mem_int.1 hv with hv | hv | ⟨_, _, -, hv⟩
  · rw [← List.append_nil v] at hpre
    exact starts_of_digits hv hpre
  · exact hbased hv
  · exact hbased hv

theorem starts_float {c : Char} {cs v : List Char} (hv : v ∈ Pattern.float)
    (hpre : v <+: c :: cs) : Numeral.startsNumeral c cs = true := by
  have hdigit (hc : c.isDigit = true) : Numeral.startsNumeral c cs = true := by
    simp [Numeral.startsNumeral, hc]
  rcases mem_float.1 hv with ⟨a, b, e, rfl, ha, -⟩ | ⟨a, e, rfl, ha, -⟩ | ⟨a, e, rfl, ha, -⟩ |
    ⟨x, a, f, e, rfl, -⟩
  · exact hdigit (starts_of_digits ha hpre)
  · exact hdigit (starts_of_digits ha hpre)
  · obtain ⟨d, ds, rfl, hd, -⟩ := mem_digits.1 ha
    obtain ⟨rest, hrest⟩ := hpre
    obtain ⟨rfl, rfl⟩ : '.' = c ∧ d :: (ds ++ (e ++ rest)) = cs := by simpa using hrest
    simp [Numeral.startsNumeral, hd]
  · obtain ⟨rest, hrest⟩ := hpre
    obtain rfl : '0' = c := (List.cons.inj hrest).1
    rfl

/-- What a rule matches starts right for the rule. -/
theorem starts_of_mem {r : Rule} {c : Char} {cs v : List Char} (hv : v ∈ r.pattern)
    (hpre : v <+: c :: cs) : r.starts c cs = true := by
  have hspelling {s : String} {d : Char} {ds : List Char} (hs : s.toList = d :: ds)
      (hv : v ∈ spelling s) : d = c ∧ ds <+: cs := by
    rwa [mem_spelling.1 hv, hs, List.cons_prefix_cons] at hpre
  have hone {p : Char → Bool} {l : Language Char} (hv : v ∈ one p * l) : p c = true := by
    obtain ⟨d, ds, rfl, hd, -⟩ := mem_one_mul.1 hv
    rw [List.cons_prefix_cons] at hpre
    exact hpre.1 ▸ hd
  have hquote {q : Char} {l : Language Char} (hv : v ∈ oneOf [q] * l) : (c == q) = true := by
    simpa using hone hv
  cases r with
  | blank => exact hone hv
  | byteOrderMark =>
    obtain ⟨rfl, -⟩ := hspelling rfl hv
    rfl
  | newline =>
    rcases hv with (hv | hv) | hv <;>
    · obtain ⟨rfl, -⟩ := hspelling rfl hv
      rfl
  | lineComment =>
    obtain ⟨rfl, rest, rfl⟩ := hspelling rfl hv
    rfl
  | blockComment =>
    obtain ⟨rfl, rest, rfl⟩ := hspelling rfl hv
    rfl
  | keyword k =>
    obtain ⟨d, ds, hk, hd, -⟩ := Piece.isWord_keyword k
    obtain ⟨rfl, -⟩ := hspelling hk hv
    exact hd
  | ident => exact hone hv
  | int => exact starts_int hv hpre
  | float => exact starts_float hv hpre
  | rawString =>
    obtain ⟨rfl, -⟩ := hspelling rfl hv
    rfl
  | string => exact hquote hv
  | rune => exact hquote hv
  | mark m =>
    rw [mem_spelling.1 hv] at hpre
    exact List.isPrefixOf_iff_prefix.2 hpre

/-! ## The rules that are left -/

/-- The only rule that may match after a character, where the character says it by itself. -/
def ofSign? : Char → Option Rule
  | ' ' | '\t' => some blank
  | '\n' | '\r' => some newline
  | '\ufeff' => some byteOrderMark
  | '\x60' => some rawString
  | '"' => some string
  | '\'' => some rune
  | _ => none

section

variable {r : Rule} {c : Char} {cs : List Char} (h : r.starts c cs = true)

include h

/-- A mark starts with no character that starts something else. -/
theorem ne_mark_of_starts (hc : beginsMark c = false) (m : Mark) : r ≠ mark m := by
  rintro rfl
  have := beginsMark_of_prefix (List.isPrefixOf_iff_prefix.1 h)
  simp [hc] at this

theorem eq_of_sign {s : Rule} (hs : ofSign? c = some s) : r = s := by
  have hmark : ∀ m, r ≠ mark m := ne_mark_of_starts h (by
    unfold ofSign? at hs
    split at hs <;> cases hs <;> rfl)
  have hletter : Piece.startsIdent c = false := by
    unfold ofSign? at hs
    split at hs <;> cases hs <;> decide +kernel
  have hword : r ≠ ident ∧ ∀ k, r ≠ keyword k := by
    refine ⟨?_, fun k => ?_⟩ <;>
    · rintro rfl
      exact Bool.false_ne_true (hletter.symm.trans h)
  unfold ofSign? at hs
  split at hs <;> cases hs <;> cases r <;> first
    | rfl
    | exact absurd rfl (hmark _)
    | exact absurd rfl hword.1
    | exact absurd rfl (hword.2 _)
    | exact absurd h Bool.false_ne_true

theorem eq_word (hc : Piece.startsIdent c = true) : r = ident ∨ ∃ k, r = keyword k := by
  have hmark := ne_mark_of_starts h (by simp [beginsMark, hc])
  have hdigit : c.isDigit = false := by
    refine Bool.eq_false_iff.2 fun hdigit => ?_
    simp [Piece.startsIdent_of_isDigit hdigit] at hc
  have hne (d : Char) (hd : Piece.startsIdent d = false) : c ≠ d := Piece.ne_of_startsIdent hc hd
  cases r with
  | keyword k => exact .inr ⟨k, rfl⟩
  | ident => exact .inl rfl
  | mark m => exact absurd rfl (hmark m)
  | byteOrderMark => exact absurd (eq_of_beq h) (hne _ (by decide +kernel))
  | _ => simp [starts, Numeral.startsNumeral, Piece.isSpace, Delimited.isLineBreak, hdigit,
      hne ' ' rfl, hne '\t' rfl, hne '\n' rfl, hne '\r' rfl, hne '/' rfl, hne '.' rfl,
      hne '\x60' rfl, hne '"' rfl, hne '\'' rfl] at h

theorem eq_number (hc : c.isDigit = true) : r = int ∨ r = float := by
  have hmark := ne_mark_of_starts h (by simp [beginsMark, hc])
  have hword := Piece.startsIdent_of_isDigit hc
  have hne (d : Char) (hd : d.isDigit = false) : c ≠ d := by
    rintro rfl
    simp [hc] at hd
  cases r with
  | int => exact .inl rfl
  | float => exact .inr rfl
  | mark m => exact absurd rfl (hmark m)
  | _ => simp [starts, Piece.isSpace, Delimited.isLineBreak, hword, hne ' ' rfl, hne '\t' rfl,
      hne '\n' rfl, hne '\r' rfl, hne '\ufeff' rfl, hne '/' rfl, hne '\x60' rfl, hne '"' rfl,
      hne '\'' rfl] at h

theorem eq_float_or_mark (hc : c = '.') : r = float ∨ ∃ m, r = mark m := by
  subst hc
  cases r with
  | float => exact .inl rfl
  | mark m => exact .inr ⟨m, rfl⟩
  | _ => exact absurd h Bool.false_ne_true

theorem eq_comment_or_mark (hc : c = '/') : r = lineComment ∧ cs.head? = some '/' ∨
    r = blockComment ∧ cs.head? = some '*' ∨ ∃ m, r = mark m := by
  subst hc
  cases r with
  | lineComment => exact .inl ⟨rfl, by simpa [starts] using h⟩
  | blockComment => exact .inr (.inl ⟨rfl, by simpa [starts] using h⟩)
  | mark m => exact .inr (.inr ⟨m, rfl⟩)
  | _ => exact absurd h Bool.false_ne_true

/-- Where neither a gap nor a word nor a comment starts only marks may match. -/
theorem eq_mark (hgap : Piece.gap? c cs = none) (hword : Piece.word? c cs = none)
    (hcomment : c = '/' → Piece.comment? cs = none) : ∃ m, r = mark m := by
  obtain ⟨hspace, hlf, hcr, hbom⟩ := Piece.gap?_eq_none_iff.1 hgap
  obtain ⟨hletter, hnumeral, hliteral⟩ := Piece.word?_eq_none_iff.1 hword
  have hcomment (hc : c = '/') := Piece.comment?_eq_none_iff.1 (hcomment hc)
  cases r with
  | mark m => exact ⟨m, rfl⟩
  | int => simp_all [starts, Numeral.startsNumeral]
  | _ => simp_all [starts, Delimited.isLineBreak]

end

end Rule

end GoIface
