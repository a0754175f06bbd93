import GoIface.Lexeme

/-!
# Pieces that are there

A piece scans before some characters if every text that starts with it and goes on with one of
them falls into the piece and the pieces of what comes after it. A word scans before what does not
continue it, a mark before what does not make a longer one of it, and quotes and brackets scan
before anything.
-/

namespace GoIface

open GoIface.Text

/-- What a text goes on with: a character, or nothing. -/
abbrev Ahead := Option Char → Prop

def anyAhead : Ahead := fun _ => True

def noneAhead (p : Char → Bool) : Ahead := fun o => o.any p = false

theorem Text.Cut.run_append {p : Char → Bool} {cs after : List Char} (hcs : ∀ c ∈ cs, p c = true)
    (hafter : noneAhead p after.head?) : Cut.run p (cs ++ after) = ⟨cs, after⟩ := by
  have hstop : after.takeWhile p = [] ∧ after.dropWhile p = after := by
    cases after with
    | nil => exact ⟨rfl, rfl⟩
    | cons c after =>
      have hc : p c = false := hafter
      simp [hc]
  rw [Cut.run, List.takeWhile_append_of_pos hcs, List.dropWhile_append_of_pos hcs, hstop.1, hstop.2,
    List.append_nil]

namespace Piece

def Scans (p : Piece) (F : Ahead) : Prop :=
  ∀ after, F after.head? → pieces (p.text ++ after) = p :: pieces after

theorem Scans.of_scan {kind : PieceKind} {c : Char} {cs : List Char} {F : Ahead}
    (h : ∀ after, F after.head? → scan c (cs ++ after) = (kind, ⟨c :: cs, after⟩)) :
    Scans ⟨kind, c :: cs⟩ F := by
  intro after hafter
  show pieces (c :: (cs ++ after)) = _
  rw [pieces, h after hafter]

/-! ## Words -/

theorem ne_of_startsIdent {c d : Char} (hc : startsIdent c = true) (hd : startsIdent d = false) :
    c ≠ d := by
  rintro rfl
  rw [hc] at hd
  simp at hd

theorem gap?_of_startsIdent {c : Char} (hc : startsIdent c = true) (cs : List Char) :
    gap? c cs = none := by
  have h₁ := ne_of_startsIdent hc (rfl : startsIdent ' ' = false)
  have h₂ := ne_of_startsIdent hc (rfl : startsIdent '\t' = false)
  have h₃ := ne_of_startsIdent hc (rfl : startsIdent '\n' = false)
  have h₄ := ne_of_startsIdent hc (rfl : startsIdent '\r' = false)
  have h₅ := ne_of_startsIdent hc (by decide +kernel : startsIdent '\ufeff' = false)
  simp [gap?, isSpace, h₁, h₂, h₃, h₄, h₅]

/-- The text of a word, be it an identifier or a keyword. -/
def IsWord (cs : List Char) : Prop :=
  ∃ d ds, cs = d :: ds ∧ startsIdent d = true ∧ ∀ c ∈ ds, continuesIdent c = true

theorem scans_word {s : String} (h : IsWord s.toList) :
    Scans ⟨.token (word s), s.toList⟩ (noneAhead continuesIdent) := by
  obtain ⟨c, cs, hs, hc, hcs⟩ := h
  rw [hs]
  refine .of_scan fun after hafter => ?_
  have hword : word? c (cs ++ after) = some (word s, ⟨c :: cs, after⟩) := by
    have hrun : Cut.run continuesIdent (cs ++ after) = ⟨cs, after⟩ := Cut.run_append hcs hafter
    simp [word?, hc, hrun, Cut.after, ← hs]
  simp [scan, gap?_of_startsIdent hc, hword]

theorem isWord_keyword (k : Keyword) : IsWord k.text.toList := by
  cases k <;> exact ⟨_, _, rfl, rfl, List.all_eq_true.1 rfl⟩

theorem word_keyword (k : Keyword) : word k.text = .keyword k := by
  cases k <;> rfl

/-- Whether a text is read as an identifier. -/
def isIdentifier (s : String) : Bool :=
  match s.toList with
  | [] => false
  | c :: cs => startsIdent c && cs.all continuesIdent && (Keyword.ofText? s).isNone

theorem isWord_of_isIdentifier {s : String} (h : isIdentifier s = true) : IsWord s.toList := by
  unfold isIdentifier at h
  split at h
  · simp at h
  · next c cs hs =>
    simp only [Bool.and_eq_true, List.all_eq_true] at h
    exact ⟨c, cs, hs, h.1⟩

theorem word_of_isIdentifier {s : String} (h : isIdentifier s = true) : word s = .ident s := by
  unfold isIdentifier at h
  split at h
  · simp at h
  · simp only [Bool.and_eq_true, Option.isNone_iff_eq_none] at h
    rw [word, h.2]

theorem scans_ident {s : String} (h : isIdentifier s = true) :
    Scans ⟨.token (.ident s), s.toList⟩ (noneAhead continuesIdent) := by
  rw [← word_of_isIdentifier h]
  exact scans_word (isWord_of_isIdentifier h)

theorem scans_keyword (k : Keyword) :
    Scans ⟨.token (.keyword k), k.text.toList⟩ (noneAhead continuesIdent) := by
  rw [← word_keyword k]
  exact scans_word (isWord_keyword k)

/-! ## Marks -/

theorem prefix_of_leadingMark? {cs : List Char} {m : Mark} (h : leadingMark? cs = some m) :
    m.text.toList <+: cs := by
  rw [leadingMark?] at h
  exact List.isPrefixOf_iff_prefix.1 (by simpa using List.find?_some h)

/-- No longer mark starts with it. -/
def standsAlone (m : Mark) : Bool :=
  m matches .lparen | .rparen | .lbrack | .rbrack | .lbrace | .rbrace | .comma | .semi
    | .ellipsis | .arrow

theorem scans_mark {m : Mark} (h : standsAlone m = true) :
    Scans ⟨.token (.mark m), m.text.toList⟩ anyAhead := by
  cases m <;> first
    | exact absurd h (by decide)
    | exact .of_scan fun _ _ => rfl

theorem scans_star : Scans ⟨.token (.mark .star), ['*']⟩ (noneAhead (· == '=')) := by
  refine .of_scan fun after hafter => ?_
  cases after with
  | nil => rfl
  | cons c after =>
    have hc : ('=' == c) = false := by
      rw [noneAhead, List.head?_cons, Option.any_some, beq_eq_false_iff_ne] at hafter
      exact beq_eq_false_iff_ne.2 hafter.symm
    have hmark : leadingMark? ('*' :: c :: after) = some .star := by
      simp [leadingMark?, Mark.all, Mark.text, List.find?, List.isPrefixOf, hc]
    have hgap : gap? '*' (c :: after) = none := rfl
    have hword : word? '*' (c :: after) = none := rfl
    simp [scan, hgap, hword, mark, hmark, Mark.text]

theorem scans_dot :
    Scans ⟨.token (.mark .dot), ['.']⟩ (noneAhead fun c => c == '.' || c.isDigit) := by
  refine .of_scan fun after hafter => ?_
  cases after with
  | nil => rfl
  | cons c after =>
    obtain ⟨hc, hdigit⟩ : c ≠ '.' ∧ c.isDigit = false := by simpa [noneAhead] using hafter
    have hmark : leadingMark? ('.' :: c :: after) = some .dot := by
      simp [leadingMark?, Mark.all, Mark.text, List.find?, List.isPrefixOf, hc.symm]
    have hgap : gap? '.' (c :: after) = none := rfl
    have hletter : startsIdent '.' = false := rfl
    have hword : word? '.' (c :: after) = none := by
      simp [word?, hletter, hdigit, literal?, show '.'.isDigit = false from rfl]
    simp [scan, hgap, hword, mark, hmark, Mark.text]

/-! ## Numerals -/

theorem hasPair_of_not_mem {c : Char} : ∀ {cs : List Char}, c ∉ cs → Numeral.hasPair c cs = false
  | [], _ | [_], _ => rfl
  | a :: b :: cs, h => by
    have ha : a ≠ c := fun ha => h (by simp [ha])
    have ih := hasPair_of_not_mem fun hc => h (List.mem_cons_of_mem a hc)
    simp [Numeral.hasPair, ha, ih]

theorem misplacesBar_digits {ds : List Char} (hds : ∀ d ∈ ds, d.isDigit = true) :
    Numeral.misplacesBar ds = false := by
  have hbar : '_' ∉ ds := fun h => absurd (hds _ h) (by decide)
  have hlast : ds.getLast? ≠ some '_' := fun h => hbar (List.mem_of_getLast? h)
  simp [Numeral.misplacesBar, hasPair_of_not_mem hbar, hlast]

/-- What would go on with a row of digits. -/
def continuesDigits (c : Char) : Bool := Numeral.isDecimal c || c == '.' || c.isAlpha

theorem decimal_digits {ds after : List Char} (hds : ∀ d ∈ ds, d.isDigit = true)
    (hafter : noneAhead continuesDigits after.head?) :
    Numeral.decimal (ds ++ after) = (.int, ⟨ds, after⟩) := by
  have hrun : Cut.run Numeral.isDecimal (ds ++ after) = ⟨ds, after⟩ := by
    refine Cut.run_append (fun d hd => by simp [Numeral.isDecimal, hds d hd]) ?_
    cases after with
    | nil => rfl
    | cons c after =>
      simp only [noneAhead, List.head?_cons, Option.any_some, continuesDigits, Bool.or_eq_false_iff]
        at hafter ⊢
      exact hafter.1.1
  simp only [Numeral.decimal, hrun]
  cases after with
  | nil => rfl
  | cons c after =>
    simp only [noneAhead, List.head?_cons, Option.any_some, continuesDigits, Bool.or_eq_false_iff]
      at hafter
    obtain ⟨⟨-, hdot⟩, halpha⟩ := hafter
    have hne (d : Char) (hd : d.isAlpha = true) : c ≠ d := by
      rintro rfl
      rw [hd] at halpha
      simp at halpha
    have hexp : Numeral.decimalExponent (c :: after) = none := by
      simp [Numeral.decimalExponent, Numeral.exponent, hne 'e' rfl, hne 'E' rfl]
    split
    · simp_all
    · rw [hexp]

theorem numeral_digits {ds after : List Char} (hne : ds ≠ []) (hds : ∀ d ∈ ds, d.isDigit = true)
    (hafter : noneAhead continuesDigits after.head?) :
    Numeral.numeral (ds ++ after) = (some .int, ⟨ds, after⟩) := by
  have hdecimal := decimal_digits hds hafter
  unfold Numeral.numeral
  split
  · next b cs heq =>
    -- what comes after the zero is a digit or follows the numeral
    have hb : b.isDigit = true ∨ b.isAlpha = false := by
      rcases ds with _ | ⟨d, _ | ⟨e, ds⟩⟩
      · exact absurd rfl hne
      · obtain ⟨-, rfl⟩ : d = '0' ∧ after = b :: cs := by simpa using heq
        simp only [noneAhead, List.head?_cons, Option.any_some, continuesDigits,
          Bool.or_eq_false_iff] at hafter
        exact .inr hafter.2
      · obtain ⟨-, rfl, -⟩ : d = '0' ∧ e = b ∧ _ := by simpa using heq
        exact .inl (hds e (by simp))
    have hne (d : Char) (hdigit : d.isDigit = false) (halpha : d.isAlpha = true) : b ≠ d := by
      rintro rfl
      rw [hdigit, halpha] at hb
      simp at hb
    simp [hne 'x' rfl rfl, hne 'X' rfl rfl, hne 'o' rfl rfl, hne 'O' rfl rfl, hne 'b' rfl rfl,
      hne 'B' rfl rfl, ← heq, hdecimal]
  · rw [hdecimal]
    rfl

theorem startsIdent_of_isDigit {c : Char} (hc : c.isDigit = true) : startsIdent c = false := by
  have hle : c.toNat < 0x41 := Nat.lt_of_le_of_lt (Char.isDigit_iff_toNat.1 hc).2 (by decide)
  have hletter : isLetter c = false := by
    unfold isLetter letterRanges
    rw [Ranges.has, if_pos hle]
  have hbar : c ≠ '_' := by
    rintro rfl
    simp at hc
  simp [startsIdent, hletter, hbar]

theorem scans_digits {s : String} (hne : s.toList ≠ []) (hs : ∀ d ∈ s.toList, d.isDigit = true) :
    Scans ⟨.token (.literal .int s), s.toList⟩ (noneAhead continuesDigits) := by
  obtain ⟨c, cs, hcs⟩ := List.exists_cons_of_ne_nil hne
  rw [hcs]
  refine .of_scan fun after hafter => ?_
  have hc : c.isDigit = true := hs c (by simp [hcs])
  have hnumeral : Numeral.numeral (c :: cs ++ after) = (some .int, ⟨c :: cs, after⟩) :=
    numeral_digits (by simp) (hcs ▸ hs) hafter
  have htoken : Numeral.token (c :: cs ++ after) = (.literal .int s, ⟨c :: cs, after⟩) := by
    rw [Numeral.token, hnumeral]
    simp only [misplacesBar_digits (hcs ▸ hs)]
    cases after with
    | nil => simp [← hcs]
    | cons d after =>
      have hd : d ≠ 'i' := by
        rintro rfl
        simp [noneAhead, continuesDigits] at hafter
      simp [← hcs, hd]
  have hletter : startsIdent c = false := startsIdent_of_isDigit hc
  have hgap : gap? c (cs ++ after) = none := by
    have hne (d : Char) (hd : d.isDigit = false) : c ≠ d := by
      rintro rfl
      rw [hc] at hd
      simp at hd
    simp [gap?, isSpace, hne ' ' rfl, hne '\t' rfl, hne '\n' rfl, hne '\r' rfl, hne '\ufeff' rfl]
  have hword : word? c (cs ++ after) = some (.literal .int s, ⟨c :: cs, after⟩) := by
    rw [word?, if_neg (by simp [hletter]), if_pos (by simp [hc]), ← htoken]
    rfl
  simp [scan, hgap, hword]

/-! ## Quoted text -/

/-- What a string literal holds when it holds no escape. -/
def isQuotable (s : String) : Bool :=
  s.toList.all fun c => !(c == '"' || c == '\\' || Delimited.isLineBreak c)

def quotedText (s : String) : String := "\"" ++ s ++ "\""

theorem items_quotable {cs : List Char}
    (hcs : ∀ c ∈ cs, (c == '"' || c == '\\' || Delimited.isLineBreak c) = false)
    (after : List Char) : Delimited.items '"' (cs ++ '"' :: after) = ⟨cs, '"' :: after⟩ := by
  induction cs with
  | nil => rfl
  | cons c cs ih =>
    have hc := hcs c (by simp)
    have ih := ih fun d hd => hcs d (by simp [hd])
    rw [List.cons_append, Delimited.items]
    · simp [hc, ih, Cut.after]
    · rintro _ _ rfl _
      simp at hc

theorem scans_quoted {s : String} (h : isQuotable s = true) :
    Scans ⟨.token (.literal .string (quotedText s)), (quotedText s).toList⟩ anyAhead := by
  have hs : ∀ c ∈ s.toList, (c == '"' || c == '\\' || Delimited.isLineBreak c) = false := by
    intro c hc
    simpa [isQuotable] using List.all_eq_true.1 h c hc
  have htext : (quotedText s).toList = '"' :: (s.toList ++ ['"']) := by simp [quotedText]
  rw [htext]
  refine .of_scan fun after _ => ?_
  have hitems := items_quotable hs after
  have hliteral : literal? '"' (s.toList ++ ['"'] ++ after)
      = some (.literal .string (quotedText s), ⟨'"' :: (s.toList ++ ['"']), after⟩) := by
    have hback : String.ofList ('"' :: (s.toList ++ ['"'])) = quotedText s := by
      rw [← htext, String.ofList_toList]
    simp [literal?, Delimited.literal, hitems, hback]
  have hgap : gap? '"' (s.toList ++ ['"'] ++ after) = none := rfl
  have hletter : startsIdent '"' = false := rfl
  have hword : word? '"' (s.toList ++ ['"'] ++ after)
      = some (.literal .string (quotedText s), ⟨'"' :: (s.toList ++ ['"']), after⟩) := by
    have hdigit : ('"'.isDigit || '"' == '.') = false := rfl
    rw [Bool.or_eq_false_iff] at hdigit
    rw [word?, if_neg (by simp [hletter]), if_neg (by simp [hdigit]), hliteral]
  rw [scan, hgap, hword]
  rfl

/-! ## Gaps -/

theorem scans_space : Scans ⟨.blank, [' ']⟩ (noneAhead isSpace) := by
  refine .of_scan fun after hafter => ?_
  have hrun : Cut.run isSpace ([] ++ after) = ⟨[], after⟩ := Cut.run_append (by simp) hafter
  have hgap : gap? ' ' after = some (.blank, ⟨[' '], after⟩) := by
    rw [List.nil_append] at hrun
    simp [gap?, isSpace, hrun, Cut.after]
  rw [List.nil_append, scan, hgap]

theorem scans_newline : Scans ⟨.newline, ['\n']⟩ anyAhead :=
  .of_scan fun _ _ => rfl

end Piece

end GoIface
