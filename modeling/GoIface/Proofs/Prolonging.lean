import GoIface.Proofs.Clipping

/-!
# Texts that go on

White space and braces join no token, and a slash only another one: where a text goes on with one
of these, a token in it is scanned the same (`Piece.scan_token_prolonged`). A line break joins no
gap either, but for a carriage return before a line feed (`Piece.scan_line_prolonged`). Faulty
pieces are left out, as anything may belong to a literal that is not closed.
-/

namespace GoIface

open GoIface.Text

/-- A text goes on with white space or ends. -/
def whiteAhead : Ahead := fun o => ∀ c ∈ o, c ∈ [' ', '\t', '\n', '\r']

/-- No white space passes the test `p`. -/
def noneWhite (p : Char → Bool) : Bool := [' ', '\t', '\n', '\r'].all fun c => !p c

theorem noneWhite.eq_false {p : Char → Bool} (hp : noneWhite p = true) {c : Char}
    (hc : c ∈ [' ', '\t', '\n', '\r']) : p c = false := by
  rw [noneWhite, List.all_eq_true] at hp
  simpa using hp c hc

/-- What is joined to no token before it, but for a slash to a slash. -/
def apart : List Char := [' ', '\t', '\n', '\r', '{', '}', '/']

/-- A text goes on with what is apart or ends. -/
def apartAhead : Ahead := fun o => ∀ c ∈ o, c ∈ apart

theorem whiteAhead.apart {o : Option Char} (h : whiteAhead o) : apartAhead o := by
  intro c hc
  have hmem : [' ', '\t', '\n', '\r'] ⊆ GoIface.apart := by decide
  exact hmem (h c hc)

/-- Nothing that is apart passes the test `p`. -/
def noneApart (p : Char → Bool) : Bool := apart.all fun c => !p c

theorem noneApart.eq_false {p : Char → Bool} (hp : noneApart p = true) {c : Char}
    (hc : c ∈ apart) : p c = false := by
  rw [noneApart, List.all_eq_true] at hp
  simpa using hp c hc

theorem apartAhead.noneAhead {p : Char → Bool} {o : Option Char} (ho : apartAhead o)
    (hp : noneApart p = true) : noneAhead p o := by
  cases o with
  | none => rfl
  | some c => exact noneApart.eq_false hp (ho c rfl)

/-- A run that stops goes on no further in a longer text. -/
theorem Text.Cut.run_prolonged {p : Char → Bool} {v : List Char} (cs : List Char)
    (hv : (Cut.run p cs).rest = [] → noneAhead p v.head?) :
    Cut.run p (cs ++ v) = (Cut.run p cs).before v := by
  induction cs with
  | nil =>
    rw [List.nil_append, ← List.nil_append v, Cut.run_append (by simp) (hv rfl)]
    rfl
  | cons c cs ih =>
    rcases hc : p c with _ | _
    · simp [Cut.run, Cut.before, hc]
    · have ih := ih fun hrest => hv (by simpa [Cut.run, hc] using hrest)
      simp only [Cut.run, Cut.before, Cut.mk.injEq] at ih
      simp [Cut.run, Cut.before, hc, ih]

/-- A run that nothing apart is part of. -/
theorem apartAhead.run {p : Char → Bool} {v : List Char} (hv : apartAhead v.head?)
    (hp : noneApart p = true) (cs : List Char) :
    Cut.run p (cs ++ v) = (Cut.run p cs).before v :=
  Cut.run_prolonged cs fun _ => hv.noneAhead hp

section

variable {cs v : List Char} {quote : Char}

/-! ## Numerals -/

namespace Numeral

variable (hv : apartAhead v.head?)

include hv

theorem sign_prolonged (cs : List Char) : sign (cs ++ v) = (sign cs).before v := by
  cases cs with
  | nil =>
    rcases v with _ | ⟨c, v⟩
    · rfl
    · have hc := hv c rfl
      rw [List.nil_append, sign]
      · rfl
      all_goals
        rintro _ ⟨⟩
        simp [apart] at hc
  | cons c cs => exact sign_before (List.cons_ne_nil c cs)

theorem exponent_prolonged {isMark : Char → Bool}
    (hmark : noneApart isMark = true) (cs : List Char) :
    exponent isMark (cs ++ v) = (exponent isMark cs).map (·.before v) := by
  cases cs with
  | nil =>
    rcases v with _ | ⟨c, v⟩
    · rfl
    · simp [exponent, noneApart.eq_false hmark (hv c rfl)]
  | cons m cs =>
    have hrun := hv.run (p := isDecimal) (by decide) (sign cs).rest
    rw [List.cons_append, exponent_cons, sign_prolonged hv, Cut.before_rest, Cut.before_text, hrun,
      Cut.before_text, Cut.after_before, exponent_cons]
    split <;> rfl

theorem decimalExponent_prolonged (cs : List Char) :
    decimalExponent (cs ++ v) = (decimalExponent cs).map (·.before v) :=
  exponent_prolonged hv (by decide) cs

theorem binaryExponent_prolonged (cs : List Char) :
    binaryExponent (cs ++ v) = (binaryExponent cs).map (·.before v) :=
  exponent_prolonged hv (by decide) cs

/-- No point is met beyond the end. -/
theorem head?_point_prolonged (rest : List Char) :
    (rest ++ v).head? = some '.' ↔ rest.head? = some '.' := by
  rcases rest with _ | ⟨c, rest⟩
  · refine ⟨fun h => ?_, fun h => by simp at h⟩
    have := hv '.' h
    simp [apart] at this
  · simp

theorem decimal_prolonged (cs : List Char) :
    decimal (cs ++ v) = (decimal cs).map id (·.before v) := by
  have hrun := hv.run (p := isDecimal) (by decide)
  have hiff := head?_point_prolonged hv (Cut.run isDecimal cs).rest
  by_cases hpoint : (Cut.run isDecimal cs).rest.head? = some '.'
  · obtain ⟨fraction, hfraction⟩ := List.head?_eq_some_iff.1 hpoint
    have hlong : (Cut.run isDecimal (cs ++ v)).rest = '.' :: (fraction ++ v) := by
      rw [hrun, Cut.before_rest, hfraction, List.cons_append]
    rw [decimal_of_point hlong, decimal_of_point hfraction, hrun, hrun, Cut.before_text,
      Cut.after_before, Cut.extend, Cut.before_rest, decimalExponent_prolonged hv, Cut.extend]
    rcases decimalExponent _ with _ | e <;> rfl
  · rw [decimal_of_no_point hpoint, decimal_of_no_point (by rwa [hrun, Cut.before_rest, Ne, hiff]),
      hrun, Cut.before_rest, decimalExponent_prolonged hv]
    rcases decimalExponent _ with _ | e <;> rfl

theorem based_prolonged {isDigit : Char → Bool}
    (hdigit : noneApart isDigit = true) (letter : Char) (cs : List Char) :
    based letter isDigit (cs ++ v) = (based letter isDigit cs).map id (·.before v) := by
  have hdecimal := decimal_prolonged hv ('0' :: letter :: cs)
  simp only [List.cons_append] at hdecimal
  simp only [based, hv.run hdigit, Cut.before_text, hdecimal]
  split <;> rfl

theorem hexadecimal_prolonged {letter : Char} {cs : List Char}
    (h : (hexadecimal letter cs).1 ≠ none) :
    hexadecimal letter (cs ++ v) = (hexadecimal letter cs).map id (·.before v) := by
  have hrun := hv.run (p := isHexadecimal) (by decide)
  have hiff := head?_point_prolonged hv (Cut.run isHexadecimal cs).rest
  by_cases hpoint : (Cut.run isHexadecimal cs).rest.head? = some '.'
  · obtain ⟨fraction, hfraction⟩ := List.head?_eq_some_iff.1 hpoint
    obtain ⟨e, he⟩ := exponent_of_hexadecimal hfraction h
    have hlong : (Cut.run isHexadecimal (cs ++ v)).rest = '.' :: (fraction ++ v) := by
      rw [hrun, Cut.before_rest, hfraction, List.cons_append]
    have helong : binaryExponent (Cut.run isHexadecimal (fraction ++ v)).rest
        = some (e.before v) := by
      rw [hrun, Cut.before_rest, binaryExponent_prolonged hv, he, Option.map_some]
    rw [hexadecimal_of_exponent letter hlong helong, hexadecimal_of_exponent letter hfraction he,
      hrun, hrun]
    rfl
  · rw [hexadecimal_of_no_point hpoint,
      hexadecimal_of_no_point (by rwa [hrun, Cut.before_rest, Ne, hiff]), hrun, Cut.before_rest,
      binaryExponent_prolonged hv, based_prolonged hv (by decide)]
    rcases binaryExponent _ with _ | e <;> rfl

/-- What is apart is no letter of a base. -/
theorem numeral_zero_prolonged : numeral ('0' :: v) = (decimal ('0' :: v)).map some id := by
  rcases v with _ | ⟨b, v⟩
  · rfl
  have hb : b ∈ apart := hv b rfl
  have hletter (d : Char) (hd : d ∉ apart) : (b == d) = false := by
    rw [beq_eq_false_iff_ne]
    rintro rfl
    exact hd hb
  simp [numeral_cons_cons, hletter 'x' (by decide), hletter 'X' (by decide),
    hletter 'o' (by decide), hletter 'O' (by decide), hletter 'b' (by decide),
    hletter 'B' (by decide)]

theorem numeral_prolonged {cs : List Char} (h : (numeral cs).1 ≠ none) :
    numeral (cs ++ v) = (numeral cs).map id (·.before v) := by
  have hdecimal (cs : List Char) : (decimal (cs ++ v)).map some id
      = ((decimal cs).map some id).map id (·.before v) := by
    rw [decimal_prolonged hv]
    rfl
  rcases cs with _ | ⟨c, cs⟩
  · rcases v with _ | ⟨c, v⟩
    · rfl
    · have hc : c ≠ '0' := by
        rintro rfl
        have := hv '0' rfl
        simp [apart] at this
      rw [List.nil_append, numeral_of_ne hc]
      exact hdecimal []
  by_cases hc : c = '0'
  · subst hc
    rcases cs with _ | ⟨b, cs⟩
    · exact (numeral_zero_prolonged hv).trans (hdecimal ['0'])
    simp only [List.cons_append, numeral_cons_cons] at h ⊢
    split
    · next hletter => exact hexadecimal_prolonged hv (by simpa [hletter] using h)
    split
    · exact based_prolonged hv (by decide) b cs
    split
    · exact based_prolonged hv (by decide) b cs
    · exact hdecimal ('0' :: b :: cs)
  · rw [List.cons_append, numeral_of_ne hc, numeral_of_ne hc]
    exact hdecimal (c :: cs)

theorem token_prolonged {cs : List Char} (h : ∀ e, (token cs).1 ≠ .faulty e) :
    token (cs ++ v) = (token cs).map id (·.before v) := by
  obtain ⟨kind, k, hk, hbar⟩ := numeral_of_token h
  have hlong : numeral (cs ++ v) = (some kind, k.before v) := by
    rw [numeral_prolonged hv (by simp [hk]), hk]
    rfl
  rw [token_of_numeral hk hbar, token_of_numeral hlong hbar]
  rcases hrest : k.rest with _ | ⟨c, rest⟩
  · have hhead : (k.before v).rest.head? ≠ some 'i' := by
      rw [Cut.before_rest, hrest, List.nil_append]
      intro hhead
      have := hv 'i' hhead
      simp [apart] at this
    rw [if_neg hhead, if_neg (by simp)]
    rfl
  · by_cases hc : c = 'i' <;> simp [hrest, hc, Cut.before]

end Numeral

/-! ## Comments and quoted literals

What is closed stays closed, whatever comes after it. -/

namespace Delimited

theorem throughCommentEnd_prolonged {k : Cut} (h : throughCommentEnd cs = some k)
    (v : List Char) : throughCommentEnd (cs ++ v) = some (k.before v) := by
  fun_induction throughCommentEnd cs generalizing k with
  | case1 cs =>
    obtain rfl := Option.some.inj h
    rfl
  | case2 c cs hne ih =>
    obtain ⟨e, he, rfl⟩ := Option.map_eq_some_iff.1 h
    have hend : ¬ (c = '*' ∧ (cs ++ v).head? = some '/') := by
      rintro ⟨rfl, hhead⟩
      rcases cs with _ | ⟨d, cs⟩
      · simp [throughCommentEnd] at he
      · obtain rfl := Option.some.inj hhead
        exact hne cs rfl rfl
    rw [List.cons_append, throughCommentEnd_cons hend, ih he]
    rfl
  | case3 => simp at h

theorem items_prolonged {rest : List Char} (hquote : quote ≠ '\\')
    (h : (items quote cs).rest = quote :: rest) (v : List Char) :
    items quote (cs ++ v) = (items quote cs).before v := by
  fun_induction items quote cs with
  | case1 c cs hc =>
    obtain rfl := eq_of_beq hc
    rfl
  | case2 c cs hc ih =>
    have hc : c ≠ '\n' := by simpa using hc
    rw [List.cons_append, List.cons_append, items_escape hc, ih h, Cut.after_before]
  | case3 c cs hne hstop =>
    obtain rfl : c = quote := by simpa using (List.cons.inj h).1
    rw [List.cons_append, items_cons hquote, if_pos (by simp)]
    rfl
  | case4 c cs hne hstop ih =>
    have hc : c ≠ '\\' := by
      rintro rfl
      simp at hstop
    have hgo : ¬ (c == quote || isLineBreak c) = true := by simpa [hc] using hstop
    rw [List.cons_append, items_cons hc, if_neg hgo, ih h, Cut.after_before]
  | case5 => simp at h

theorem literal_prolonged {kind : LiteralKind} {mayBeEmpty : Bool} (hquote : quote ≠ '\\')
    (h : ∀ e, (literal kind quote mayBeEmpty cs).1 ≠ .faulty e) (v : List Char) :
    literal kind quote mayBeEmpty (cs ++ v)
      = (literal kind quote mayBeEmpty cs).map id (·.before v) := by
  obtain ⟨rest, hrest, hempty⟩ := items_of_literal h
  have hitems := items_prolonged hquote hrest v
  have hlong : (items quote (cs ++ v)).rest = quote :: (rest ++ v) := by
    rw [hitems, Cut.before_rest, hrest, List.cons_append]
  rw [literal_of_items hrest hempty, literal_of_items hlong (by rwa [hitems]), hitems]
  rfl

theorem rawString_prolonged (h : ∀ e, (rawString quote cs).1 ≠ .faulty e) (v : List Char) :
    rawString quote (cs ++ v) = (rawString quote cs).map id (·.before v) := by
  obtain ⟨c, rest, hrest⟩ := run_of_rawString h
  have hrun := Cut.run_prolonged (p := (· != quote)) (v := v) cs (by simp [hrest])
  have hlong : (Cut.run (· != quote) (cs ++ v)).rest = c :: (rest ++ v) := by
    rw [hrun, Cut.before_rest, hrest, List.cons_append]
  rw [rawString_of_run hrest, rawString_of_run hlong, hrun]
  rfl

end Delimited

/-! ## Pieces -/

namespace Piece

variable {c : Char} (hv : apartAhead v.head?)

theorem literal?_prolonged (h : ∀ p, literal? c cs = some p → ∀ e, p.1 ≠ .faulty e)
    (v : List Char) : literal? c (cs ++ v) = (literal? c cs).map (onto · v) := by
  unfold literal? at h ⊢
  split
  · next hc => exact congrArg some (Delimited.rawString_prolonged (h _ (if_pos hc)) v)
  next hraw =>
  rw [if_neg hraw] at h
  split
  · next hc =>
    have hquote : c ≠ '\\' := by
      rintro rfl
      simp at hc
    exact congrArg some (Delimited.literal_prolonged hquote (h _ (if_pos hc)) v)
  next hstring =>
  rw [if_neg hstring] at h
  split
  · next hc =>
    have hquote : c ≠ '\\' := by
      rintro rfl
      simp at hc
    exact congrArg some (Delimited.literal_prolonged hquote (h _ (if_pos hc)) v)
  · rfl

include hv

theorem word?_prolonged (h : ∀ p, word? c cs = some p → ∀ e, p.1 ≠ .faulty e) :
    word? c (cs ++ v) = (word? c cs).map (onto · v) := by
  have hnumeral : (cs ++ v).head?.any (·.isDigit) = cs.head?.any (·.isDigit) := by
    rcases cs with _ | ⟨d, cs⟩
    · exact hv.noneAhead (by decide)
    · rfl
  unfold word? at h ⊢
  split
  · rw [hv.run (p := continuesIdent) (by decide +kernel)]
    rfl
  next hident =>
  rw [if_neg hident] at h
  rw [hnumeral]
  split
  · next hc => exact congrArg some (Numeral.token_prolonged hv (h _ (if_pos hc)))
  · next hc =>
    rw [if_neg hc] at h
    exact literal?_prolonged h v

omit hv in
theorem not_mem_mark (m : Mark) {d : Char} (hd : d ∈ [' ', '\t', '\n', '\r']) :
    d ∉ m.text.toList := by
  have hnone : noneWhite m.text.toList.contains = true := by cases m <;> decide
  simpa using noneWhite.eq_false hnone hd

omit hv in
theorem not_mem_tail_mark (m : Mark) {d : Char} (hd : d ∈ apart) : d ∉ m.text.toList.tail := by
  have hnone : noneApart m.text.toList.tail.contains = true := by cases m <;> decide
  simpa using noneApart.eq_false hnone hd

/-- No mark goes on with what is apart. -/
theorem prefix_mark_prolonged (m : Mark) (c : Char) (cs : List Char) :
    m.text.toList <+: c :: (cs ++ v) ↔ m.text.toList <+: c :: cs := by
  rw [← List.cons_append]
  refine ⟨fun h => ?_, fun h => h.trans (List.prefix_append _ _)⟩
  by_cases hlen : m.text.toList.length ≤ (c :: cs).length
  · exact List.prefix_of_prefix_length_le h (List.prefix_append _ _) hlen
  · have hshort := List.prefix_of_prefix_length_le (List.prefix_append (c :: cs) v) h (by omega)
    obtain ⟨_ | ⟨d, es⟩, hes⟩ := hshort
    · simp [← hes]
    · rw [← hes, List.prefix_append_right_inj] at h
      obtain ⟨_, rfl⟩ := h
      exact absurd (by simp [← hes]) (not_mem_tail_mark m (hv d rfl))

theorem leadingMark?_prolonged (c : Char) (cs : List Char) :
    leadingMark? (c :: (cs ++ v)) = leadingMark? (c :: cs) := by
  have hsame : (fun m : Mark => m.text.toList.isPrefixOf (c :: (cs ++ v)))
      = fun m => m.text.toList.isPrefixOf (c :: cs) := by
    funext m
    rw [Bool.eq_iff_iff, List.isPrefixOf_iff_prefix, List.isPrefixOf_iff_prefix,
      prefix_mark_prolonged hv]
  rw [leadingMark?, hsame, leadingMark?]

theorem mark_prolonged (c : Char) (cs : List Char) : mark c (cs ++ v) = onto (mark c cs) v := by
  have hlong := leadingMark?_prolonged hv c cs
  unfold mark
  rw [hlong]
  rcases hm : leadingMark? (c :: cs) with _ | m
  · rfl
  · have hlen : m.text.toList.length ≤ (c :: cs).length :=
      (prefix_of_leadingMark? hm).length_le
    simp only [← List.cons_append, List.drop_append_of_le_length hlen]
    rfl

/-- A piece is the same in a text that goes on with what is apart, if as a gap or a comment it
is. -/
theorem scan_prolonged_of (hfault : ∀ e, (scan c cs).1 ≠ .token (.faulty e))
    (hgap : gap? c (cs ++ v) = (gap? c cs).map (onto · v))
    (hcomment : gap? c cs = none → word? c cs = none → c = '/' →
      comment? (cs ++ v) = (comment? cs).map (onto · v)) :
    scan c (cs ++ v) = onto (scan c cs) v := by
  rcases hgap' : gap? c cs with _ | p
  · have hword : word? c (cs ++ v) = (word? c cs).map (onto · v) := by
      refine word?_prolonged hv fun p hp e he => ?_
      simp [scan, hgap', hp, he] at hfault
    rw [hgap', Option.map_none] at hgap
    rcases hword' : word? c cs with _ | p
    · rw [hword', Option.map_none] at hword
      simp only [scan, hgap, hgap', hword, hword']
      split
      · next hc =>
        rw [hcomment hgap' hword' (eq_of_beq hc)]
        rcases comment? cs with _ | p
        · exact mark_prolonged hv c cs
        · rfl
      · exact mark_prolonged hv c cs
    · rw [hword', Option.map_some] at hword
      simp only [scan, hgap, hgap', hword, hword']
      rfl
  · rw [hgap', Option.map_some] at hgap
    simp only [scan, hgap, hgap']

omit hv in
theorem gap?_eq_none_iff : gap? c cs = none ↔
    isSpace c = false ∧ c ≠ '\n' ∧ c ≠ '\r' ∧ c ≠ '\ufeff' := by
  unfold gap?
  split
  · simp_all
  split
  · simp_all
  split
  · split <;> simp_all
  split <;> simp_all

omit hv in
theorem kind_of_gap? {p : PieceKind × Cut} (h : gap? c cs = some p) (t : Token) :
    p.1 ≠ .token t := by
  unfold gap? at h
  split at h
  · cases h
    simp
  split at h
  · cases h
    simp
  split at h
  · split at h <;>
    · cases h
      simp
  split at h
  · cases h
    simp
  · simp at h

omit hv in
theorem gap?_of_token {t : Token} (ht : (scan c cs).1 = .token t) : gap? c cs = none := by
  refine Option.eq_none_iff_forall_ne_some.2 fun p hp => kind_of_gap? hp t ?_
  rw [← ht, scan, hp]

omit hv in
theorem comment?_eq_none_iff : comment? cs = none ↔ cs.head? ≠ some '/' ∧ cs.head? ≠ some '*' := by
  unfold comment?
  split
  · simp
  · split <;> simp
  · next hslash hstar =>
    rcases cs with _ | ⟨d, cs⟩
    · simp
    · refine iff_of_true rfl ⟨?_, ?_⟩
      · rintro ⟨⟩
        exact hslash cs rfl
      · rintro ⟨⟩
        exact hstar cs rfl

omit hv in
/-- The text `v` does not join the first piece of `c :: cs` where that is the last one too. -/
structure Parted (c : Char) (cs v : List Char) : Prop where
  apart : apartAhead v.head?
  blank : isSpace c = true → (scan c cs).2.rest = [] → noneAhead isSpace v.head?
  comment : (scan c cs).1 = .lineComment → (scan c cs).2.rest = [] →
    noneAhead (!Delimited.isLineBreak ·) v.head?
  carriageReturn : c = '\r' → cs = [] → v.head? ≠ some '\n'
  slash : c = '/' → cs = [] → v.head? ≠ some '/'

omit hv in
/-- A piece is the same where the text goes on with what does not join it. -/
theorem scan_parted (h : Parted c cs v) (hfault : ∀ e, (scan c cs).1 ≠ .token (.faulty e)) :
    scan c (cs ++ v) = onto (scan c cs) v := by
  refine scan_prolonged_of h.apart hfault ?_ fun hgap hword hc => ?_
  · unfold gap?
    split
    · next hc =>
      have hscan : scan c cs = (.blank, (Cut.run isSpace cs).after [c]) := by
        simp [scan, gap?, hc]
      rw [Cut.run_prolonged cs fun hrest => h.blank hc (by rw [hscan]; exact hrest)]
      rfl
    split
    · rfl
    split
    · next hc =>
      rcases cs with _ | ⟨d, cs⟩
      · have hline := h.carriageReturn (eq_of_beq hc) rfl
        rcases v with _ | ⟨d, v⟩
        · rfl
        · have hd : d ≠ '\n' := by simpa using hline
          simp [hd, Cut.before]
      · by_cases hd : d = '\n' <;> simp [hd, Cut.before]
    split <;> rfl
  · subst hc
    have hscan : scan '/' cs = (comment? cs).getD (mark '/' cs) := by simp [scan, hgap, hword]
    rcases cs with _ | ⟨d, cs⟩
    · have hstar : v.head? ≠ some '*' := fun hhead => by
        have := h.apart '*' hhead
        simp [GoIface.apart] at this
      exact comment?_eq_none_iff.2 ⟨h.slash rfl rfl, hstar⟩
    by_cases hslash : d = '/'
    · subst hslash
      have hscan : scan '/' ('/' :: cs)
          = (.lineComment, (Cut.run (!Delimited.isLineBreak ·) cs).after ['/', '/']) := by
        simp [hscan, comment?]
      have hbody := Cut.run_prolonged (v := v) cs fun hrest =>
        h.comment (by rw [hscan]) (by rw [hscan]; exact hrest)
      simp only [List.cons_append, comment?, hbody]
      rfl
    by_cases hstar : d = '*'
    · subst hstar
      rcases hend : Delimited.throughCommentEnd cs with _ | k
      · exact absurd (by simp [hscan, comment?, hend]) (hfault .unterminatedComment)
      · simp [comment?, hend, Delimited.throughCommentEnd_prolonged hend, Cut.after_before]
    · simp [comment?, hslash, hstar]

/-- What is apart from a token is not joined to it. -/
theorem scan_token_prolonged {t : Token} (ht : (scan c cs).1 = .token t)
    (hfault : ∀ e, t ≠ .faulty e) (hslash : c = '/' → cs = [] → v.head? ≠ some '/') :
    scan c (cs ++ v) = onto (scan c cs) v := by
  obtain ⟨hspace, -, hreturn, -⟩ := gap?_eq_none_iff.1 (gap?_of_token ht)
  refine scan_parted ⟨hv, by simp [hspace], by simp [ht], fun hc => absurd hc hreturn, hslash⟩
    fun e he => ?_
  rw [ht] at he
  exact hfault e (PieceKind.token.inj he)

omit hv in
/-- A line break is joined to no piece, but for a carriage return before a line feed. -/
theorem scan_line_prolonged (hfault : ∀ e, (scan c cs).1 ≠ .token (.faulty e))
    (hreturn : c = '\r' → cs ≠ []) (ds : List Char) :
    scan c (cs ++ '\n' :: ds) = onto (scan c cs) ('\n' :: ds) := by
  refine scan_parted ⟨by simp [apartAhead, GoIface.apart], fun _ _ => rfl, fun _ _ => rfl, ?_, ?_⟩
    hfault
  · exact fun hc hcs => absurd hcs (hreturn hc)
  · simp

end Piece

end

end GoIface
