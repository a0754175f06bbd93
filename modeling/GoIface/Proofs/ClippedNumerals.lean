import GoIface.Proofs.Tiling

/-!
# Numerals that end where a text is cut off

A scanner takes the same of a text that is cut off anywhere after what it took, and leaves the same
but for what is missing at the end. That holds of a run of characters (`Cut.run_before`), of parts
that need not be there (`Cut.Stays`), and so of numerals (`Numeral.token_before`), which look at no
more than the character after their digits, their point and their exponent.
-/

namespace GoIface

open GoIface.Text

namespace Text.Cut

/-- The same cut of a text that goes on. -/
def before (k : Cut) (v : List Char) : Cut := ⟨k.text, k.rest ++ v⟩

variable {k : Cut} {v : List Char}

@[simp] theorem before_text (k : Cut) (v : List Char) : (k.before v).text = k.text := rfl

@[simp] theorem before_rest (k : Cut) (v : List Char) : (k.before v).rest = k.rest ++ v := rfl

theorem after_before (k : Cut) (ds v : List Char) : (k.before v).after ds = (k.after ds).before v :=
  rfl

theorem run_before (p : Char → Bool) (cs v : List Char)
    (h : (run p (cs ++ v)).text.length ≤ cs.length) : run p (cs ++ v) = (run p cs).before v := by
  induction cs with
  | nil =>
    have hnil : v.takeWhile p = [] := by simpa [run] using h
    have hall := List.takeWhile_append_dropWhile (p := p) (l := v)
    rw [hnil, List.nil_append] at hall
    simp [run, before, hnil, hall]
  | cons c cs ih =>
    rcases hc : p c with _ | _
    · simp [run, before, hc]
    · have ih := ih (by simpa [run, hc] using h)
      simp only [run, before, mk.injEq] at ih
      simp [run, before, hc, ih]

/-- What the scanner takes, or that it takes nothing, stays the same when a text is cut short after
it. -/
def Stays (scan : List Char → Option Cut) : Prop :=
  ∀ cs v, (∀ k, scan (cs ++ v) = some k → k.text.length ≤ cs.length) →
    scan (cs ++ v) = (scan cs).map (·.before v)

theorem length_le_extend (k : Cut) (scan : List Char → Option Cut) :
    k.text.length ≤ (k.extend scan).text.length := by
  unfold extend
  rcases scan k.rest with _ | e <;> simp [after]

theorem extend_before {scan : List Char → Option Cut} (hscan : Stays scan)
    (h : ((k.before v).extend scan).text.length ≤ k.whole.length) :
    (k.before v).extend scan = (k.extend scan).before v := by
  have hext : scan (k.rest ++ v) = (scan k.rest).map (·.before v) := by
    refine hscan _ _ fun e he => ?_
    simpa [extend, he, after, whole] using h
  simp only [extend, before_rest, before_text, hext, Option.map_map]
  rcases scan k.rest with _ | e <;> rfl

end Text.Cut

/-! ## Numerals -/

namespace Numeral

variable {cs v : List Char}

theorem sign_before (h : cs ≠ []) : sign (cs ++ v) = (sign cs).before v := by
  obtain ⟨c, cs, rfl⟩ := List.exists_cons_of_ne_nil h
  unfold sign
  split <;> simp_all [Cut.before]

theorem exponent_cons (isMark : Char → Bool) (m : Char) (cs : List Char) :
    exponent isMark (m :: cs) =
      if isMark m && !(Cut.run isDecimal (sign cs).rest).text.isEmpty then
        some ((Cut.run isDecimal (sign cs).rest).after (m :: (sign cs).text))
      else none :=
  rfl

theorem two_le_of_exponent {isMark : Char → Bool} {k : Cut} (h : exponent isMark cs = some k) :
    2 ≤ k.text.length := by
  rcases cs with _ | ⟨m, cs⟩
  · simp [exponent] at h
  · rw [exponent_cons] at h
    split at h
    · next hdigits =>
      obtain rfl := Option.some.inj h
      have hne : (Cut.run isDecimal (sign cs).rest).text ≠ [] := by simp_all
      have hpos := List.length_pos_iff.2 hne
      simp only [Cut.after, List.length_append, List.length_cons]
      omega
    · simp at h

theorem exponent_stays (isMark : Char → Bool) : Cut.Stays (exponent isMark) := by
  intro cs v h
  by_cases hlen : 2 ≤ cs.length
  · obtain ⟨m, ds, rfl⟩ := List.exists_cons_of_length_pos (by omega : 0 < cs.length)
    have hne : ds ≠ [] := by
      rintro rfl
      simp at hlen
    have hsign := congrArg List.length (whole_sign ds)
    rw [Cut.whole, List.length_append] at hsign
    rw [List.cons_append, exponent_cons, sign_before hne, Cut.before_rest, Cut.before_text] at h ⊢
    rw [exponent_cons]
    rcases hm : isMark m with _ | _
    · rfl
    simp only [hm, Bool.true_and] at h ⊢
    have hrun := Cut.run_before isDecimal (sign ds).rest v (by
      by_cases hdigits : (Cut.run isDecimal ((sign ds).rest ++ v)).text = []
      · simp [hdigits]
      · have := h _ (if_pos (by simpa using hdigits))
        simp only [Cut.after, List.length_append, List.length_cons] at this
        omega)
    rw [hrun, Cut.before_text, Cut.after_before]
    split <;> rfl
  · -- there is no room for a mark and a digit
    have hshort : exponent isMark cs = none := by
      refine Option.eq_none_iff_forall_ne_some.2 fun k hk => ?_
      have hwhole := congrArg List.length (whole_of_exponent hk)
      have := two_le_of_exponent hk
      rw [Cut.whole, List.length_append] at hwhole
      omega
    have hlong : exponent isMark (cs ++ v) = none := by
      refine Option.eq_none_iff_forall_ne_some.2 fun k hk => ?_
      have := two_le_of_exponent hk
      have := h k hk
      omega
    rw [hshort, hlong]
    rfl

theorem decimalExponent_stays : Cut.Stays decimalExponent := exponent_stays _

theorem binaryExponent_stays : Cut.Stays binaryExponent := exponent_stays _

theorem decimal_of_point {cs fraction : List Char}
    (h : (Cut.run isDecimal cs).rest = '.' :: fraction) :
    decimal cs = (.float, ((Cut.run isDecimal fraction).after
      ((Cut.run isDecimal cs).text ++ ['.'])).extend decimalExponent) := by
  simp only [decimal, h]

theorem decimal_of_no_point {cs : List Char}
    (h : (Cut.run isDecimal cs).rest.head? ≠ some '.') :
    decimal cs = match decimalExponent (Cut.run isDecimal cs).rest with
      | some e => (.float, e.after (Cut.run isDecimal cs).text)
      | none => (.int, Cut.run isDecimal cs) := by
  simp only [decimal]
  split
  · simp_all
  · rfl

theorem length_run_le_decimal (cs : List Char) :
    (Cut.run isDecimal cs).text.length ≤ (decimal cs).2.text.length := by
  simp only [decimal]
  split
  · refine Nat.le_trans ?_ (Cut.length_le_extend _ _)
    simp [Cut.after]
  · split <;> simp [Cut.after]

theorem decimal_before (cs v : List Char) (h : (decimal (cs ++ v)).2.text.length ≤ cs.length) :
    decimal (cs ++ v) = (decimal cs).map id (·.before v) := by
  have hdigits := Cut.run_before _ _ _ (Nat.le_trans (length_run_le_decimal _) h)
  have hwhole := congrArg List.length (Cut.whole_run isDecimal cs)
  rw [Cut.whole, List.length_append] at hwhole
  by_cases hpoint : (Cut.run isDecimal cs).rest.head? = some '.'
  · obtain ⟨fraction, hfraction⟩ := List.head?_eq_some_iff.1 hpoint
    have hlong : (Cut.run isDecimal (cs ++ v)).rest = '.' :: (fraction ++ v) := by
      rw [hdigits, Cut.before_rest, hfraction, List.cons_append]
    rw [hfraction, List.length_cons] at hwhole
    rw [decimal_of_point hlong, hdigits, Cut.before_text] at h ⊢
    have hlen := Nat.le_trans (Cut.length_le_extend _ _) h
    simp only [Cut.after, List.length_append, List.length_cons, List.length_nil] at hlen
    rw [Cut.run_before _ _ _ (by omega), Cut.after_before] at h ⊢
    rw [Cut.extend_before decimalExponent_stays (Nat.le_trans h ?_), decimal_of_point hfraction]
    · rfl
    · simp only [Cut.whole_after, Cut.whole_run, List.length_append, List.length_cons,
        List.length_nil]
      omega
  · have hnone : (Cut.run isDecimal (cs ++ v)).rest.head? ≠ some '.' := by
      intro hhead
      obtain ⟨fraction, hfraction⟩ := List.head?_eq_some_iff.1 hhead
      -- the point would be the first character that is cut off
      have hnil : (Cut.run isDecimal cs).rest = [] := by
        rcases hrest : (Cut.run isDecimal cs).rest with _ | ⟨c, rest⟩
        · rfl
        · rw [hdigits, Cut.before_rest, hrest] at hfraction
          simp_all
      rw [decimal_of_point hfraction, hdigits] at h
      have hlen := Nat.le_trans (Cut.length_le_extend _ _) h
      simp only [Cut.after, Cut.before_text, List.length_append, List.length_cons] at hlen
      rw [hnil, List.length_nil] at hwhole
      omega
    rw [decimal_of_no_point hnone, hdigits, Cut.before_rest, Cut.before_text] at h ⊢
    rw [decimal_of_no_point hpoint, decimalExponent_stays _ _ fun e he => ?_]
    · rcases decimalExponent (Cut.run isDecimal cs).rest with _ | e <;> rfl
    · simp only [he, Cut.after, List.length_append] at h
      omega

/-! A base takes its digits with it if there are any. -/

theorem length_run_le_based {letter : Char} {isDigit : Char → Bool} {cs : List Char}
    (h : (Cut.run isDigit cs).text ≠ []) :
    (based letter isDigit cs).2.text.length = (Cut.run isDigit cs).text.length + 2 := by
  simp [based, h, Cut.after]

theorem based_before {letter : Char} {isDigit : Char → Bool}
    (h : (based letter isDigit (cs ++ v)).2.text.length ≤ cs.length + 2) :
    based letter isDigit (cs ++ v) = (based letter isDigit cs).map id (·.before v) := by
  have hrun := Cut.run_before isDigit cs v (by
    by_cases hdigits : (Cut.run isDigit (cs ++ v)).text = []
    · simp [hdigits]
    · rw [length_run_le_based hdigits] at h
      omega)
  simp only [based, hrun, Cut.before_text] at h ⊢
  split
  · next hdigits =>
    rw [if_pos hdigits] at h
    have hdecimal := decimal_before ('0' :: letter :: cs) v h
    simp only [List.cons_append] at hdecimal
    rw [hdecimal]
    rfl
  · rfl

/-- A hexadecimal fraction that has its exponent. -/
theorem hexadecimal_of_exponent (letter : Char) {cs fraction : List Char} {e : Cut}
    (hpoint : (Cut.run isHexadecimal cs).rest = '.' :: fraction)
    (he : binaryExponent (Cut.run isHexadecimal fraction).rest = some e) :
    hexadecimal letter cs = (some .float, e.after ('0' :: letter ::
      (Cut.run isHexadecimal cs).text ++ '.' :: (Cut.run isHexadecimal fraction).text)) := by
  simp [hexadecimal, hpoint, Cut.after, he]

theorem exponent_of_hexadecimal {letter : Char} {cs fraction : List Char}
    (hpoint : (Cut.run isHexadecimal cs).rest = '.' :: fraction)
    (hkind : (hexadecimal letter cs).1 ≠ none) :
    ∃ e, binaryExponent (Cut.run isHexadecimal fraction).rest = some e := by
  rcases he : binaryExponent (Cut.run isHexadecimal fraction).rest with _ | e
  · simp [hexadecimal, hpoint, Cut.after, he] at hkind
  · exact ⟨e, rfl⟩

theorem hexadecimal_of_no_point {letter : Char} {cs : List Char}
    (h : (Cut.run isHexadecimal cs).rest.head? ≠ some '.') :
    hexadecimal letter cs = match binaryExponent (Cut.run isHexadecimal cs).rest with
      | some e => (some .float, e.after ('0' :: letter :: (Cut.run isHexadecimal cs).text))
      | none => based letter isHexadecimal cs := by
  simp only [hexadecimal]
  split
  · simp_all
  · rfl

theorem hexadecimal_before {letter : Char} (hkind : (hexadecimal letter (cs ++ v)).1 ≠ none)
    (h : (hexadecimal letter (cs ++ v)).2.text.length ≤ cs.length + 2) :
    hexadecimal letter (cs ++ v) = (hexadecimal letter cs).map id (·.before v) := by
  have hwhole := congrArg List.length (Cut.whole_run isHexadecimal cs)
  rw [Cut.whole, List.length_append] at hwhole
  by_cases hpoint : (Cut.run isHexadecimal (cs ++ v)).rest.head? = some '.'
  · obtain ⟨fraction, hfraction⟩ := List.head?_eq_some_iff.1 hpoint
    obtain ⟨e, he⟩ := exponent_of_hexadecimal hfraction hkind
    have hlong := hexadecimal_of_exponent letter hfraction he
    simp only [hlong, Cut.after, List.length_append, List.length_cons] at h
    have hdigits := Cut.run_before isHexadecimal cs v (by omega)
    rw [hdigits, Cut.before_text] at h hlong
    rw [hdigits, Cut.before_rest] at hfraction
    obtain ⟨hnil, -⟩ | ⟨fraction, hshort, rfl⟩ := List.append_eq_cons_iff.1 hfraction
    · rw [hnil, List.length_nil] at hwhole
      omega
    have hfractionWhole := congrArg List.length (Cut.whole_run isHexadecimal fraction)
    rw [Cut.whole, List.length_append] at hfractionWhole
    rw [hshort, List.length_cons] at hwhole
    have hrun := Cut.run_before isHexadecimal fraction v (by omega)
    rw [hrun, Cut.before_rest] at he
    rw [hrun, Cut.before_text] at h hlong
    have hexponent := binaryExponent_stays (Cut.run isHexadecimal fraction).rest v fun k hk => by
      obtain rfl := Option.some.inj (hk.symm.trans he)
      omega
    obtain ⟨k, hk, rfl⟩ := Option.map_eq_some_iff.1 (hexponent.symm.trans he)
    rw [hlong, hexadecimal_of_exponent letter hshort hk]
    rfl
  · rw [hexadecimal_of_no_point hpoint] at h ⊢
    have hdigits := Cut.run_before isHexadecimal cs v (by
      by_cases hnil : (Cut.run isHexadecimal (cs ++ v)).text = []
      · simp [hnil]
      · split at h
        · simp only [Cut.after, List.length_append, List.length_cons] at h
          omega
        · rw [length_run_le_based hnil] at h
          omega)
    have hshort : (Cut.run isHexadecimal cs).rest.head? ≠ some '.' := by
      intro hhead
      obtain ⟨fraction, hfraction⟩ := List.head?_eq_some_iff.1 hhead
      simp [hdigits, hfraction] at hpoint
    rw [hexadecimal_of_no_point hshort]
    rw [hdigits, Cut.before_rest, Cut.before_text] at h ⊢
    have hexponent := binaryExponent_stays (Cut.run isHexadecimal cs).rest v fun k hk => by
      simp only [hk, Cut.after, List.length_append, List.length_cons] at h
      omega
    rw [hexponent] at h ⊢
    rcases hk : binaryExponent (Cut.run isHexadecimal cs).rest with _ | e
    · rw [hk] at h
      exact based_before h
    · rfl

/-! ## The token of a numeral -/

theorem numeral_cons_cons (b : Char) (cs : List Char) :
    numeral ('0' :: b :: cs) = if b == 'x' || b == 'X' then hexadecimal b cs
      else if b == 'o' || b == 'O' then based b isOctal cs
      else if b == 'b' || b == 'B' then based b isBinary cs
      else (decimal ('0' :: b :: cs)).map some id :=
  rfl

theorem numeral_of_ne {c : Char} (h : c ≠ '0') (cs : List Char) :
    numeral (c :: cs) = (decimal (c :: cs)).map some id := by
  unfold numeral
  split
  · simp_all
  · rfl

/-- A zero alone is a decimal numeral, whatever letter is next. -/
theorem numeral_of_zero (b : Char) (cs : List Char)
    (h : (numeral ('0' :: b :: cs)).2.text.length ≤ 1) :
    numeral ('0' :: b :: cs) = (decimal ('0' :: b :: cs)).map some id := by
  have hbased {isDigit : Char → Bool} (h : (based b isDigit cs).2.text.length ≤ 1) :
      based b isDigit cs = (decimal ('0' :: b :: cs)).map some id := by
    by_cases hdigits : (Cut.run isDigit cs).text = []
    · simp [based, hdigits]
    · rw [length_run_le_based hdigits] at h
      omega
  have hhexadecimal (h : (hexadecimal b cs).2.text.length ≤ 1) :
      hexadecimal b cs = based b isHexadecimal cs := by
    by_cases hpoint : (Cut.run isHexadecimal cs).rest.head? = some '.'
    · obtain ⟨fraction, hfraction⟩ := List.head?_eq_some_iff.1 hpoint
      simp only [hexadecimal, hfraction] at h
      split at h
      · simp [Cut.after] at h
      · have := Nat.le_trans (Cut.length_le_extend _ _) h
        simp [Cut.after] at this
    · rw [hexadecimal_of_no_point hpoint] at h ⊢
      split at h
      · simp [Cut.after] at h
      · rfl
  rw [numeral_cons_cons] at h ⊢
  split at h
  · next hletter => rw [if_pos hletter, hhexadecimal h, hbased (hhexadecimal h ▸ h)]
  next hletter =>
  rw [if_neg hletter]
  split at h
  · next hletter => rw [if_pos hletter, hbased h]
  next hletter =>
  rw [if_neg hletter]
  split at h
  · next hletter => rw [if_pos hletter, hbased h]
  · next hletter => rw [if_neg hletter]

theorem numeral_before {c : Char} (hkind : (numeral (c :: cs ++ v)).1 ≠ none)
    (h : (numeral (c :: cs ++ v)).2.text.length ≤ (c :: cs).length) :
    numeral (c :: cs ++ v) = (numeral (c :: cs)).map id (·.before v) := by
  have hdecimal (cs : List Char) (h : ((decimal (cs ++ v)).map some id).2.text.length ≤ cs.length) :
      (decimal (cs ++ v)).map some id = ((decimal cs).map some id).map id (·.before v) := by
    rw [decimal_before cs v h]
    rfl
  by_cases hc : c = '0'
  · subst hc
    rcases cs with _ | ⟨b, cs⟩
    · rcases v with _ | ⟨b, v⟩
      · rfl
      · have hzero := numeral_of_zero b v h
        simp only [List.cons_append, List.nil_append] at h ⊢
        rw [hzero] at h ⊢
        exact hdecimal ['0'] h
    · simp only [List.cons_append, numeral_cons_cons] at hkind h ⊢
      split at h
      · next hletter =>
        rw [if_pos hletter] at hkind ⊢
        rw [if_pos hletter]
        exact hexadecimal_before hkind h
      next hletter =>
      rw [if_neg hletter, if_neg hletter]
      split at h
      · next hletter =>
        rw [if_pos hletter, if_pos hletter]
        exact based_before h
      next hletter =>
      rw [if_neg hletter, if_neg hletter]
      split at h
      · next hletter =>
        rw [if_pos hletter, if_pos hletter]
        exact based_before h
      · next hletter =>
        rw [if_neg hletter, if_neg hletter]
        exact hdecimal ('0' :: b :: cs) h
  · simp only [List.cons_append, numeral_of_ne hc] at h ⊢
    exact hdecimal (c :: cs) h

theorem token_of_numeral {cs : List Char} {kind : LiteralKind} {k : Cut}
    (h : numeral cs = (some kind, k)) (hbar : misplacesBar k.text = false) :
    token cs = if k.rest.head? = some 'i' then
        (.literal .imaginary (String.ofList (k.text ++ ['i'])), ⟨k.text ++ ['i'], k.rest.tail⟩)
      else (.literal kind (String.ofList k.text), k) := by
  simp only [token, h, hbar, Bool.false_eq_true, if_false]
  split
  · next hrest => simp [hrest]
  · next hne =>
    have hhead : k.rest.head? ≠ some 'i' := by
      intro hhead
      obtain ⟨rest, hrest⟩ := List.head?_eq_some_iff.1 hhead
      exact hne rest hrest
    rw [if_neg hhead]

theorem numeral_of_token {cs : List Char} (h : ∀ e, (token cs).1 ≠ .faulty e) :
    ∃ kind k, numeral cs = (some kind, k) ∧ misplacesBar k.text = false := by
  unfold token at h
  split at h
  · exact absurd rfl (h _)
  · next kind k hk =>
    refine ⟨kind, k, hk, Bool.eq_false_iff.2 fun hbar => ?_⟩
    rw [if_pos hbar] at h
    exact h _ rfl

theorem length_numeral_le_token (cs : List Char) :
    (numeral cs).2.text.length ≤ (token cs).2.text.length := by
  unfold token
  split
  · simp_all
  · next hk =>
    rw [hk]
    split
    · exact Nat.le_refl _
    · split <;> simp

theorem token_before {c : Char} (hfault : ∀ e, (token (c :: cs ++ v)).1 ≠ .faulty e)
    (h : (token (c :: cs ++ v)).2.text.length ≤ (c :: cs).length) :
    token (c :: cs ++ v) = (token (c :: cs)).map id (·.before v) := by
  obtain ⟨kind, k, hk, hbar⟩ := numeral_of_token hfault
  have hlong := token_of_numeral hk hbar
  have hlen := Nat.le_trans (length_numeral_le_token _) h
  have hnumeral := numeral_before (by rw [hk]; simp) hlen
  obtain ⟨k, hshort, rfl⟩ : ∃ k', numeral (c :: cs) = (some kind, k') ∧ k = k'.before v := by
    rcases hn : numeral (c :: cs) with ⟨kind', k'⟩
    rw [hk, hn, Prod.map, Prod.mk.injEq] at hnumeral
    exact ⟨k', by rw [hnumeral.1]; rfl, hnumeral.2⟩
  have hwhole := congrArg List.length (whole_numeral (c :: cs))
  rw [hshort, Cut.whole, List.length_append] at hwhole
  rw [hlong] at h ⊢
  rw [token_of_numeral hshort hbar]
  rcases hrest : k.rest with _ | ⟨d, rest⟩
  · -- an `i` that is cut off would belong to the numeral
    have hhead : (k.before v).rest.head? ≠ some 'i' := by
      intro hhead
      rw [if_pos hhead] at h
      simp only [Cut.before_text, List.length_append, hrest, List.length_cons, List.length_nil]
        at h hwhole
      omega
    rw [if_neg hhead, if_neg (by simp)]
    rfl
  · by_cases hd : d = 'i' <;> simp [hrest, hd, Cut.before]

end Numeral

end GoIface
