import GoIface.Proofs.ClippedNumerals
import GoIface.Proofs.Patterns

/-!
# Numerals are longest matches

The numeral at the start of a text is the longest text there that one of the patterns of numbers
matches, and its kind is the one of the pattern (`numeral_mem`, `int_longest`, `float_longest`). It
has no kind where the longest start of a hexadecimal fraction goes on with no exponent: then it is
that start, with the mark of an exponent if there is one (`exists_unfinished`).
-/

namespace GoIface.Numeral

open GoIface.Text GoIface.Pattern

variable {cs v : List Char}

/-! ## Exponents -/

theorem sign_text (cs : List Char) :
    (sign cs).text = [] ∨ (sign cs).text = ['+'] ∨ (sign cs).text = ['-'] := by
  fun_cases sign cs <;> simp

theorem sign_append {s : List Char} (hs : s = [] ∨ s = ['+'] ∨ s = ['-']) {c : Char}
    (hc : isDecimal c = true) (rest : List Char) : sign (s ++ c :: rest) = ⟨s, c :: rest⟩ := by
  rcases hs with rfl | rfl | rfl
  · rw [List.nil_append, sign]
    all_goals
      rintro _ ⟨⟩
      simp [isDecimal] at hc
  · rfl
  · rfl

section

variable {isMark : Char → Bool} {marks : List Char} (hmark : ∀ c, isMark c = true ↔ c ∈ marks)

include hmark

theorem exponent_mem {k : Cut} (h : exponent isMark cs = some k) :
    k.text ∈ Pattern.exponent marks := by
  rcases cs with _ | ⟨m, cs⟩
  · simp [exponent] at h
  rw [exponent_cons] at h
  split at h
  · next hdigits =>
    obtain rfl := Option.some.inj h
    simp only [Bool.and_eq_true, Bool.not_eq_true', List.isEmpty_eq_false_iff] at hdigits
    exact mem_exponent.2 ⟨m, _, _, rfl, (hmark m).1 hdigits.1, sign_text cs, hdigits.2,
      fun d hd => Cut.of_mem_run hd⟩
  · simp at h

/-- No exponent is longer than the one that is found. -/
theorem exponent_longest (hv : v ∈ Pattern.exponent marks) (hpre : v <+: cs) :
    ∃ k, exponent isMark cs = some k ∧ v.length ≤ k.text.length := by
  obtain ⟨m, s, ds, rfl, hm, hs, hne, hds⟩ := mem_exponent.1 hv
  obtain ⟨rest, rfl⟩ := hpre
  obtain ⟨d, ds, rfl⟩ := List.exists_cons_of_ne_nil hne
  have hsign : sign (s ++ d :: ds ++ rest) = ⟨s, d :: ds ++ rest⟩ := by
    rw [List.append_assoc]
    exact sign_append hs (hds d (.head _)) _
  have hlen := Cut.length_le_run hds (List.prefix_append (d :: ds) rest)
  have hdigits : (Cut.run isDecimal (d :: ds ++ rest)).text ≠ [] := by
    intro hnil
    rw [hnil, List.length_cons, List.length_nil] at hlen
    omega
  refine ⟨(Cut.run isDecimal (d :: ds ++ rest)).after (m :: s), ?_, ?_⟩
  · rw [List.cons_append, exponent_cons, hsign, if_pos]
    simpa only [(hmark m).2 hm, Bool.true_and, Bool.not_eq_true', List.isEmpty_eq_false_iff]
  · simp only [Cut.after, List.length_append, List.length_cons] at hlen ⊢
    omega

end

theorem decimalMark_iff (c : Char) : (c == 'e' || c == 'E') = true ↔ c ∈ ['e', 'E'] := by simp

theorem binaryMark_iff (c : Char) : (c == 'p' || c == 'P') = true ↔ c ∈ ['p', 'P'] := by simp

/-! ## Decimal numerals -/

theorem isDecimal_of_mem_digits (hv : v ∈ digits) : ∀ d ∈ v, isDecimal d = true := by
  obtain ⟨c, ds, rfl, hc, hds⟩ := mem_digits.1 hv
  exact List.forall_mem_cons.2 ⟨by simp [isDecimal, hc], hds⟩

/-- The first digit is there, so the run of digits is a row of them. -/
theorem run_mem_digits {c : Char} (hc : c.isDigit = true) (cs : List Char) :
    (Cut.run isDecimal (c :: cs)).text ∈ digits := by
  have hrun : (Cut.run isDecimal (c :: cs)).text = c :: cs.takeWhile isDecimal := by
    simp [Cut.run, isDecimal, hc]
  rw [hrun]
  exact mem_digits.2 ⟨c, _, rfl, hc, fun d hd => List.all_eq_true.1 List.all_takeWhile d hd⟩

/-- What the fraction after a point adds, perhaps with an exponent. -/
theorem extend_exponent_text (digits : List Char) (cs : List Char) :
    ∃ e ∈ maybe (Pattern.exponent ['e', 'E']),
      (((Cut.run isDecimal cs).after digits).extend decimalExponent).text
        = digits ++ ((Cut.run isDecimal cs).text ++ e) := by
  unfold Cut.extend
  rcases he : decimalExponent ((Cut.run isDecimal cs).after digits).rest with _ | e
  · exact ⟨[], .inl rfl, by simp [Cut.after]⟩
  · exact ⟨e.text, .inr (exponent_mem decimalMark_iff he), by simp [Cut.after]⟩

/-- A text starts a numeral with a digit, or with a point before a digit. -/
def startsNumeral (c : Char) (cs : List Char) : Bool :=
  c.isDigit || (c == '.' && cs.head?.any (·.isDigit))

theorem decimal_mem {c : Char} (h : startsNumeral c cs = true) :
    ((decimal (c :: cs)).1 = .int ∧ (decimal (c :: cs)).2.text ∈ digits) ∨
      ((decimal (c :: cs)).1 = .float ∧ (decimal (c :: cs)).2.text ∈ float) := by
  by_cases hc : c.isDigit = true
  · have hdigits := run_mem_digits hc cs
    by_cases hpoint : (Cut.run isDecimal (c :: cs)).rest.head? = some '.'
    · obtain ⟨fraction, hfraction⟩ := List.head?_eq_some_iff.1 hpoint
      rw [decimal_of_point hfraction]
      obtain ⟨e, he, htext⟩ := extend_exponent_text
        ((Cut.run isDecimal (c :: cs)).text ++ ['.']) fraction
      refine .inr ⟨rfl, mem_float.2 (.inl ⟨_, (Cut.run isDecimal fraction).text, e, ?_, hdigits,
        fun d hd => Cut.of_mem_run hd, he⟩)⟩
      rw [htext, List.append_assoc]
      rfl
    · rw [decimal_of_no_point hpoint]
      split
      · next e he =>
        exact .inr ⟨rfl, mem_float.2 (.inr (.inl
          ⟨_, e.text, rfl, hdigits, exponent_mem decimalMark_iff he⟩))⟩
      · exact .inl ⟨rfl, hdigits⟩
  · obtain ⟨rfl, d, ds, rfl, hd⟩ : c = '.' ∧ ∃ d ds, cs = d :: ds ∧ d.isDigit = true := by
      rcases cs with _ | ⟨d, ds⟩
      · simp [startsNumeral, hc] at h
      · simp only [startsNumeral, hc, Bool.false_or, Bool.and_eq_true, beq_iff_eq, List.head?_cons,
          Option.any_some] at h
        exact ⟨h.1, d, ds, rfl, h.2⟩
    have hpoint : Cut.run isDecimal ('.' :: d :: ds) = ⟨[], '.' :: d :: ds⟩ := rfl
    rw [decimal_of_point (congrArg Cut.rest hpoint), hpoint]
    obtain ⟨e, he, htext⟩ := extend_exponent_text ['.'] (d :: ds)
    exact .inr ⟨rfl, mem_float.2 (.inr (.inr (.inl ⟨_, e, htext, run_mem_digits hd ds, he⟩)))⟩

theorem not_isDecimal_of_mark {m : Char} (hm : m ∈ ['e', 'E']) : isDecimal m = false := by
  rcases List.mem_pair.1 hm with rfl | rfl <;> rfl

/-- A text with a point is no longer than the numeral, and the numeral has a point too. -/
theorem decimal_longest_point {a b e : List Char} (ha : ∀ d ∈ a, isDecimal d = true)
    (hb : ∀ d ∈ b, isDecimal d = true) (he : e ∈ maybe (Pattern.exponent ['e', 'E']))
    (hpre : a ++ '.' :: (b ++ e) <+: cs) : (decimal cs).1 = .float ∧
      (a ++ '.' :: (b ++ e)).length ≤ (decimal cs).2.text.length := by
  obtain ⟨rest, hrun⟩ := Cut.run_of_prefix ha (by decide) hpre
  rw [decimal_of_point (congrArg Cut.rest hrun), hrun]
  refine ⟨rfl, ?_⟩
  rcases mem_maybe.1 he with rfl | he
  · have hlen := Cut.length_le_run hb (List.prefix_append b rest)
    refine Nat.le_trans ?_ (Cut.length_le_extend _ _)
    simp only [Cut.after, List.length_append, List.length_cons, List.length_nil,
      List.append_nil] at hlen ⊢
    omega
  · have hfraction : Cut.run isDecimal (b ++ e ++ rest) = ⟨b, e ++ rest⟩ := by
      obtain ⟨m, s, ds, rfl, hm, -⟩ := mem_exponent.1 he
      rw [List.append_assoc]
      exact Cut.run_append hb (not_isDecimal_of_mark hm)
    obtain ⟨k, hk, hlen⟩ := exponent_longest decimalMark_iff he (List.prefix_append e rest)
    have hk : decimalExponent (e ++ rest) = some k := hk
    simp only [Cut.extend, Cut.after, hfraction, hk, Option.map_some, Option.getD_some,
      List.length_append, List.length_cons, List.length_nil]
    omega

/-- Nor is a text with an exponent, and the numeral has one too. -/
theorem decimal_longest_exponent {a e : List Char} (ha : ∀ d ∈ a, isDecimal d = true)
    (he : e ∈ Pattern.exponent ['e', 'E']) (hpre : a ++ e <+: cs) :
    (decimal cs).1 = .float ∧ (a ++ e).length ≤ (decimal cs).2.text.length := by
  obtain ⟨m, s, ds, rfl, hm, -⟩ := mem_exponent.1 he
  obtain ⟨rest, hrun⟩ := Cut.run_of_prefix ha (not_isDecimal_of_mark hm) hpre
  have hpoint : (Cut.run isDecimal cs).rest.head? ≠ some '.' := by
    rw [hrun]
    rintro ⟨⟩
    simp at hm
  obtain ⟨k, hk, hlen⟩ := exponent_longest decimalMark_iff he (List.prefix_append _ rest)
  have hk : decimalExponent (Cut.run isDecimal cs).rest = some k := by
    rw [hrun]
    exact hk
  rw [decimal_of_no_point hpoint, hk, hrun]
  refine ⟨rfl, ?_⟩
  simp only [Cut.after, List.length_append] at hlen ⊢
  omega

theorem decimal_longest_digits (hv : v ∈ digits) (hpre : v <+: cs) :
    v.length ≤ (decimal cs).2.text.length :=
  Nat.le_trans (Cut.length_le_run (isDecimal_of_mem_digits hv) hpre) (length_run_le_decimal cs)

/-! ## Numerals with a base -/

/-- The letters of the bases. -/
def baseLetters : List Char := ['x', 'X', 'o', 'O', 'b', 'B']

theorem mem_baseLetters_of_hexadecimal {x : Char} (hx : x ∈ ['x', 'X']) : x ∈ baseLetters :=
  List.mem_append_left _ hx

section

variable {letters : List Char} {isDigit : Char → Bool} (hbase : IntegralBase letters isDigit)
  {b : Char} (hb : b ∈ letters)

include hbase hb

theorem mem_baseLetters_of_integral : b ∈ baseLetters := by
  cases hbase with
  | octal => exact List.mem_append_right ['x', 'X'] (List.mem_append_left ['b', 'B'] hb)
  | binary => exact List.mem_append_right ['x', 'X', 'o', 'O'] hb

theorem not_hexadecimal_of_integral : b ∉ ['x', 'X'] := by
  cases hbase <;> rcases List.mem_pair.1 hb with rfl | rfl <;> decide

theorem numeral_integral (cs : List Char) : numeral ('0' :: b :: cs) = based b isDigit cs := by
  cases hbase <;> rcases List.mem_pair.1 hb with rfl | rfl <;> rfl

end

/-- A letter after the `0` ends the decimal numeral there. -/
theorem decimal_of_letter {b : Char} (hb : b ∈ baseLetters) (cs : List Char) :
    decimal ('0' :: b :: cs) = (.int, ⟨['0'], b :: cs⟩) := by
  simp only [baseLetters, List.mem_cons, List.not_mem_nil, or_false] at hb
  rcases hb with rfl | rfl | rfl | rfl | rfl | rfl <;> rfl

theorem zero_mem_digits : ['0'] ∈ digits := mem_digits.2 ⟨'0', [], rfl, rfl, by simp⟩

theorem based_mem {b : Char} (isDigit : Char → Bool) {letters : List Char} (hb : b ∈ letters)
    (hletters : b ∈ baseLetters) (cs : List Char) :
    (based b isDigit cs).1 = some .int ∧ ((based b isDigit cs).2.text ∈ digits ∨
      (based b isDigit cs).2.text ∈ Pattern.based letters isDigit) := by
  by_cases hdigits : (Cut.run isDigit cs).text = []
  · have hbased : based b isDigit cs = (some .int, ⟨['0'], b :: cs⟩) := by
      simp [based, hdigits, decimal_of_letter hletters]
    rw [hbased]
    exact ⟨rfl, .inl zero_mem_digits⟩
  · have hbased : based b isDigit cs
        = (some .int, (Cut.run isDigit cs).after ['0', b]) := by
      simp [based, hdigits]
    rw [hbased]
    exact ⟨rfl, .inr (mem_based.2 ⟨b, _, rfl, hb, hdigits, fun d hd => Cut.of_mem_run hd⟩)⟩

theorem hexadecimal_mem {x : Char} (hx : x ∈ ['x', 'X']) {kind : LiteralKind} {k : Cut}
    (h : hexadecimal x cs = (some kind, k)) :
    (kind = .int ∧ k.text ∈ int) ∨ (kind = .float ∧ k.text ∈ float) := by
  have hrun {cs : List Char} : ∀ d ∈ (Cut.run isHexadecimal cs).text, isHexadecimal d = true :=
    fun d hd => Cut.of_mem_run hd
  by_cases hpoint : (Cut.run isHexadecimal cs).rest.head? = some '.'
  · obtain ⟨fraction, hfraction⟩ := List.head?_eq_some_iff.1 hpoint
    obtain ⟨e, he⟩ := exponent_of_hexadecimal hfraction (by rw [h]; simp)
    rw [hexadecimal_of_exponent x hfraction he, Prod.mk.injEq, Option.some.injEq] at h
    obtain ⟨rfl, rfl⟩ := h
    refine .inr ⟨rfl, mem_float.2 (.inr (.inr (.inr ⟨x, (Cut.run isHexadecimal cs).text,
      '.' :: (Cut.run isHexadecimal fraction).text, e.text, ?_, hx, hrun, .inr ⟨_, rfl, hrun⟩,
      exponent_mem binaryMark_iff he⟩)))⟩
    simp [Cut.after]
  · rw [hexadecimal_of_no_point hpoint] at h
    split at h
    · next e he =>
      obtain ⟨rfl, rfl⟩ : .float = kind ∧ e.after _ = k := by simpa using h
      exact .inr ⟨rfl, mem_float.2 (.inr (.inr (.inr ⟨x, (Cut.run isHexadecimal cs).text, [],
        e.text, rfl, hx, hrun, .inl rfl, exponent_mem binaryMark_iff he⟩)))⟩
    · obtain ⟨hkind, htext⟩ :=
        based_mem isHexadecimal hx (mem_baseLetters_of_hexadecimal hx) cs
      rw [h] at hkind htext
      exact .inl ⟨Option.some.inj hkind, mem_int.2 (htext.imp_right .inl)⟩

theorem length_run_le_hexadecimal {x : Char} (h : (Cut.run isHexadecimal cs).text ≠ []) :
    (Cut.run isHexadecimal cs).text.length + 2 ≤ (hexadecimal x cs).2.text.length := by
  simp only [hexadecimal]
  split
  · split
    · simp [Cut.after]
    · refine Nat.le_trans ?_ (Cut.length_le_extend _ _)
      simp [Cut.after]
  · split
    · simp [Cut.after]
    · exact (length_run_le_based h).ge

theorem not_isHexadecimal_of_mark {m : Char} (hm : m ∈ ['p', 'P']) : isHexadecimal m = false := by
  rcases List.mem_pair.1 hm with rfl | rfl <;> rfl

/-- No hexadecimal float is longer than the one that is found. -/
theorem hexadecimal_longest {x : Char} {a f e : List Char}
    (ha : ∀ d ∈ a, isHexadecimal d = true)
    (hf : f = [] ∨ ∃ b, f = '.' :: b ∧ ∀ d ∈ b, isHexadecimal d = true)
    (he : e ∈ Pattern.exponent ['p', 'P']) (hpre : a ++ (f ++ e) <+: cs) :
    (hexadecimal x cs).1 = some .float ∧
      (a ++ (f ++ e)).length + 2 ≤ (hexadecimal x cs).2.text.length := by
  obtain ⟨rest, rfl⟩ := hpre
  obtain ⟨k, hk, hlen⟩ := exponent_longest binaryMark_iff he (List.prefix_append e rest)
  have hk : binaryExponent (e ++ rest) = some k := hk
  have hmark {a : List Char} (ha : ∀ d ∈ a, isHexadecimal d = true) :
      Cut.run isHexadecimal (a ++ (e ++ rest)) = ⟨a, e ++ rest⟩ := by
    obtain ⟨m, s, ds, rfl, hm, -⟩ := mem_exponent.1 he
    exact Cut.run_append ha (not_isHexadecimal_of_mark hm)
  rcases hf with rfl | ⟨b, rfl, hb⟩
  · have hrun : Cut.run isHexadecimal (a ++ ([] ++ e) ++ rest) = ⟨a, e ++ rest⟩ := by
      rw [List.nil_append, List.append_assoc]
      exact hmark ha
    have hpoint : (e ++ rest).head? ≠ some '.' := by
      obtain ⟨m, s, ds, rfl, hm, -⟩ := mem_exponent.1 he
      rintro ⟨⟩
      simp at hm
    rw [hexadecimal_of_no_point (by rwa [hrun]), hrun, hk]
    refine ⟨rfl, ?_⟩
    simp only [Cut.after, List.length_append, List.length_cons, List.length_nil]
    omega
  · have hrun : Cut.run isHexadecimal (a ++ ('.' :: b ++ e) ++ rest)
        = ⟨a, '.' :: (b ++ (e ++ rest))⟩ := by
      rw [List.append_assoc, List.append_assoc]
      exact Cut.run_append ha rfl
    rw [hexadecimal_of_exponent x (by rw [hrun]) (by rw [hmark hb]; exact hk), hrun, hmark hb]
    refine ⟨rfl, ?_⟩
    simp only [Cut.after, List.length_append, List.length_cons]
    omega

/-! ## Numerals -/

theorem numeral_hexadecimal {x : Char} (hx : x ∈ ['x', 'X']) (cs : List Char) :
    numeral ('0' :: x :: cs) = hexadecimal x cs := by
  rcases List.mem_pair.1 hx with rfl | rfl <;> rfl

/-- A numeral is read by its base, and as a decimal one where no letter of a base is. -/
theorem numeral_cases (cs : List Char) :
    (∃ x ds, cs = '0' :: x :: ds ∧ x ∈ ['x', 'X']) ∨
      (∃ letters isDigit b ds, IntegralBase letters isDigit ∧ cs = '0' :: b :: ds ∧ b ∈ letters) ∨
      numeral cs = (decimal cs).map some id := by
  unfold numeral
  split
  · next b ds =>
    split
    · next hb => exact .inl ⟨b, ds, rfl, by simpa using hb⟩
    split
    · next hb => exact .inr (.inl ⟨_, _, b, ds, .octal, rfl, by simpa using hb⟩)
    split
    · next hb => exact .inr (.inl ⟨_, _, b, ds, .binary, rfl, by simpa using hb⟩)
    · exact .inr (.inr rfl)
  · exact .inr (.inr rfl)

theorem eq_append_of_numeral {kind : Option LiteralKind} {k : Cut} (h : numeral cs = (kind, k)) :
    cs = k.text ++ k.rest := by
  have hwhole := whole_numeral cs
  rw [h] at hwhole
  exact hwhole.symm

theorem numeral_length_pos {c : Char} (hstarts : startsNumeral c cs = true) :
    0 < (numeral (c :: cs)).2.text.length := by
  refine List.length_pos_iff.2 (numeral_text_ne_nil ?_ cs)
  simp only [startsNumeral, Bool.or_eq_true, Bool.and_eq_true, beq_iff_eq] at hstarts
  exact hstarts.imp (fun hc => by simp [isDecimal, hc]) And.left

/-- What is found belongs to the pattern of its kind. -/
theorem numeral_mem {c : Char} (hstarts : startsNumeral c cs = true) {kind : LiteralKind} {k : Cut}
    (h : numeral (c :: cs) = (some kind, k)) :
    (kind = .int ∧ k.text ∈ int) ∨ (kind = .float ∧ k.text ∈ float) := by
  rcases numeral_cases (c :: cs) with ⟨x, ds, hcs, hx⟩ | ⟨letters, isDigit, b, ds, hbase, hcs, hb⟩ |
    hnumeral
  · rw [hcs, numeral_hexadecimal hx] at h
    exact hexadecimal_mem hx h
  · obtain ⟨hkind, htext⟩ := based_mem isDigit hb (mem_baseLetters_of_integral hbase hb) ds
    rw [hcs, numeral_integral hbase hb] at h
    rw [h] at hkind htext
    exact .inl ⟨Option.some.inj hkind,
      mem_int.2 (htext.imp_right fun hbased => .inr ⟨_, _, hbase, hbased⟩)⟩
  · rw [hnumeral] at h
    obtain ⟨hkind, rfl⟩ := Prod.mk.injEq .. ▸ h
    rw [← Option.some.inj hkind]
    exact (decimal_mem hstarts).imp_left (And.imp_right (mem_int.2 ∘ .inl))

/-- The decimal numeral is all of the numeral, or the `0` before the letter of a base. -/
theorem decimal_le_numeral (c : Char) (cs : List Char) :
    (decimal (c :: cs)).2.text.length ≤ (numeral (c :: cs)).2.text.length ∧
      ((decimal (c :: cs)).1 = .float → (numeral (c :: cs)).1 = some .float) := by
  have hletter {b : Char} (hb : b ∈ baseLetters) {ds : List Char}
      (hcs : c :: cs = '0' :: b :: ds) :
      (decimal (c :: cs)).2.text.length ≤ (numeral (c :: cs)).2.text.length ∧
        ((decimal (c :: cs)).1 = .float → (numeral (c :: cs)).1 = some .float) := by
    rw [hcs, decimal_of_letter hb]
    refine ⟨List.length_pos_iff.2 (numeral_text_ne_nil (.inl rfl) _), ?_⟩
    rintro ⟨⟩
  rcases numeral_cases (c :: cs) with ⟨x, ds, hcs, hx⟩ | ⟨letters, isDigit, b, ds, hbase, hcs, hb⟩ |
    hnumeral
  · exact hletter (mem_baseLetters_of_hexadecimal hx) hcs
  · exact hletter (mem_baseLetters_of_integral hbase hb) hcs
  · rw [hnumeral]
    exact ⟨Nat.le_refl _, congrArg some⟩

/-- What an integer pattern matches before a hexadecimal numeral is the `0`, or digits too. -/
theorem int_le_hexadecimal {x : Char} (hx : x ∈ ['x', 'X']) (hv : v ∈ int)
    (hpre : v <+: '0' :: x :: cs) : v.length ≤ 1 ∨
      (Cut.run isHexadecimal cs).text ≠ [] ∧
        v.length ≤ (Cut.run isHexadecimal cs).text.length + 2 := by
  rcases mem_int.1 hv with hv | hv | ⟨letters, isDigit, hbase, hv⟩
  · refine .inl (Nat.le_trans (decimal_longest_digits hv hpre) ?_)
    rw [decimal_of_letter (mem_baseLetters_of_hexadecimal hx)]
    rfl
  · obtain ⟨b, ds, rfl, -, hne, hds⟩ := mem_based.1 hv
    obtain ⟨rest, hrest⟩ := hpre
    obtain rfl : ds ++ rest = cs := (List.cons.inj (List.cons.inj hrest).2).2
    have hlen := Cut.length_le_run hds (List.prefix_append ds rest)
    have hpos := List.length_pos_iff.2 hne
    refine .inr ⟨List.length_pos_iff.1 (by omega), ?_⟩
    simpa using hlen
  · obtain ⟨b, ds, rfl, hb, -⟩ := mem_based.1 hv
    obtain ⟨rest, hrest⟩ := hpre
    obtain rfl : b = x := (List.cons.inj (List.cons.inj hrest).2).1
    exact absurd hx (not_hexadecimal_of_integral hbase hb)

/-- No text of an integer pattern is longer than what is found. -/
theorem int_longest {c : Char} (hstarts : startsNumeral c cs = true) (hv : v ∈ int)
    (hpre : v <+: c :: cs) : v.length ≤ (numeral (c :: cs)).2.text.length := by
  have hone := numeral_length_pos hstarts
  rcases mem_int.1 hv with hdigits | hhex | ⟨letters, isDigit, hbase, hbased⟩
  · exact Nat.le_trans (decimal_longest_digits hdigits hpre) (decimal_le_numeral c cs).1
  · obtain ⟨x, ds, rfl, hx, -⟩ := mem_based.1 hhex
    obtain ⟨rest, hrest⟩ := hpre
    rw [← hrest, List.cons_append, List.cons_append, numeral_hexadecimal hx] at hone ⊢
    rcases int_le_hexadecimal hx hv (List.prefix_append ('0' :: x :: ds) rest) with
      hle | ⟨hne, hle⟩
    · exact Nat.le_trans hle hone
    · exact Nat.le_trans hle (length_run_le_hexadecimal hne)
  · obtain ⟨b, ds, rfl, hb, hne, hds⟩ := mem_based.1 hbased
    obtain ⟨rest, hrest⟩ := hpre
    have hlen := Cut.length_le_run hds (List.prefix_append ds rest)
    have hpos := List.length_pos_iff.2 hne
    rw [← hrest, List.cons_append, List.cons_append, numeral_integral hbase hb,
      length_run_le_based (List.length_pos_iff.1 (by omega))]
    simpa using hlen

/-- No float is longer than what is found, and what is found is one then. -/
theorem float_longest {c : Char} (hv : v ∈ float) (hpre : v <+: c :: cs) :
    (numeral (c :: cs)).1 = some .float ∧ v.length ≤ (numeral (c :: cs)).2.text.length := by
  obtain ⟨hle, hkind⟩ := decimal_le_numeral c cs
  have hdecimal (h : (decimal (c :: cs)).1 = .float ∧
      v.length ≤ (decimal (c :: cs)).2.text.length) :=
    And.intro (hkind h.1) (Nat.le_trans h.2 hle)
  rcases mem_float.1 hv with ⟨a, b, e, rfl, ha, hb, he⟩ | ⟨a, e, rfl, ha, he⟩ |
    ⟨a, e, rfl, ha, he⟩ | ⟨x, a, f, e, rfl, hx, ha, hf, he⟩
  · exact hdecimal (decimal_longest_point (isDecimal_of_mem_digits ha) hb he hpre)
  · exact hdecimal (decimal_longest_exponent (isDecimal_of_mem_digits ha) he hpre)
  · have hnil : ∀ d ∈ ([] : List Char), isDecimal d = true := by simp
    exact hdecimal (decimal_longest_point hnil (isDecimal_of_mem_digits ha) he hpre)
  · obtain ⟨rest, hrest⟩ := hpre
    rw [← hrest, List.cons_append, List.cons_append, numeral_hexadecimal hx]
    exact hexadecimal_longest ha hf he (List.prefix_append _ rest)

/-- No text is both an integer and a float. -/
theorem not_float_of_int (hv : v ∈ int) : v ∉ float := by
  intro hfloat
  have hbased {b : Char} (hb : b ∈ baseLetters) {ds : List Char}
      (hcs : v = '0' :: b :: ds) : b ∈ ['x', 'X'] ∧ ∃ d ∈ ds, isHexadecimal d = false := by
    have hdecimal (h : (decimal v).1 = .float) : False := by
      rw [hcs, decimal_of_letter hb] at h
      simp at h
    rcases mem_float.1 hfloat with ⟨a, b, e, rfl, ha, hb, he⟩ | ⟨a, e, rfl, ha, he⟩ |
      ⟨a, e, rfl, ha, he⟩ | ⟨x, a, f, e, rfl, hx, ha, hf, he⟩
    · exact (hdecimal (decimal_longest_point (isDecimal_of_mem_digits ha) hb he
        (List.prefix_refl _)).1).elim
    · exact (hdecimal (decimal_longest_exponent (isDecimal_of_mem_digits ha) he
        (List.prefix_refl _)).1).elim
    · simp at hcs
    · obtain ⟨rfl, rfl⟩ : x = b ∧ a ++ (f ++ e) = ds := by simpa using hcs
      obtain ⟨m, s, ds, rfl, hm, -⟩ := mem_exponent.1 he
      exact ⟨hx, m, by simp, not_isHexadecimal_of_mark hm⟩
  rcases mem_int.1 hv with hdigits | hhex | ⟨letters, isDigit, hbase, hint⟩
  · have hall := isDecimal_of_mem_digits hdigits
    rcases mem_float.1 hfloat with ⟨a, b, e, rfl, -⟩ | ⟨a, e, rfl, -, he⟩ | ⟨a, e, rfl, -⟩ |
      ⟨x, a, f, e, rfl, hx, -⟩
    · simpa [isDecimal] using hall '.' (by simp)
    · obtain ⟨m, s, ds, rfl, hm, -⟩ := mem_exponent.1 he
      have := hall m (by simp)
      simp [not_isDecimal_of_mark hm] at this
    · simpa [isDecimal] using hall '.' (by simp)
    · have := hall x (by simp)
      rcases List.mem_pair.1 hx with rfl | rfl <;> simp [isDecimal] at this
  · obtain ⟨b, ds, hcs, hb, -, hds⟩ := mem_based.1 hhex
    obtain ⟨-, d, hd, hnot⟩ := hbased (mem_baseLetters_of_hexadecimal hb) hcs
    simp [hds d hd] at hnot
  · obtain ⟨b, ds, hcs, hb, -⟩ := mem_based.1 hint
    exact not_hexadecimal_of_integral hbase hb (hbased (mem_baseLetters_of_integral hbase hb) hcs).1

/-! ## Unfinished fractions -/

theorem run_fraction {a : List Char} (ha : ∀ d ∈ a, isHexadecimal d = true) (rest : List Char) :
    Cut.run isHexadecimal (a ++ '.' :: rest) = ⟨a, '.' :: rest⟩ :=
  Cut.run_append ha rfl

/-- A hexadecimal fraction is part of the numeral that is found, if one is. -/
theorem fraction_le_numeral (hv : v ∈ hexFraction) (hpre : v <+: cs)
    (hkind : (numeral cs).1 ≠ none) : v.length ≤ (numeral cs).2.text.length := by
  obtain ⟨x, a, b, rfl, hx, ha, hb⟩ := mem_hexFraction.1 hv
  obtain ⟨rest, rfl⟩ := hpre
  simp only [List.cons_append, List.append_assoc] at hkind ⊢
  rw [numeral_hexadecimal hx] at hkind ⊢
  have hrun := run_fraction ha (b ++ rest)
  obtain ⟨e, he⟩ := exponent_of_hexadecimal (congrArg Cut.rest hrun) hkind
  have hlen := Cut.length_le_run hb (List.prefix_append b rest)
  rw [hexadecimal_of_exponent x (congrArg Cut.rest hrun) he, hrun]
  simp only [Cut.after, List.length_append, List.length_cons]
  omega

/-- A hexadecimal numeral is only not found for want of an exponent after a point. -/
theorem exists_fraction_of_hexadecimal {x : Char} (hx : x ∈ ['x', 'X'])
    (h : (hexadecimal x cs).1 = none) :
    ∃ fraction, (Cut.run isHexadecimal cs).rest = '.' :: fraction ∧
      binaryExponent (Cut.run isHexadecimal fraction).rest = none := by
  have hpoint : (Cut.run isHexadecimal cs).rest.head? = some '.' := by
    by_contra hpoint
    rw [hexadecimal_of_no_point hpoint] at h
    split at h
    · simp at h
    · rw [(based_mem isHexadecimal hx (mem_baseLetters_of_hexadecimal hx) cs).1] at h
      simp at h
  obtain ⟨fraction, hfraction⟩ := List.head?_eq_some_iff.1 hpoint
  refine ⟨fraction, hfraction, ?_⟩
  rcases he : binaryExponent (Cut.run isHexadecimal fraction).rest with _ | e
  · rfl
  · rw [hexadecimal_of_exponent x hfraction he] at h
    simp at h

/-- No hexadecimal fraction goes on beyond the runs of digits before and after the point. -/
theorem fraction_longest {x : Char} {fraction : List Char} (hv : v ∈ hexFraction)
    (hpre : v <+: '0' :: x :: cs) (hfraction : (Cut.run isHexadecimal cs).rest = '.' :: fraction) :
    v.length ≤ ('0' :: x :: ((Cut.run isHexadecimal cs).text
      ++ '.' :: (Cut.run isHexadecimal fraction).text)).length := by
  obtain ⟨y, a, b, rfl, -, ha, hb⟩ := mem_hexFraction.1 hv
  obtain ⟨rest, hrest⟩ := hpre
  obtain ⟨-, hrest⟩ : y = x ∧ a ++ '.' :: (b ++ rest) = cs := by simpa using hrest
  have hrun := run_fraction ha (b ++ rest)
  rw [hrest] at hrun
  obtain rfl : b ++ rest = fraction := by
    rw [hrun] at hfraction
    exact (List.cons.inj hfraction).2
  have hlen := Cut.length_le_run hb (List.prefix_append b rest)
  simp only [hrun, List.length_cons, List.length_append]
  omega

/-- Where no numeral is found a hexadecimal one starts. -/
theorem exists_hexadecimal_of_none (h : (numeral cs).1 = none) :
    ∃ x ds, cs = '0' :: x :: ds ∧ x ∈ ['x', 'X'] := by
  rcases numeral_cases cs with hcs | ⟨letters, isDigit, b, ds, hbase, rfl, hb⟩ | hnumeral
  · exact hcs
  · have hkind := (based_mem isDigit hb (mem_baseLetters_of_integral hbase hb) ds).1
    rw [numeral_integral hbase hb, hkind] at h
    simp at h
  · rw [hnumeral] at h
    simp at h

/-- Where no numeral is found there is a hexadecimal fraction, longer than what a pattern matches,
and it is taken with the mark of an exponent if that is there. -/
theorem exists_unfinished (h : (numeral cs).1 = none) : ∃ text rest, cs = text ++ rest ∧
    text ∈ hexFraction ∧ (∀ v ∈ hexFraction, v <+: cs → v.length ≤ text.length) ∧
    (∀ v, v ∈ int ∨ v ∈ float → v <+: cs → v.length < text.length) ∧
    numeral cs = (none, (⟨text, rest⟩ : Cut).extend strayMark) := by
  obtain ⟨x, ds, rfl, hx⟩ := exists_hexadecimal_of_none h
  rw [numeral_hexadecimal hx] at h ⊢
  obtain ⟨fraction, hfraction, hnone⟩ := exists_fraction_of_hexadecimal hx h
  have hrun {cs : List Char} : ∀ d ∈ (Cut.run isHexadecimal cs).text, isHexadecimal d = true :=
    fun d hd => Cut.of_mem_run hd
  have hmem : '0' :: x :: ((Cut.run isHexadecimal ds).text
      ++ '.' :: (Cut.run isHexadecimal fraction).text) ∈ hexFraction :=
    mem_hexFraction.2 ⟨x, _, _, rfl, hx, hrun, hrun⟩
  refine ⟨_, (Cut.run isHexadecimal fraction).rest, ?_, hmem,
    fun v hv hpre => fraction_longest hv hpre hfraction, fun v hv hpre => ?_, ?_⟩
  · have hds := Cut.whole_run isHexadecimal ds
    have hwhole := Cut.whole_run isHexadecimal fraction
    rw [Cut.whole] at hwhole
    rw [Cut.whole, hfraction] at hds
    rw [List.cons_append, List.cons_append, List.append_assoc, List.cons_append, hwhole, hds]
  · simp only [List.length_cons, List.length_append]
    rcases hv with hv | hv
    · rcases int_le_hexadecimal hx hv hpre with hle | ⟨-, hle⟩ <;> omega
    · have hfloat := (float_longest hv hpre).1
      rw [numeral_hexadecimal hx, h] at hfloat
      simp at hfloat
  · simp [hexadecimal, hfraction, Cut.after, hnone]

end GoIface.Numeral
