import GoIface.Proofs.Aliases
import Mathlib.Data.List.Induction

/-!
# Integer literals as lengths

What an integer literal stands for depends on what it starts with, and a zero at its start asks for
base eight (`IntegerLiteral`). A length is read as a row of decimal digits. So the literals with
other bases or with bars are refused, and so are numbers of more than 64 bits
(`readDigits_eq_ok_iff`), but a row of digits after a zero is read in base ten. It means another
number there from eight on (`ofDigitChars_ten_eq_eight_iff`).
-/

namespace GoIface

/-! ## Literals -/

/-- What a character stands for as a digit. -/
def digitOf? (c : Char) : Option Nat :=
  if c.isDigit then some (c.toNat - '0'.toNat)
  else if 'a' ≤ c && c ≤ 'f' then some (c.toNat - 'a'.toNat + 10)
  else if 'A' ≤ c && c ≤ 'F' then some (c.toNat - 'A'.toNat + 10)
  else none

def IsDigit (base : Nat) (c : Char) (d : Nat) : Prop := digitOf? c = some d ∧ d < base

/-- Digits in a base, perhaps with a bar between two of them, and the number they stand for. -/
inductive Digits (base : Nat) : List Char → Nat → Prop
  | one {c : Char} {d : Nat} (hc : IsDigit base c d) : Digits base [c] d
  | next {cs : List Char} {n : Nat} {c : Char} {d : Nat} (hcs : Digits base cs n)
      (hc : IsDigit base c d) : Digits base (cs ++ [c]) (base * n + d)
  | afterBar {cs : List Char} {n : Nat} {c : Char} {d : Nat} (hcs : Digits base cs n)
      (hc : IsDigit base c d) : Digits base (cs ++ ['_', c]) (base * n + d)

/-- What a literal in another base than ten starts with, and its base. -/
def basePrefixes : List (List Char × Nat) :=
  [(['0', 'b'], 2), (['0', 'B'], 2), (['0'], 8), (['0', 'o'], 8), (['0', 'O'], 8),
    (['0', 'x'], 16), (['0', 'X'], 16)]

/-- The integer literals of the language and what they stand for. -/
inductive IntegerLiteral : List Char → Nat → Prop
  | zero : IntegerLiteral ['0'] 0
  | decimal {c : Char} {cs : List Char} {n : Nat} (hc : c ≠ '0') (h : Digits 10 (c :: cs) n) :
      IntegerLiteral (c :: cs) n
  | based {start bar cs : List Char} {base n : Nat} (hbase : (start, base) ∈ basePrefixes)
      (hbar : bar = [] ∨ bar = ['_']) (h : Digits base cs n) :
      IntegerLiteral (start ++ bar ++ cs) n

theorem digitOf?_of_isDigit {c : Char} (h : c.isDigit = true) :
    digitOf? c = some (c.toNat - '0'.toNat) := if_pos h

/-- A character that may stand in a literal. -/
def InLiteral (c : Char) : Prop := c.isDigit = true ∨ Piece.startsIdent c = true

theorem startsIdent_of_hexadecimal {c : Char} (h : 'a' ≤ c ∧ c ≤ 'f' ∨ 'A' ≤ c ∧ c ≤ 'F') :
    Piece.startsIdent c = true := by
  have hall : ∀ n ∈ List.range' 65 6 ++ List.range' 97 6, Text.letterRanges.has n = true := by
    decide
  have hmem : c.toNat ∈ List.range' 65 6 ++ List.range' 97 6 := by
    rw [List.mem_append, List.mem_range'_1, List.mem_range'_1]
    rcases h with ⟨hlo, hhi⟩ | ⟨hlo, hhi⟩
    · exact .inr ⟨hlo, Nat.lt_succ_of_le hhi⟩
    · exact .inl ⟨hlo, Nat.lt_succ_of_le hhi⟩
  exact Bool.or_eq_true _ _ ▸ .inl (hall _ hmem)

theorem IsDigit.inLiteral {base d : Nat} {c : Char} (h : IsDigit base c d) : InLiteral c := by
  have hdigit := h.1
  unfold digitOf? at hdigit
  split at hdigit
  · exact .inl ‹_›
  · split at hdigit
    · next hlower => exact .inr (startsIdent_of_hexadecimal (.inl (by simpa using hlower)))
    · split at hdigit
      · next hupper => exact .inr (startsIdent_of_hexadecimal (.inr (by simpa using hupper)))
      · cases hdigit

theorem Digits.inLiteral {base n : Nat} {cs : List Char} (h : Digits base cs n) :
    ∀ c ∈ cs, InLiteral c := by
  induction h with
  | one hc => simpa using hc.inLiteral
  | next _ hc ih =>
    exact List.forall_mem_append.2 ⟨ih, by simpa using hc.inLiteral⟩
  | afterBar _ hc ih =>
    exact List.forall_mem_append.2 ⟨ih, by simpa using ⟨.inr (by decide), hc.inLiteral⟩⟩

theorem Digits.ne_nil {base n : Nat} {cs : List Char} (h : Digits base cs n) : cs ≠ [] := by
  cases h <;> simp

theorem IntegerLiteral.inLiteral {cs : List Char} {n : Nat} (h : IntegerLiteral cs n) :
    ∀ c ∈ cs, InLiteral c := by
  cases h with
  | zero => simpa using .inl (by decide)
  | decimal _ h => exact h.inLiteral
  | @based start bar ds base _ hbase hbar h =>
    have hstarts : ∀ p ∈ basePrefixes,
        p.1.all (fun c => c.isDigit || Piece.startsIdent c) = true := by
      decide
    have hstart : ∀ c ∈ start, InLiteral c := fun c hc =>
      Bool.or_eq_true_iff.1 (List.all_eq_true.1 (hstarts _ hbase) c hc)
    have hbars : ∀ c ∈ bar, InLiteral c := by
      rcases hbar with rfl | rfl
      · simp
      · simpa using .inr (by decide)
    exact List.forall_mem_append.2 ⟨List.forall_mem_append.2 ⟨hstart, hbars⟩, h.inLiteral⟩

theorem IntegerLiteral.ne_nil {cs : List Char} {n : Nat} (h : IntegerLiteral cs n) : cs ≠ [] := by
  cases h with
  | based _ _ h => simp [h.ne_nil]
  | _ => simp

/-- Without bars and letters digits stand for what a row of characters does. -/
theorem Digits.eq_ofDigitChars {base n : Nat} {cs : List Char} (h : Digits base cs n)
    (hcs : ∀ c ∈ cs, c.isDigit = true) : n = Nat.ofDigitChars base cs 0 := by
  have hdigit {c : Char} {d : Nat} (hc : IsDigit base c d) (h : c.isDigit = true) :
      d = c.toNat - '0'.toNat :=
    Option.some.inj (hc.1.symm.trans (digitOf?_of_isDigit h))
  induction h with
  | one hc => simp [hdigit hc (hcs _ (by simp)), Nat.ofDigitChars_cons]
  | next _ hc ih =>
    obtain ⟨hcs, hlast⟩ := List.forall_mem_append.1 hcs
    rw [Nat.ofDigitChars_append, ← ih hcs, hdigit hc (hlast _ (by simp))]
    simp [Nat.ofDigitChars_cons]
  | afterBar => exact absurd (hcs '_' (by simp)) (by decide)

/-- In base ten the digits of base eight stand for more, unless there is one that counts. -/
theorem ofDigitChars_ten_eq_eight_iff (cs : List Char) :
    Nat.ofDigitChars 8 cs 0 ≤ Nat.ofDigitChars 10 cs 0 ∧
      ((∀ c ∈ cs, c.toNat - '0'.toNat < 8) →
        (Nat.ofDigitChars 10 cs 0 = Nat.ofDigitChars 8 cs 0 ↔ Nat.ofDigitChars 8 cs 0 < 8)) := by
  induction cs using List.reverseRecOn with
  | nil => simp
  | append_singleton cs c ih =>
    obtain ⟨hle, heq⟩ := ih
    simp only [Nat.ofDigitChars_append, Nat.ofDigitChars_cons, Nat.ofDigitChars_nil]
    refine ⟨by omega, fun hcs => ?_⟩
    obtain ⟨hcs, hlast⟩ := List.forall_mem_append.1 hcs
    have heq := heq hcs
    have hlast := hlast c (by simp)
    omega

theorem Digits.lt_base {base n : Nat} {cs : List Char} (h : Digits base cs n)
    (hcs : ∀ c ∈ cs, c.isDigit = true) : ∀ c ∈ cs, c.toNat - '0'.toNat < base := by
  have hlt {c : Char} {d : Nat} (hc : IsDigit base c d) (h : c.isDigit = true) :
      c.toNat - '0'.toNat < base := by
    rw [← Option.some.inj (hc.1.symm.trans (digitOf?_of_isDigit h))]
    exact hc.2
  induction h with
  | one hc => simpa using hlt hc (hcs _ (by simp))
  | next _ hc ih =>
    obtain ⟨hcs, hlast⟩ := List.forall_mem_append.1 hcs
    exact List.forall_mem_append.2 ⟨ih hcs, by simpa using hlt hc (hlast _ (by simp))⟩
  | afterBar => exact absurd (hcs '_' (by simp)) (by decide)

/-- A row of digits stands for its number in base ten, unless it starts with a zero and stands for
eight or more. -/
theorem IntegerLiteral.eq_ofDigitChars_iff {cs : List Char} {n : Nat} (h : IntegerLiteral cs n)
    (hcs : ∀ c ∈ cs, c.isDigit = true) :
    Nat.ofDigitChars 10 cs 0 = n ↔ ¬ (cs.head? = some '0' ∧ 8 ≤ n) := by
  cases h with
  | zero => decide
  | @decimal c cs _ hc h => simpa [hc] using (h.eq_ofDigitChars hcs).symm
  | @based start bar ds base _ hbase hbar h =>
    obtain ⟨hstart, hds⟩ := List.forall_mem_append.1 hcs
    obtain ⟨hstart, hbars⟩ := List.forall_mem_append.1 hstart
    -- only the zero alone has no letter after it
    have hplain : ∀ p ∈ basePrefixes, p.1.all Char.isDigit = true → p = (['0'], 8) := by
      decide
    cases hplain _ hbase (List.all_eq_true.2 hstart)
    obtain rfl : bar = [] := by
      refine hbar.resolve_right ?_
      rintro rfl
      exact absurd (hbars '_' (by simp)) (by decide)
    have hten : Nat.ofDigitChars 10 (['0'] ++ [] ++ ds) 0 = Nat.ofDigitChars 10 ds 0 := by
      rw [Nat.ofDigitChars_append]
      rfl
    rw [hten, h.eq_ofDigitChars hds,
      (ofDigitChars_ten_eq_eight_iff ds).2 (h.lt_base hds)]
    simp

/-! ## Reading them -/

theorem readDigits_eq_ok_iff {n k : Nat} {cs : List Char} (hn : n < lengthLimit) :
    readDigits n cs = .ok k ↔
      (∀ c ∈ cs, c.isDigit = true) ∧ k = Nat.ofDigitChars 10 cs n ∧ k < lengthLimit := by
  constructor
  · intro h
    refine ⟨digits_of_readDigits h, ?_, readDigits_lt hn h⟩
    induction cs generalizing n with
    | nil => exact (Except.ok.inj h).symm
    | cons c cs ih =>
      unfold readDigits at h
      split at h
      · cases h
      · dsimp only at h
        split at h
        · rw [Nat.ofDigitChars_cons]
          exact ih ‹_› h
        · cases h
  · rintro ⟨hcs, rfl, hk⟩
    exact readDigits_digits hcs hk

theorem readLength_literal {cs : List Char} {n : Nat} (h : IntegerLiteral cs n) :
    readLength cs = readDigits 0 cs := by
  unfold readLength
  split
  · exact absurd rfl h.ne_nil
  · exact absurd (h.inLiteral '+' (by simp)) (by unfold InLiteral; decide)
  · exact absurd (h.inLiteral '+' (by simp)) (by unfold InLiteral; decide)
  · rfl

theorem trim_literal {cs : List Char} {n : Nat} (h : IntegerLiteral cs n) : Text.trim cs = cs := by
  have hblank : ∀ c ∈ cs, Text.isBlank c = false := fun c hc =>
    (h.inLiteral c hc).elim isBlank_of_isDigit Piece.isBlank_of_startsIdent
  have hback : ∀ c ∈ cs.reverse, Text.isBlank c = false := fun c hc =>
    hblank c (List.mem_reverse.1 hc)
  rw [Text.trim, Text.trimBy, dropWhile_eq_self hblank, dropWhile_eq_self hback,
    List.reverse_reverse]

section

variable {source text : String} {l : Lexeme} {v : Nat} {scope : FileScope} {t elem : TypeNode}

/-- A literal is written as it is. -/
theorem slice_literal {kind : LiteralKind} (hl : l ∈ lex source)
    (htoken : l.token = .literal kind text) : l.span.slice source.toList = text.toList := by
  have hwritten : l.isInserted = false := Lexeme.isInserted_of_ne (by simp [htoken])
  have hfault : l.fault? = none := by simp [Lexeme.fault?, htoken]
  have htext := ((tiled_lex source).standsIn l hl).text_eq hwritten hfault
  rw [htoken] at htext
  rw [← String.toList_ofList (l := l.span.slice source.toList)]
  exact congrArg String.toList htext

/-- Of the integer literals those are read as the length of an array that are rows of digits for
numbers of 64 bits, in base ten, and the others are refused. So what is read is what the literal
stands for, but for the rows that start with a zero and stand for eight or more. -/
theorem array_length_is_exact_iff (hl : l ∈ lex source) (htoken : l.token = .literal .int text)
    (hv : IntegerLiteral text.toList v) (hform : t.form = .array l.span elem)
    (hscope : scope.source = source) :
    (t.model scope = do
      let k ← scope.arrayLength l.span
      return .array k (← elem.model scope)) ∧
    (∀ k, scope.arrayLength l.span = .ok k ↔ (∀ c ∈ text.toList, c.isDigit = true) ∧
      k = Nat.ofDigitChars 10 text.toList 0 ∧ k < lengthLimit) ∧
    (∀ e, scope.arrayLength l.span = .error e →
      ∃ fault, e = ⟨.arrayLength text fault, l.span⟩) ∧
    ((∀ k, scope.arrayLength l.span = .ok k → k = v) ↔
      ¬ ((∀ c ∈ text.toList, c.isDigit = true) ∧ text.toList.head? = some '0' ∧ 8 ≤ v ∧
        Nat.ofDigitChars 10 text.toList 0 < lengthLimit)) := by
  have hread : scope.arrayLength l.span
      = (readDigits 0 text.toList).mapError fun fault => ⟨.arrayLength text fault, l.span⟩ := by
    have htext : Text.trim (l.span.slice scope.source.toList) = text.toList := by
      rw [hscope, slice_literal hl htoken, trim_literal hv]
    rcases hdigits : readDigits 0 text.toList with fault | k <;>
      simp only [FileScope.arrayLength, htext, readLength_literal hv, hdigits,
        String.ofList_toList, refuse, Except.mapError]
  have hok (k : Nat) : scope.arrayLength l.span = .ok k ↔
      (∀ c ∈ text.toList, c.isDigit = true) ∧ k = Nat.ofDigitChars 10 text.toList 0 ∧
        k < lengthLimit := by
    rw [← readDigits_eq_ok_iff (by decide), hread]
    rcases readDigits 0 text.toList with e | n <;> simp [Except.mapError]
  refine ⟨?_, hok, fun e he => ?_, ?_⟩
  · obtain ⟨serial, span, form⟩ := t
    obtain rfl : form = .array l.span elem := hform
    rw [TypeNode.model, TypeNode.fold_mk]
    rfl
  · rw [hread] at he
    rcases hdigits : readDigits 0 text.toList with fault | n
    · rw [hdigits] at he
      exact ⟨fault, (Except.error.inj he).symm⟩
    · rw [hdigits] at he
      cases he
  · simp only [hok]
    constructor
    · rintro h ⟨hdigits, hzero, hlarge, hlimit⟩
      exact (hv.eq_ofDigitChars_iff hdigits).1 (h _ ⟨hdigits, rfl, hlimit⟩) ⟨hzero, hlarge⟩
    · rintro h k ⟨hdigits, rfl, hlimit⟩
      refine (hv.eq_ofDigitChars_iff hdigits).2 ?_
      rintro ⟨hzero, hlarge⟩
      exact h ⟨hdigits, hzero, hlarge, hlimit⟩

end

/-- In base eight `010` stands for eight, and it is read as ten. -/
theorem octal_length_is_read_as_ten :
    let source := "package p\ntype I interface \x7b M(x [010]int) \x7d\n"
    let l : Lexeme := ⟨.literal .int "010", ⟨34, 37⟩⟩
    let elem : TypeNode := .mk 0 ⟨38, 41⟩ (.named none ⟨"int", ⟨38, 41⟩⟩ [])
    let t : TypeNode := .mk 1 ⟨33, 41⟩ (.array l.span elem)
    l ∈ lex source ∧ IntegerLiteral "010".toList 8 ∧
      t.model ⟨source, [], ""⟩ = .ok (.array 10 (.predeclared "int")) := by
  intro source l elem t
  have hl : l ∈ lex source := by
    decide +kernel
  have hdigits : Digits 8 (['1'] ++ ['0']) (8 * 1 + 0) :=
    .next (.one ⟨rfl, by decide⟩) ⟨rfl, by decide⟩
  have hbase : (['0'], 8) ∈ basePrefixes := by
    decide
  have hv : IntegerLiteral (['0'] ++ [] ++ ['1', '0']) 8 := .based hbase (.inl rfl) hdigits
  obtain ⟨hmodel, hok, -⟩ := array_length_is_exact_iff (t := t) hl rfl hv rfl
    (show (⟨source, [], ""⟩ : FileScope).source = source from rfl)
  refine ⟨hl, hv, ?_⟩
  rw [hmodel, (hok 10).2 ⟨List.all_eq_true.1 (by decide), by decide, by decide⟩]
  rfl

end GoIface
