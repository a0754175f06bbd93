import GoIface.Proofs.LongestMatch

/-!
# Underscores between digits

An underscore should separate digits: before it there is a digit or the mark of a base, and after
it a digit (`SeparatesDigits`). A number is refused if one is at the end or two are in a row. That
is too little, since one may stand next to the point, to the mark of an exponent or to a sign
(`BesideJoint`). Nothing else can go wrong, as numbers consist of digits, underscores and these
(`Anatomy`). So the numbers that are accepted follow the rule if no underscore stands there, and
those refused all break it (`bars_separate_digits_iff`).
-/

namespace GoIface

open GoIface.Text GoIface.Pattern

/-! ## The rule -/

namespace Numeral

/-- What the numbers in another base than ten start with. -/
def baseMarks : List (List Char) :=
  [['0', 'x'], ['0', 'X'], ['0', 'o'], ['0', 'O'], ['0', 'b'], ['0', 'B']]

def hasHexMark (text : List Char) : Bool := text.take 2 == ['0', 'x'] || text.take 2 == ['0', 'X']

/-- A digit of the number. -/
def isDigitIn (text : List Char) (c : Char) : Bool :=
  c.isDigit || (hasHexMark text && (('a' ≤ c && c ≤ 'f') || ('A' ≤ c && c ≤ 'F')))

/-- The point, the mark of the exponent or a sign. -/
def isJointIn (text : List Char) (c : Char) : Bool :=
  ['.', '+', '-'].contains c
    || (if hasHexMark text then ['p', 'P'].contains c else ['e', 'E'].contains c)

/-- Every underscore is between two digits, or between the mark of the base and a digit. -/
def SeparatesDigits (text : List Char) : Prop :=
  ∀ before after, text = before ++ '_' :: after →
    (before ∈ baseMarks ∨ before.getLast?.any (isDigitIn text) = true) ∧
      after.head?.any (isDigitIn text) = true

/-- Some underscore is right before or after what parts the number. -/
def BesideJoint (text : List Char) : Prop :=
  ∃ before after, text = before ++ '_' :: after ∧
    (before.getLast?.any (isJointIn text) = true ∨ after.head?.any (isJointIn text) = true)

/-! ## What numbers consist of -/

/-- After the mark of the base, if there is one, come digits, underscores and what parts them. -/
structure Anatomy (text mark body : List Char) : Prop where
  text_eq : text = mark ++ body
  mark : mark ∈ baseMarks ∨ mark = [] ∧ body.head? ≠ some '_'
  body : ∀ c ∈ body, c = '_' ∨ isDigitIn text c = true ∨ isJointIn text c = true

theorem isDecimal_iff {c : Char} : isDecimal c = true ↔ c = '_' ∨ c.isDigit = true := by
  simp [isDecimal, or_comm]

theorem isHexadecimal_iff {text : List Char} (htext : hasHexMark text = true) {c : Char} :
    isHexadecimal c = true ↔ c = '_' ∨ isDigitIn text c = true := by
  simp only [isHexadecimal, isDecimal, isDigitIn, htext, Bool.true_and, Bool.or_eq_true,
    beq_iff_eq, or_assoc]
  exact or_left_comm

theorem exists_of_mem_exponent {marks e : List Char} (he : e ∈ Pattern.exponent marks) :
    ∀ c ∈ e, c ∈ marks ∨ c = '+' ∨ c = '-' ∨ isDecimal c = true := by
  obtain ⟨m, sign, ds, rfl, hm, hsign, -, hds⟩ := mem_exponent.1 he
  refine List.forall_mem_cons.2 ⟨.inl hm, List.forall_mem_append.2 ⟨fun c hc => ?_, fun c hc =>
    .inr (.inr (.inr (hds c hc)))⟩⟩
  rcases hsign with rfl | rfl | rfl
  · simp at hc
  · exact .inr (.inl (List.mem_singleton.1 hc))
  · exact .inr (.inr (.inl (List.mem_singleton.1 hc)))

/-- A number in base ten. -/
theorem Anatomy.decimal {text : List Char} (hhead : text.head? ≠ some '_')
    (h : ∀ c ∈ text, isDecimal c = true ∨ c ∈ ['.', '+', '-', 'e', 'E']) :
    Anatomy text [] text where
  text_eq := rfl
  mark := .inr ⟨rfl, hhead⟩
  body := by
    have hx : ∀ c ∈ ['x', 'X'], c ∉ text := fun c hc hmem => by
      rcases List.mem_pair.1 hc with rfl | rfl <;>
        exact absurd (h _ hmem) (by decide)
    have hmark : hasHexMark text = false := by
      refine Bool.eq_false_iff.2 fun hhex => ?_
      have hmem {x : Char} (hx : text.take 2 = ['0', x]) : x ∈ text :=
        List.mem_of_mem_take (i := 2) (hx ▸ by simp)
      simp only [hasHexMark, Bool.or_eq_true, beq_iff_eq] at hhex
      exact hhex.elim (fun h => hx 'x' (by simp) (hmem h)) fun h => hx 'X' (by simp) (hmem h)
    intro c hc
    rcases h c hc with hdigit | hjoint
    · exact (isDecimal_iff.1 hdigit).imp_right fun hd => .inl (by simp [isDigitIn, hd])
    · refine .inr (.inr ?_)
      simp only [List.mem_cons, List.not_mem_nil, or_false] at hjoint
      simpa [isJointIn, hmark, or_assoc] using hjoint

theorem Anatomy.hexadecimal {x : Char} (hx : x ∈ ['x', 'X']) {body : List Char}
    (h : ∀ c ∈ body, isHexadecimal c = true ∨ c ∈ ['.', '+', '-', 'p', 'P']) :
    Anatomy ('0' :: x :: body) ['0', x] body where
  text_eq := rfl
  mark := .inl (by rcases List.mem_pair.1 hx with rfl | rfl <;> simp [baseMarks])
  body := by
    have hmark : hasHexMark ('0' :: x :: body) = true := by
      rcases List.mem_pair.1 hx with rfl | rfl <;> simp [hasHexMark]
    intro c hc
    rcases h c hc with hdigit | hjoint
    · exact ((isHexadecimal_iff hmark).1 hdigit).imp_right .inl
    · refine .inr (.inr ?_)
      simp only [List.mem_cons, List.not_mem_nil, or_false] at hjoint
      simpa [isJointIn, hmark, or_assoc] using hjoint

theorem isDecimal_of_integral {letters : List Char} {isDigit : Char → Bool}
    (hbase : IntegralBase letters isDigit) {c : Char} (h : isDigit c = true) :
    isDecimal c = true := by
  rw [isDecimal_iff]
  cases hbase with
  | octal =>
    simp only [isOctal, Bool.or_eq_true, Bool.and_eq_true, decide_eq_true_eq, beq_iff_eq] at h
    rcases h with ⟨hlo, hhi⟩ | rfl
    · have hnine : c ≤ '9' := Char.le_trans hhi (by decide)
      exact .inr (by simpa [Char.isDigit] using ⟨hlo, hnine⟩)
    · exact .inl rfl
  | binary =>
    simp only [isBinary, Bool.or_eq_true, beq_iff_eq] at h
    rcases h with (rfl | rfl) | rfl
    · exact .inr rfl
    · exact .inr rfl
    · exact .inl rfl

/-- An integer in base eight or two. -/
theorem Anatomy.integral {letters : List Char} {isDigit : Char → Bool}
    (hbase : IntegralBase letters isDigit) {b : Char} (hb : b ∈ letters) {body : List Char}
    (h : ∀ c ∈ body, isDigit c = true) : Anatomy ('0' :: b :: body) ['0', b] body where
  text_eq := rfl
  mark := .inl (by
    cases hbase <;> rcases List.mem_pair.1 hb with rfl | rfl <;> simp [baseMarks])
  body := fun c hc => (isDecimal_iff.1 (isDecimal_of_integral hbase (h c hc))).imp_right
    fun hd => .inl (by simp [isDigitIn, hd])

theorem head?_append_of_mem_digits {a : List Char} (ha : a ∈ digits) (rest : List Char) :
    (a ++ rest).head? ≠ some '_' := by
  obtain ⟨c, ds, rfl, hc, -⟩ := mem_digits.1 ha
  rintro ⟨⟩
  exact absurd hc (by decide)

/-- Every number has the mark of its base, if it has one, and then a body. -/
theorem exists_anatomy {text : List Char} (h : text ∈ int ∨ text ∈ float) :
    ∃ mark body, Anatomy text mark body := by
  have hdigits {a : List Char} (ha : a ∈ digits) :
      ∀ c ∈ a, isDecimal c = true ∨ c ∈ ['.', '+', '-', 'e', 'E'] :=
    fun c hc => .inl (isDecimal_of_mem_digits ha c hc)
  have hexponent {e : List Char} (he : e ∈ maybe (Pattern.exponent ['e', 'E'])) :
      ∀ c ∈ e, isDecimal c = true ∨ c ∈ ['.', '+', '-', 'e', 'E'] := by
    rcases mem_maybe.1 he with rfl | he
    · simp
    · intro c hc
      rcases exists_of_mem_exponent he c hc with hm | rfl | rfl | hd
      · exact .inr (List.mem_append_right ['.', '+', '-'] hm)
      · exact .inr (by simp)
      · exact .inr (by simp)
      · exact .inl hd
  rcases h with h | h
  · rcases mem_int.1 h with ha | hhex | ⟨letters, isDigit, hbase, hint⟩
    · have hhead := head?_append_of_mem_digits ha []
      rw [List.append_nil] at hhead
      exact ⟨[], text, .decimal hhead (hdigits ha)⟩
    · obtain ⟨x, ds, rfl, hx, -, hds⟩ := mem_based.1 hhex
      exact ⟨_, _, .hexadecimal hx fun c hc => .inl (hds c hc)⟩
    · obtain ⟨b, ds, rfl, hb, -, hds⟩ := mem_based.1 hint
      exact ⟨_, _, .integral hbase hb hds⟩
  · rcases mem_float.1 h with ⟨a, b, e, rfl, ha, hb, he⟩ | ⟨a, e, rfl, ha, he⟩ |
      ⟨a, e, rfl, ha, he⟩ | ⟨x, a, f, e, rfl, hx, ha, hf, he⟩
    · refine ⟨[], _, .decimal (head?_append_of_mem_digits ha _) ?_⟩
      refine List.forall_mem_append.2 ⟨hdigits ha, List.forall_mem_cons.2 ⟨.inr (by simp), ?_⟩⟩
      exact List.forall_mem_append.2 ⟨fun c hc => .inl (hb c hc), hexponent he⟩
    · refine ⟨[], _, .decimal (head?_append_of_mem_digits ha _) ?_⟩
      exact List.forall_mem_append.2 ⟨hdigits ha, hexponent (.inr he)⟩
    · refine ⟨[], _, .decimal (by simp) (List.forall_mem_cons.2 ⟨.inr (by simp), ?_⟩)⟩
      exact List.forall_mem_append.2 ⟨hdigits ha, hexponent he⟩
    · refine ⟨_, _, .hexadecimal hx (List.forall_mem_append.2 ⟨fun c hc => .inl (ha c hc),
        List.forall_mem_append.2 ⟨?_, fun c hc => ?_⟩⟩)⟩
      · rcases hf with rfl | ⟨b, rfl, hb⟩
        · simp
        · exact List.forall_mem_cons.2 ⟨.inr (by simp), fun c hc => .inl (hb c hc)⟩
      · rcases exists_of_mem_exponent he c hc with hm | rfl | rfl | hd
        · exact .inr (List.mem_append_right ['.', '+', '-'] hm)
        · exact .inr (by simp)
        · exact .inr (by simp)
        · exact .inl (by simp [isHexadecimal, hd])

/-! ## The rule and what is refused -/

theorem isDigitIn_of_isJointIn {text : List Char} {c : Char} (h : isJointIn text c = true) :
    isDigitIn text c = false := by
  rcases hmark : hasHexMark text with _ | _ <;>
  · simp [isJointIn, hmark] at h
    rcases h with (rfl | rfl | rfl) | rfl | rfl <;> simp [isDigitIn, hmark]

theorem not_isDigitIn_bar (text : List Char) : isDigitIn text '_' = false := by
  simp [isDigitIn]

theorem not_isJointIn_mark (text : List Char) {mark : List Char} (h : mark ∈ baseMarks) :
    mark.getLast?.any (isJointIn text) = false := by
  unfold isJointIn
  simp only [baseMarks, List.mem_cons, List.not_mem_nil, or_false] at h
  cases hasHexMark text <;> rcases h with rfl | rfl | rfl | rfl | rfl | rfl <;> decide

section

variable {text mark body : List Char}

/-- Every underscore is in the body. -/
theorem Anatomy.split (h : Anatomy text mark body) {before after : List Char}
    (htext : text = before ++ '_' :: after) :
    ∃ ds, before = mark ++ ds ∧ body = ds ++ '_' :: after := by
  have hmark : '_' ∉ mark := by
    rcases h.mark with hmem | ⟨rfl, -⟩
    · have hall : ∀ m ∈ baseMarks, '_' ∉ m := by decide
      exact hall mark hmem
    · simp
  rcases List.append_eq_append_iff.1 (h.text_eq.symm.trans htext) with
    ⟨ds, hbefore, hbody⟩ | ⟨ds, rfl, hafter⟩
  · exact ⟨ds, hbefore, hbody⟩
  · cases ds with
    | nil => exact ⟨[], by simp, hafter.symm⟩
    | cons d ds =>
      obtain rfl : '_' = d := (List.cons.inj hafter).1
      simp at hmark

theorem Anatomy.before (h : Anatomy text mark body) {before after : List Char}
    (htext : text = before ++ '_' :: after) :
    before ∈ baseMarks ∨ ∃ ds d, before = ds ++ [d] ∧
      (d = '_' ∨ isDigitIn text d = true ∨ isJointIn text d = true) := by
  obtain ⟨ds, rfl, hbody⟩ := h.split htext
  rcases List.eq_nil_or_concat ds with rfl | ⟨es, d, rfl⟩
  · rw [List.append_nil]
    refine h.mark.imp_right fun ⟨_, hhead⟩ => absurd ?_ hhead
    rw [hbody]
    rfl
  · exact .inr ⟨mark ++ es, d, by simp, h.body d (by simp [hbody])⟩

theorem Anatomy.after (h : Anatomy text mark body) {before after : List Char}
    (htext : text = before ++ '_' :: after) : ∀ c ∈ after,
      c = '_' ∨ isDigitIn text c = true ∨ isJointIn text c = true := by
  obtain ⟨ds, -, hbody⟩ := h.split htext
  exact fun c hc => h.body c (by simp [hbody, hc])

theorem not_any_isJointIn {o : Option Char} (h : o.any (isDigitIn text) = true) :
    o.any (isJointIn text) = false := by
  cases o with
  | none => rfl
  | some c =>
    refine Bool.eq_false_iff.2 fun hjoint => ?_
    rw [Option.any_some] at h hjoint
    rw [isDigitIn_of_isJointIn hjoint] at h
    exact Bool.false_ne_true h

/-- A number follows the rule if it is not refused and no underscore is beside what parts it. -/
theorem Anatomy.separatesDigits_iff (h : Anatomy text mark body) :
    SeparatesDigits text ↔ ¬ Rule.MisplacesBar text ∧ ¬ BesideJoint text := by
  constructor
  · intro hsep
    refine ⟨?_, ?_⟩
    · rintro (⟨before, hbefore⟩ | ⟨before, after, hpair⟩)
      · have hnext := (hsep before [] hbefore.symm).2
        simp at hnext
      · have hnext := (hsep before ('_' :: after) (by simp [← hpair])).2
        simp [not_isDigitIn_bar] at hnext
    · rintro ⟨before, after, htext, hjoint⟩
      obtain ⟨hbefore, hafter⟩ := hsep before after htext
      rcases hjoint with hjoint | hjoint
      · have hnot := hbefore.elim (not_isJointIn_mark text) not_any_isJointIn
        exact Bool.false_ne_true (hnot.symm.trans hjoint)
      · exact Bool.false_ne_true ((not_any_isJointIn hafter).symm.trans hjoint)
  · rintro ⟨hbar, hjoint⟩ before after htext
    refine ⟨?_, ?_⟩
    · refine (h.before htext).imp_right ?_
      rintro ⟨ds, d, rfl, rfl | hd | hd⟩
      · exact absurd (.inr ⟨ds, after, by simp [htext]⟩) hbar
      · simpa using hd
      · exact absurd ⟨_, _, htext, .inl (by simpa using hd)⟩ hjoint
    · cases after with
      | nil => exact absurd (.inl ⟨before, htext.symm⟩) hbar
      | cons d ds =>
        rcases h.after htext d List.mem_cons_self with rfl | hd | hd
        · exact absurd (.inr ⟨before, ds, by simp [htext]⟩) hbar
        · exact hd
        · exact absurd ⟨_, _, htext, .inr hd⟩ hjoint

end

/-! ## Imaginary numbers -/

theorem hasHexMark_imaginary (text : List Char) : hasHexMark (text ++ ['i']) = hasHexMark text := by
  match text with
  | [] => rfl
  | [c] => simp [hasHexMark]
  | c :: d :: ds => simp [hasHexMark]

theorem split_imaginary {text before after : List Char} :
    text ++ ['i'] = before ++ '_' :: after ↔
      ∃ rest, after = rest ++ ['i'] ∧ text = before ++ '_' :: rest := by
  constructor
  · intro h
    rcases List.eq_nil_or_concat after with rfl | ⟨rest, c, rfl⟩
    · have hlast := (List.append_inj' h rfl).2
      simp at hlast
    · rw [List.concat_eq_append, ← List.cons_append, ← List.append_assoc] at h
      obtain ⟨htext, hlast⟩ := List.append_inj' h rfl
      exact ⟨rest, by rw [List.concat_eq_append, hlast], htext⟩
  · rintro ⟨rest, rfl, rfl⟩
    simp

theorem any_head?_imaginary {p : Char → Bool} (hp : p 'i' = false) (rest : List Char) :
    (rest ++ ['i']).head?.any p = rest.head?.any p := by
  cases rest <;> simp [hp]

theorem separatesDigits_imaginary (text : List Char) :
    SeparatesDigits (text ++ ['i']) ↔ SeparatesDigits text := by
  have hdigit : isDigitIn (text ++ ['i']) = isDigitIn text := by
    funext c
    rw [isDigitIn, isDigitIn, hasHexMark_imaginary]
  have hhead := any_head?_imaginary (p := isDigitIn text) (by simp [isDigitIn])
  unfold SeparatesDigits
  simp only [hdigit, split_imaginary]
  constructor
  · intro h before rest htext
    rw [← hhead]
    exact h before _ ⟨rest, rfl, htext⟩
  · rintro h before _ ⟨rest, rfl, htext⟩
    rw [hhead]
    exact h before rest htext

theorem besideJoint_imaginary (text : List Char) :
    BesideJoint (text ++ ['i']) ↔ BesideJoint text := by
  have hjoint : isJointIn (text ++ ['i']) = isJointIn text := by
    funext c
    rw [isJointIn, isJointIn, hasHexMark_imaginary]
  have hhead := any_head?_imaginary (p := isJointIn text)
    (by cases h : hasHexMark text <;> simp [isJointIn, h])
  unfold BesideJoint
  simp only [hjoint, split_imaginary]
  constructor
  · rintro ⟨before, _, ⟨rest, rfl, htext⟩, hany⟩
    rw [hhead] at hany
    exact ⟨before, rest, htext, hany⟩
  · rintro ⟨before, rest, htext, hany⟩
    rw [← hhead] at hany
    exact ⟨before, _, ⟨rest, rfl, htext⟩, hany⟩

theorem misplacesBar_imaginary {text : List Char} (h : ¬ Rule.MisplacesBar text) :
    ¬ Rule.MisplacesBar (text ++ ['i']) := by
  rintro (⟨before, hlast⟩ | ⟨before, after, hpair⟩)
  · have hlast := (List.append_inj' hlast rfl).2
    simp at hlast
  · have hsplit : text ++ ['i'] = before ++ '_' :: ('_' :: after) := by simp [← hpair]
    obtain ⟨rest, hrest, rfl⟩ := split_imaginary.1 hsplit
    cases rest with
    | nil => simp at hrest
    | cons c rest =>
      obtain rfl : '_' = c := (List.cons.inj hrest).1
      exact h (.inr ⟨before, rest, by simp⟩)

end Numeral

/-! ## Numbers among the lexemes -/

/-- A number, or one that is refused. -/
def Token.isNumber : Token → Bool
  | .literal .int _ | .literal .float _ | .literal .imaginary _ | .faulty .invalidNumber => true
  | _ => false

theorem Lexeme.fault?_of_number {l : Lexeme} (hnumber : l.token.isNumber = true)
    (h : l.token ≠ .faulty .invalidNumber) : l.fault? = none := by
  unfold fault?
  split
  · next fault hfault =>
    cases fault <;> simp [hfault, Token.isNumber] at hnumber h
  · rfl

theorem Rule.mem_of_numberKind? {r : Rule} {kind : LiteralKind} (h : r.numberKind? = some kind)
    {text : List Char} (htext : text ∈ r.pattern) : text ∈ Pattern.int ∨ text ∈ Pattern.float := by
  cases r with
  | int => exact .inl htext
  | float => exact .inr htext
  | _ => simp [Rule.numberKind?] at h

/-- A piece that is a number is matched by a pattern of numbers but for the letter `i`, and it is
refused if the underscores in it are misplaced. -/
theorem FirstPiece.number {cs : List Char} {t : Token} {k : Cut}
    (h : FirstPiece cs (.token t) k) (ht : t.isNumber = true) : ∃ text,
      (text ∈ int ∨ text ∈ float) ∧ (t = .faulty .invalidNumber ↔ Rule.MisplacesBar text) ∧
      (k.text = text ∨ k.text = text ++ ['i'] ∧ t ≠ .faulty .invalidNumber) := by
  generalize hkind : PieceKind.token t = kind at h
  cases h with
  | @rule r _ _ _ _ hcs hwins hmakes _ =>
    cases hmakes with
    | plain h =>
      subst hkind
      cases r <;> simp [Rule.plainKind?] at h <;> subst h <;> simp [Token.isNumber] at ht
    | badNumber h hbar =>
      obtain rfl := PieceKind.token.inj hkind
      exact ⟨_, Rule.mem_of_numberKind? h hwins.matched, by simp [hbar], .inl rfl⟩
    | imaginary h hbar _ =>
      obtain rfl := PieceKind.token.inj hkind
      exact ⟨_, Rule.mem_of_numberKind? h hwins.matched, by simp [hbar], .inr ⟨rfl, by simp⟩⟩
    | number h hbar _ =>
      obtain rfl := PieceKind.token.inj hkind
      exact ⟨_, Rule.mem_of_numberKind? h hwins.matched, by simp [hbar], .inl rfl⟩
    | lineComment | blockComment => cases hkind
    | openComment | rawString | openRawString =>
      obtain rfl := PieceKind.token.inj hkind
      simp [Token.isNumber] at ht
  | unfinished | unfinishedMark | unclosed | invalid =>
    obtain rfl := PieceKind.token.inj hkind
    simp [Token.isNumber] at ht

theorem FirstPiece.whole {cs : List Char} {kind : PieceKind} {k : Cut} (h : FirstPiece cs kind k) :
    k.whole = cs := by
  obtain ⟨c, ds, rfl⟩ := List.exists_cons_of_ne_nil h.ne_nil
  have hcuts := Piece.cuts_scan c ds
  rw [firstPiece_iff.1 h] at hcuts
  exact hcuts.1

/-- A lexeme is a piece, unless it is a byte order mark that comes too late. -/
theorem ReadsByPieces.exists_firstPiece {offset : Nat} {cs : List Char} {ps : List Piece}
    {ls : List Lexeme} (h : ReadsByPieces offset cs ps ls) {l : Lexeme} (hl : l ∈ ls)
    (hnot : l.token ≠ .faulty .invalidToken) : ∃ before k,
      FirstPiece k.whole (.token l.token) k ∧ cs = before ++ k.whole ∧
        l.span = ⟨offset + byteCount before, offset + byteCount before + byteCount k.text⟩ := by
  have hlater {cs : List Char} {offset : Nat} {kind : PieceKind} {k : Cut}
      (h : FirstPiece cs kind k)
      (ih : ∃ before k', FirstPiece k'.whole (.token l.token) k' ∧ k.rest = before ++ k'.whole ∧
        l.span = ⟨offset + byteCount k.text + byteCount before,
          offset + byteCount k.text + byteCount before + byteCount k'.text⟩) :
      ∃ before k, FirstPiece k.whole (.token l.token) k ∧ cs = before ++ k.whole ∧
        l.span = ⟨offset + byteCount before, offset + byteCount before + byteCount k.text⟩ := by
    obtain ⟨before, k', hk', hrest, hspan⟩ := ih
    refine ⟨k.text ++ before, k', hk', ?_, ?_⟩
    · rw [← h.whole, Cut.whole, hrest, List.append_assoc]
    · rw [hspan, byteCount_append, Nat.add_assoc]
  induction h with
  | nil => simp at hl
  | @token offset cs t k _ _ h _ ih =>
    rcases List.mem_cons.1 hl with rfl | hl
    · exact ⟨[], k, h.whole.symm ▸ h, h.whole.symm, rfl⟩
    · exact hlater h (ih hl)
  | gap h _ _ _ ih => exact hlater h (ih hl)
  | lateMark h _ _ ih =>
    rcases List.mem_cons.1 hl with rfl | hl
    · exact absurd rfl hnot
    · exact hlater h (ih hl)

/-- A number is refused if an underscore is at its end or two are in a row. So those that follow
the rule that underscores separate digits are the ones not refused that have no underscore beside a
point, the mark of an exponent or a sign. -/
theorem bars_separate_digits_iff {source : String} {l : Lexeme} (hl : l ∈ lex source)
    (hnumber : l.token.isNumber = true) :
    let text := l.span.slice source.toList
    (l.token ≠ .faulty .invalidNumber → l.token.text.toList = text) ∧
      (l.token = .faulty .invalidNumber ↔ Rule.MisplacesBar text) ∧
      (Numeral.SeparatesDigits text ↔
        l.token ≠ .faulty .invalidNumber ∧ ¬ Numeral.BesideJoint text) := by
  intro text
  have hinserted : l.isInserted = false :=
    Lexeme.isInserted_of_ne fun h => by simp [h, Token.isNumber] at hnumber
  have hspelled : l.token ≠ .faulty .invalidNumber → l.token.text.toList = text := fun h => by
    have hstands := (tiled_lex source).standsIn l hl
    rw [← hstands.text_eq hinserted (Lexeme.fault?_of_number hnumber h), Span.text,
      String.toList_ofList]
  have hinvalid : l.token ≠ .faulty .invalidToken := fun h => by simp [h, Token.isNumber] at hnumber
  obtain ⟨before, k, hfirst, hsource, hspan⟩ :=
    (readsByPieces_pieces source.toList 0 false).exists_firstPiece
      (List.mem_filter.2 ⟨hl, by simp [hinserted]⟩) hinvalid
  have hslice : text = k.text := by
    rw [Nat.zero_add] at hspan
    exact (congrArg₂ Span.slice hspan hsource).trans (slice_append before k.text k.rest)
  obtain ⟨digits, hmem, hrefused, hk⟩ := hfirst.number hnumber
  obtain ⟨mark, body, hanatomy⟩ := Numeral.exists_anatomy hmem
  refine ⟨hspelled, ?_⟩
  rw [hslice]
  rcases hk with hk | ⟨hk, haccepted⟩
  · rw [hk, hanatomy.separatesDigits_iff]
    exact ⟨hrefused, and_congr_left' (not_congr hrefused.symm)⟩
  · have hbar : ¬ Rule.MisplacesBar digits := fun h => haccepted (hrefused.2 h)
    rw [hk, Numeral.separatesDigits_imaginary, Numeral.besideJoint_imaginary,
      hanatomy.separatesDigits_iff]
    exact ⟨iff_of_false haccepted (Numeral.misplacesBar_imaginary hbar),
      and_congr_left' (iff_of_true hbar haccepted)⟩

/-- An underscore before the point is not refused, though it separates no digits. -/
theorem bar_before_point_is_accepted :
    let l : Lexeme := ⟨.literal .float "1_.5", ⟨0, 4⟩⟩
    l ∈ lex "1_.5" ∧ l.token.isNumber = true ∧ lexDiagnostics "1_.5" = [] ∧
      ¬ Numeral.SeparatesDigits (l.span.slice "1_.5".toList) := by
  intro l
  have hl : l ∈ lex "1_.5" := by decide +kernel
  have hsound : lexDiagnostics "1_.5" = [] := by decide +kernel
  have hslice : l.span.slice "1_.5".toList = ['1', '_', '.', '5'] := by decide
  refine ⟨hl, rfl, hsound, fun hsep => ?_⟩
  refine ((bars_separate_digits_iff hl rfl).2.2.1 hsep).2 ?_
  rw [hslice]
  exact ⟨['1'], ['.', '5'], rfl, .inr rfl⟩

end GoIface
