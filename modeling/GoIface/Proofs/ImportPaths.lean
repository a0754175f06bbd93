import GoIface.Proofs.Places

/-!
# Import paths

An identifier is spelled as one, and a string literal has a quote of one byte on either side
(`Token.WellSpelled`), so what stands between them can be cut out of the source. An import path is
such a literal.
-/

namespace GoIface

/-- A quote of one byte around what is quoted. -/
def Quoted (text inside : List Char) : Prop :=
  ∃ quote : Char, quote.utf8Size = 1 ∧ text = quote :: (inside ++ [quote])

/-- The text of a string literal is quoted, and a name is an identifier and no keyword. -/
def Token.WellSpelled : Token → Prop
  | .literal .string text | .literal .rawString text => ∃ inside, Quoted text.toList inside
  | .ident name => Piece.isIdentifier name = true
  | _ => True

def PieceKind.WellSpelled : PieceKind → Prop
  | .token t => t.WellSpelled
  | _ => True

theorem Token.WellSpelled.of_quoted {kind : LiteralKind} {text : String} {inside : List Char}
    (h : Quoted text.toList inside) : Token.WellSpelled (.literal kind text) := by
  cases kind with
  | string | rawString => exact ⟨inside, h⟩
  | _ => trivial

theorem Token.WellSpelled.of_number {kind : LiteralKind} (h : kind ≠ .string ∧ kind ≠ .rawString)
    (text : String) : Token.WellSpelled (.literal kind text) := by
  cases kind with
  | string => exact absurd rfl h.1
  | rawString => exact absurd rfl h.2
  | _ => trivial

theorem kind_decimal (cs : List Char) :
    (Numeral.decimal cs).1 = .int ∨ (Numeral.decimal cs).1 = .float := by
  simp only [Numeral.decimal]
  split
  · exact .inr rfl
  · split
    · exact .inr rfl
    · exact .inl rfl

theorem kind_based (letter : Char) (isDigit : Char → Bool) (cs : List Char) :
    (Numeral.based letter isDigit cs).1 = some .int ∨
      (Numeral.based letter isDigit cs).1 = some .float := by
  simp only [Numeral.based]
  split
  · simpa using kind_decimal _
  · exact .inl rfl

theorem kind_numeral {cs : List Char} {kind : LiteralKind}
    (h : (Numeral.numeral cs).1 = some kind) : kind = .int ∨ kind = .float := by
  have hdecimal {cs : List Char} (h : ((Numeral.decimal cs).map some id).1 = some kind) :
      kind = .int ∨ kind = .float :=
    Option.some.inj h ▸ kind_decimal cs
  have hbased {b : Char} {isDigit : Char → Bool} {cs : List Char}
      (h : (Numeral.based b isDigit cs).1 = some kind) : kind = .int ∨ kind = .float := by
    simpa [h] using kind_based b isDigit cs
  unfold Numeral.numeral at h
  split at h
  · split at h
    · simp only [Numeral.hexadecimal] at h
      split at h
      · split at h
        · exact .inr (Option.some.inj h).symm
        · simp at h
      · split at h
        · exact .inr (Option.some.inj h).symm
        · exact hbased h
    · split at h
      · exact hbased h
      · split at h
        · exact hbased h
        · exact hdecimal h
  · exact hdecimal h

theorem wellSpelled_numeral (cs : List Char) : (Numeral.token cs).1.WellSpelled := by
  unfold Numeral.token
  split
  · trivial
  · next kind k hk =>
    have hkind := kind_numeral (congrArg Prod.fst hk)
    split
    · trivial
    · split
      · trivial
      · refine .of_number ?_ _
        rcases hkind with rfl | rfl <;> simp

theorem wellSpelled_literal {kind : LiteralKind} {quote : Char} (hquote : quote.utf8Size = 1)
    (mayBeEmpty : Bool) (cs : List Char) :
    (Delimited.literal kind quote mayBeEmpty cs).1.WellSpelled := by
  simp only [Delimited.literal]
  split
  · split
    · exact .of_quoted ⟨quote, hquote, String.toList_ofList⟩
    · trivial
  · trivial

theorem wellSpelled_rawString {quote : Char} (hquote : quote.utf8Size = 1) (cs : List Char) :
    (Delimited.rawString quote cs).1.WellSpelled := by
  simp only [Delimited.rawString]
  split
  · next c rest hrest =>
    have hc : (c != quote) = false := by
      have hhead : c ∈ (Text.Cut.run (· != quote) cs).rest.head? := by
        have hrest : (Text.Cut.run (· != quote) cs).rest = c :: rest := hrest
        simp [hrest]
      exact Text.Cut.run_stops (p := (· != quote)) hhead
    obtain rfl : c = quote := by simpa using hc
    exact .of_quoted ⟨c, hquote, String.toList_ofList⟩
  · trivial

theorem wellSpelled_word {c : Char} (hc : Piece.startsIdent c = true) (cs : List Char) :
    (Piece.word (String.ofList (c :: cs.takeWhile Piece.continuesIdent))).WellSpelled := by
  unfold Piece.word
  split
  · trivial
  · next hnone =>
    show Piece.isIdentifier _ = true
    simp only [Piece.isIdentifier, String.toList_ofList, hc, List.all_takeWhile, hnone,
      Option.isNone_none, Bool.and_self]

theorem wellSpelled_word? {c : Char} {cs : List Char} {p : Token × Text.Cut}
    (h : Piece.word? c cs = some p) : p.1.WellSpelled := by
  unfold Piece.word? at h
  split at h
  · next hc =>
    obtain rfl := Option.some.inj h
    exact wellSpelled_word hc cs
  split at h
  · obtain rfl := Option.some.inj h
    exact wellSpelled_numeral _
  unfold Piece.literal? at h
  split at h
  · next hc =>
    obtain rfl := Option.some.inj h
    exact eq_of_beq hc ▸ wellSpelled_rawString (by rfl) _
  split at h
  · next hc =>
    obtain rfl := Option.some.inj h
    exact eq_of_beq hc ▸ wellSpelled_literal (by rfl) _ _
  split at h
  · next hc =>
    obtain rfl := Option.some.inj h
    exact eq_of_beq hc ▸ wellSpelled_literal (by rfl) _ _
  · simp at h

theorem wellSpelled_gap? {c : Char} {cs : List Char} {p : PieceKind × Text.Cut}
    (h : Piece.gap? c cs = some p) : p.1.WellSpelled := by
  unfold Piece.gap? at h
  repeat' split at h
  all_goals first | (obtain rfl := Option.some.inj h; trivial) | simp at h

theorem wellSpelled_mark (c : Char) (cs : List Char) : (Piece.mark c cs).1.WellSpelled := by
  unfold Piece.mark
  split <;> trivial

theorem wellSpelled_comment? {cs : List Char} {p : PieceKind × Text.Cut}
    (h : Piece.comment? cs = some p) : p.1.WellSpelled := by
  unfold Piece.comment? at h
  repeat' split at h
  all_goals first | (obtain rfl := Option.some.inj h; trivial) | simp at h

theorem wellSpelled_scan (c : Char) (cs : List Char) : (Piece.scan c cs).1.WellSpelled := by
  unfold Piece.scan
  split
  · exact wellSpelled_gap? ‹_›
  · exact wellSpelled_word? ‹_›
  · split
    · rcases hcomment : Piece.comment? cs with _ | p
      · exact wellSpelled_mark c cs
      · exact wellSpelled_comment? hcomment
    · exact wellSpelled_mark c cs

theorem wellSpelled_pieces (cs : List Char) : ∀ p ∈ pieces cs, p.kind.WellSpelled := by
  fun_induction pieces cs with
  | case1 => simp
  | case2 c cs ih => exact List.forall_mem_cons.2 ⟨wellSpelled_scan c cs, ih⟩

theorem wellSpelled_lexemesFrom {ps : List Piece} (h : ∀ p ∈ ps, p.kind.WellSpelled) :
    ∀ (offset : Nat) (ends : Bool), ∀ l ∈ lexemesFrom offset ends ps, l.token.WellSpelled := by
  induction ps with
  | nil =>
    intro offset ends l hl
    cases ends <;> simp only [lexemesFrom, Bool.false_eq_true, if_false, if_true] at hl
    · simp at hl
    · rw [List.mem_singleton.1 hl]
      trivial
  | cons p ps ih =>
    obtain ⟨hp, hps⟩ := List.forall_mem_cons.1 h
    have hnext := ih hps
    intro offset ends
    unfold lexemesFrom
    split
    · next t hkind =>
      rw [hkind] at hp
      exact List.forall_mem_cons.2 ⟨hp, hnext _ _⟩
    · exact hnext _ _
    · exact hnext _ _
    · split
      · exact List.forall_mem_cons.2 ⟨trivial, hnext _ _⟩
      · exact hnext _ _
    · split
      · exact List.forall_mem_cons.2 ⟨trivial, hnext _ _⟩
      · exact hnext _ _
    · split
      · exact hnext _ _
      · exact List.forall_mem_cons.2 ⟨trivial, hnext _ _⟩

theorem wellSpelled_lex (source : String) : ∀ l ∈ lex source, l.token.WellSpelled :=
  wellSpelled_lexemesFrom (wellSpelled_pieces _) 0 false

/-! ## Paths -/

namespace LexedText

variable {T : LexedText} {c : Cursor}

/-- The path is a string literal of the run. -/
def ReadsPath (run : List Lexeme) (i : ImportSpec) : Prop :=
  ∃ l ∈ run, i.path.span = l.span ∧
    ∃ text, l.token = .literal .string text ∨ l.token = .literal .rawString text

theorem importSpec_path : T.Spec Parse.importSpec c fun run _ i => ReadsPath run i := by
  have hname : T.Spec Parse.importName? c fun _ _ _ => True :=
    Spec.mono importName? fun _ _ _ _ _ => trivial
  have hpath (c : Cursor) : T.Spec Parse.stringLiteral? c fun run _ x => ∀ p ∈ x,
      ∃ l, run = [l] ∧ p.span = l.span ∧
        ∃ text, l.token = .literal .string text ∨ l.token = .literal .rawString text := by
    refine .look ?_
    split
    · next text h =>
      refine .finish ((Spec.bump h).mono ?_)
      rintro run b s - ⟨-, -, l, rfl, hl, rfl⟩ _ ⟨⟩
      exact ⟨l, rfl, rfl, text, .inl hl⟩
    · next text h =>
      refine .finish ((Spec.bump h).mono ?_)
      rintro run b s - ⟨-, -, l, rfl, hl, rfl⟩ _ ⟨⟩
      exact ⟨l, rfl, rfl, text, .inr hl⟩
    · exact .pure (by simp)
  refine hname.bind fun name c₁ run _ _ => (hpath c₁).bind fun path c₂ run' _ h => ?_
  cases path with
  | none => exact .expected
  | some path =>
    obtain ⟨l, rfl, hspan, htext⟩ := h path rfl
    exact .pure ⟨l, by simp, hspan, htext⟩

theorem importDecl_paths {t : Token} (h : c.next? = some t) :
    T.Spec Parse.importDecl c fun run _ is => InRow ReadsPath run is := by
  refine (Spec.bump h).bind fun _ c₁ run _ _ => .finish ?_
  refine (group_inRow fun c => importSpec_path).mono fun run' _ p _ hp => ?_
  simpa using hp.widen run []

/-- The paths of the imports stand in the text in the order of the imports. -/
theorem file_paths : T.Spec Parse.file c fun run _ f => InRow ReadsPath run f.imports := by
  have hdecl (c : Cursor) : T.Spec Parse.decl c
      fun run _ d => InRow (fun _ _ => True) run ((fun _ => []) d : List Unit) :=
    Spec.mono decl fun _ _ _ _ _ => .nil
  exact (file_inRow importDecl_paths hdecl).mono fun _ _ _ _ h => h.1

/-- The path of each import is a string literal of the text. -/
theorem path_of_import {c' : Cursor} {file : File} (hc : T.At c)
    (hread : Parse.file c = .ok (file, c')) {i : ImportSpec} (hi : i ∈ file.imports) :
    ReadsPath T.lexemes i := by
  obtain ⟨run, hmoves, hpaths⟩ := file_paths.of_ok hc hread
  obtain ⟨part, hpart, l, hl, hpath⟩ := hpaths.exists_of_mem hi
  exact ⟨l, hmoves.isInfix.subset (hpart.subset hl), hpath⟩

end LexedText

/-- The span of an import path is that of a quoted text, and its value is what is quoted. -/
theorem value_of_import {source : String} {file : File} {made : Counts}
    (h : File.ofSource source = .ok (file, made)) {i : ImportSpec} (hi : i ∈ file.imports) :
    ∃ text inside, i.path.span.CutsOut source text ∧ Quoted text inside ∧
      i.path.value source = String.ofList inside := by
  obtain ⟨-, c, hread, -⟩ := read_ofSource h
  obtain ⟨l, hl, hspan, literal, htoken⟩ :=
    LexedText.path_of_import (LexedText.at_ofSource source) hread hi
  obtain ⟨before, text, after, hsource, hcovers, htext⟩ := (tiled_lex source).standsIn l hl
  have hquoted : ∃ inside, Quoted literal.toList inside := by
    have hwell := wellSpelled_lex source l hl
    rcases htoken with htoken | htoken <;> rwa [htoken] at hwell
  have hliteral : literal.toList = text := by
    split at htext
    · rcases htoken with htoken | htoken <;> simp [htoken] at htext
    · rcases htoken with htoken | htoken <;> simpa [htoken, Token.text] using htext
  obtain ⟨inside, quote, hquote, hinside⟩ := hquoted
  rw [hliteral] at hinside
  have hcut : i.path.span.CutsOut source text :=
    ⟨before, after, hsource, by rw [hspan, hcovers, Nat.zero_add]⟩
  refine ⟨text, inside, hcut, ⟨quote, hquote, hinside⟩, ?_⟩
  have hlong : ¬ byteCount text < 2 := by
    rw [hinside, byteCount_cons, byteCount_append, byteCount_cons, hquote]
    omega
  simp only [StringLiteral.value, hcut.slice_eq, if_neg hlong]
  simp [hinside]

end GoIface
