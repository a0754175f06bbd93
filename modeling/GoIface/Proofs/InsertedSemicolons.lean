import GoIface.Proofs.Tiling

/-!
# Where semicolons are inserted

The rule of inserted semicolons looks at a token and the gap after it, up to the next token or the
end of the text (`semicolonsAfter`). A semicolon goes into the gap if a line may end after the
token and one does: at the first line break, or where the text ends. `lexemes_punctuated` says that
the lexemes of every text are its tokens with the semicolons of the rule after each, and so with no
others.
-/

namespace GoIface

open GoIface.Text

/-! ## The rule -/

/-- The spellings of the keywords and marks that a line may end after. -/
def lineEnders : List String :=
  ["break", "continue", "fallthrough", "return", "++", "--", ")", "]", "\x7d"]

/-- A line may end after an identifier, a literal and some keywords and marks. -/
def Token.mayEndLine : Token → Bool
  | .ident _ | .literal _ _ => true
  | t => lineEnders.contains t.fixedText

/-- Where the first line break is in a text that starts at an offset. -/
def firstBreak? (offset : Nat) : List Char → Option Nat
  | [] => none
  | c :: cs =>
    if Delimited.isLineBreak c then some offset else firstBreak? (offset + c.utf8Size) cs

/-- Where a line ends in the gap that starts at an offset and goes up to the next lexeme, or up to
the end of the text, where a line ends in any case. -/
def lineEnd? (source : List Char) (start : Nat) : Option Lexeme → Option Nat
  | some next => firstBreak? start (Span.slice ⟨start, next.span.start⟩ source)
  | none =>
    some ((firstBreak? start (Span.slice ⟨start, byteCount source⟩ source)).getD (byteCount source))

def semicolonsAfter (source : List Char) (l : Lexeme) (next : Option Lexeme) : List Lexeme :=
  if l.token.mayEndLine then ((lineEnd? source l.span.stop next).map Lexeme.insertedSemi).toList
  else []

/-- Lexemes with the semicolons that the rule inserts after each. -/
def punctuated (source : List Char) : List Lexeme → List Lexeme
  | [] => []
  | l :: ls => l :: (semicolonsAfter source l ls.head? ++ punctuated source ls)

theorem Token.mayEndLine_eq (t : Token) : t.mayEndLine = t.endsStatement := by
  cases t with
  | ident | literal | faulty => rfl
  | keyword k => cases k <;> rfl
  | mark m => cases m <;> rfl

/-! ## Line breaks -/

theorem firstBreak?_append (cs ds : List Char) (offset : Nat) : firstBreak? offset (cs ++ ds)
    = (firstBreak? offset cs).or (firstBreak? (offset + byteCount cs) ds) := by
  induction cs generalizing offset with
  | nil => rfl
  | cons c cs ih =>
    simp only [List.cons_append, firstBreak?, byteCount_cons, ← Nat.add_assoc]
    split
    · rfl
    · exact ih _

theorem isSome_firstBreak? (offset : Nat) (cs : List Char) :
    (firstBreak? offset cs).isSome = cs.any Delimited.isLineBreak := by
  induction cs generalizing offset with
  | nil => rfl
  | cons c cs ih => by_cases hc : Delimited.isLineBreak c <;> simp [firstBreak?, hc, ih]

theorem firstBreak?_of_no_break {cs : List Char} (h : cs.any Delimited.isLineBreak = false)
    (offset : Nat) : firstBreak? offset cs = none := by
  rw [← Option.isSome_eq_false_iff.trans Option.isNone_iff_eq_none, isSome_firstBreak?, h]

theorem firstBreak?_of_break {cs : List Char} (h : cs.any Delimited.isLineBreak = true)
    (offset : Nat) : ∃ n, firstBreak? offset cs = some n := by
  rw [← Option.isSome_iff_exists, isSome_firstBreak?, h]

theorem Piece.map_breakAt? (kind : PieceKind) (cs : List Char) (offset : Nat) :
    (Piece.breakAt? ⟨kind, cs⟩).map (offset + ·) = firstBreak? offset cs := by
  induction cs generalizing offset with
  | nil => rfl
  | cons c cs ih =>
    rw [firstBreak?, ← ih]
    by_cases hc : Delimited.isLineBreak c
    · simp [breakAt?, hc]
    · by_cases hany : cs.any Delimited.isLineBreak <;> simp [breakAt?, hc, hany, Nat.add_assoc]

theorem Piece.any_isLineBreak_gap? {c : Char} {cs : List Char} {p : PieceKind × Cut}
    (h : gap? c cs = some p) (hkind : p.1 = .blank ∨ p.1 = .lineComment) :
    p.2.text.any Delimited.isLineBreak = false := by
  unfold gap? at h
  split at h
  · next hc =>
    obtain rfl := Option.some.inj h
    refine List.any_eq_false.2 fun d hd => ?_
    have hd : isSpace d = true := by
      rcases List.mem_cons.1 hd with rfl | hd
      · exact hc
      · exact Cut.of_mem_run hd
    simp only [isSpace, Bool.or_eq_true, beq_iff_eq] at hd
    rcases hd with rfl | rfl <;> decide
  split at h
  · obtain rfl := Option.some.inj h
    simp at hkind
  split at h
  · split at h <;>
    · obtain rfl := Option.some.inj h
      simp at hkind
  split at h
  · obtain rfl := Option.some.inj h
    simp at hkind
  · simp at h

theorem Piece.any_isLineBreak_comment? {cs : List Char} {p : PieceKind × Cut}
    (h : comment? cs = some p) (hkind : p.1 = .blank ∨ p.1 = .lineComment) :
    p.2.text.any Delimited.isLineBreak = false := by
  unfold comment? at h
  split at h
  · next cs =>
    obtain rfl := Option.some.inj h
    refine List.any_eq_false.2 fun d hd => ?_
    rcases List.mem_append.1 hd with hd | hd
    · obtain rfl : d = '/' := by simpa using hd
      decide
    · simpa using Cut.of_mem_run hd
  · split at h <;>
    · obtain rfl := Option.some.inj h
      simp at hkind
  · simp at h

theorem Piece.not_gap_mark (c : Char) (cs : List Char) :
    ¬ ((mark c cs).1 = .blank ∨ (mark c cs).1 = .lineComment) := by
  unfold mark
  split <;> simp

/-- Neither spaces nor a line comment contain a line break. -/
theorem Piece.any_isLineBreak_scan {c : Char} {cs : List Char}
    (h : (scan c cs).1 = .blank ∨ (scan c cs).1 = .lineComment) :
    (scan c cs).2.text.any Delimited.isLineBreak = false := by
  unfold scan at h ⊢
  split
  · next p _ hgap =>
    simp only [hgap] at h
    exact any_isLineBreak_gap? hgap h
  · next hgap hword => simp [hgap, hword] at h
  · next hgap hword =>
    simp only [hgap, hword] at h
    split
    · next hc =>
      rw [if_pos hc] at h
      rcases hk : comment? cs with _ | p
      · rw [hk] at h
        exact absurd h (not_gap_mark c cs)
      · rw [hk] at h
        exact any_isLineBreak_comment? hk h
    · next hc =>
      rw [if_neg hc] at h
      exact absurd h (not_gap_mark c cs)

/-! ## Gaps -/

/-- The semicolons in a gap after a lexeme, as far as the gap has been read. -/
def semicolonsIn (l : Lexeme) (gap : List Char) : List Lexeme :=
  if l.token.mayEndLine then ((firstBreak? l.span.stop gap).map Lexeme.insertedSemi).toList else []

/-- A line may end after the lexeme and has not ended in the gap so far. -/
def awaitsBreak (l : Lexeme) (gap : List Char) : Bool :=
  l.token.endsStatement && !gap.any Delimited.isLineBreak

/-- What comes after a lexeme when the gap has been read so far and these are the next pieces. -/
def restFrom (l : Lexeme) (gap : List Char) (ps : List Piece) : List Lexeme :=
  semicolonsIn l gap ++ lexemesFrom (l.span.stop + byteCount gap) (awaitsBreak l gap) ps

section Gap

variable {source before gap : List Char} {l m : Lexeme} {ps : List Piece}

theorem semicolonsAfter_some {rest : List Char} (hsource : source = before ++ (gap ++ rest))
    (hl : l.span.stop = byteCount before) (hm : m.span.start = l.span.stop + byteCount gap) :
    semicolonsAfter source l (some m) = semicolonsIn l gap := by
  rw [semicolonsAfter, lineEnd?, hm, hl, hsource, slice_append, semicolonsIn, hl]

theorem semicolonsAfter_none (hsource : source = before ++ gap)
    (hl : l.span.stop = byteCount before) :
    semicolonsAfter source l none = restFrom l gap [] := by
  have hslice : Span.slice ⟨byteCount before, byteCount source⟩ source = gap := by
    have h := slice_append before gap []
    rwa [List.append_nil, ← byteCount_append, ← hsource] at h
  rw [semicolonsAfter, lineEnd?, restFrom, semicolonsIn, awaitsBreak, hl, hslice, hsource,
    byteCount_append, Token.mayEndLine_eq]
  rcases hany : gap.any Delimited.isLineBreak with _ | _
  · have hnone := firstBreak?_of_no_break hany (byteCount before)
    cases l.token.endsStatement <;> simp [lexemesFrom, hnone]
  · obtain ⟨n, hn⟩ := firstBreak?_of_break hany (byteCount before)
    cases l.token.endsStatement <;> simp [lexemesFrom, hn]

theorem semicolonsIn_append {cs : List Char} (hcs : cs.any Delimited.isLineBreak = false) :
    semicolonsIn l (gap ++ cs) = semicolonsIn l gap := by
  rw [semicolonsIn, firstBreak?_append, firstBreak?_of_no_break hcs, Option.or_none, semicolonsIn]

theorem awaitsBreak_append {cs : List Char} (hcs : cs.any Delimited.isLineBreak = false) :
    awaitsBreak l (gap ++ cs) = awaitsBreak l gap := by
  rw [awaitsBreak, List.any_append, hcs, Bool.or_false, awaitsBreak]

/-- No line ends in a piece of the gap without a line break. -/
theorem restFrom_no_break {p : Piece} (hp : p.text.any Delimited.isLineBreak = false)
    (hpass : ∀ ends, lexemesFrom (l.span.stop + byteCount gap) ends (p :: ps)
      = lexemesFrom (l.span.stop + byteCount gap + p.size) ends ps) :
    restFrom l gap (p :: ps) = restFrom l (gap ++ p.text) ps := by
  rw [restFrom, hpass, restFrom, semicolonsIn_append hp, awaitsBreak_append hp, byteCount_append,
    Nat.add_assoc, Piece.size]

/-- A line that ends in a piece of the gap ends there at the first line break. -/
theorem restFrom_break {kind : PieceKind} (hkind : kind = .newline ∨ kind = .blockComment)
    (cs : List Char) : restFrom l gap (⟨kind, cs⟩ :: ps) = restFrom l (gap ++ cs) ps := by
  have hbreak := Piece.map_breakAt? kind cs (l.span.stop + byteCount gap)
  rcases hany : cs.any Delimited.isLineBreak with _ | _
  · rw [firstBreak?_of_no_break hany, Option.map_eq_none_iff] at hbreak
    exact restFrom_no_break hany fun ends => lexemesFrom_no_break hkind (.inr hbreak)
  obtain ⟨n, hn⟩ := firstBreak?_of_break hany (l.span.stop + byteCount gap)
  obtain ⟨k, hk, hkn⟩ := Option.map_eq_some_iff.1 (hbreak.trans hn)
  rcases hends : l.token.endsStatement with _ | _
  · simp [restFrom, semicolonsIn, awaitsBreak, Token.mayEndLine_eq, hends, Nat.add_assoc,
      lexemesFrom_no_break hkind (.inl rfl)]
  rcases hgap : gap.any Delimited.isLineBreak with _ | _
  · have hnone := firstBreak?_of_no_break hgap l.span.stop
    simp [restFrom, semicolonsIn, awaitsBreak, Token.mayEndLine_eq, hends, hgap, hany,
      firstBreak?_append, hnone, hn, lexemesFrom_break hkind hk, hkn, Nat.add_assoc]
  · -- the line has ended already
    obtain ⟨n, hn⟩ := firstBreak?_of_break hgap l.span.stop
    simp [restFrom, semicolonsIn, awaitsBreak, Token.mayEndLine_eq, hends, hgap,
      firstBreak?_append, hn, lexemesFrom_no_break hkind (.inl rfl), Nat.add_assoc]

/-- The gap stops at the next lexeme. -/
theorem restFrom_lexeme {p : Piece} (hm : lexemesFrom (l.span.stop + byteCount gap)
      (awaitsBreak l gap) (p :: ps) = m :: lexemesFrom m.span.stop m.token.endsStatement ps) :
    restFrom l gap (p :: ps) = semicolonsIn l gap ++ m :: restFrom m [] ps := by
  rw [restFrom, hm]
  simp [restFrom, semicolonsIn, firstBreak?, awaitsBreak]

end Gap

/-! ## Texts -/

/-- The lexemes that are not inserted. -/
def written (ls : List Lexeme) : List Lexeme := ls.filter fun l => !l.isInserted

theorem written_insertedSemi (n : Nat) (ls : List Lexeme) :
    written (.insertedSemi n :: ls) = written ls := by
  simp [written, Lexeme.isInserted, Lexeme.insertedSemi, Span.point, Span.isEmpty, Span.size]

theorem written_semicolonsIn_append (l : Lexeme) (gap : List Char) (ls : List Lexeme) :
    written (semicolonsIn l gap ++ ls) = written ls := by
  unfold semicolonsIn
  split
  · rcases firstBreak? l.span.stop gap with _ | n
    · rfl
    · exact written_insertedSemi n ls
  · rfl

theorem written_restFrom_nil (l : Lexeme) (gap : List Char) : written (restFrom l gap []) = [] := by
  rw [restFrom, written_semicolonsIn_append, lexemesFrom]
  split
  · exact written_insertedSemi _ _
  · rfl

/-- What comes after a lexeme is what the rule puts there. -/
def FollowsRule (source : List Char) (l : Lexeme) (ls : List Lexeme) : Prop :=
  l :: ls = punctuated source (l :: written ls)

theorem FollowsRule.lexeme {source gap : List Char} {l m : Lexeme} {ls : List Lexeme}
    (h : FollowsRule source m ls) (hm : m.isInserted = false)
    (hsemis : semicolonsAfter source l (some m) = semicolonsIn l gap) :
    FollowsRule source l (semicolonsIn l gap ++ m :: ls) := by
  have hwritten : written (m :: ls) = m :: written ls := by simp [written, hm]
  rw [FollowsRule, written_semicolonsIn_append, hwritten, punctuated, List.head?_cons, hsemis, ← h]

theorem followsRule_pieces {source : List Char} (cs : List Char) : ∀ {before gap : List Char}
    {l : Lexeme}, source = before ++ (gap ++ cs) → l.span.stop = byteCount before →
      FollowsRule source l (restFrom l gap (pieces cs)) := by
  fun_induction pieces cs with
  | case1 =>
    intro before gap l hsource hl
    rw [List.append_nil] at hsource
    rw [FollowsRule, written_restFrom_nil, ← semicolonsAfter_none hsource hl]
    simp [punctuated]
  | case2 c cs ih =>
    intro before gap l hsource hl
    have hfits := Piece.fits_scan c cs
    have hquiet := @Piece.any_isLineBreak_scan c cs
    obtain ⟨hwhole, hne⟩ := Piece.cuts_scan c cs
    rw [← hwhole, Cut.whole] at hsource
    generalize (Piece.scan c cs).1 = kind at *
    generalize (Piece.scan c cs).2 = k at *
    -- the gap goes on
    have hgap (h : restFrom l gap (⟨kind, k.text⟩ :: pieces k.rest)
        = restFrom l (gap ++ k.text) (pieces k.rest)) :
        FollowsRule source l (restFrom l gap (⟨kind, k.text⟩ :: pieces k.rest)) := by
      rw [h]
      exact ih (by rw [hsource, List.append_assoc]) hl
    -- it stops at the next lexeme
    let start := l.span.stop + byteCount gap
    have hnext (t : Token) (h : lexemesFrom start (awaitsBreak l gap)
        (⟨kind, k.text⟩ :: pieces k.rest) = ⟨t, start, start + byteCount k.text⟩ ::
          lexemesFrom (start + byteCount k.text) t.endsStatement (pieces k.rest)) :
        FollowsRule source l (restFrom l gap (⟨kind, k.text⟩ :: pieces k.rest)) := by
      have hpos := byteCount_pos hne
      have hsource' : source = (before ++ (gap ++ k.text)) ++ ([] ++ k.rest) := by simp [hsource]
      rw [restFrom_lexeme h]
      refine FollowsRule.lexeme (ih hsource' ?_) ?_ (semicolonsAfter_some hsource hl rfl)
      · simp [start, hl, Nat.add_assoc]
      · simp [Lexeme.isInserted, Span.isEmpty, Span.size]
        omega
    cases kind with
    | token t => exact hnext t rfl
    | blank => exact hgap (restFrom_no_break (hquiet (.inl rfl)) fun _ => rfl)
    | lineComment => exact hgap (restFrom_no_break (hquiet (.inr rfl)) fun _ => rfl)
    | newline => exact hgap (restFrom_break (.inl rfl) _)
    | blockComment => exact hgap (restFrom_break (.inr rfl) _)
    | byteOrderMark =>
      by_cases hzero : start = 0
      · refine hgap (restFrom_no_break ?_ fun _ => ?_)
        · have hmark : k.text = ['\ufeff'] := hfits
          rw [hmark]
          decide
        · exact if_pos hzero
      · exact hnext (.faulty .invalidToken) (if_neg hzero)

/-- The lexemes of a text are its tokens, each followed by the semicolon that the rule of inserted
semicolons asks for, if it does. -/
theorem lexemes_punctuated (source : String) :
    lex source = punctuated source.toList (written (lex source)) := by
  -- a fault before the text changes nothing, as no line may end after it
  let start : Lexeme := ⟨.faulty .invalidToken, .point 0⟩
  have hsource : source.toList = [] ++ ([] ++ source.toList) := rfl
  have h : FollowsRule source.toList start (lex source) :=
    followsRule_pieces source.toList hsource rfl
  exact (List.cons.inj h).2

end GoIface
