import GoIface.Proofs.Lines

/-!
# Texts spelled from their tokens

The tokens of a text without faults, spelled with one space between neighbours, are read again as
the same tokens (`lex_spelled`). A token is read again from its spelling because white space is
joined to none, and no semicolon is inserted: between the spellings there are no line breaks, and
the last token ends no statement, as the semicolon after it was one of the tokens already.
-/

namespace GoIface

open GoIface.Text

/-- The spellings of the tokens with one space between neighbours. -/
def spelled (ts : List Token) : String := " ".intercalate (ts.map Token.text)

/-- The token is read from its spelling where white space follows. -/
structure Token.Respells (t : Token) : Prop where
  scans : Piece.Scans ⟨.token t, t.text.toList⟩ whiteAhead
  faultless : ∀ e, t ≠ .faulty e
  starts : ∃ c cs, t.text.toList = c :: cs ∧ Piece.isSpace c = false

/-! ## Tokens of a text -/

theorem Piece.exists_scan {p : Piece} {cs : List Char} (h : p ∈ pieces cs) :
    ∃ c ds, p = ⟨(scan c ds).1, (scan c ds).2.text⟩ := by
  fun_induction pieces cs with
  | case1 => simp at h
  | case2 c cs ih =>
    rcases List.mem_cons.1 h with rfl | h
    · exact ⟨c, cs, rfl⟩
    · exact ih h

/-- What is scanned as a token is scanned so again by itself. -/
theorem Token.respells_of_scan {t : Token} {c : Char} {cs : List Char}
    (ht : (Piece.scan c cs).1 = .token t) (hfault : ∀ e, t ≠ .faulty e) : t.Respells := by
  obtain ⟨hwhole, hne⟩ := Piece.cuts_scan c cs
  have hspell : t.text.toList = (Piece.scan c cs).2.text := by
    have hfits := Piece.fits_scan c cs
    rw [ht] at hfits
    exact hfits hfault
  obtain ⟨d, text, htext⟩ := List.exists_cons_of_ne_nil hne
  rw [Cut.whole, htext, List.cons_append, List.cons.injEq] at hwhole
  obtain ⟨rfl, hcs⟩ := hwhole
  have hsound : ∀ e, (Piece.scan d (text ++ ([] ++ (Piece.scan d cs).2.rest))).1
      ≠ .token (.faulty e) := by
    rw [List.nil_append, hcs, ht]
    exact fun e he => hfault e (PieceKind.token.inj he)
  have hclipped := Piece.scan_clipped hsound (by rw [List.nil_append, hcs, htext])
  rw [List.nil_append, hcs, List.append_nil, ht] at hclipped
  refine ⟨?_, hfault, d, text, hspell.trans htext, ?_⟩
  · rw [hspell, htext]
    refine .of_scan fun v hv => ?_
    have hslash : v.head? ≠ some '/' := fun h => by simpa using hv '/' h
    rw [Piece.scan_token_prolonged hv.apart (congrArg Prod.fst hclipped) hfault
      fun _ _ => hslash, hclipped]
    rfl
  · exact (Piece.gap?_eq_none_iff.1 (Piece.gap?_of_token ht)).1

theorem Token.respells_semi : (Token.mark .semi).Respells where
  scans := fun after _ => Piece.scans_mark (m := .semi) rfl after trivial
  faultless := by simp
  starts := ⟨';', [], rfl, rfl⟩

theorem respells_of_mem_lex {source : String} (hfault : ∀ l ∈ lex source, l.fault? = none)
    {l : Lexeme} (hl : l ∈ lex source) : l.token.Respells := by
  rcases hinserted : l.isInserted with _ | _
  · obtain ⟨before, after, hsplit⟩ := List.append_of_mem hl
    obtain ⟨ps, p, qs, hpieces, hp, -⟩ := Lexeme.comesFrom hinserted (hfault l hl) hsplit
    have hmem : p ∈ pieces source.toList := by simp [hpieces]
    obtain ⟨c, cs, rfl⟩ := Piece.exists_scan hmem
    refine Token.respells_of_scan hp fun e he => ?_
    simpa [Lexeme.fault?, he] using hfault l hl
  · rw [Lexeme.token_of_isInserted hinserted]
    exact Token.respells_semi

/-- Whether a line break after the tokens ends a statement, as it did before them if there are
none. -/
def endsAfter (ends : Bool) : List Token → Bool
  | [] => ends
  | t :: ts => endsAfter t.endsStatement ts

theorem endsAfter_append (ends : Bool) (ts us : List Token) :
    endsAfter ends (ts ++ us) = endsAfter (endsAfter ends ts) us := by
  induction ts generalizing ends with
  | nil => rfl
  | cons t ts ih => exact ih t.endsStatement

/-- What a piece makes says whether a line may end after it. -/
theorem lexemesFrom_cons_endsAfter (offset : Nat) (ends : Bool) (p : Piece) :
    ∃ made, ∀ ps, lexemesFrom offset ends (p :: ps) = made
      ++ lexemesFrom (offset + p.size) (endsAfter ends (made.map Lexeme.token)) ps := by
  have hline (hkind : p.kind = .newline ∨ p.kind = .blockComment) :
      ∃ made, ∀ ps, lexemesFrom offset ends (p :: ps) = made
        ++ lexemesFrom (offset + p.size) (endsAfter ends (made.map Lexeme.token)) ps := by
    obtain ⟨kind, text⟩ := p
    by_cases h : ends = false ∨ Piece.breakAt? ⟨kind, text⟩ = none
    · exact ⟨[], fun ps => lexemesFrom_no_break hkind h⟩
    · obtain ⟨hends, hbreak⟩ := not_or.1 h
      obtain rfl : ends = true := by simpa using hends
      obtain ⟨n, hn⟩ := Option.ne_none_iff_exists'.1 hbreak
      exact ⟨[_], fun ps => lexemesFrom_break hkind hn⟩
  rcases hkind : p.kind with t | _ | _ | _ | _ | _
  · exact ⟨[⟨t, offset, offset + p.size⟩], fun ps => by simp [lexemesFrom, hkind, endsAfter]⟩
  · exact ⟨[], fun ps => by simp [lexemesFrom, hkind, endsAfter]⟩
  · exact hline (.inl hkind)
  · exact ⟨[], fun ps => by simp [lexemesFrom, hkind, endsAfter]⟩
  · exact hline (.inr hkind)
  · by_cases hstart : offset = 0
    · exact ⟨[], fun ps => by simp [lexemesFrom, hkind, hstart, endsAfter]⟩
    · refine ⟨[⟨.faulty .invalidToken, offset, offset + p.size⟩], fun ps => ?_⟩
      simp [lexemesFrom, hkind, hstart, endsAfter, Token.endsStatement]

/-- The last token ends no statement, or a semicolon would have been inserted after it. -/
theorem endsAfter_lexemesFrom (offset : Nat) (ends : Bool) (ps : List Piece) :
    endsAfter ends ((lexemesFrom offset ends ps).map Lexeme.token) = false := by
  induction ps generalizing offset ends with
  | nil => cases ends <;> rfl
  | cons p ps ih =>
    unfold lexemesFrom
    split
    · exact ih _ _
    · exact ih _ _
    · exact ih _ _
    · split <;> exact ih _ _
    · split <;> exact ih _ _
    · split <;> exact ih _ _

/-! ## Spelling and reading -/

/-- Tokens are read in a row where one space is between them. -/
theorem lexes_spelled : ∀ {ts : List Token} (ends : Bool), (∀ t ∈ ts, t.Respells) →
    Lexes ends (spelled ts).toList ts (endsAfter ends ts) whiteAhead
  | [], _, _ => .nil
  | [t], _, h => by
    have ht := h t (by simp)
    have htext : spelled [t] = t.text := by simp [spelled]
    rw [htext]
    exact .token ht.scans rfl ht.faultless
  | t :: u :: ts, ends, h => by
    have ht := h t (by simp)
    have hrest := lexes_spelled t.endsStatement fun x (hx : x ∈ u :: ts) => h x (by simp_all)
    obtain ⟨c, cs, hc, hspace⟩ := (h u (by simp)).starts
    have hhead : (spelled (u :: ts)).toList.head? = some c := by
      cases ts <;> simp [spelled, hc]
    have htext : (spelled (t :: u :: ts)).toList
        = t.text.toList ++ ([' '] ++ (spelled (u :: ts)).toList) := by
      simp [spelled]
    have hgap := Lexes.space.append hrest fun o _ => by
      rw [hhead]
      exact hspace
    rw [htext]
    exact (Lexes.token ht.scans rfl ht.faultless).append hgap fun o _ => by simp [whiteAhead]

/-- Tokens are read again as they are spelled. -/
theorem lex_spelled {source : String} (h : lexDiagnostics source = []) :
    (lex (spelled ((lex source).map Lexeme.token))).map Lexeme.token
        = (lex source).map Lexeme.token ∧
      lexDiagnostics (spelled ((lex source).map Lexeme.token)) = [] := by
  have hsound := lexDiagnostics_eq_nil_iff.1 h
  have hrespells : ∀ t ∈ (lex source).map Lexeme.token, t.Respells := by
    intro t ht
    obtain ⟨l, hl, rfl⟩ := List.mem_map.1 ht
    exact respells_of_mem_lex hsound hl
  have hends : endsAfter false ((lex source).map Lexeme.token) = false :=
    endsAfter_lexemesFrom 0 false _
  have hlexes := lexes_spelled false hrespells
  rw [hends] at hlexes
  obtain ⟨htokens, hstands⟩ := lex_of_lexes hlexes (by simp [whiteAhead])
  exact ⟨htokens, lexDiagnostics_eq_nil_iff.2 fun l hl => (hstands l hl).faultless⟩

/-- A semicolon inserted at a line break is spelled out, and a raw string keeps its own. -/
theorem lex_spelled_increment : lexDiagnostics "x++ // y\n\x60a\nb\x60" = [] ∧
    (lex "x ++ ; \x60a\nb\x60 ;").map Lexeme.token
      = (lex "x++ // y\n\x60a\nb\x60").map Lexeme.token ∧
    lexDiagnostics "x ++ ; \x60a\nb\x60 ;" = [] := by
  have h : lexDiagnostics "x++ // y\n\x60a\nb\x60" = [] := by decide +kernel
  have hspell : spelled ((lex "x++ // y\n\x60a\nb\x60").map Lexeme.token)
      = "x ++ ; \x60a\nb\x60 ;" := by decide +kernel
  have hagain := lex_spelled h
  rw [hspell] at hagain
  exact ⟨h, hagain⟩

end GoIface
