import GoIface.Proofs.Scanning
import GoIface.Proofs.Taking

/-!
# Texts that are lexed in parts

A stretch of a text lexes to some tokens if these are what its pieces give, whatever comes before
it and as long as what comes after it does not join it. Whether a line break right before and right
after it would end a statement belongs to it. Stretches one after the other lex to their tokens in
a row (`Lexes.append`). Every lexeme but a semicolon covers the spelling of its token.
-/

namespace GoIface

/-! ## Slices -/

theorem dropBytes_byteCount (after : List Char) :
    ∀ before : List Char, dropBytes (byteCount before) (before ++ after) = after
  | [] => by simp [dropBytes]
  | c :: before => by
    have ih := dropBytes_byteCount after before
    obtain ⟨n, hn⟩ := Nat.exists_eq_succ_of_ne_zero (Nat.pos_iff_ne_zero.1 c.utf8Size_pos)
    have hcount : byteCount (c :: before) = n + byteCount before + 1 := by
      rw [byteCount_cons, hn]
      omega
    rw [hcount, List.cons_append, dropBytes, hn]
    rwa [show n + byteCount before + 1 - n.succ = byteCount before by omega]

theorem takeBytes_byteCount (after : List Char) :
    ∀ cs : List Char, takeBytes (byteCount cs) (cs ++ after) = cs
  | [] => by simp [takeBytes]
  | c :: cs => by
    have ih := takeBytes_byteCount after cs
    obtain ⟨n, hn⟩ := Nat.exists_eq_succ_of_ne_zero (Nat.pos_iff_ne_zero.1 c.utf8Size_pos)
    have hcount : byteCount (c :: cs) = n + byteCount cs + 1 := by
      rw [byteCount_cons, hn]
      omega
    rw [hcount, List.cons_append, takeBytes, hn]
    rw [show n + byteCount cs + 1 - n.succ = byteCount cs by omega, ih]

/-- A span is the stretch of text between its ends. -/
theorem slice_append (before cs after : List Char) :
    Span.slice ⟨byteCount before, byteCount before + byteCount cs⟩ (before ++ (cs ++ after))
      = cs := by
  have hsize : Span.size ⟨byteCount before, byteCount before + byteCount cs⟩ = byteCount cs :=
    Nat.add_sub_cancel_left _ _
  rw [Span.slice, hsize, dropBytes_byteCount, takeBytes_byteCount]

/-- The lexeme has no fault and covers the spelling of its token. Semicolons may be inserted. -/
structure Lexeme.Stands (text : List Char) (l : Lexeme) : Prop where
  faultless : l.fault? = none
  covers : l.token ≠ .mark .semi → l.span.slice text = l.token.text.toList

/-- The stretch lexes to the tokens if what comes next is in `F`. A line break before it would end
a statement if `ends`, and one after it if `ends'`. -/
def Lexes (ends : Bool) (cs : List Char) (ts : List Token) (ends' : Bool) (F : Ahead) : Prop :=
  ∀ before after, F after.head? → ∃ ls, ls.map Lexeme.token = ts ∧
    (∀ l ∈ ls, l.Stands (before ++ (cs ++ after))) ∧
    lexemesFrom (byteCount before) ends (pieces (cs ++ after))
      = ls ++ lexemesFrom (byteCount (before ++ cs)) ends' (pieces after)

namespace Lexes

variable {a b c : Bool} {cs ds : List Char} {ts us : List Token} {F F' : Ahead}

theorem mono (h : Lexes a cs ts b F') (hF : ∀ o, F o → F' o) : Lexes a cs ts b F :=
  fun before after hafter => h before after (hF _ hafter)

theorem nil : Lexes a [] [] a F := by
  intro before after _
  exact ⟨[], rfl, by simp, by simp⟩

theorem append (h : Lexes a cs ts b F') (h' : Lexes b ds us c F)
    (hF : ∀ o, F o → F' (ds.head?.or o)) : Lexes a (cs ++ ds) (ts ++ us) c F := by
  intro before after hafter
  have hnext : F' (ds ++ after).head? := by
    rw [List.head?_append]
    exact hF _ hafter
  obtain ⟨ls, rfl, hls, heq⟩ := h before (ds ++ after) hnext
  obtain ⟨ms, rfl, hms, heq'⟩ := h' (before ++ cs) after hafter
  refine ⟨ls ++ ms, List.map_append, fun l hl => ?_, ?_⟩
  · rw [List.append_assoc cs]
    rcases List.mem_append.1 hl with hl | hl
    · exact hls l hl
    · rw [← List.append_assoc]
      exact hms l hl
  · rw [List.append_assoc cs, heq, heq', List.append_assoc ls, List.append_assoc before]

/-- A piece that is a token. -/
theorem token {t : Token} {cs : List Char} (h : Piece.Scans ⟨.token t, cs⟩ F)
    (hcs : t.text.toList = cs) (hfault : ∀ e, t ≠ .faulty e) :
    Lexes a cs [t] t.endsStatement F := by
  intro before after hafter
  refine ⟨[⟨t, byteCount before, byteCount before + byteCount cs⟩], rfl, ?_, ?_⟩
  · intro l hl
    rw [List.mem_singleton.1 hl]
    refine ⟨?_, fun _ => ?_⟩
    · rw [Lexeme.fault?]
      split
      · exact absurd ‹_› (hfault _)
      · rfl
    · rw [hcs]
      exact slice_append before cs after
  · rw [h after hafter, byteCount_append]
    rfl

theorem space : Lexes a [' '] [] a (noneAhead Piece.isSpace) := by
  intro before after hafter
  refine ⟨[], rfl, by simp, ?_⟩
  have hscan := Piece.scans_space after hafter
  rw [hscan, byteCount_append]
  rfl

/-- A line break that ends a statement. -/
theorem newline : Lexes true ['\n'] [.mark .semi] false anyAhead := by
  intro before after _
  refine ⟨[.insertedSemi (byteCount before)], rfl, ?_, ?_⟩
  · intro l hl
    rw [List.mem_singleton.1 hl]
    exact ⟨rfl, fun hne => absurd rfl hne⟩
  · have hscan := Piece.scans_newline after trivial
    rw [hscan, byteCount_append]
    rfl

theorem mark {m : Mark} (h : Piece.standsAlone m = true) :
    Lexes a m.text.toList [.mark m] (Token.mark m).endsStatement anyAhead :=
  .token (Piece.scans_mark h) rfl (by simp)

theorem keyword (k : Keyword) : Lexes a k.text.toList [.keyword k] (Token.keyword k).endsStatement
    (noneAhead Piece.continuesIdent) :=
  .token (Piece.scans_keyword k) rfl (by simp)

theorem ident {s : String} (h : Piece.isIdentifier s = true) :
    Lexes a s.toList [.ident s] true (noneAhead Piece.continuesIdent) :=
  .token (Piece.scans_ident h) rfl (by simp)

theorem quoted {s : String} (h : Piece.isQuotable s = true) :
    Lexes a (Piece.quotedText s).toList [.literal .string (Piece.quotedText s)] true anyAhead :=
  .token (Piece.scans_quoted h) rfl (by simp)

end Lexes

/-- A text that lexes as a whole has these lexemes. -/
theorem lex_of_lexes {source : String} {ts : List Token} {F : Ahead}
    (h : Lexes false source.toList ts false F) (hF : F none) :
    (lex source).map Lexeme.token = ts ∧ ∀ l ∈ lex source, l.Stands source.toList := by
  obtain ⟨ls, hls, hstands, heq⟩ := h [] [] hF
  have hlex : lex source = ls := by
    rw [List.append_nil] at heq
    show lexemesFrom (byteCount []) false (pieces source.toList) = ls
    rw [heq]
    simp [pieces, lexemesFrom]
  rw [hlex]
  exact ⟨hls, by simpa using hstands⟩

end GoIface
