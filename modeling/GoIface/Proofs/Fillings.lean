import GoIface.Proofs.Exchanging

/-!
# Bodies and values

A text that lexes to a run between braces may stand for a function body (`BodyText.fills`), and the
spelling of an expression for initial values (`ValuesText.fills`): wherever they are put, they read
as what they are by themselves, and what comes after them starts where a line may end.
-/

namespace GoIface

open GoIface.Text Parse

/-! ## Bodies -/

/-- The text lexes without diagnostics to one run, from a brace to the one that closes it. Around
the run there is nothing but blanks and comments, each of them on one line. -/
def BodyText (text : String) : Prop :=
  lexDiagnostics text = [] ∧ ∃ (run : List Lexeme) (s : Span) (n : Nat),
    lex text = run ++ [.insertedSemi n] ∧ s.Covers run ∧
    Braced (run.map Lexeme.token) ∧ Silent (takeBytes s.start text.toList) ∧
      Silent (dropBytes s.stop text.toList)

theorem text_of_mark {source : String} {l : Lexeme} (hl : l ∈ lex source) {m : Mark}
    (hm : l.token = .mark m) (hne : m ≠ .semi) : ∃ before after,
      source.toList = before ++ (m.text.toList ++ after) ∧ byteCount before = l.span.start ∧
        l.span.stop = l.span.start + byteCount m.text.toList := by
  obtain ⟨before, text, after, hsource, hspan, htext⟩ := (tiled_lex source).standsIn l hl
  by_cases hnil : text = []
  · rw [if_pos hnil, hm] at htext
    exact absurd (Token.mark.inj htext) hne
  · rw [if_neg hnil, hm] at htext
    obtain rfl : m.text.toList = text := htext (by simp)
    exact ⟨before, after, hsource, by simp [hspan], by simp [hspan]⟩

theorem Silent.starts {cs : List Char} (h : Silent cs) : ∀ c ∈ cs.head?, c ∈ apart ∧ c ≠ '\n' := by
  cases h with
  | nil => simp
  | space hc =>
    rintro _ ⟨⟩
    simp only [Piece.isSpace, Bool.or_eq_true, beq_iff_eq] at hc
    rcases hc with rfl | rfl <;> decide
  | comment =>
    rintro _ ⟨⟩
    decide

namespace BodyText

variable {text : String}

theorem starts (h : BodyText text) : ∃ lead z, text.toList = lead ++ '\x7b' :: z ∧ Silent lead := by
  obtain ⟨-, run, s, n, hlex, ⟨first, hfirst, last, -, rfl⟩, ⟨inner, hrun, -⟩, hlead, -⟩ := h
  obtain ⟨tail, rfl⟩ := List.head?_eq_some_iff.1 hfirst
  obtain ⟨lead, z, htext, hstart, -⟩ := text_of_mark (show first ∈ lex text by simp [hlex])
    (List.cons.inj hrun).1 (by decide)
  refine ⟨lead, z, htext, ?_⟩
  rwa [htext, ← hstart, takeBytes_byteCount] at hlead

theorem lexemes (h : BodyText text) : ∃ run, Braced (run.map Lexeme.token) ∧
    (∀ l ∈ run, l.fault? = none) ∧ ∀ after, lexemesFrom 0 false (pieces (text.toList ++ after))
      = run ++ lexemesFrom (byteCount text.toList) true (pieces after) := by
  obtain ⟨hdiagnostics, run, s, n, hlex, ⟨first, -, last, hlast, rfl⟩, hbraced, -, htrail⟩ := h
  have hsound := lexDiagnostics_eq_nil_iff.1 hdiagnostics
  refine ⟨run, hbraced, fun l hl => hsound l (by simp [hlex, hl]), fun after => ?_⟩
  obtain ⟨init, rfl⟩ := List.getLast?_eq_some_iff.1 hlast
  obtain ⟨inner, hrun, -⟩ := hbraced
  have hbrace : last.token = .mark .rbrace := by
    rw [List.map_append, ← List.cons_append] at hrun
    simpa using (List.append_inj' hrun rfl).2
  have hlex' : lex text = init ++ last :: [.insertedSemi n] := by simp [hlex]
  obtain ⟨cs, ds, ends, htext, hstart, hread⟩ :=
    lexemesFrom_before hsound hlex' (Lexeme.isInserted_of_ne (by simp [hbrace]))
  obtain ⟨cs', trail, htext', hstart', hstop⟩ :=
    text_of_mark (show last ∈ lex text by simp [hlex']) hbrace (by decide)
  obtain rfl : cs' = cs := by
    rw [← takeBytes_byteCount ds cs, ← htext, hstart, ← hstart', htext', takeBytes_byteCount]
  have hcount : byteCount text.toList = last.span.stop + byteCount trail := by
    rw [htext', byteCount_append, byteCount_append, hstart', hstop, Nat.add_assoc]
  have hsilent : Silent trail := by
    have hcut : text.toList = (cs' ++ Mark.rbrace.text.toList) ++ trail := by simp [htext']
    rwa [hcut, hstop, ← hstart', ← byteCount_append, dropBytes_byteCount] at htrail
  have hpieces : pieces ('\x7d' :: (trail ++ after))
      = ⟨.token (.mark .rbrace), ['\x7d']⟩ :: pieces (trail ++ after) :=
    Piece.scans_mark (m := .rbrace) rfl _ trivial
  have htext : text.toList ++ after = cs' ++ '\x7d' :: (trail ++ after) := by
    rw [htext', List.append_assoc]
    rfl
  have hlast : last = ⟨.mark .rbrace, last.span.start, last.span.start + byteCount ['\x7d']⟩ := by
    rw [← hbrace, show byteCount ['\x7d'] = byteCount Mark.rbrace.text.toList from rfl, ← hstop]
  have hclose (ps : List Piece) : lexemesFrom last.span.start ends
      (⟨.token (.mark .rbrace), ['\x7d']⟩ :: ps) = last :: lexemesFrom last.span.stop true ps := by
    rw [hlast, lexemesFrom_token rfl]
    rfl
  rw [htext, hread _ (by simp [apartAhead, apart]) (by simp) (by simp), hpieces, hclose,
    hsilent.lexemesFrom, hcount, List.append_assoc]
  rfl

theorem fills (h : BodyText text) : Fills Braced text.toList := by
  obtain ⟨lead, z, htext, hlead⟩ := h.starts
  obtain ⟨run, hbraced, hsound, hread⟩ := h.lexemes
  have hhead : ∃ c, text.toList.head? = some c ∧ c ∈ apart ∧ c ≠ '\n' := by
    rw [htext]
    cases hlead' : lead.head? with
    | none => exact ⟨'\x7b', by simp [List.head?_append, hlead'], by decide⟩
    | some c => exact ⟨c, by simp [List.head?_append, hlead'], hlead.starts c hlead'⟩
  refine ⟨hhead, fun before after ends => ?_⟩
  obtain ⟨c, hc, hapart, -⟩ := hhead
  have hmark : (text.toList ++ after).head? ≠ some '\ufeff' := by
    rw [List.head?_append, hc]
    rintro ⟨⟩
    exact absurd hapart (by decide)
  -- up to the brace it makes no difference whether a line could end there
  have hends (o : Nat) : lexemesFrom o ends (pieces (text.toList ++ after))
      = lexemesFrom o false (pieces (text.toList ++ after)) := by
    have hbrace (ds : List Char) :
        pieces ('\x7b' :: ds) = ⟨.token (.mark .lbrace), ['\x7b']⟩ :: pieces ds :=
      Piece.scans_mark (m := .lbrace) rfl ds trivial
    rw [htext, List.append_assoc, hlead.lexemesFrom, hlead.lexemesFrom, List.cons_append, hbrace,
      lexemesFrom_token rfl, lexemesFrom_token rfl]
  have hpos : 0 < byteCount text.toList := byteCount_pos (by rintro hnil; simp [hnil] at hc)
  rw [hends, lexemesFrom_moved hmark, hread, List.map_append, ← lexemesFrom_add _ (.inl hpos)]
  have htokens : (run.map (Lexeme.shift (byteCount before))).map Lexeme.token
      = run.map Lexeme.token := by
    rw [List.map_map]
    rfl
  exact ⟨_, htokens ▸ hbraced, by simpa using hsound, rfl⟩

end BodyText

/-! ## Values -/

/-- The text spells a run of tokens with spaces between and around them. The run is balanced, has no
semicolon outside brackets, and a line may end after it. -/
def ValuesText (text : String) : Prop :=
  ∃ ts, Expression ts ∧ EndsLine ts ∧ (∀ t ∈ ts, ∃ source, lexDiagnostics source = [] ∧
    t ∈ (lex source).map Lexeme.token) ∧ text = " " ++ spelled ts ++ " "

theorem endsAfter_of_endsLine {ts : List Token} (h : EndsLine ts) (ends : Bool) :
    endsAfter ends ts = true := by
  obtain ⟨init, t, rfl, ht⟩ := h
  induction init generalizing ends with
  | nil => exact ht
  | cons u init ih => exact ih _

theorem ValuesText.fills {text : String} (h : ValuesText text) : Fills Expression text.toList := by
  obtain ⟨ts, hts, hend, hlexed, rfl⟩ := h
  have hrespells : ∀ t ∈ ts, t.Respells := by
    intro t ht
    obtain ⟨source, hsound, hmem⟩ := hlexed t ht
    obtain ⟨l, hl, rfl⟩ := List.mem_map.1 hmem
    exact respells_of_mem_lex (lexDiagnostics_eq_nil_iff.1 hsound) hl
  have htext : (" " ++ spelled ts ++ " ").toList = ' ' :: ((spelled ts).toList ++ [' ']) := by simp
  rw [htext]
  refine ⟨⟨' ', rfl, by decide, by decide⟩, fun before after ends => ?_⟩
  obtain ⟨run, rfl, hstands, hread⟩ :=
    lexes_spelled ends hrespells (before ++ [' ']) (' ' :: after) (by simp [whiteAhead])
  refine ⟨run, hts, fun l hl => (hstands l hl).faultless, ?_⟩
  have hspace : Piece.isSpace ' ' = true := rfl
  have hassoc : ' ' :: ((spelled (run.map Lexeme.token)).toList ++ [' ']) ++ after
      = ' ' :: ((spelled (run.map Lexeme.token)).toList ++ ' ' :: after) := by simp
  have hcount : byteCount (' ' :: ((spelled (run.map Lexeme.token)).toList ++ [' ']))
      = byteCount [' '] + (byteCount (spelled (run.map Lexeme.token)).toList
        + byteCount [' ']) := by
    rw [← byteCount_append, ← byteCount_append]
    rfl
  rw [hassoc, lexemesFrom_space hspace, ← byteCount_append, hread, endsAfter_of_endsLine hend,
    lexemesFrom_space hspace, hcount, byteCount_append, byteCount_append, Nat.add_assoc,
    Nat.add_assoc]

end GoIface
