import GoIface.Proofs.Adjoining
import GoIface.Proofs.Holes
import GoIface.Proofs.Respelling

/-!
# Exchanging a stretch of a text

A run of lexemes covers a stretch of its text. Another text may stand there that reads as a run of
its own wherever it is (`Fills`). Then the lexemes before the stretch stay, and those after it move
along (`lex_exchanged`), but for a semicolon that a line break may bring about where a line could
not end before.
-/

namespace GoIface

open GoIface.Text

/-! ## Before a stretch -/

theorem lexemesFrom_append (ps : List Piece) : ∀ (offset : Nat) (ends : Bool), ∃ made, ∀ qs,
    lexemesFrom offset ends (ps ++ qs) = made ++ lexemesFrom
      (offset + byteCount (ps.flatMap (·.text))) (endsAfter ends (made.map Lexeme.token)) qs := by
  induction ps with
  | nil => exact fun offset ends => ⟨[], fun qs => rfl⟩
  | cons p ps ih =>
    intro offset ends
    obtain ⟨made, hmade⟩ := lexemesFrom_cons_endsAfter offset ends p
    obtain ⟨made', hmade'⟩ := ih (offset + p.size) (endsAfter ends (made.map Lexeme.token))
    refine ⟨made ++ made', fun qs => ?_⟩
    rw [List.cons_append, hmade, hmade', List.append_assoc, List.flatMap_cons, byteCount_append,
      Piece.size, Nat.add_assoc, List.map_append, endsAfter_append]

theorem lexemesFrom_token {p : Piece} {t : Token} (hp : p.kind = .token t) (offset : Nat)
    (ends : Bool) (ps : List Piece) : lexemesFrom offset ends (p :: ps)
      = ⟨t, offset, offset + p.size⟩ :: lexemesFrom (offset + p.size) t.endsStatement ps := by
  simp [lexemesFrom, hp]

theorem Piece.stops_of_lineComment {c : Char} {cs : List Char}
    (h : (scan c cs).1 = .lineComment) :
    ∀ d ∈ (scan c cs).2.rest.head?, Delimited.isLineBreak d = true := by
  have hmark : (mark c cs).1 ≠ .lineComment := by
    unfold mark
    split <;> simp
  unfold scan at h ⊢
  split at h
  · next hgap =>
    unfold gap? at hgap
    repeat' split at hgap
    all_goals cases hgap <;> simp at h
  · simp at h
  · split at h
    · next hc =>
      rw [if_pos hc]
      rcases hcomment : comment? cs with _ | p
      · rw [hcomment] at h
        exact absurd h hmark
      · rw [hcomment] at h
        unfold comment? at hcomment
        split at hcomment
        · cases hcomment
          intro d hd
          simpa using Cut.run_stops hd
        · split at hcomment <;> cases hcomment <;> simp at h
        · cases hcomment
    · exact absurd h hmark

/-- After a comment up to the end of a line, a line ends or the text does. -/
theorem kind_of_lineComment {cs : List Char} {ps qs : List Piece} {p q : Piece}
    (h : pieces cs = ps ++ q :: p :: qs) (hq : q.kind = .lineComment) : p.kind = .newline := by
  fun_induction pieces cs generalizing ps with
  | case1 => simp at h
  | case2 c cs ih =>
    rcases ps with _ | ⟨x, ps⟩
    · rw [List.nil_append, List.cons.injEq] at h
      obtain ⟨rfl, hrest⟩ := h
      have hstops := Piece.stops_of_lineComment hq
      rcases hds : (Piece.scan c cs).2.rest with _ | ⟨d, ds⟩
      · simp [hds, pieces] at hrest
      · rw [hds, pieces, List.cons.injEq] at hrest
        have hd : Delimited.isLineBreak d = true := hstops d (by simp [hds])
        rw [← hrest.1]
        rw [Delimited.isLineBreak, Bool.or_eq_true, beq_iff_eq, beq_iff_eq] at hd
        rcases hd with rfl | rfl
        · rfl
        · rcases ds with _ | ⟨d, ds⟩
          · rfl
          · by_cases hd : d = '\n' <;> simp [Piece.scan, Piece.gap?, Piece.isSpace, hd]
    · rw [List.cons_append, List.cons.injEq] at h
      exact ih h.2

section

variable {source : String} (hfault : ∀ l ∈ lex source, l.fault? = none)

include hfault

/-- The pieces before a lexeme make the lexemes before it, whatever comes after them. -/
theorem exists_pieces_before {before after : List Lexeme} {l : Lexeme}
    (hlex : lex source = before ++ l :: after) (hl : l.isInserted = false) : ∃ ps p qs,
      pieces source.toList = ps ++ p :: qs ∧ p.kind = .token l.token ∧
      source.toList = ps.flatMap (·.text) ++ (p :: qs).flatMap (·.text) ∧
      pieces (ps.flatMap (·.text)) = ps ∧ pieces ((p :: qs).flatMap (·.text)) = p :: qs ∧
      byteCount (ps.flatMap (·.text)) = l.span.start ∧ l.span.stop = l.span.start + p.size ∧
      ∀ qs, lexemesFrom 0 false (ps ++ qs) = before
        ++ lexemesFrom l.span.start (endsAfter false (before.map Lexeme.token)) qs := by
  obtain ⟨ps, p, qs, hpieces, hp, hstart, hstop, hps⟩ :=
    Lexeme.comesFrom hl (hfault l (by simp [hlex])) hlex
  have htext : source.toList = ps.flatMap (·.text) ++ (p :: qs).flatMap (·.text) := by
    rw [← flatMap_pieces source.toList, hpieces, List.flatMap_append]
  obtain ⟨hps', hqs'⟩ := pieces_of_append (htext ▸ hpieces) fun q hq =>
    (fault_of_piece hfault q (hpieces ▸ List.mem_append_left _ hq)).1
  obtain ⟨made, hmade⟩ := lexemesFrom_append ps 0 false
  rw [Nat.zero_add] at hstart hmade
  obtain rfl : made = before := by
    have hboth := (hmade (p :: qs)).symm.trans (hps qs)
    rw [lexemesFrom_token hp, ← hstart, ← hstop] at hboth
    exact List.append_cancel_right hboth
  exact ⟨ps, p, qs, hpieces, hp, htext, hps', hqs', hstart.symm, hstop, hstart ▸ hmade⟩

/-- Up to a lexeme, a text may go on with what does not join it there. -/
theorem lexemesFrom_before {before after : List Lexeme} {l : Lexeme}
    (hlex : lex source = before ++ l :: after) (hl : l.isInserted = false) :
    ∃ cs ds ends, source.toList = cs ++ ds ∧ byteCount cs = l.span.start ∧
      ∀ v, apartAhead v.head? → v.head? ≠ some '\n' →
        (v.head? = some '/' → ∀ k ∈ before.getLast?, k.token ≠ .mark .slash) →
        lexemesFrom 0 false (pieces (cs ++ v))
          = before ++ lexemesFrom l.span.start ends (pieces v) := by
  obtain ⟨ps, p, qs, hpieces, hp, htext, hps', -, hstart, hstop, hmade⟩ :=
    exists_pieces_before hfault hlex hl
  have hsound : ∀ q ∈ ps, q.isFaulty = false :=
    fun q hq => (fault_of_piece hfault q (hpieces ▸ List.mem_append_left _ hq)).1
  refine ⟨_, _, endsAfter false (before.map Lexeme.token), htext, hstart,
    fun v hv hline hslash => ?_⟩
  have hadjoins : Adjoins (pieces (ps.flatMap (·.text))) v := by
    rw [hps']
    refine ⟨hv, hline, fun q hq hkind => ?_, fun hhead q hq hkind => ?_⟩
    · obtain ⟨init, rfl⟩ := List.getLast?_eq_some_iff.1 hq
      have hnewline := kind_of_lineComment (hpieces.trans (List.append_assoc ..)) hkind
      simp [hp] at hnewline
    · obtain ⟨init, rfl⟩ := List.getLast?_eq_some_iff.1 hq
      -- the slash would be the lexeme before
      obtain ⟨made, hmade'⟩ := lexemesFrom_append init 0 false
      have hoffset : 0 + byteCount (init.flatMap (·.text)) + q.size = l.span.start := by
        simp [← hstart, Piece.size]
      have hboth := hmade (p :: qs)
      rw [List.append_assoc, List.singleton_append, hmade', lexemesFrom_token hkind, hoffset,
        lexemesFrom_token hp, lexemesFrom_token hp, ← List.singleton_append, ← List.append_assoc]
        at hboth
      obtain rfl := List.append_cancel_right hboth
      exact hslash hhead _ (Option.mem_def.2 List.getLast?_concat) rfl
  rw [lexemesFrom_adjoined hadjoins fun q hq => hsound q (hps' ▸ hq), hps', hmade]

/-- After a lexeme the text goes on by itself. -/
theorem lexemesFrom_after {before after : List Lexeme} {l : Lexeme}
    (hlex : lex source = before ++ l :: after) (hl : l.isInserted = false) :
    ∃ cs ds, source.toList = cs ++ ds ∧ byteCount cs = l.span.stop ∧
      after = lexemesFrom l.span.stop l.token.endsStatement (pieces ds) := by
  obtain ⟨ps, p, qs, hpieces, hp, hstart, hstop, hps⟩ :=
    Lexeme.comesFrom hl (hfault l (by simp [hlex])) hlex
  have hcut : ps ++ p :: qs = (ps ++ [p]) ++ qs := by simp
  have htext : source.toList = (ps ++ [p]).flatMap (·.text) ++ qs.flatMap (·.text) := by
    rw [← flatMap_pieces source.toList, hpieces, hcut, List.flatMap_append]
  have hqs := (pieces_of_append (by rw [← htext, hpieces, hcut]) fun q hq =>
    (fault_of_piece hfault q (by rw [hpieces, hcut]; exact List.mem_append_left _ hq)).1).2
  refine ⟨_, _, htext, ?_, ?_⟩
  · rw [hstop, hstart, List.flatMap_append, byteCount_append, Nat.zero_add]
    simp [Piece.size]
  · rw [hqs]
    have hall := hps qs
    rw [← hpieces] at hall
    exact (List.cons.inj (List.append_cancel_left (hlex.symm.trans hall))).2

end

/-! ## What comes after a stretch -/

/-- What comes next after byte `n` is a semicolon that is written on a later line. -/
def SemicolonBelow (source : String) (n : Nat) : Prop :=
  ∃ l ∈ (lex source).find? (n ≤ ·.span.start), l.token = .mark .semi ∧
    ∃ c ∈ (Span.mk n l.span.start).slice source.toList, Delimited.isLineBreak c = true

theorem semicolonBelow_of_next {source : String} {before after : List Lexeme} {k l : Lexeme}
    (hlex : lex source = before ++ k :: l :: after) (hk : k.isInserted = false)
    (hl : l.token = .mark .semi) {cs gap ds : List Char}
    (hsource : source.toList = cs ++ (gap ++ ds)) (hcs : byteCount cs = k.span.stop)
    (hstart : l.span.start = k.span.stop + byteCount gap)
    (hline : ∃ c ∈ gap, Delimited.isLineBreak c = true) : SemicolonBelow source k.span.stop := by
  have hpairwise := (tiled_lex source).pairwise
  have hstands := (tiled_lex source).standsIn
  rw [hlex] at hpairwise hstands
  have hnonempty : k.span.start < k.span.stop := (hstands k (by simp)).nonempty_iff.1 hk
  have hbefore : ∀ j ∈ before, ¬ k.span.stop ≤ j.span.start := by
    intro j hj
    have hle := (hstands j (by simp [hj])).bounds
    have hapart := (List.pairwise_append.1 hpairwise).2.2 j hj k (by simp)
    omega
  refine ⟨l, ?_, hl, ?_⟩
  · rw [hlex, Option.mem_def, List.find?_append, List.find?_eq_none.2 (by simpa using hbefore)]
    simp [hnonempty, hstart]
  · rw [hstart, ← hcs, hsource, slice_append]
    exact hline

theorem faultless_moved {y : List Char} (hmark : y.head? ≠ some '\ufeff') {n : Nat} {ends : Bool}
    (h : ∀ l ∈ lexemesFrom n ends (pieces y), l.fault? = none) (m : Nat) :
    ∀ l ∈ lexemesFrom m true (pieces y), l.fault? = none := by
  rw [lexemesFrom_moved hmark] at h ⊢
  simp only [List.forall_mem_map, Lexeme.fault?_shift] at h ⊢
  cases ends with
  | true => exact h
  | false =>
    rcases lexemesFrom_ends 0 (pieces y) with hsame | ⟨k, hmore, -⟩
    · rwa [hsame]
    · rw [hmore]
      exact List.forall_mem_cons.2 ⟨rfl, h⟩

/-- Two cursors in front of one text go on alike. The first one may not have been able to end a line
there, and then no semicolon may be what it has after a line break. -/
theorem resumes_of_text {y : List Char} (hmark : y.head? ≠ some '\ufeff') {n m : Nat} {ends : Bool}
    {c d : Cursor} (hc : c.rest = lexemesFrom n ends (pieces y))
    (hcend : c.textEnd = n + byteCount y)
    (hd : d.rest = lexemesFrom m true (pieces y)) (hdend : d.textEnd = m + byteCount y)
    (hsemi : ends = false → ∀ l ∈ c.rest.head?, l.token = .mark .semi → ∀ gap,
      l.StartsAfter n (pieces y) gap → ∀ b ∈ gap, Delimited.isLineBreak b = false) :
    c.Resumes n m d := by
  rw [lexemesFrom_moved hmark] at hc hd
  cases ends with
  | true => exact .inl ⟨_, _, hc, hd, hcend, hdend⟩
  | false =>
    rcases lexemesFrom_ends 0 (pieces y) with hsame | ⟨k, hmore, hgap⟩
    · exact .inl ⟨_, _, hc, hsame ▸ hd, hcend, hdend⟩
    · rw [hmore] at hd
      refine .inr ⟨fun hnext => ?_, _, _, hd, rfl, _, _, hc, rfl, hcend, hdend⟩
      obtain ⟨l, hl, htoken⟩ := Option.map_eq_some_iff.1 hnext
      obtain ⟨l₀, hl₀, rfl⟩ := Option.map_eq_some_iff.1 (List.head?_map ▸ hc ▸ hl)
      obtain ⟨gap, hstarts, b, hb, hline⟩ := hgap l₀ hl₀
      have hmoved : (l₀.shift n).StartsAfter n (pieces y) gap :=
        ⟨hstarts.1, by simp [Span.shift, hstarts.2]⟩
      simp [hsemi rfl _ hl htoken gap hmoved b hb] at hline

/-! ## The exchange -/

/-- The text with the stretch of the span exchanged for another one. -/
def Span.replaced (s : Span) (source text : String) : String :=
  String.ofList (takeBytes s.start source.toList ++ (text.toList ++ dropBytes s.stop source.toList))

/-- Wherever the text stands, it reads as something that fits, and a line may end after it. What it
starts with joins nothing that is before it. -/
structure Fills (fits : List Token → Prop) (cs : List Char) : Prop where
  starts : ∃ c, cs.head? = some c ∧ c ∈ apart ∧ c ≠ '\n'
  reads (before after : List Char) (ends : Bool) : ∃ run, fits (run.map Lexeme.token) ∧
    (∀ l ∈ run, l.fault? = none) ∧ lexemesFrom (byteCount before) ends (pieces (cs ++ after))
      = run ++ lexemesFrom (byteCount before + byteCount cs) true (pieces after)

section

variable {source text : String} (hfault : ∀ l ∈ lex source, l.fault? = none)
  {before run after : List Lexeme} (hlex : lex source = before ++ (run ++ after)) {s : Span}
  (hs : s.Covers run) (hfirst : ∀ l ∈ run.head?, l.isInserted = false)
  (hlast : ∀ l ∈ run.getLast?, l.isInserted = false)

include hfault hlex hs hfirst hlast

/-- The lexemes before the stretch stay, and those after it move along. -/
theorem lex_exchanged (hbefore : ∀ l ∈ before.getLast?, l.token ≠ .mark .slash)
    {fits : List Token → Prop} (htext : Fills fits text.toList)
    (hsemi : EndsLine (run.map Lexeme.token) ∨ ¬ SemicolonBelow source s.stop) :
    ∃ run' after', lex (s.replaced source text) = before ++ (run' ++ after') ∧
      fits (run'.map Lexeme.token) ∧ (∀ l ∈ lex (s.replaced source text), l.fault? = none) ∧
      ∀ c d : Cursor, c.rest = after → c.textEnd = byteCount source.toList → d.rest = after' →
        d.textEnd = byteCount (s.replaced source text).toList →
          c.Resumes s.stop (s.start + byteCount text.toList) d := by
  obtain ⟨first, hhead, last, hgetLast, rfl⟩ := hs
  obtain ⟨tail, htail⟩ := List.head?_eq_some_iff.1 hhead
  obtain ⟨init, hinit⟩ := List.getLast?_eq_some_iff.1 hgetLast
  have hlex₁ : lex source = before ++ first :: (tail ++ after) := by rw [hlex, htail]; rfl
  have hlex₂ : lex source = (before ++ init) ++ last :: after := by rw [hlex, hinit]; simp
  obtain ⟨x, ds, ends, hx, hstart, hread⟩ := lexemesFrom_before hfault hlex₁ (hfirst first hhead)
  obtain ⟨cs, y, hy, hstop, hafter⟩ := lexemesFrom_after hfault hlex₂ (hlast last hgetLast)
  have hnew : (Span.replaced ⟨first.span.start, last.span.stop⟩ source text).toList
      = x ++ (text.toList ++ y) := by
    rw [Span.replaced, String.toList_ofList, ← hstart, ← hstop]
    congr 1
    · rw [hx, takeBytes_byteCount]
    · rw [hy, dropBytes_byteCount]
  have hstarts : ∀ c ∈ (text.toList ++ y).head?, c ∈ apart ∧ c ≠ '\n' := by
    obtain ⟨c, hc, hapart⟩ := htext.starts
    simp [List.head?_append, hc, hapart]
  obtain ⟨run', hfits, hrun', hreads⟩ := htext.reads x y ends
  have hlexed : lex (Span.replaced ⟨first.span.start, last.span.stop⟩ source text)
      = before ++ (run' ++ lexemesFrom (byteCount x + byteCount text.toList) true (pieces y)) := by
    rw [lex, hnew, hread _ (fun c hc => (hstarts c hc).1) (fun hc => (hstarts _ hc).2 rfl)
      fun _ => hbefore, ← hstart, hreads]
  have hsound : ∀ l ∈ after, l.fault? = none := fun l hl => hfault l (by simp [hlex, hl])
  have hnonempty : last.span.start < last.span.stop :=
    ((tiled_lex source).standsIn last (by simp [hlex₂])).nonempty_iff.1 (hlast last hgetLast)
  have hmark : y.head? ≠ some '\ufeff' := head?_ne_of_sound (by omega) (hafter ▸ hsound)
  refine ⟨run', _, hlexed, hfits, ?_, fun c d hc hcend hd hdend =>
    resumes_of_text hmark (hc.trans hafter) ?_ (hstart ▸ hd) ?_
      fun hends l hl htoken gap hgap b hb => ?_⟩
  · rw [hlexed]
    exact List.forall_mem_append.2 ⟨fun l hl => hfault l (by simp [hlex, hl]),
      List.forall_mem_append.2 ⟨hrun', faultless_moved hmark (hafter ▸ hsound) _⟩⟩
  · rw [hcend, hy, byteCount_append, hstop]
  · rw [hdend, hnew, byteCount_append, byteCount_append, hstart, Nat.add_assoc]
  · -- the last token of the stretch ends no line, so no semicolon may come after a line break
    obtain ⟨after', hafter'⟩ := List.head?_eq_some_iff.1 (hc ▸ hl)
    have hnone : ¬ SemicolonBelow source last.span.stop := by
      refine hsemi.resolve_left ?_
      rintro ⟨ts, t, hts, ht⟩
      rw [hinit, List.map_append] at hts
      obtain rfl : last.token = t := by simpa using (List.append_inj' hts rfl).2
      simp [hends] at ht
    obtain ⟨⟨rest, hrest⟩, hgapEnd⟩ := hgap
    rw [flatMap_pieces] at hrest
    refine Bool.eq_false_iff.2 fun hline => hnone ?_
    exact semicolonBelow_of_next (by rw [hlex₂, hafter']) (hlast last hgetLast) htoken
      (by rw [hrest, hy]) hstop hgapEnd ⟨b, hb, hline⟩

end

end GoIface
