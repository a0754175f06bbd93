import GoIface.Proofs.Clipping
import GoIface.Proofs.Places

/-!
# The lexemes of an excerpt

An excerpt of a text runs from the start of one of its lexemes to the end of another. If no lexeme
of the text is at fault, the lexemes of the excerpt are those that it was cut from, moved to where
it starts (`lex_excerpt`). Only the end of the excerpt may have a semicolon of its own inserted.
-/

namespace GoIface

open GoIface.Text

/-- The span moved `n` bytes on. -/
def Span.shift (n : Nat) (s : Span) : Span := ⟨n + s.start, n + s.stop⟩

def Lexeme.shift (n : Nat) (l : Lexeme) : Lexeme := ⟨l.token, l.span.shift n⟩

def Located.shift {ε : Type} (n : Nat) (e : Located ε) : Located ε := ⟨e.fault, e.span.shift n⟩

@[simp] theorem Lexeme.shift_token (n : Nat) (l : Lexeme) : (l.shift n).token = l.token := rfl

@[simp] theorem Lexeme.shift_span (n : Nat) (l : Lexeme) : (l.shift n).span = l.span.shift n := rfl

@[simp] theorem Lexeme.fault?_shift (n : Nat) (l : Lexeme) : (l.shift n).fault? = l.fault? := rfl

/-- Lexemes without fault after some others are without fault after any, wherever that is. -/
theorem faultless_append_shift {ls ls' ms : List Lexeme} {n n' : Nat}
    (h : ∀ l ∈ ls ++ ms.map (Lexeme.shift n), l.fault? = none) (hls' : ∀ l ∈ ls', l.fault? = none) :
    ∀ l ∈ ls' ++ ms.map (Lexeme.shift n'), l.fault? = none := by
  simp only [List.forall_mem_append, List.forall_mem_map, Lexeme.fault?_shift] at h ⊢
  exact ⟨hls', h.2⟩

/-! ## Lexemes piece by piece -/

theorem Lexeme.token_of_isInserted {l : Lexeme} (h : l.isInserted = true) :
    l.token = .mark .semi := by
  rw [isInserted, Bool.and_eq_true, beq_iff_eq] at h
  exact h.1

/-- A line break makes an inserted semicolon or nothing. -/
theorem lexemesFrom_newline (offset : Nat) (ends : Bool) {p : Piece}
    (hkind : p.kind = .newline ∨ p.kind = .blockComment) :
    ∃ made ends', (∀ ps, lexemesFrom offset ends (p :: ps)
        = made ++ lexemesFrom (offset + p.size) ends' ps) ∧
      (made = [] ∨ ∃ n, made = [.insertedSemi n]) := by
  obtain ⟨kind, text⟩ := p
  by_cases h : ends = false ∨ Piece.breakAt? ⟨kind, text⟩ = none
  · exact ⟨[], ends, fun ps => lexemesFrom_no_break hkind h, .inl rfl⟩
  · obtain ⟨hends, hbreak⟩ := not_or.1 h
    obtain rfl : ends = true := by simpa using hends
    obtain ⟨n, hn⟩ := Option.ne_none_iff_exists'.1 hbreak
    exact ⟨_, false, fun ps => lexemesFrom_break hkind hn, .inr ⟨_, rfl⟩⟩

/-- A piece makes one lexeme at most, its token unless the lexeme is inserted or at fault. What
comes after it depends on where the piece stops and on whether a line may end there. -/
theorem lexemesFrom_cons (offset : Nat) (ends : Bool) (p : Piece) :
    ∃ made ends', (∀ ps, lexemesFrom offset ends (p :: ps)
        = made ++ lexemesFrom (offset + p.size) ends' ps) ∧
      (made = [] ∨ (∃ t, p.kind = .token t ∧ made = [⟨t, offset, offset + p.size⟩] ∧
        ends' = t.endsStatement) ∨ ∃ l, made = [l] ∧ (l.isInserted = true ∨ l.fault? ≠ none)) := by
  have hsemi {made : List Lexeme} (h : made = [] ∨ ∃ n, made = [.insertedSemi n]) :
      made = [] ∨ ∃ l, made = [l] ∧ (l.isInserted = true ∨ l.fault? ≠ none) := by
    rcases h with rfl | ⟨n, rfl⟩
    · exact .inl rfl
    · exact .inr ⟨_, rfl, .inl (Lexeme.isInserted_insertedSemi n)⟩
  rcases hkind : p.kind with t | _ | _ | _ | _ | _
  · refine ⟨[⟨t, offset, offset + p.size⟩], t.endsStatement, fun ps => ?_,
      .inr (.inl ⟨t, rfl, rfl, rfl⟩)⟩
    simp [lexemesFrom, hkind]
  · exact ⟨[], ends, fun ps => by simp [lexemesFrom, hkind], .inl rfl⟩
  · obtain ⟨made, ends', hmade, h⟩ := lexemesFrom_newline offset ends (.inl hkind)
    exact ⟨made, ends', hmade, (hsemi h).imp_right .inr⟩
  · exact ⟨[], ends, fun ps => by simp [lexemesFrom, hkind], .inl rfl⟩
  · obtain ⟨made, ends', hmade, h⟩ := lexemesFrom_newline offset ends (.inr hkind)
    exact ⟨made, ends', hmade, (hsemi h).imp_right .inr⟩
  · by_cases hstart : offset = 0
    · exact ⟨[], ends, fun ps => by simp [lexemesFrom, hkind, hstart], .inl rfl⟩
    · refine ⟨[⟨.faulty .invalidToken, offset, offset + p.size⟩], false, fun ps => ?_,
        .inr (.inr ⟨_, rfl, .inr (by simp [Lexeme.fault?])⟩)⟩
      simp [lexemesFrom, hkind, hstart]

/-- The lexeme is the token of one of the pieces, and the pieces up to that one make the lexemes
`before` and then this one, whatever comes after. -/
def Lexeme.ComesFrom (l : Lexeme) (offset : Nat) (ends : Bool) (before : List Lexeme)
    (ps : List Piece) : Prop :=
  ∃ ps₁ p ps₂, ps = ps₁ ++ p :: ps₂ ∧ p.kind = .token l.token ∧
    l.span.start = offset + byteCount (ps₁.flatMap (·.text)) ∧
    l.span.stop = l.span.start + p.size ∧
    ∀ qs, lexemesFrom offset ends (ps₁ ++ p :: qs)
      = before ++ l :: lexemesFrom l.span.stop l.token.endsStatement qs

theorem Lexeme.ComesFrom.cons {l : Lexeme} {offset : Nat} {ends ends' : Bool} {p : Piece}
    {made before : List Lexeme} {ps : List Piece}
    (h : l.ComesFrom (offset + p.size) ends' before ps)
    (hmade : ∀ ps, lexemesFrom offset ends (p :: ps)
      = made ++ lexemesFrom (offset + p.size) ends' ps) :
    l.ComesFrom offset ends (made ++ before) (p :: ps) := by
  obtain ⟨ps₁, q, ps₂, rfl, hq, hstart, hstop, hqs⟩ := h
  refine ⟨p :: ps₁, q, ps₂, rfl, hq, ?_, hstop, fun qs => ?_⟩
  · rw [hstart, List.flatMap_cons, byteCount_append, Nat.add_assoc, Piece.size]
  · rw [List.cons_append, hmade, hqs, List.append_assoc]

/-- A lexeme that is neither inserted nor at fault is the token of a piece. -/
theorem Lexeme.comesFrom {l : Lexeme} (hinserted : l.isInserted = false)
    (hfault : l.fault? = none) {ps : List Piece} {offset : Nat} {ends : Bool}
    {before after : List Lexeme} (h : lexemesFrom offset ends ps = before ++ l :: after) :
    l.ComesFrom offset ends before ps := by
  induction ps generalizing offset ends before with
  | nil =>
    have hmem : l ∈ lexemesFrom offset ends [] := by simp [h]
    rcases ends with _ | _
    · simp [lexemesFrom] at hmem
    · obtain rfl : l = .insertedSemi offset := by simpa [lexemesFrom] using hmem
      simp [isInserted_insertedSemi] at hinserted
  | cons p ps ih =>
    obtain ⟨made, ends', hmade, hkind⟩ := lexemesFrom_cons offset ends p
    rw [hmade] at h
    rcases hkind with rfl | ⟨t, ht, rfl, rfl⟩ | ⟨k, rfl, hk⟩
    · exact (ih h).cons hmade
    · obtain ⟨rfl, hl⟩ | ⟨before, rfl, hrest⟩ := List.append_eq_cons_iff.1 h.symm
      · obtain ⟨rfl, -⟩ := List.cons_eq_cons.1 hl
        exact ⟨[], p, ps, rfl, ht, rfl, rfl, hmade⟩
      · exact (ih hrest).cons hmade
    · obtain ⟨rfl, hl⟩ | ⟨before, rfl, hrest⟩ := List.append_eq_cons_iff.1 h.symm
      · obtain ⟨rfl, -⟩ := List.cons_eq_cons.1 hl
        simp_all
      · exact (ih hrest).cons hmade

/-! ## Pieces that are not at fault -/

theorem Piece.kind_of_isFaulty {p : Piece} (h : p.isFaulty = true) :
    ∃ e, p.kind = .token (.faulty e) := by
  unfold isFaulty at h
  split at h
  · next e he => exact ⟨e, he⟩
  · simp at h

/-- A piece that is at fault makes a lexeme that is. So does a byte order mark that is not at the
start of the text. -/
theorem fault_of_piece {ps : List Piece} {offset : Nat} {ends : Bool}
    (h : ∀ l ∈ lexemesFrom offset ends ps, l.fault? = none) :
    ∀ p ∈ ps, p.isFaulty = false ∧ (0 < offset → p.kind ≠ .byteOrderMark) := by
  induction ps generalizing offset ends with
  | nil => simp
  | cons p ps ih =>
    have hnot (e : LexError) (hp : ⟨.faulty e, offset, offset + p.size⟩ ∈
        lexemesFrom offset ends (p :: ps)) : False := by
      simpa [Lexeme.fault?] using h _ hp
    obtain ⟨made, ends', hmade, -⟩ := lexemesFrom_cons offset ends p
    have hps := ih fun l hl => h l (hmade ps ▸ List.mem_append_right _ hl)
    refine List.forall_mem_cons.2 ⟨⟨?_, fun hpos hkind => ?_⟩, fun q hq =>
      ⟨(hps q hq).1, fun hpos => (hps q hq).2 (Nat.add_pos_left hpos _)⟩⟩
    · refine Bool.eq_false_iff.2 fun hp => ?_
      obtain ⟨e, he⟩ := Piece.kind_of_isFaulty hp
      exact hnot e (by simp [lexemesFrom, he])
    · have hne : offset ≠ 0 := Nat.ne_of_gt hpos
      exact hnot .invalidToken (by simp [lexemesFrom, hkind, hne])

theorem lexemesFrom_add_cons {n offset : Nat} {p : Piece} {ps : List Piece}
    (hp : p.kind = .byteOrderMark → 0 < offset)
    (h : ∀ ends, lexemesFrom (n + (offset + p.size)) ends ps
      = (lexemesFrom (offset + p.size) ends ps).map (Lexeme.shift n)) (ends : Bool) :
    lexemesFrom (n + offset) ends (p :: ps)
      = (lexemesFrom offset ends (p :: ps)).map (Lexeme.shift n) := by
  rcases hkind : p.kind with t | _ | _ | _ | _ | _
  · simp [lexemesFrom, hkind, Nat.add_assoc, h, Lexeme.shift, Span.shift]
  · simp [lexemesFrom, hkind, Nat.add_assoc, h]
  · simp only [lexemesFrom, hkind, Nat.add_assoc, h]
    split <;> simp [Lexeme.shift, Lexeme.insertedSemi, Span.shift, Span.point]
  · simp [lexemesFrom, hkind, Nat.add_assoc, h]
  · simp only [lexemesFrom, hkind, Nat.add_assoc, h]
    split <;> simp [Lexeme.shift, Lexeme.insertedSemi, Span.shift, Span.point]
  · have hpos := hp hkind
    have hne : offset ≠ 0 ∧ n + offset ≠ 0 := by omega
    simp [lexemesFrom, hkind, Nat.add_assoc, h, hne, Lexeme.shift, Span.shift]

/-- Moved on, the pieces make the same lexemes there, byte order marks aside that would be moved
away from the start of the text. -/
theorem lexemesFrom_add (n : Nat) {ps : List Piece} {offset : Nat}
    (h : 0 < offset ∨ ∀ p ∈ ps, p.kind ≠ .byteOrderMark) (ends : Bool) :
    lexemesFrom (n + offset) ends ps = (lexemesFrom offset ends ps).map (Lexeme.shift n) := by
  induction ps generalizing offset ends with
  | nil =>
    cases ends <;> simp [lexemesFrom, Lexeme.shift, Lexeme.insertedSemi, Span.shift, Span.point]
  | cons p ps ih =>
    refine lexemesFrom_add_cons (fun hkind => ?_) (ih ?_) ends
    · exact h.resolve_right fun hps => hps p (.head _) hkind
    · exact h.imp (Nat.add_pos_left · _) fun hps q hq => hps q (.tail _ hq)

/-! ## Excerpts -/

/-- The semicolon that is inserted where a text ends after the run. -/
def semiAfter (run : List Lexeme) (stop : Nat) : List Lexeme :=
  if run.getLast?.any (·.token.endsStatement) then [.insertedSemi stop] else []

theorem fault?_of_mem_semiAfter {run : List Lexeme} {stop : Nat} :
    ∀ l ∈ semiAfter run stop, l.fault? = none := by
  intro l hl
  unfold semiAfter at hl
  split at hl
  · obtain rfl := List.mem_singleton.1 hl
    rfl
  · simp at hl

section

variable {source : String} (hfault : ∀ l ∈ lex source, l.fault? = none) {run : List Lexeme}
  (hrun : run <:+: lex source) {s : Span} (hs : s.Covers run)
  (hfirst : ∀ l ∈ run.head?, l.isInserted = false)
  (hlast : ∀ l ∈ run.getLast?, l.isInserted = false)

include hfault hrun hs hfirst hlast

/-- A run of lexemes comes from a stretch of the pieces. -/
theorem exists_pieces_of_run : ∃ before ps after, pieces source.toList = before ++ (ps ++ after) ∧
    s.start = byteCount (before.flatMap (·.text)) ∧
    s.stop = s.start + byteCount (ps.flatMap (·.text)) ∧
    lexemesFrom s.start false ps = run ++ semiAfter run s.stop ∧
    ∀ p ∈ ps, p.kind ≠ .byteOrderMark := by
  obtain ⟨first, hhead, last, hgetLast, rfl⟩ := hs
  obtain ⟨init, hinit⟩ := List.getLast?_eq_some_iff.1 hgetLast
  obtain ⟨tail, htail⟩ := List.head?_eq_some_iff.1 hhead
  have hnone : ∀ l ∈ run, l.fault? = none := fun l hl => hfault l (hrun.subset hl)
  have hstands := (tiled_lex source).standsIn first (hrun.subset (List.mem_of_head? hhead))
  obtain ⟨a, b, hab⟩ := hrun
  have hlex : lex source = a ++ init ++ last :: b := by rw [← hab, hinit]; simp
  -- up to the last lexeme, and from there back to the first
  obtain ⟨ps, p, after, hpieces, -, hstart, hstop, hps⟩ := Lexeme.comesFrom (hlast last hgetLast)
    (hnone last (List.mem_of_getLast? hgetLast)) hlex
  have hupto := hps []
  have hsemi : lexemesFrom last.span.stop last.token.endsStatement []
      = semiAfter run last.span.stop := by
    simp [lexemesFrom, semiAfter, Option.mem_def.1 hgetLast]
  rw [hsemi] at hupto
  have hrunSemi : a ++ init ++ last :: semiAfter run last.span.stop
      = a ++ first :: (tail ++ semiAfter run last.span.stop) := by
    rw [← List.cons_append, ← htail, hinit]
    simp
  rw [hrunSemi] at hupto
  obtain ⟨before, q, qs, hqs, hq, hqstart, hqstop, hall⟩ := Lexeme.comesFrom (hfirst first hhead)
    (hnone first (List.mem_of_head? hhead)) hupto
  have hinside := hall qs
  rw [← hqs, hupto, List.append_cancel_left_eq, List.cons_inj_right] at hinside
  have hlexemes : lexemesFrom first.span.start false (q :: qs)
      = run ++ semiAfter run last.span.stop := by
    have hcons : run ++ semiAfter run last.span.stop
        = first :: (tail ++ semiAfter run last.span.stop) :=
      congrArg (· ++ semiAfter run last.span.stop) htail
    rw [hcons, hinside]
    simp only [lexemesFrom, hq, ← hqstop]
  have hpos : 0 < first.span.stop := by
    have := hstands.nonempty_iff.1 (hfirst first hhead)
    omega
  refine ⟨before, q :: qs, after, ?_, ?_, ?_, hlexemes, ?_⟩
  · rw [hpieces, ← List.append_assoc, ← hqs, List.append_assoc]
    rfl
  · rw [hqstart, Nat.zero_add]
  · have hbytes := congrArg (fun ps : List Piece => byteCount (ps.flatMap (·.text))) hqs
    simp only [List.flatMap_append, byteCount_append, List.flatMap_cons, List.flatMap_nil,
      byteCount_nil] at hbytes
    simp only [List.flatMap_cons, byteCount_append, hstop, hstart, hqstart, Piece.size]
    omega
  · have hclean : ∀ l ∈ lexemesFrom first.span.stop first.token.endsStatement qs,
        l.fault? = none := by
      rw [← hinside]
      intro l hl
      rcases List.mem_append.1 hl with hl | hl
      · exact hnone l (htail ▸ List.mem_cons_of_mem _ hl)
      · exact fault?_of_mem_semiAfter l hl
    exact List.forall_mem_cons.2 ⟨by simp [hq], fun x hx => (fault_of_piece hclean x hx).2 hpos⟩

/-- The lexemes of an excerpt are those of the run that it covers, moved to where it starts. -/
theorem lex_excerpt : (lex (s.text source)).map (Lexeme.shift s.start)
    = run ++ semiAfter run s.stop := by
  obtain ⟨before, ps, after, hpieces, hstart, hstop, hlexemes, hmark⟩ :=
    exists_pieces_of_run hfault hrun hs hfirst hlast
  have htext : source.toList = before.flatMap (·.text) ++ (ps.flatMap (·.text) ++
      after.flatMap (·.text)) := by
    rw [← flatMap_pieces source.toList, hpieces, List.flatMap_append, List.flatMap_append]
  have hsound : ∀ p ∈ before ++ (ps ++ after), p.isFaulty = false :=
    fun p hp => (fault_of_piece hfault p (hpieces ▸ hp)).1
  have hcut : s.CutsOut source (ps.flatMap (·.text)) := by
    refine ⟨_, _, htext, ?_⟩
    rw [← hstart, ← hstop]
  rw [htext] at hpieces
  have hrest := (pieces_of_append hpieces fun p hp => hsound p (by simp [hp])).2
  have hps := (pieces_of_append hrest fun p hp => hsound p (by simp [hp])).1
  rw [lex, Span.text, String.toList_ofList, hcut.slice_eq, hps, ← lexemesFrom_add _ (.inr hmark),
    Nat.add_zero, hlexemes]

end

end GoIface
