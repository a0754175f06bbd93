import GoIface.Proofs.Lines
import GoIface.Proofs.RuleMakes

/-!
# Texts side by side

A text may be put after one without faults that it does not join: the pieces of the two, one after
the other, make the lexemes of the two together (`lexemesFrom_adjoined`). Blanks are joined to one
another, but they make no lexeme. What is silent, blanks and comments on one line, makes none either
(`Silent.lexemesFrom`), and a line break that could end a statement makes at most one
(`lexemesFrom_ends`).
-/

namespace GoIface

open GoIface.Text

/-! ## Blanks -/

theorem Piece.scan_space {c : Char} (hc : isSpace c = true) (cs : List Char) :
    scan c cs = (.blank, (Cut.run isSpace cs).after [c]) := by
  simp [scan, gap?, hc]

theorem lexemesFrom_run_space (offset : Nat) (ends : Bool) (cs : List Char) :
    lexemesFrom offset ends (pieces cs)
      = lexemesFrom (offset + byteCount (Cut.run Piece.isSpace cs).text) ends
        (pieces (Cut.run Piece.isSpace cs).rest) := by
  rcases cs with _ | ⟨c, cs⟩
  · rfl
  · cases hc : Piece.isSpace c with
    | false => simp [Cut.run, hc]
    | true =>
      have hrun : Cut.run Piece.isSpace (c :: cs) = (Cut.run Piece.isSpace cs).after [c] := by
        simp [Cut.run, Cut.after, hc]
      rw [hrun, pieces, Piece.scan_space hc]
      rfl

theorem lexemesFrom_space {c : Char} (hc : Piece.isSpace c = true) (offset : Nat) (ends : Bool)
    (cs : List Char) : lexemesFrom offset ends (pieces (c :: cs))
      = lexemesFrom (offset + byteCount [c]) ends (pieces cs) := by
  rw [lexemesFrom_run_space, lexemesFrom_run_space (offset + byteCount [c])]
  have hrun : Cut.run Piece.isSpace (c :: cs) = (Cut.run Piece.isSpace cs).after [c] := by
    simp [Cut.run, Cut.after, hc]
  rw [hrun, Cut.after, byteCount_append, Nat.add_assoc]

theorem lexemesFrom_spaces (offset : Nat) (ends : Bool) (v : List Char) : ∀ cs : List Char,
    (∀ c ∈ cs, Piece.isSpace c = true) → lexemesFrom offset ends (pieces (cs ++ v))
      = lexemesFrom (offset + byteCount cs) ends (pieces v)
  | [], _ => rfl
  | c :: cs, h => by
    obtain ⟨hc, hcs⟩ := List.forall_mem_cons.1 h
    rw [List.cons_append, lexemesFrom_space hc, lexemesFrom_spaces _ ends v cs hcs, Nat.add_assoc,
      ← byteCount_append]
    rfl

/-! ## Adjoining -/

/-- The second text does not join the last piece of the first one, but that blanks may meet. -/
structure Adjoins (ps : List Piece) (v : List Char) : Prop where
  apart : apartAhead v.head?
  line : v.head? ≠ some '\n'
  comment : ∀ p ∈ ps.getLast?, p.kind ≠ .lineComment
  slash : v.head? = some '/' → ∀ p ∈ ps.getLast?, p.kind ≠ .token (.mark .slash)

theorem Adjoins.tail {p : Piece} {ps : List Piece} {v : List Char} (h : Adjoins (p :: ps) v) :
    Adjoins ps v := by
  have hlast {q : Piece} (hq : q ∈ ps.getLast?) : q ∈ (p :: ps).getLast? := by
    have hq : ps.getLast? = some q := hq
    simp [List.getLast?_cons, hq]
  exact ⟨h.apart, h.line, fun q hq => h.comment q (hlast hq),
    fun hv q hq => h.slash hv q (hlast hq)⟩

theorem lexemesFrom_cons_congr (offset : Nat) (ends : Bool) (p : Piece) {ps qs : List Piece}
    (h : ∀ ends, lexemesFrom (offset + p.size) ends ps = lexemesFrom (offset + p.size) ends qs) :
    lexemesFrom offset ends (p :: ps) = lexemesFrom offset ends (p :: qs) := by
  obtain ⟨made, ends', hmade, -⟩ := lexemesFrom_cons offset ends p
  rw [hmade, hmade, h]

theorem lexemesFrom_adjoined {cs v : List Char} (h : Adjoins (pieces cs) v)
    (hsound : ∀ p ∈ pieces cs, p.isFaulty = false) (offset : Nat) (ends : Bool) :
    lexemesFrom offset ends (pieces (cs ++ v))
      = lexemesFrom offset ends (pieces cs ++ pieces v) := by
  fun_induction pieces cs generalizing offset ends with
  | case1 => rfl
  | case2 c cs ih =>
    have hfault : ∀ e, (Piece.scan c cs).1 ≠ .token (.faulty e) := fun e he => by
      have := hsound _ (.head _)
      simp [Piece.isFaulty, he] at this
    have hlong {kind : PieceKind} {text rest : List Char}
        (hscan : Piece.scan c (cs ++ v) = (kind, ⟨text, rest⟩)) :
        pieces (c :: cs ++ v) = ⟨kind, text⟩ :: pieces rest := by
      rw [List.cons_append, pieces, hscan]
    by_cases hjoin : Piece.isSpace c = true ∧ (Piece.scan c cs).2.rest = []
    · -- blanks alone, and perhaps more of them
      obtain ⟨hc, hrest⟩ := hjoin
      have hspace : ∀ d ∈ c :: cs, Piece.isSpace d = true := by
        have hrun := Cut.whole_run Piece.isSpace cs
        rw [Piece.scan_space hc] at hrest
        rw [Cut.whole, show (Cut.run Piece.isSpace cs).rest = [] from hrest,
          List.append_nil] at hrun
        exact List.forall_mem_cons.2 ⟨hc, fun d hd => Cut.of_mem_run (hrun.symm ▸ hd)⟩
      have hwhole := (Piece.cuts_scan c cs).1
      rw [Cut.whole, hrest, List.append_nil] at hwhole
      rw [lexemesFrom_spaces offset ends v _ hspace, hrest, pieces, hwhole, Piece.scan_space hc]
      rfl
    · have hlast (hrest : (Piece.scan c cs).2.rest = []) :
          ⟨(Piece.scan c cs).1, (Piece.scan c cs).2.text⟩ ∈ (⟨(Piece.scan c cs).1,
            (Piece.scan c cs).2.text⟩ :: pieces (Piece.scan c cs).2.rest).getLast? := by
        simp [hrest, pieces]
      have hscan : Piece.scan c (cs ++ v) = _ := Piece.scan_parted ⟨h.apart,
        fun hspace hrest => absurd ⟨hspace, hrest⟩ hjoin,
        fun hkind hrest => absurd hkind (h.comment _ (hlast hrest)), fun _ _ => h.line, ?_⟩ hfault
      · rw [hlong hscan]
        exact lexemesFrom_cons_congr offset ends _ fun ends' =>
          ih h.tail (fun p hp => hsound p (.tail _ hp)) _ ends'
      · rintro rfl rfl hslash
        exact h.slash hslash _ (hlast rfl) rfl

/-! ## Silence -/

/-- Spaces, tabs and comments, each of them on one line. -/
inductive Silent : List Char → Prop
  | nil : Silent []
  | space {c : Char} {cs : List Char} (hc : Piece.isSpace c = true) (h : Silent cs) :
      Silent (c :: cs)
  | comment {body cs : List Char} (hbody : ¬ ['*', '/'] <:+: body ++ ['*'])
      (hline : ∀ c ∈ body, Delimited.isLineBreak c = false) (h : Silent cs) :
      Silent ('/' :: '*' :: (body ++ '*' :: '/' :: cs))

theorem Silent.lexemesFrom {cs : List Char} (h : Silent cs) (v : List Char) (offset : Nat)
    (ends : Bool) : lexemesFrom offset ends (pieces (cs ++ v))
      = lexemesFrom (offset + byteCount cs) ends (pieces v) := by
  induction h generalizing offset with
  | nil => rfl
  | @space c cs hc _ ih =>
    rw [List.cons_append, lexemesFrom_space hc, ih, Nat.add_assoc, ← byteCount_append]
    rfl
  | @comment body cs hbody hline _ ih =>
    have hend := Delimited.throughCommentEnd_closed hbody (cs ++ v)
    have hscan : Piece.scan '/' ('*' :: (body ++ '*' :: '/' :: (cs ++ v)))
        = (.blockComment, ⟨'/' :: '*' :: (body ++ ['*', '/']), cs ++ v⟩) := by
      have hident : Piece.startsIdent '/' = false := by decide +kernel
      simp [Piece.scan, Piece.gap?, Piece.isSpace, Piece.word?, Piece.literal?, Piece.comment?,
        hend, Cut.after, hident]
    have hbreak : Piece.breakAt? ⟨.blockComment, '/' :: '*' :: (body ++ ['*', '/'])⟩ = none := by
      have hends : Delimited.isLineBreak '/' = false ∧ Delimited.isLineBreak '*' = false := by
        decide
      simpa [Piece.breakAt?, hends] using hline
    have htext : '/' :: '*' :: (body ++ '*' :: '/' :: cs) ++ v
        = '/' :: '*' :: (body ++ '*' :: '/' :: (cs ++ v)) := by simp
    have hcount : byteCount ('/' :: '*' :: (body ++ '*' :: '/' :: cs))
        = byteCount ('/' :: '*' :: (body ++ ['*', '/'])) + byteCount cs := by
      rw [← byteCount_append]
      simp
    rw [htext, pieces, hscan, lexemesFrom_no_break (.inr rfl) (.inr hbreak), ih, hcount,
      Nat.add_assoc]

/-! ## Where a line may end -/

/-- The lexeme starts where this gap, the first part of the pieces, ends. -/
def Lexeme.StartsAfter (offset : Nat) (ps : List Piece) (gap : List Char) (l : Lexeme) : Prop :=
  gap <+: ps.flatMap (·.text) ∧ l.span.start = offset + byteCount gap

theorem Lexeme.StartsAfter.cons {offset : Nat} {p : Piece} {ps : List Piece} {gap : List Char}
    {l : Lexeme} (h : l.StartsAfter (offset + p.size) ps gap) :
    l.StartsAfter offset (p :: ps) (p.text ++ gap) := by
  refine ⟨?_, ?_⟩
  · rw [List.flatMap_cons]
    exact (List.prefix_append_right_inj _).2 h.1
  · rw [h.2, byteCount_append, Nat.add_assoc, Piece.size]

/-- The first lexeme comes after a gap, if nothing is inserted in that. -/
theorem startsAfter_of_lexemesFrom {offset : Nat} {ps : List Piece} :
    ∀ l ∈ (lexemesFrom offset false ps).head?, ∃ gap, l.StartsAfter offset ps gap := by
  induction ps generalizing offset with
  | nil => simp [lexemesFrom]
  | cons p ps ih =>
    have hgap {offset : Nat} (h : lexemesFrom offset false (p :: ps)
        = lexemesFrom (offset + p.size) false ps) :
        ∀ l ∈ (lexemesFrom offset false (p :: ps)).head?,
          ∃ gap, l.StartsAfter offset (p :: ps) gap :=
      fun l hl => (ih l (h ▸ hl)).imp' _ fun _ => .cons
    have hhere {l : Lexeme} {ls : List Lexeme} {k : Lexeme} (hk : k ∈ (l :: ls).head?)
        (hl : l.span.start = offset) : ∃ gap, k.StartsAfter offset (p :: ps) gap := by
      obtain rfl : l = k := by simpa using hk
      exact ⟨[], List.nil_prefix, hl⟩
    intro l hl
    rcases hkind : p.kind with t | _ | _ | _ | _ | _
    · simp only [lexemesFrom, hkind] at hl
      exact hhere hl rfl
    · exact hgap (by simp [lexemesFrom, hkind]) l hl
    · exact hgap (by simp [lexemesFrom, hkind]) l hl
    · exact hgap (by simp [lexemesFrom, hkind]) l hl
    · exact hgap (by simp [lexemesFrom, hkind]) l hl
    · by_cases hstart : offset = 0
      · exact hgap (by simp [lexemesFrom, hkind, hstart]) l hl
      · simp only [lexemesFrom, hkind, hstart, if_false] at hl
        exact hhere hl rfl

/-- Whether a line may end before the pieces makes no difference to their lexemes, or a semicolon
is inserted at a line break of the gap before the first of these. -/
theorem lexemesFrom_ends (offset : Nat) (ps : List Piece) :
    lexemesFrom offset true ps = lexemesFrom offset false ps ∨
      ∃ n, lexemesFrom offset true ps = .insertedSemi n :: lexemesFrom offset false ps ∧
        ∀ l ∈ (lexemesFrom offset false ps).head?, ∃ gap, l.StartsAfter offset ps gap ∧
          ∃ c ∈ gap, Delimited.isLineBreak c = true := by
  induction ps generalizing offset with
  | nil => exact .inr ⟨offset, rfl, by simp [lexemesFrom]⟩
  | cons p ps ih =>
    have hgap (h : ∀ ends, lexemesFrom offset ends (p :: ps)
        = lexemesFrom (offset + p.size) ends ps) :
        lexemesFrom offset true (p :: ps) = lexemesFrom offset false (p :: ps) ∨
          ∃ n, lexemesFrom offset true (p :: ps)
              = .insertedSemi n :: lexemesFrom offset false (p :: ps) ∧
            ∀ l ∈ (lexemesFrom offset false (p :: ps)).head?,
              ∃ gap, l.StartsAfter offset (p :: ps) gap ∧
                ∃ c ∈ gap, Delimited.isLineBreak c = true := by
      rw [h, h]
      refine (ih (offset + p.size)).imp_right ?_
      rintro ⟨n, hn, hbreak⟩
      refine ⟨n, hn, fun l hl => ?_⟩
      obtain ⟨gap, hl, c, hc, hline⟩ := hbreak l hl
      exact ⟨p.text ++ gap, hl.cons, c, List.mem_append_right _ hc, hline⟩
    have hline (hkind : p.kind = .newline ∨ p.kind = .blockComment) :
        lexemesFrom offset true (p :: ps) = lexemesFrom offset false (p :: ps) ∨
          ∃ n, lexemesFrom offset true (p :: ps)
              = .insertedSemi n :: lexemesFrom offset false (p :: ps) ∧
            ∀ l ∈ (lexemesFrom offset false (p :: ps)).head?,
              ∃ gap, l.StartsAfter offset (p :: ps) gap ∧
                ∃ c ∈ gap, Delimited.isLineBreak c = true := by
      rcases hbreak : p.breakAt? with _ | n
      · exact hgap fun ends => lexemesFrom_no_break hkind (.inr hbreak)
      · refine .inr ⟨offset + n, ?_, fun l hl => ?_⟩
        · rw [lexemesFrom_break hkind hbreak, lexemesFrom_no_break hkind (.inl rfl)]
        · rw [lexemesFrom_no_break hkind (.inl rfl)] at hl
          obtain ⟨gap, hl⟩ := startsAfter_of_lexemesFrom l hl
          have hany : p.text.any Delimited.isLineBreak = true := by
            unfold Piece.breakAt? at hbreak
            split at hbreak
            · assumption
            · simp at hbreak
          obtain ⟨c, hc, hline⟩ := List.any_eq_true.1 hany
          exact ⟨p.text ++ gap, hl.cons, c, List.mem_append_left _ hc, hline⟩
    rcases hkind : p.kind with t | _ | _ | _ | _ | _
    · exact .inl (by simp [lexemesFrom, hkind])
    · exact hgap fun ends => by simp [lexemesFrom, hkind]
    · exact hline (.inl hkind)
    · exact hgap fun ends => by simp [lexemesFrom, hkind]
    · exact hline (.inr hkind)
    · by_cases hstart : offset = 0
      · exact hgap fun ends => by simp [lexemesFrom, hkind, hstart]
      · exact .inl (by simp [lexemesFrom, hkind, hstart])

end GoIface
