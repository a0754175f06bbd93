import GoIface.Proofs.Excerpts
import GoIface.Proofs.Prolonging

/-!
# Texts line by line

A line break keeps apart what is before it and after it. If a text without faults is followed by a
line feed and another text, the lexemes are those of the one and of the other, the latter moved to
where it starts (`lex_lines`). The semicolon that the first text has at its end stays where it is,
as the line feed takes the place of the end.
-/

namespace GoIface

open GoIface.Text

/-- What the lexemes of a text report. -/
def lexDiagnostics (source : String) : List Diagnostic :=
  (lex source).filterMap Lexeme.diagnostic?

theorem lexDiagnostics_eq_nil_iff {source : String} :
    lexDiagnostics source = [] ↔ ∀ l ∈ lex source, l.fault? = none := by
  simp [lexDiagnostics, Lexeme.diagnostic?]

theorem Lexeme.diagnostic?_shift (n : Nat) (l : Lexeme) :
    (l.shift n).diagnostic? = l.diagnostic?.map (Located.shift n) := by
  simp only [diagnostic?, Option.map_map]
  rfl

/-- A line break of a gap ends a line there. -/
theorem lexemesFrom_lineFeed {cs : List Char} (hcs : cs = ['\n'] ∨ cs = ['\r'] ∨ cs = ['\r', '\n'])
    (offset : Nat) (ends : Bool) (ps : List Piece) :
    lexemesFrom offset ends (⟨.newline, cs⟩ :: ps)
      = lexemesFrom offset ends [] ++ lexemesFrom (offset + byteCount cs) false ps := by
  rcases hcs with rfl | rfl | rfl <;> cases ends <;> rfl

/-- A line feed after a text ends a line as the end of the text did. -/
theorem lexemesFrom_lines {cs : List Char} (hfault : ∀ p ∈ pieces cs, p.isFaulty = false)
    (ds : List Char) (offset : Nat) (ends : Bool) :
    lexemesFrom offset ends (pieces (cs ++ '\n' :: ds)) = lexemesFrom offset ends (pieces cs)
      ++ lexemesFrom (offset + byteCount cs + 1) false (pieces ds) := by
  fun_induction pieces cs generalizing offset ends with
  | case1 =>
    have hpieces : pieces ('\n' :: ds) = ⟨.newline, ['\n']⟩ :: pieces ds :=
      Piece.scans_newline ds trivial
    rw [List.nil_append, hpieces, lexemesFrom_lineFeed (.inl rfl)]
    rfl
  | case2 c cs ih =>
    by_cases hreturn : c = '\r' ∧ cs = []
    · -- the line feed joins the carriage return
      obtain ⟨rfl, rfl⟩ := hreturn
      have hlong : pieces ('\r' :: '\n' :: ds) = ⟨.newline, ['\r', '\n']⟩ :: pieces ds := by
        rw [pieces]
        rfl
      have hshort : Piece.scan '\r' [] = (.newline, ⟨['\r'], []⟩) := rfl
      rw [List.cons_append, List.nil_append, hlong, lexemesFrom_lineFeed (.inr (.inr rfl)), hshort,
        lexemesFrom_lineFeed (.inr (.inl rfl))]
      simp [pieces, lexemesFrom]
      rfl
    · have hscan := Piece.scan_line_prolonged (fun e he => ?_)
        (fun hc hcs => hreturn ⟨hc, hcs⟩) ds
      · have hpieces : pieces (c :: cs ++ '\n' :: ds) = ⟨(Piece.scan c cs).1,
            (Piece.scan c cs).2.text⟩ :: pieces ((Piece.scan c cs).2.rest ++ '\n' :: ds) := by
          rw [List.cons_append, pieces, hscan]
          rfl
        obtain ⟨made, ends', hmade, -⟩ :=
          lexemesFrom_cons offset ends ⟨(Piece.scan c cs).1, (Piece.scan c cs).2.text⟩
        have hcount := congrArg byteCount (Piece.cuts_scan c cs).1
        rw [Cut.whole, byteCount_append] at hcount
        rw [hpieces, hmade, hmade, ih fun p hp => hfault p (.tail _ hp), List.append_assoc,
          ← hcount, ← Nat.add_assoc, Piece.size]
      · have := hfault _ (.head _)
        simp [Piece.isFaulty, he] at this

theorem Piece.scan_byteOrderMark {c : Char} {cs : List Char}
    (h : (scan c cs).1 = .byteOrderMark) : c = '\ufeff' := by
  have hfits := fits_scan c cs
  have hwhole := (cuts_scan c cs).1
  rw [h] at hfits
  rw [Cut.whole, show (scan c cs).2.text = ['\ufeff'] from hfits] at hwhole
  exact (List.cons.inj hwhole).1.symm

theorem lexemesFrom_moved {ds : List Char} (hmark : ds.head? ≠ some '\ufeff') (n : Nat)
    {ends : Bool} :
    lexemesFrom n ends (pieces ds) = (lexemesFrom 0 ends (pieces ds)).map (Lexeme.shift n) := by
  rcases ds with _ | ⟨d, ds⟩
  · rw [pieces]
    show lexemesFrom (n + 0) ends [] = _
    exact lexemesFrom_add n (.inr (List.forall_mem_nil _)) ends
  have hpos := byteCount_pos (Piece.cuts_scan d ds).2
  rw [pieces]
  show lexemesFrom (n + 0) ends _ = _
  refine lexemesFrom_add_cons (fun hkind => ?_) (lexemesFrom_add n (.inl ?_)) ends
  · exact absurd (congrArg some (Piece.scan_byteOrderMark hkind)) hmark
  · rwa [Nat.zero_add]

/-- A byte order mark further on would be at fault. -/
theorem head?_ne_of_sound {ds : List Char} {offset : Nat} {ends : Bool} (hoffset : 0 < offset)
    (h : ∀ l ∈ lexemesFrom offset ends (pieces ds), l.fault? = none) :
    ds.head? ≠ some '\ufeff' := by
  intro hmark
  obtain ⟨es, rfl⟩ := List.head?_eq_some_iff.1 hmark
  have hkind : (Piece.scan '\ufeff' es).1 = .byteOrderMark := rfl
  rw [pieces] at h
  exact (fault_of_piece h _ (.head _)).2 hoffset hkind

/-- Lexemes are found line by line. -/
theorem lex_lines {s₁ s₂ : String} (h₁ : lexDiagnostics s₁ = [])
    (h₂ : s₂.toList.head? ≠ some '\ufeff') :
    lex (s₁ ++ "\n" ++ s₂)
        = lex s₁ ++ (lex s₂).map (Lexeme.shift (byteCount s₁.toList + 1)) ∧
      lexDiagnostics (s₁ ++ "\n" ++ s₂)
        = (lexDiagnostics s₂).map (Located.shift (byteCount s₁.toList + 1)) := by
  have hsound := lexDiagnostics_eq_nil_iff.1 h₁
  have htext : (s₁ ++ "\n" ++ s₂).toList = s₁.toList ++ '\n' :: s₂.toList := by simp
  have hlex : lex (s₁ ++ "\n" ++ s₂)
      = lex s₁ ++ (lex s₂).map (Lexeme.shift (byteCount s₁.toList + 1)) := by
    rw [lex, htext, lexemesFrom_lines fun p hp => (fault_of_piece hsound p hp).1, Nat.zero_add,
      lexemesFrom_moved h₂]
    rfl
  refine ⟨hlex, ?_⟩
  rw [lexDiagnostics, hlex, List.filterMap_append, ← lexDiagnostics, h₁, List.nil_append,
    List.filterMap_map, lexDiagnostics, List.map_filterMap]
  exact congrArg (List.filterMap · (lex s₂)) (funext fun l => Lexeme.diagnostic?_shift _ l)

/-- The semicolon after the call stays before the comment, and the fault of the second line moves
with it. -/
theorem lex_call_and_fault : lexDiagnostics "f(1)// g" = [] ∧
    lexDiagnostics "f(1)// g\n# x" = [⟨.lex .invalidToken, ⟨9, 10⟩⟩] := by
  have h₁ : lexDiagnostics "f(1)// g" = [] := by decide +kernel
  have h₂ : "# x".toList.head? ≠ some '\ufeff' := by decide
  refine ⟨h₁, (lex_lines h₁ h₂).2.trans ?_⟩
  decide +kernel

end GoIface
