import GoIface.Proofs.Lines
import GoIface.Proofs.LongestMatch

/-!
# Texts that end in a line feed

No token, comment or white space in a line ends in a line feed, so a text without faults that ends
in one has it as a piece of its own (`Piece.lineFeed_of_scan`). Another text may be written after it
and neither changes the lexemes of the other (`lexemesFrom_of_lineFeed`).
-/

namespace GoIface

open GoIface.Text Computability

/-! ## Patterns of one line -/

namespace Pattern

/-- No text of the pattern has a line feed in it. -/
def OneLine (l : Language Char) : Prop := ∀ w ∈ l, '\n' ∉ w

namespace OneLine

variable {l m : Language Char} {p : Char → Bool}

theorem one (hp : p '\n' = false) : OneLine (one p) := by
  rintro _ ⟨c, hc, rfl⟩ h
  obtain rfl := List.mem_singleton.1 h
  simp [hp] at hc

theorem many (hp : p '\n' = false) : OneLine (many p) := by
  intro w hw h
  simpa [hp] using mem_many.1 hw _ h

theorem mul (hl : OneLine l) (hm : OneLine m) : OneLine (l * m) := by
  rintro _ ⟨v, hv, w, hw, rfl⟩ h
  exact (List.mem_append.1 h).elim (hl v hv) (hm w hw)

theorem add (hl : OneLine l) (hm : OneLine m) : OneLine (l + m) := by
  rintro w (hw | hw)
  · exact hl w hw
  · exact hm w hw

theorem maybe (hl : OneLine l) : OneLine (maybe l) := by
  rintro w (rfl | hw)
  · simp
  · exact hl w hw

theorem several (hp : p '\n' = false) : OneLine (several p) := (one hp).mul (many hp)

theorem digits : OneLine digits := (one (by decide)).mul (many (by decide))

theorem exponent {marks : List Char} (h : marks.contains '\n' = false) :
    OneLine (exponent marks) :=
  (one h).mul ((maybe (one (by decide))).mul (several (by decide)))

theorem based {letters : List Char} (h : letters.contains '\n' = false) (hp : p '\n' = false) :
    OneLine (based letters p) :=
  (one (by decide)).mul ((one h).mul (several hp))

theorem int : OneLine int :=
  ((digits.add (based (by decide) (by decide))).add (based (by decide) (by decide))).add
    (based (by decide) (by decide))

theorem float : OneLine float := by
  have hpoint : OneLine (oneOf ['.']) := one (by decide)
  have hhex : OneLine (Pattern.many Numeral.isHexadecimal) := many (by decide)
  have hdecimal : OneLine (Pattern.maybe (Pattern.exponent ['e', 'E'])) :=
    maybe (exponent (by decide))
  refine (((digits.mul (hpoint.mul ((many (by decide)).mul hdecimal))).add
    (digits.mul (exponent (by decide)))).add (hpoint.mul (digits.mul hdecimal))).add ?_
  exact (one (by decide)).mul ((one (by decide)).mul
    (hhex.mul ((maybe (hpoint.mul hhex)).mul (exponent (by decide)))))

end OneLine

end Pattern

/-! ## The last piece -/

theorem Rule.oneLine_of_number {r : Rule} {kind : LiteralKind} (h : r.numberKind? = some kind) :
    Pattern.OneLine r.pattern := by
  cases r with
  | int => exact Pattern.OneLine.int
  | float => exact Pattern.OneLine.float
  | _ => simp [numberKind?] at h

theorem Pattern.OneLine.getLast?_ne {l : Language Char} (h : OneLine l) {text : List Char}
    (htext : text ∈ l) : text.getLast? ≠ some '\n' :=
  fun hend => h _ htext (List.mem_of_getLast? hend)

theorem Pattern.oneLine_spelling {s : String} (h : '\n' ∉ s.toList) : OneLine (spelling s) := by
  rintro _ rfl
  exact h

/-- The line breaks that end in a line feed. -/
def LineFeed (cs : List Char) : Prop := cs = ['\n'] ∨ cs = ['\r', '\n']

/-- What a rule matches ends in a line feed only if it is a line break. -/
theorem Rule.lineFeed_of_plainKind? {r : Rule} {text : List Char} {kind : PieceKind}
    (htext : text ∈ r.pattern) (h : r.plainKind? text = some kind)
    (hend : text.getLast? = some '\n') : LineFeed text := by
  have hnone (hline : Pattern.OneLine r.pattern) : LineFeed text :=
    absurd hend (hline.getLast?_ne htext)
  cases r with
  | newline =>
    rcases htext with (rfl | rfl) | rfl
    · exact .inr rfl
    · exact .inl rfl
    · simp at hend
  | blank => exact hnone (.several (by decide))
  | byteOrderMark => exact hnone (Pattern.oneLine_spelling (by decide))
  | keyword k => exact hnone (Pattern.oneLine_spelling (by cases k <;> decide))
  | ident => exact hnone (.mul (.one (by decide)) (.many (by decide)))
  | mark m => exact hnone (Pattern.oneLine_spelling (Piece.not_mem_mark m (by simp)))
  | string =>
    obtain ⟨body, rfl, -⟩ := mem_string.1 htext
    rw [← List.cons_append, List.getLast?_concat] at hend
    simp at hend
  | rune =>
    obtain ⟨body, rfl, -⟩ := mem_rune.1 htext
    rw [← List.cons_append, List.getLast?_concat] at hend
    simp at hend
  | lineComment | blockComment | rawString | int | float => simp [plainKind?] at h

/-- What a rule makes ends in a line feed only if it is a line break. -/
theorem Rule.lineFeed_of_makes {r : Rule} {text rest : List Char} {kind : PieceKind} {k : Cut}
    (htext : text ∈ r.pattern) (h : r.Makes text rest kind k)
    (hfault : ∀ e, kind ≠ .token (.faulty e)) (hend : k.text.getLast? = some '\n') :
    LineFeed k.text := by
  cases h with
  | plain hkind => exact lineFeed_of_plainKind? htext hkind hend
  | @lineComment body rest hafter hbody hrest =>
    obtain rfl := Pattern.mem_spelling.1 htext
    have hmem := List.mem_of_getLast? hend
    rcases List.mem_append.1 hmem with hmem | hmem
    · simp at hmem
    · exact absurd (hbody _ hmem) (by decide)
  | blockComment | rawString | imaginary => simp at hend
  | number hkind => exact absurd hend ((oneLine_of_number hkind).getLast?_ne htext)
  | openComment | openRawString | badNumber => exact absurd rfl (hfault _)

theorem Piece.lineFeed_of_scan {c : Char} {cs : List Char}
    (hfault : ∀ e, (scan c cs).1 ≠ .token (.faulty e))
    (hend : (scan c cs).2.text.getLast? = some '\n') : LineFeed (scan c cs).2.text := by
  have hfirst := firstPiece_scan c cs
  revert hfirst hfault hend
  generalize (scan c cs).1 = kind
  generalize (scan c cs).2 = k
  intro hfault hend hfirst
  cases hfirst with
  | rule hcs hwins hmakes hfinished => exact Rule.lineFeed_of_makes hwins.matched hmakes hfault hend
  | _ => exact absurd rfl (hfault _)

/-- Without the line feed at its end, a text has no faults either. -/
theorem pieces_sound_of_lineFeed {cs : List Char}
    (h : ∀ p ∈ pieces (cs ++ ['\n']), p.isFaulty = false) :
    ∀ p ∈ pieces cs, p.isFaulty = false := by
  have htexts := flatMap_pieces (cs ++ ['\n'])
  obtain hnil | ⟨ps, q, hps⟩ := List.eq_nil_or_concat (pieces (cs ++ ['\n']))
  · simp [hnil] at htexts
  rw [List.concat_eq_append] at hps
  rw [hps, List.flatMap_append, List.flatMap_singleton] at htexts
  have hsound p (hp : p ∈ ps) : p.isFaulty = false := h p (by simp [hps, hp])
  obtain ⟨-, hq⟩ := pieces_of_append (v := q.text) (by rw [htexts, hps]) hsound
  obtain ⟨c, ds, hds⟩ : ∃ c ds, q.text = c :: ds := by
    refine List.exists_cons_of_ne_nil fun hnil => ?_
    simp [hnil, pieces] at hq
  rw [hds, pieces, List.cons.injEq] at hq
  have hend : q.text.getLast? = some '\n' := by
    have hlast := congrArg List.getLast? htexts
    rwa [List.getLast?_concat, List.getLast?_append_of_ne_nil _ (by simp [hds])] at hlast
  have hline : LineFeed q.text := by
    have hkind := h q (by simp [hps])
    rw [← hq.1] at hend hkind ⊢
    refine Piece.lineFeed_of_scan (fun e he => ?_) hend
    simp [Piece.isFaulty, he] at hkind
  obtain ⟨w, hw, hpieces⟩ : ∃ w, q.text = w ++ ['\n'] ∧ ∀ p ∈ pieces w, p.isFaulty = false := by
    rcases hline with hline | hline
    · exact ⟨[], hline, by simp [pieces]⟩
    · exact ⟨['\r'], hline, by decide +kernel⟩
  rw [hw, ← List.append_assoc] at htexts
  obtain rfl := List.append_cancel_right htexts
  rw [(pieces_clipped hps hsound).1]
  exact List.forall_mem_append.2 ⟨hsound, hpieces⟩

/-- After a text without faults that ends in a line feed, the lexemes of another text start anew. -/
theorem lexemesFrom_of_lineFeed {cs : List Char} (hend : cs.getLast? = some '\n')
    (hsound : ∀ p ∈ pieces cs, p.isFaulty = false) (ds : List Char) (offset : Nat) (ends : Bool) :
    lexemesFrom offset ends (pieces (cs ++ ds)) = lexemesFrom offset ends (pieces cs)
      ++ lexemesFrom (offset + byteCount cs) false (pieces ds) := by
  obtain ⟨xs, rfl⟩ := List.getLast?_eq_some_iff.1 hend
  have hxs := pieces_sound_of_lineFeed hsound
  have hnil : lexemesFrom (offset + byteCount xs + 1) false (pieces []) = [] := by
    simp [pieces, lexemesFrom]
  have hcount : byteCount (xs ++ ['\n']) = byteCount xs + 1 := byteCount_append _ _
  rw [List.append_assoc, List.singleton_append, lexemesFrom_lines hxs, lexemesFrom_lines hxs [],
    hnil, List.append_nil, hcount, Nat.add_assoc]

section

variable {s d : String} (hend : s.toList.getLast? = some '\n') (hs : ∀ l ∈ lex s, l.fault? = none)

include hend hs

theorem lex_append_of_lineFeed : lex (s ++ d)
    = lex s ++ lexemesFrom (byteCount s.toList) false (pieces d.toList) := by
  rw [lex, String.toList_append, lexemesFrom_of_lineFeed hend
    (fun p hp => (fault_of_piece hs p hp).1), Nat.zero_add]
  rfl

theorem head?_ne_of_lineFeed (h : ∀ l ∈ lex (s ++ d), l.fault? = none) :
    d.toList.head? ≠ some '\ufeff' := by
  have hpos : 0 < byteCount s.toList := byteCount_pos (by
    rintro hnil
    simp [hnil] at hend)
  rw [lex_append_of_lineFeed hend hs] at h
  exact head?_ne_of_sound hpos fun l hl => h l (List.mem_append_right _ hl)

/-- Another text may be put after one that has no faults and ends in a line feed. -/
theorem lex_of_lineFeed (hmark : d.toList.head? ≠ some '\ufeff') :
    lex (s ++ d) = lex s ++ (lex d).map (Lexeme.shift (byteCount s.toList)) := by
  rw [lex_append_of_lineFeed hend hs, lexemesFrom_moved hmark]
  rfl

end

end GoIface
