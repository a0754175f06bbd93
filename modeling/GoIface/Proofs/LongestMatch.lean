import GoIface.Proofs.Lines
import GoIface.Proofs.RuleMakes
import GoIface.Proofs.RuleStarts

/-!
# Pieces are longest matches

The first piece of a text is the one that the rules say (`firstPiece_iff`): scanning takes the
longest match of any rule, makes the same of it, and finds the same faults where no rule matches.
So a text falls into its pieces, and these into lexemes, as it is read by the rules, and in no
other way (`lexed_by_longest_match`).
-/

namespace GoIface

open GoIface.Text GoIface.Pattern Computability

/-! ## Winners -/

/-- No hexadecimal fraction starts with anything but a `0`. -/
theorem not_unfinished {c : Char} (hc : c ≠ '0') (cs : List Char) :
    ∀ v w, c :: cs = v ++ w → ¬ Unfinished v w := by
  intro v w hcs h
  obtain ⟨x, a, b, rfl, -⟩ := mem_hexFraction.1 h.matched
  exact hc (List.cons.inj hcs).1

/-- A rule that no other rule can contend with wins with its longest match. -/
theorem Rule.wins_of_only {r : Rule} {c : Char} {cs text rest : List Char}
    (hcs : c :: cs = text ++ rest) (hmem : text ∈ r.pattern)
    (honly : ∀ s : Rule, s.starts c cs = true → s = r)
    (hlong : ∀ v ∈ r.pattern, v <+: c :: cs → v.length ≤ text.length) : r.Wins text rest where
  matched := hmem
  longest := by
    intro s v hv hpre
    rw [← hcs] at hpre
    obtain rfl := honly s (Rule.starts_of_mem hv hpre)
    exact hlong v hv hpre
  preferred := fun s hs => .inl (honly s (Rule.starts_of_mem hs (hcs ▸ List.prefix_append _ _)))

theorem FirstPiece.of_wins {r : Rule} {cs text rest : List Char} {p : PieceKind × Cut}
    (hcs : cs = text ++ rest) (hwins : r.Wins text rest) (hmake : r.make text rest = p)
    (hfinished : ∀ v w, cs = v ++ w → ¬ Unfinished v w) : FirstPiece cs p.1 p.2 :=
  .rule hcs hwins (Rule.makes_iff.2 hmake) hfinished

/-- A character that says its rule starts a match of that rule. -/
theorem FirstPiece.of_sign {r : Rule} {c : Char} {cs text rest : List Char} {p : PieceKind × Cut}
    (hsign : Rule.ofSign? c = some r) (hcs : c :: cs = text ++ rest) (hmem : text ∈ r.pattern)
    (hlong : ∀ v ∈ r.pattern, v <+: c :: cs → v.length ≤ text.length)
    (hmake : r.make text rest = p) : FirstPiece (c :: cs) p.1 p.2 := by
  have honly : ∀ s : Rule, s.starts c cs = true → s = r := fun s hs => Rule.eq_of_sign hs hsign
  refine .of_wins hcs (Rule.wins_of_only hcs hmem honly hlong) hmake (not_unfinished ?_ _)
  rintro rfl
  simp [Rule.ofSign?] at hsign

/-! ## White space -/

theorem firstPiece_blank {c : Char} (hc : Piece.isSpace c = true) (cs : List Char) :
    FirstPiece (c :: cs) .blank ((Cut.run Piece.isSpace cs).after [c]) := by
  have hsign : Rule.ofSign? c = some .blank := by
    rw [Piece.isSpace, Bool.or_eq_true, beq_iff_eq, beq_iff_eq] at hc
    rcases hc with rfl | rfl <;> rfl
  have hrun : Cut.run Piece.isSpace (c :: cs) = (Cut.run Piece.isSpace cs).after [c] := by
    simp [Cut.run, Cut.after, hc]
  have hmem : (Cut.run Piece.isSpace (c :: cs)).text ∈ several Piece.isSpace :=
    mem_several.2 ⟨by simp [hrun, Cut.after], fun d hd => Cut.of_mem_run hd⟩
  rw [← hrun]
  exact .of_sign hsign (Cut.whole_run _ _).symm hmem
    (fun v hv hpre => Cut.length_le_run (mem_several.1 hv).2 hpre) rfl

/-- A line break is two characters if it can be. -/
theorem firstPiece_newline {c : Char} {cs text rest : List Char} (hcs : c :: cs = text ++ rest)
    (hmem : text ∈ Rule.newline.pattern) (hreturn : text = ['\r'] → rest.head? ≠ some '\n') :
    FirstPiece (c :: cs) .newline ⟨text, rest⟩ := by
  have hnewline {v : List Char} (hv : v ∈ Rule.newline.pattern) :
      v = ['\r', '\n'] ∨ v = ['\n'] ∨ v = ['\r'] := by
    rcases hv with (hv | hv) | hv
    · exact .inl hv
    · exact .inr (.inl hv)
    · exact .inr (.inr hv)
  have hmake : Rule.newline.make text rest = (.newline, ⟨text, rest⟩) := rfl
  have hsign : Rule.ofSign? c = some .newline := by
    rcases hnewline hmem with rfl | rfl | rfl <;> cases hcs <;> rfl
  refine .of_sign hsign hcs hmem (fun v hv hpre => ?_) hmake
  rw [hcs] at hpre
  have hle : v.length ≤ 2 := by rcases hnewline hv with rfl | rfl | rfl <;> simp
  rcases hnewline hmem with rfl | rfl | rfl
  · exact hle
  · rcases hnewline hv with rfl | rfl | rfl
    · simp at hpre
    · exact Nat.le_refl _
    · exact Nat.le_refl _
  · rcases hnewline hv with rfl | rfl | rfl
    · obtain ⟨after, hafter⟩ := hpre
      have hrest : '\n' :: after = rest := (List.cons.inj hafter).2
      exact absurd (congrArg List.head? hrest.symm) (hreturn rfl)
    · exact Nat.le_refl _
    · exact Nat.le_refl _

theorem firstPiece_gap? {c : Char} {cs : List Char} {p : PieceKind × Cut}
    (h : Piece.gap? c cs = some p) : FirstPiece (c :: cs) p.1 p.2 := by
  unfold Piece.gap? at h
  split at h
  · next hc =>
    obtain rfl := Option.some.inj h
    exact firstPiece_blank hc cs
  split at h
  · next hc =>
    obtain rfl := Option.some.inj h
    obtain rfl := eq_of_beq hc
    exact firstPiece_newline rfl (.inl (.inr rfl)) (by simp)
  split at h
  · next hc =>
    obtain rfl := eq_of_beq hc
    split at h
    · next rest =>
      obtain rfl := Option.some.inj h
      exact firstPiece_newline rfl (.inl (.inl rfl)) (by simp)
    · next hne =>
      obtain rfl := Option.some.inj h
      refine firstPiece_newline rfl (.inr rfl) fun _ hhead => ?_
      obtain ⟨rest, rfl⟩ := List.head?_eq_some_iff.1 hhead
      exact hne rest rfl
  split at h
  · next hc =>
    obtain rfl := Option.some.inj h
    obtain rfl := eq_of_beq hc
    have hmake : Rule.byteOrderMark.make ['\ufeff'] cs = (.byteOrderMark, ⟨['\ufeff'], cs⟩) := rfl
    refine .of_sign rfl rfl rfl (fun v hv _ => ?_) hmake
    exact (congrArg List.length (mem_spelling.1 hv)).le
  · simp at h

/-! ## Quoted literals -/

theorem Delimited.literal_of_open {kind : LiteralKind} {quote : Char} {mayBeEmpty : Bool}
    {cs : List Char} (h : ¬ ∃ rest, (items quote cs).rest = quote :: rest ∧
      (mayBeEmpty || !(items quote cs).text.isEmpty) = true) :
    literal kind quote mayBeEmpty cs = (.faulty .invalidToken, (items quote cs).after [quote]) := by
  simp only [literal]
  split
  · next c rest hrest =>
    refine if_neg fun hc => h ?_
    rw [Bool.and_eq_true, beq_iff_eq] at hc
    exact ⟨rest, by rw [hrest, hc.1], hc.2⟩
  · rfl

/-- A literal is the match of its rule if it is closed, else the quote and all its items. -/
theorem firstPiece_literal {r : Rule} {kind : LiteralKind} {quote : Char} {mayBeEmpty : Bool}
    (hsign : Rule.ofSign? quote = some r) (hquote : quote ∈ ['"', '\''])
    (hpattern : ∀ v, v ∈ r.pattern ↔ ∃ body, v = quote :: (body ++ [quote]) ∧
      body ∈ (item quote)∗ ∧ (mayBeEmpty || !body.isEmpty) = true)
    (hmake : ∀ text after,
      r.make text after = (.token (.literal kind (String.ofList text)), ⟨text, after⟩))
    (cs : List Char) : FirstPiece (quote :: cs)
      (.token (Delimited.literal kind quote mayBeEmpty cs).1)
      (Delimited.literal kind quote mayBeEmpty cs).2 := by
  have hescape : quote ≠ '\\' := by
    rintro rfl
    simp at hquote
  have hwhole := Delimited.whole_items quote cs
  -- what the rule matches ends where the items end
  have hmatch {v : List Char} (hv : v ∈ r.pattern) (hpre : v <+: quote :: cs) :
      ∃ rest, Delimited.items quote cs = ⟨(Delimited.items quote cs).text, quote :: rest⟩ ∧
        (mayBeEmpty || !(Delimited.items quote cs).text.isEmpty) = true ∧
        v = quote :: ((Delimited.items quote cs).text ++ [quote]) := by
    obtain ⟨body, rfl, hbody, hempty⟩ := (hpattern v).1 hv
    obtain ⟨rest, hrest⟩ := hpre
    obtain rfl : body ++ quote :: rest = cs := by simpa using hrest
    rw [Delimited.items_closed hescape hbody]
    exact ⟨rest, rfl, hempty, rfl⟩
  by_cases hclosed : ∃ rest, (Delimited.items quote cs).rest = quote :: rest ∧
      (mayBeEmpty || !(Delimited.items quote cs).text.isEmpty) = true
  · obtain ⟨rest, hrest, hempty⟩ := hclosed
    rw [Delimited.literal_of_items hrest hempty]
    refine .of_sign hsign ?_ ((hpattern _).2 ⟨_, rfl, Delimited.items_mem quote cs, hempty⟩)
      (fun v hv hpre => ?_) (hmake _ rest)
    · rw [Cut.whole, hrest] at hwhole
      exact congrArg (quote :: ·) (hwhole.symm.trans (List.append_cons ..))
    · obtain ⟨-, -, -, rfl⟩ := hmatch hv hpre
      exact Nat.le_refl _
  · rw [Delimited.literal_of_open hclosed]
    show FirstPiece _ _ ⟨quote :: (Delimited.items quote cs).text, (Delimited.items quote cs).rest⟩
    rw [Cut.whole] at hwhole
    refine .unclosed (congrArg (quote :: ·) hwhole.symm) hquote (fun s v hv hpre => ?_)
      (Delimited.items_mem quote cs) fun v hv hpre => Delimited.items_longest hv (hwhole ▸ hpre)
    obtain rfl := Rule.eq_of_sign (Rule.starts_of_mem hv hpre) hsign
    obtain ⟨rest, hitems, hempty, -⟩ := hmatch hv hpre
    exact hclosed ⟨rest, congrArg Cut.rest hitems, hempty⟩

theorem Rule.mem_string {v : List Char} : v ∈ Rule.string.pattern ↔
    ∃ body, v = '"' :: (body ++ ['"']) ∧ body ∈ (item '"')∗ ∧ (true || !body.isEmpty) = true := by
  simp only [pattern, Pattern.string, Language.mem_mul, mem_oneOf, List.mem_singleton]
  constructor
  · rintro ⟨_, ⟨_, rfl, rfl⟩, _, ⟨body, hbody, _, ⟨_, rfl, rfl⟩, rfl⟩, rfl⟩
    exact ⟨body, rfl, hbody, rfl⟩
  · rintro ⟨body, rfl, hbody, -⟩
    exact ⟨_, ⟨_, rfl, rfl⟩, _, ⟨body, hbody, _, ⟨_, rfl, rfl⟩, rfl⟩, rfl⟩

theorem Rule.mem_rune {v : List Char} : v ∈ Rule.rune.pattern ↔
    ∃ body, v = '\'' :: (body ++ ['\'']) ∧ body ∈ (item '\'')∗ ∧
      (false || !body.isEmpty) = true := by
  have hitems {body : List Char} : body ∈ item '\'' * (item '\'')∗ ↔
      body ∈ (item '\'')∗ ∧ (false || !body.isEmpty) = true := by
    rw [← Language.one_add_self_mul_kstar_eq_kstar (item '\''), Language.mem_add, Language.mem_one,
      Language.one_add_self_mul_kstar_eq_kstar]
    constructor
    · intro h
      refine ⟨.inr h, ?_⟩
      obtain ⟨w, hw, ws, -, rfl⟩ := Language.mem_mul.1 h
      rcases mem_item.1 hw with ⟨c, rfl, -⟩ | ⟨c, rfl, -⟩ <;> rfl
    · rintro ⟨rfl | h, hne⟩
      · simp at hne
      · exact h
  simp only [pattern, Pattern.rune, Language.mem_mul (m := oneOf _),
    Language.mem_mul (l := oneOf _), mem_oneOf, List.mem_singleton, hitems]
  constructor
  · rintro ⟨_, ⟨_, rfl, rfl⟩, _, ⟨body, hbody, _, ⟨_, rfl, rfl⟩, rfl⟩, rfl⟩
    exact ⟨body, rfl, hbody⟩
  · rintro ⟨body, rfl, hbody⟩
    exact ⟨_, ⟨_, rfl, rfl⟩, _, ⟨body, hbody, _, ⟨_, rfl, rfl⟩, rfl⟩, rfl⟩

theorem firstPiece_literal? {c : Char} {cs : List Char} {p : Token × Cut}
    (h : Piece.literal? c cs = some p) : FirstPiece (c :: cs) (.token p.1) p.2 := by
  unfold Piece.literal? at h
  split at h
  · next hc =>
    obtain rfl := Option.some.inj h
    obtain rfl := eq_of_beq hc
    have hmake : Rule.rawString.make ['\x60'] cs = (.token (Delimited.rawString '\x60' cs).1,
        (Delimited.rawString '\x60' cs).2) := by
      simp only [Rule.make, Delimited.rawString, Cut.after]
      obtain ⟨body, _ | ⟨d, rest⟩⟩ := Cut.run (· != '\x60') cs <;> rfl
    refine .of_sign rfl rfl rfl (fun v hv _ => ?_) hmake
    exact (congrArg List.length (mem_spelling.1 hv)).le
  split at h
  · next hc =>
    obtain rfl := Option.some.inj h
    obtain rfl := eq_of_beq hc
    exact firstPiece_literal rfl (by simp) (fun v => Rule.mem_string) (fun _ _ => rfl) cs
  split at h
  · next hc =>
    obtain rfl := Option.some.inj h
    obtain rfl := eq_of_beq hc
    exact firstPiece_literal rfl (by simp) (fun v => Rule.mem_rune) (fun _ _ => rfl) cs
  · simp at h

/-! ## Words -/

theorem ident_mem_of_isWord {cs : List Char} (h : Piece.IsWord cs) : cs ∈ Rule.ident.pattern := by
  obtain ⟨d, ds, rfl, hd, hds⟩ := h
  exact mem_one_mul.2 ⟨d, ds, rfl, hd, mem_many.2 hds⟩

/-- The rule of a word's token, of its keyword or else of identifiers. -/
def Rule.ofWord (text : List Char) : Rule :=
  match Keyword.ofText? (String.ofList text) with
  | some k => keyword k
  | none => ident

theorem Rule.make_ofWord (text after : List Char) : (ofWord text).make text after
    = (.token (Piece.word (String.ofList text)), ⟨text, after⟩) := by
  rw [ofWord, Piece.word]
  rcases Keyword.ofText? (String.ofList text) with _ | k <;> rfl

/-- A text is spelled like a keyword if it is found to be that one. -/
theorem Keyword.ofText?_eq_some_iff {text : List Char} {k : Keyword} :
    Keyword.ofText? (String.ofList text) = some k ↔ text = k.text.toList := by
  constructor
  · intro h
    have hword : Piece.word (String.ofList text) = .keyword k := by rw [Piece.word, h]
    have hsame : k.text = String.ofList text :=
      (congrArg Token.text hword).symm.trans (Piece.text_word _)
    rw [hsame, String.toList_ofList]
  · rintro rfl
    have hword := Piece.word_keyword k
    rw [String.ofList_toList]
    unfold Piece.word at hword
    split at hword
    · next l hl => exact hl.trans (congrArg some (Token.keyword.inj hword))
    · simp at hword

/-- Where a word starts its rule wins with all letters and digits that follow. -/
theorem Rule.wins_ofWord {c : Char} {cs text rest : List Char} (hc : Piece.startsIdent c = true)
    (hcs : c :: cs = text ++ rest) (htext : text = c :: (Cut.run Piece.continuesIdent cs).text) :
    (ofWord text).Wins text rest := by
  have hident : text ∈ Rule.ident.pattern :=
    ident_mem_of_isWord ⟨c, _, htext, hc, fun d hd => Cut.of_mem_run hd⟩
  have hrules {s : Rule} {v : List Char} (hv : v ∈ s.pattern) (hpre : v <+: text ++ rest) :
      s = .ident ∨ ∃ k, s = .keyword k :=
    Rule.eq_word (Rule.starts_of_mem hv (hcs ▸ hpre)) hc
  have hlongest : ∀ s : Rule, ∀ v ∈ s.pattern, v <+: text ++ rest → v.length ≤ text.length := by
    intro s v hv hpre
    have hv : v ∈ Rule.ident.pattern := by
      rcases hrules hv hpre with rfl | ⟨k, rfl⟩
      · exact hv
      · rw [mem_spelling.1 hv]
        exact ident_mem_of_isWord (Piece.isWord_keyword k)
    obtain ⟨d, ds, rfl, -, hds⟩ := mem_one_mul.1 hv
    rw [← hcs, List.cons_prefix_cons] at hpre
    rw [htext, List.length_cons, List.length_cons]
    exact Nat.succ_le_succ (Cut.length_le_run (mem_many.1 hds) hpre.2)
  unfold ofWord
  split
  · next k hk =>
    refine ⟨mem_spelling.2 (Keyword.ofText?_eq_some_iff.1 hk), hlongest, fun s hs => ?_⟩
    rcases hrules hs (List.prefix_append _ _) with rfl | ⟨l, rfl⟩
    · exact .inr ⟨rfl, k, rfl⟩
    · have hl := Keyword.ofText?_eq_some_iff.2 (mem_spelling.1 hs)
      obtain rfl : k = l := Option.some.inj (hk.symm.trans hl)
      exact .inl rfl
  · next hnone =>
    refine ⟨hident, hlongest, fun s hs => ?_⟩
    rcases hrules hs (List.prefix_append _ _) with rfl | ⟨k, rfl⟩
    · exact .inl rfl
    · have hk := Keyword.ofText?_eq_some_iff.2 (mem_spelling.1 hs)
      simp [hnone] at hk

theorem firstPiece_word {c : Char} {cs : List Char} (hc : Piece.startsIdent c = true) :
    FirstPiece (c :: cs)
      (.token (Piece.word (String.ofList (c :: (Cut.run Piece.continuesIdent cs).text))))
      ⟨c :: (Cut.run Piece.continuesIdent cs).text, (Cut.run Piece.continuesIdent cs).rest⟩ := by
  have hcs : c :: cs = c :: (Cut.run Piece.continuesIdent cs).text
      ++ (Cut.run Piece.continuesIdent cs).rest :=
    congrArg (c :: ·) (Cut.whole_run Piece.continuesIdent cs).symm
  exact .of_wins hcs (Rule.wins_ofWord hc hcs rfl) (Rule.make_ofWord _ _)
    (not_unfinished (Piece.ne_of_startsIdent hc (rfl : _ = false)) cs)

/-! ## Numbers -/

/-- No mark is spelled like a number or the start of one. -/
theorem Rule.not_number_of_mark {m : Mark} (hv : m.text.toList ∈ Pattern.int ∨
    m.text.toList ∈ Pattern.float) : False := by
  obtain ⟨c, ds, hds⟩ := List.exists_cons_of_ne_nil (Piece.Mark.text_ne_nil m)
  have hnot := Mark.not_startsNumeral hds
  rw [hds] at hv
  rcases hv with hv | hv
  · have hc := Rule.starts_int hv (List.prefix_refl _)
    simp [Numeral.startsNumeral, hc] at hnot
  · simp [Rule.starts_float hv (List.prefix_refl _)] at hnot

/-- Where a number starts a mark is one character at most. -/
theorem Mark.length_le_one {m : Mark} {c : Char} {cs : List Char}
    (hstarts : Numeral.startsNumeral c cs = true) (h : m.text.toList <+: c :: cs) :
    m.text.toList.length ≤ 1 := by
  obtain ⟨ds, hds, hpre⟩ := Mark.cons_of_prefix h
  rw [hds]
  rcases ds with _ | ⟨d, ds⟩
  · exact Nat.le_refl 1
  · obtain ⟨rest, rfl⟩ := hpre
    have hnot := Mark.not_startsNumeral hds
    simp_all [Numeral.startsNumeral]

section

variable {c : Char} {cs : List Char} (hstarts : Numeral.startsNumeral c cs = true)

include hstarts

theorem Rule.eq_number_or_mark {r : Rule} (hr : r.starts c cs = true) :
    r = .int ∨ r = .float ∨ ∃ m, r = .mark m := by
  rw [Numeral.startsNumeral, Bool.or_eq_true, Bool.and_eq_true, beq_iff_eq] at hstarts
  rcases hstarts with hc | ⟨hc, -⟩
  · exact (Rule.eq_number hr hc).imp_right .inl
  · exact .inr (Rule.eq_float_or_mark hr hc)

/-- The rule of the numeral's kind wins with the numeral. -/
theorem Rule.exists_wins_number {kind : LiteralKind} {k : Cut}
    (h : Numeral.numeral (c :: cs) = (some kind, k)) :
    ∃ r : Rule, r.numberKind? = some kind ∧ r.Wins k.text k.rest := by
  have hcs := Numeral.eq_append_of_numeral h
  have hpos := Numeral.numeral_length_pos hstarts
  rw [h] at hpos
  have hlongest : ∀ s : Rule, ∀ v ∈ s.pattern,
      v <+: k.text ++ k.rest → v.length ≤ k.text.length := by
    intro s v hv hpre
    rw [← hcs] at hpre
    rcases eq_number_or_mark hstarts (Rule.starts_of_mem hv hpre) with rfl | rfl | ⟨m, rfl⟩
    · simpa [h] using Numeral.int_longest hstarts hv hpre
    · simpa [h] using (Numeral.float_longest hv hpre).2
    · rw [mem_spelling.1 hv] at hpre ⊢
      exact Nat.le_trans (Mark.length_le_one hstarts hpre) hpos
  have hothers {s : Rule} (hs : k.text ∈ s.pattern) : s = .int ∨ s = .float := by
    rcases eq_number_or_mark hstarts (Rule.starts_of_mem hs (hcs ▸ List.prefix_append _ _)) with
      hs | hs | ⟨m, rfl⟩
    · exact .inl hs
    · exact .inr hs
    · refine (Rule.not_number_of_mark (m := m) ?_).elim
      rw [← mem_spelling.1 hs]
      exact (Numeral.numeral_mem hstarts h).imp And.right And.right
  rcases Numeral.numeral_mem hstarts h with ⟨rfl, hmem⟩ | ⟨rfl, hmem⟩
  · refine ⟨.int, rfl, hmem, hlongest, fun s hs => .inl ?_⟩
    rcases hothers hs with rfl | rfl
    · rfl
    · exact absurd hs (Numeral.not_float_of_int hmem)
  · refine ⟨.float, rfl, hmem, hlongest, fun s hs => .inl ?_⟩
    rcases hothers hs with rfl | rfl
    · exact absurd hmem (Numeral.not_float_of_int hs)
    · rfl

theorem exists_unfinished_of_none (h : (Numeral.numeral (c :: cs)).1 = none) :
    ∃ text rest, c :: cs = text ++ rest ∧ Unfinished text rest ∧
      Numeral.numeral (c :: cs) = (none, (⟨text, rest⟩ : Cut).extend Numeral.strayMark) := by
  obtain ⟨text, rest, hcs, hmem, hlongest, hless, hnumeral⟩ := Numeral.exists_unfinished h
  refine ⟨text, rest, hcs, ⟨hmem, fun v hv hpre => hlongest v hv (hcs ▸ hpre), ?_⟩, hnumeral⟩
  intro r v hv hpre
  rw [← hcs] at hpre
  rcases Rule.eq_number_or_mark hstarts (Rule.starts_of_mem hv hpre) with rfl | rfl | ⟨m, rfl⟩
  · exact hless v (.inl hv) hpre
  · exact hless v (.inr hv) hpre
  · rw [mem_spelling.1 hv] at hpre ⊢
    refine Nat.lt_of_le_of_lt (Mark.length_le_one hstarts hpre) ?_
    obtain ⟨x, a, b, rfl, -⟩ := mem_hexFraction.1 hmem
    simp

end

/-- The mark of an exponent goes with the fraction, unless the text ends there. -/
theorem FirstPiece.of_unfinished {cs text rest : List Char} (hcs : cs = text ++ rest)
    (h : Unfinished text rest) : FirstPiece cs (.token (.faulty .invalidToken))
      ((⟨text, rest⟩ : Cut).extend Numeral.strayMark) := by
  rcases rest with _ | ⟨p, _ | ⟨d, rest⟩⟩
  · exact .unfinished hcs h fun p hp => by simp at hp
  · exact .unfinished hcs h fun p _ _ => rfl
  · by_cases hp : p ∈ ['p', 'P']
    · have hstray : Numeral.strayMark (p :: d :: rest) = some ⟨[p], d :: rest⟩ :=
        if_pos (by simpa using hp)
      rw [Cut.extend, hstray]
      exact .unfinishedMark hcs h hp (List.cons_ne_nil d rest)
    · have hstray : Numeral.strayMark (p :: d :: rest) = none := if_neg (by simpa using hp)
      rw [Cut.extend, hstray]
      refine .unfinished hcs h fun q hq hmark => ?_
      obtain rfl : p = q := Option.some.inj hq
      exact absurd hmark hp

theorem firstPiece_number {c : Char} {cs : List Char}
    (hstarts : Numeral.startsNumeral c cs = true) :
    FirstPiece (c :: cs) (.token (Numeral.token (c :: cs)).1) (Numeral.token (c :: cs)).2 := by
  rcases hnumeral : Numeral.numeral (c :: cs) with ⟨_ | kind, k⟩
  · obtain ⟨text, rest, hcs, hopen, hk⟩ :=
      exists_unfinished_of_none hstarts (congrArg Prod.fst hnumeral)
    rw [Numeral.token, hk]
    exact .of_unfinished hcs hopen
  · obtain ⟨r, hr, hwins⟩ := Rule.exists_wins_number hstarts hnumeral
    have hcs := Numeral.eq_append_of_numeral hnumeral
    have hmake : r.make k.text k.rest
        = (.token (Numeral.token (c :: cs)).1, (Numeral.token (c :: cs)).2) := by
      rw [Rule.make_of_number hr, Rule.makeNumber]
      rcases hbar : Numeral.misplacesBar k.text with _ | _
      · rw [Numeral.token_of_numeral hnumeral hbar, if_neg (by simp)]
        split <;> rfl
      · rw [Numeral.token, hnumeral]
        simp [hbar]
    refine .of_wins hcs hwins hmake fun v w hvw h => ?_
    have hpre : v <+: c :: cs := hvw ▸ List.prefix_append v w
    have hlt := h.unmatched r k.text hwins.matched (hvw ▸ hcs ▸ List.prefix_append _ _)
    have hle := Numeral.fraction_le_numeral h.matched hpre (by simp [hnumeral])
    rw [hnumeral] at hle
    exact Nat.lt_irrefl _ (Nat.lt_of_lt_of_le hlt hle)

/-! ## Comments and marks -/

/-- A slash starts no mark as long as the opening of a comment but those with an equals sign. -/
theorem Mark.of_slash {m : Mark} {cs : List Char} (h : m.text.toList <+: '/' :: cs) :
    m.text.toList.length ≤ 2 ∧ m.text.toList ≠ ['/', '/'] ∧ m.text.toList ≠ ['/', '*'] := by
  obtain ⟨ds, hds, -⟩ := Mark.cons_of_prefix h
  have hhead : m.text.toList.head? = some '/' := by rw [hds, List.head?_cons]
  clear h hds
  cases m <;> first
    | decide
    | exact absurd hhead (by decide)

theorem Rule.wins_comment {r : Rule} {d : Char}
    (hr : r = .lineComment ∧ d = '/' ∨ r = .blockComment ∧ d = '*') (cs : List Char) :
    r.Wins ['/', d] cs := by
  have hpattern {v : List Char} : v ∈ r.pattern ↔ v = ['/', d] := by
    rcases hr with ⟨rfl, rfl⟩ | ⟨rfl, rfl⟩ <;> exact mem_spelling
  have hrules {s : Rule} (hs : s.starts '/' (d :: cs) = true) : s = r ∨ ∃ m, s = .mark m := by
    rcases Rule.eq_comment_or_mark hs rfl with ⟨rfl, hd⟩ | ⟨rfl, hd⟩ | hm
    · rcases hr with ⟨rfl, rfl⟩ | ⟨rfl, rfl⟩
      · exact .inl rfl
      · simp at hd
    · rcases hr with ⟨rfl, rfl⟩ | ⟨rfl, rfl⟩
      · simp at hd
      · exact .inl rfl
    · exact .inr hm
  refine ⟨hpattern.2 rfl, fun s v hv hpre => ?_, fun s hs => .inl ?_⟩
  · rcases hrules (Rule.starts_of_mem hv hpre) with rfl | ⟨m, rfl⟩
    · exact (congrArg List.length (hpattern.1 hv)).le
    · rw [mem_spelling.1 hv] at hpre ⊢
      exact (Mark.of_slash hpre).1
  · rcases hrules (Rule.starts_of_mem hs (List.prefix_append ['/', d] cs)) with rfl | ⟨m, rfl⟩
    · rfl
    · have hm : m.text.toList = ['/', d] := (mem_spelling.1 hs).symm
      have hpre : m.text.toList <+: '/' :: d :: cs := hm ▸ List.prefix_append ['/', d] cs
      have hnot := Mark.of_slash hpre
      rcases hr with ⟨-, rfl⟩ | ⟨-, rfl⟩
      · exact absurd hm hnot.2.1
      · exact absurd hm hnot.2.2

theorem firstPiece_comment? {cs : List Char} {p : PieceKind × Cut}
    (h : Piece.comment? cs = some p) : FirstPiece ('/' :: cs) p.1 p.2 := by
  have hfinished := not_unfinished (by decide : '/' ≠ '0')
  unfold Piece.comment? at h
  split at h
  · next cs =>
    obtain rfl := Option.some.inj h
    exact .of_wins rfl (Rule.wins_comment (.inl ⟨rfl, rfl⟩) cs) rfl (hfinished _)
  · next cs =>
    have hwins := Rule.wins_comment (.inr ⟨rfl, rfl⟩) cs
    split at h
    · next k hk =>
      obtain rfl := Option.some.inj h
      exact .of_wins rfl hwins (by rw [Rule.make, hk]) (hfinished _)
    · next hk =>
      obtain rfl := Option.some.inj h
      refine .of_wins rfl hwins ?_ (hfinished _)
      rw [Rule.make, hk]
      rfl
  · simp at h

/-- Of the marks that a text starts with, the one that is found is the longest. -/
theorem Piece.leadingMark?_longest {cs : List Char} {m n : Mark} (h : leadingMark? cs = some m)
    (hn : n.text.toList <+: cs) : n.text.toList.length ≤ m.text.toList.length := by
  have hsorted : Mark.all.Pairwise fun a b => b.text.toList.length ≤ a.text.toList.length := by
    decide
  obtain ⟨-, before, after, hall, hnone⟩ := List.find?_eq_some_iff_append.1 h
  have hmem := n.mem_all
  rw [hall] at hmem hsorted
  rcases List.mem_append.1 hmem with hmem | hmem
  · have := hnone n hmem
    simp [List.isPrefixOf_iff_prefix.2 hn] at this
  · rcases List.mem_cons.1 hmem with rfl | hmem
    · exact Nat.le_refl _
    · exact (List.pairwise_cons.1 (List.pairwise_append.1 hsorted).2.1).1 n hmem

theorem Mark.text_inj {m n : Mark} (h : m.text.toList = n.text.toList) : m = n := by
  have hfound (m : Mark) : Piece.leadingMark? m.text.toList = some m := by cases m <;> rfl
  have hm := hfound m
  rw [h, hfound n] at hm
  exact (Option.some.inj hm).symm

theorem firstPiece_mark {c : Char} {cs : List Char} (hgap : Piece.gap? c cs = none)
    (hword : Piece.word? c cs = none) (hcomment : c = '/' → Piece.comment? cs = none) :
    FirstPiece (c :: cs) (Piece.mark c cs).1 (Piece.mark c cs).2 := by
  have hrules {s : Rule} (hs : s.starts c cs = true) : ∃ m, s = .mark m :=
    Rule.eq_mark hs hgap hword hcomment
  obtain ⟨-, hstarts, -, hstring, hrune⟩ := Piece.word?_eq_none_iff.1 hword
  unfold Piece.mark
  split
  · next m hm =>
    have hpre := Piece.prefix_of_leadingMark? hm
    have hcs : c :: cs = m.text.toList ++ (c :: cs).drop m.text.toList.length :=
      (List.prefix_iff_eq_append.1 hpre).symm
    have hwins : (Rule.mark m).Wins m.text.toList ((c :: cs).drop m.text.toList.length) := by
      refine ⟨rfl, fun s v hv hv' => ?_, fun s hs => .inl ?_⟩
      · rw [← hcs] at hv'
        obtain ⟨n, rfl⟩ := hrules (Rule.starts_of_mem hv hv')
        rw [mem_spelling.1 hv] at hv' ⊢
        exact Piece.leadingMark?_longest hm hv'
      · obtain ⟨n, rfl⟩ := hrules (Rule.starts_of_mem hs hpre)
        rw [Mark.text_inj (mem_spelling.1 hs)]
    refine .of_wins hcs hwins rfl (not_unfinished ?_ _)
    rintro rfl
    simp [Numeral.startsNumeral] at hstarts
  · next hm =>
    refine .invalid rfl (by simp [hstring, hrune]) fun s v hv hpre => ?_
    obtain ⟨n, rfl⟩ := hrules (Rule.starts_of_mem hv hpre)
    rw [mem_spelling.1 hv] at hpre
    have hnone := List.find?_eq_none.1 hm n n.mem_all
    exact hnone (List.isPrefixOf_iff_prefix.2 hpre)

/-! ## Scanning -/

theorem firstPiece_word? {c : Char} {cs : List Char} {p : Token × Cut}
    (h : Piece.word? c cs = some p) : FirstPiece (c :: cs) (.token p.1) p.2 := by
  unfold Piece.word? at h
  split at h
  · next hc =>
    obtain rfl := Option.some.inj h
    exact firstPiece_word hc
  split at h
  · next hc =>
    obtain rfl := Option.some.inj h
    exact firstPiece_number hc
  · exact firstPiece_literal? h

/-- The first piece of a text is read by the rules. -/
theorem firstPiece_scan (c : Char) (cs : List Char) :
    FirstPiece (c :: cs) (Piece.scan c cs).1 (Piece.scan c cs).2 := by
  unfold Piece.scan
  split
  · exact firstPiece_gap? ‹_›
  · exact firstPiece_word? ‹_›
  · next hgap hword =>
    split
    · next hc =>
      obtain rfl := eq_of_beq hc
      rcases hcomment : Piece.comment? cs with _ | p
      · exact firstPiece_mark hgap hword fun _ => hcomment
      · exact firstPiece_comment? hcomment
    · next hc => exact firstPiece_mark hgap hword fun h => absurd (beq_iff_eq.2 h) hc

/-! ## One way to read -/

theorem Unfinished.unique {v w rest rest' : List Char} (h : Unfinished v rest)
    (h' : Unfinished w rest') (htext : v ++ rest = w ++ rest') : v = w ∧ rest = rest' :=
  eq_of_longest htext (h'.longest v h.matched (htext ▸ List.prefix_append _ _))
    (h.longest w h'.matched (htext ▸ List.prefix_append _ _))

/-- A rule matches the `0` at least. -/
theorem Unfinished.not_unmatched {v rest : List Char} (h : Unfinished v rest) :
    ¬ Unmatched (v ++ rest) := by
  obtain ⟨x, a, b, rfl, -⟩ := mem_hexFraction.1 h.matched
  intro hnone
  exact hnone .int ['0'] (mem_int.2 (.inl Numeral.zero_mem_digits)) ⟨_, rfl⟩

/-- What is at fault where no rule matches. -/
def unmatchedCut (c : Char) (cs : List Char) : Cut :=
  if c ∈ ['"', '\''] then (Delimited.items c cs).after [c] else ⟨[c], cs⟩

/-- A rule wins, or a fraction is unfinished, or no rule matches, which settles what is made. -/
theorem FirstPiece.outcome {cs : List Char} {kind : PieceKind} {k : Cut}
    (h : FirstPiece cs kind k) :
    (∃ r : Rule, ∃ text rest, cs = text ++ rest ∧ r.Wins text rest ∧
      (∀ v w, cs = v ++ w → ¬ Unfinished v w) ∧ r.make text rest = (kind, k)) ∨
    (∃ text rest, cs = text ++ rest ∧ Unfinished text rest ∧
      kind = .token (.faulty .invalidToken) ∧ k = (⟨text, rest⟩ : Cut).extend Numeral.strayMark) ∨
    ∃ c ds, cs = c :: ds ∧ Unmatched cs ∧ kind = .token (.faulty .invalidToken) ∧
      k = unmatchedCut c ds := by
  cases h with
  | rule hcs hwins hmakes hfinished =>
    exact .inl ⟨_, _, _, hcs, hwins, hfinished, Rule.makes_iff.1 hmakes⟩
  | @unfinished text rest hcs h hmark =>
    refine .inr (.inl ⟨text, rest, hcs, h, rfl, ?_⟩)
    rcases rest with _ | ⟨p, _ | ⟨d, rest⟩⟩
    · rfl
    · rfl
    · have hnot : p ≠ 'p' ∧ p ≠ 'P' := by simpa using hmark p rfl
      simp [Cut.extend, Numeral.strayMark, hnot]
  | @unfinishedMark text rest p hcs h hmark hrest =>
    refine .inr (.inl ⟨text, p :: rest, hcs, h, rfl, ?_⟩)
    obtain ⟨d, rest, rfl⟩ := List.exists_cons_of_ne_nil hrest
    have hp : p = 'p' ∨ p = 'P' := List.mem_pair.1 hmark
    simp [Cut.extend, Numeral.strayMark, hp, Cut.after]
  | @unclosed quote body rest hcs hquote hnone hbody hlongest =>
    refine .inr (.inr ⟨quote, body ++ rest, hcs, hnone, rfl, ?_⟩)
    have hwhole := Delimited.whole_items quote (body ++ rest)
    have hle := hlongest _ (Delimited.items_mem quote (body ++ rest)) ⟨_, hwhole⟩
    have hge := Delimited.items_longest hbody (List.prefix_append body rest)
    obtain ⟨htext, hrest⟩ := eq_of_longest hwhole hle hge
    rw [unmatchedCut, if_pos hquote, Cut.after, htext, hrest]
    rfl
  | invalid hcs hquote hnone =>
    exact .inr (.inr ⟨_, _, hcs, hnone, rfl, by rw [unmatchedCut, if_neg hquote]⟩)

theorem FirstPiece.unique {cs : List Char} {kind kind' : PieceKind} {k k' : Cut}
    (h : FirstPiece cs kind k) (h' : FirstPiece cs kind' k') : kind = kind' ∧ k = k' := by
  rcases h.outcome with ⟨r, text, rest, hcs, hwins, hfinished, hmake⟩ |
    ⟨text, rest, hcs, hopen, rfl, rfl⟩ | ⟨c, ds, hcs, hnone, rfl, rfl⟩
  · rcases h'.outcome with ⟨s, w, rest', hcs', hwins', -, hmake'⟩ | ⟨w, rest', hcs', hopen, -⟩ |
      ⟨-, -, -, hnone, -⟩
    · obtain ⟨rfl, rfl, rfl⟩ := hwins.unique hwins' (hcs.symm.trans hcs')
      exact Prod.mk.inj (hmake.symm.trans hmake')
    · exact absurd hopen (hfinished w rest' hcs')
    · exact absurd (hcs ▸ List.prefix_append _ _) (hnone r text hwins.matched)
  · rcases h'.outcome with ⟨-, -, -, -, -, hfinished, -⟩ | ⟨w, rest', hcs', hopen', rfl, rfl⟩ |
      ⟨-, -, -, hnone, -⟩
    · exact absurd hopen (hfinished text rest hcs)
    · obtain ⟨rfl, rfl⟩ := hopen.unique hopen' (hcs.symm.trans hcs')
      exact ⟨rfl, rfl⟩
    · exact absurd (hcs ▸ hnone) hopen.not_unmatched
  · rcases h'.outcome with ⟨r, text, rest, hcs', hwins, -⟩ | ⟨w, rest', hcs', hopen, -⟩ |
      ⟨d, es, hcs', -, rfl, rfl⟩
    · exact absurd (hcs' ▸ List.prefix_append _ _) (hnone r text hwins.matched)
    · exact absurd (hcs' ▸ hnone) hopen.not_unmatched
    · obtain ⟨rfl, rfl⟩ := List.cons.inj (hcs.symm.trans hcs')
      exact ⟨rfl, rfl⟩

theorem FirstPiece.ne_nil {cs : List Char} {kind : PieceKind} {k : Cut}
    (h : FirstPiece cs kind k) : cs ≠ [] := by
  rintro rfl
  rcases h.outcome with ⟨r, text, rest, hcs, hwins, -⟩ | ⟨text, rest, hcs, hopen, -⟩ |
    ⟨c, ds, hcs, -⟩
  · obtain ⟨rfl, rfl⟩ := List.append_eq_nil_iff.1 hcs.symm
    -- a rule that matched nothing would match before a space as before a digit
    have hspace : r.starts ' ' [] = true := Rule.starts_of_mem hwins.matched List.nil_prefix
    have hzero : r.starts '0' [] = true := Rule.starts_of_mem hwins.matched List.nil_prefix
    obtain rfl := Rule.eq_of_sign hspace rfl
    exact Bool.false_ne_true hzero
  · obtain ⟨rfl, rfl⟩ := List.append_eq_nil_iff.1 hcs.symm
    obtain ⟨x, a, b, hnil, -⟩ := mem_hexFraction.1 hopen.matched
    simp at hnil
  · simp at hcs

/-- Scanning reads by the rules, and nothing else does. -/
theorem firstPiece_iff {c : Char} {cs : List Char} {kind : PieceKind} {k : Cut} :
    FirstPiece (c :: cs) kind k ↔ Piece.scan c cs = (kind, k) := by
  constructor
  · intro h
    obtain ⟨hkind, hk⟩ := (firstPiece_scan c cs).unique h
    exact Prod.ext hkind hk
  · intro h
    have hscan := firstPiece_scan c cs
    rwa [h] at hscan

/-! ## Whole texts -/

section

variable {offset : Nat} {ends : Bool} {ps : List Piece} {text : List Char}

theorem written_token (t : Token) (htext : text ≠ []) :
    written (lexemesFrom offset ends (⟨.token t, text⟩ :: ps))
      = ⟨t, offset, offset + byteCount text⟩
        :: written (lexemesFrom (offset + byteCount text) t.endsStatement ps) := by
  have hpos := byteCount_pos htext
  refine List.filter_cons_of_pos ?_
  simp [Lexeme.isInserted, Span.isEmpty, Span.size, Piece.size, Nat.ne_of_gt hpos]

theorem written_lateMark (hoffset : offset ≠ 0) :
    written (lexemesFrom offset ends (⟨.byteOrderMark, text⟩ :: ps))
      = ⟨.faulty .invalidToken, offset, offset + byteCount text⟩
        :: written (lexemesFrom (offset + byteCount text) false ps) := by
  have hcons : lexemesFrom offset ends (⟨.byteOrderMark, text⟩ :: ps)
      = ⟨.faulty .invalidToken, offset, offset + byteCount text⟩
        :: lexemesFrom (offset + byteCount text) false ps := if_neg hoffset
  rw [hcons]
  exact List.filter_cons_of_pos rfl

variable (ends ps) in
/-- A gap makes nothing but inserted semicolons. -/
theorem written_gap {kind : PieceKind} (hkind : ∀ t, kind ≠ .token t)
    (hmark : kind = .byteOrderMark → offset = 0) :
    ∃ ends', written (lexemesFrom offset ends (⟨kind, text⟩ :: ps))
      = written (lexemesFrom (offset + byteCount text) ends' ps) := by
  have hbreak (h : kind = .newline ∨ kind = .blockComment) :
      ∃ ends', written (lexemesFrom offset ends (⟨kind, text⟩ :: ps))
        = written (lexemesFrom (offset + byteCount text) ends' ps) := by
    obtain ⟨made, ends', hmade, hsemi⟩ := lexemesFrom_newline offset ends (p := ⟨kind, text⟩) h
    refine ⟨ends', ?_⟩
    rw [hmade]
    rcases hsemi with rfl | ⟨n, rfl⟩
    · rfl
    · exact written_insertedSemi n _
  cases kind with
  | token t => exact absurd rfl (hkind t)
  | blank | lineComment => exact ⟨ends, rfl⟩
  | newline => exact hbreak (.inl rfl)
  | blockComment => exact hbreak (.inr rfl)
  | byteOrderMark => exact ⟨ends, congrArg written (if_pos (hmark rfl))⟩

end

/-- Every text is read by the rules as its pieces and the lexemes that are not inserted. -/
theorem readsByPieces_pieces (cs : List Char) (offset : Nat) (ends : Bool) :
    ReadsByPieces offset cs (pieces cs) (written (lexemesFrom offset ends (pieces cs))) := by
  fun_induction pieces cs generalizing offset ends with
  | case1 =>
    cases ends
    · exact .nil
    · rw [lexemesFrom, if_pos rfl, written_insertedSemi]
      exact .nil
  | case2 c cs ih =>
    have h := firstPiece_scan c cs
    have hne := (Piece.cuts_scan c cs).2
    generalize (Piece.scan c cs).1 = kind at *
    generalize (Piece.scan c cs).2 = k at *
    have hgap (hkind : ∀ t, kind ≠ .token t) (hmark : kind = .byteOrderMark → offset = 0) :
        ReadsByPieces offset (c :: cs) (⟨kind, k.text⟩ :: pieces k.rest)
          (written (lexemesFrom offset ends (⟨kind, k.text⟩ :: pieces k.rest))) := by
      obtain ⟨ends', hwritten⟩ := written_gap ends (pieces k.rest) hkind hmark
      rw [hwritten]
      exact .gap h hkind hmark (ih _ _)
    cases kind with
    | token t =>
      rw [written_token t hne]
      exact .token h (ih _ _)
    | byteOrderMark =>
      by_cases hzero : offset = 0
      · exact hgap (by simp) fun _ => hzero
      · rw [written_lateMark hzero]
        exact .lateMark h hzero (ih _ _)
    | _ => exact hgap (by simp) (by simp)

/-- It is read in no other way. -/
theorem ReadsByPieces.eq_pieces {offset : Nat} {cs : List Char} {ps : List Piece}
    {ls : List Lexeme} (h : ReadsByPieces offset cs ps ls) :
    ps = pieces cs ∧ ∀ ends, ls = written (lexemesFrom offset ends ps) := by
  have hpieces {cs : List Char} {kind : PieceKind} {k : Cut} (h : FirstPiece cs kind k) :
      pieces cs = ⟨kind, k.text⟩ :: pieces k.rest ∧ k.text ≠ [] := by
    obtain ⟨c, cs, rfl⟩ := List.exists_cons_of_ne_nil h.ne_nil
    have hscan := firstPiece_iff.1 h
    have hcuts := (Piece.cuts_scan c cs).2
    rw [pieces, hscan]
    rw [hscan] at hcuts
    exact ⟨rfl, hcuts⟩
  induction h with
  | nil =>
    refine ⟨by rw [pieces], fun ends => ?_⟩
    cases ends
    · rfl
    · rw [lexemesFrom, if_pos rfl, written_insertedSemi]
      rfl
  | token h _ ih =>
    obtain ⟨hcs, hne⟩ := hpieces h
    refine ⟨by rw [hcs, ih.1], fun ends => ?_⟩
    rw [written_token _ hne, ← ih.2]
  | gap h hkind hmark _ ih =>
    obtain ⟨hcs, hne⟩ := hpieces h
    refine ⟨by rw [hcs, ih.1], fun ends => ?_⟩
    obtain ⟨ends', hwritten⟩ := written_gap _ _ hkind hmark
    rw [hwritten, ← ih.2]
  | lateMark h hoffset _ ih =>
    obtain ⟨hcs, hne⟩ := hpieces h
    refine ⟨by rw [hcs, ih.1], fun ends => ?_⟩
    rw [written_lateMark hoffset, ← ih.2]

/-- A text is read by the rules as its pieces and its lexemes, but for the inserted semicolons, and
in no other way. What is at fault are lexemes of pieces. -/
theorem lexed_by_longest_match (source : String) :
    (∀ ps ls, ReadsByPieces 0 source.toList ps ls ↔
      ps = pieces source.toList ∧ ls = written (lex source)) ∧
    lexDiagnostics source = (written (lex source)).filterMap Lexeme.diagnostic? := by
  refine ⟨fun ps ls => ⟨fun h => ?_, ?_⟩, ?_⟩
  · obtain ⟨rfl, hls⟩ := h.eq_pieces
    exact ⟨rfl, hls false⟩
  · rintro ⟨rfl, rfl⟩
    exact readsByPieces_pieces source.toList 0 false
  · rw [lexDiagnostics, written, List.filterMap_filter]
    refine congrArg (List.filterMap · (lex source)) (funext fun l => ?_)
    split
    · rfl
    · next hinserted =>
      have hsemi := Lexeme.token_of_isInserted (by simpa using hinserted)
      simp [Lexeme.diagnostic?, Lexeme.fault?, hsemi]

end GoIface
