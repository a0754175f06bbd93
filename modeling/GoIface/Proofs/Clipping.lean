import GoIface.Proofs.ClippedNumerals

/-!
# Texts that are cut short

A piece is scanned the same in a text that is cut off anywhere after it (`Piece.scan_before`): what
scanning sees beyond the piece can only make the piece longer, and it did not. Faulty pieces are
left out, as a fault may well lie in what is cut off. So a text that is cut off between two pieces
falls into the pieces up to there (`pieces_of_append`).
-/

namespace GoIface

open GoIface.Text

/-! ## Comments and quoted literals -/

namespace Delimited

variable {cs v : List Char} {quote : Char}

theorem throughCommentEnd_cons {c : Char} {cs : List Char}
    (h : ¬ (c = '*' ∧ cs.head? = some '/')) :
    throughCommentEnd (c :: cs) = (throughCommentEnd cs).map (·.after [c]) := by
  rw [throughCommentEnd]
  rintro ds rfl rfl
  exact h ⟨rfl, rfl⟩

theorem two_le_of_throughCommentEnd {k : Cut} (h : throughCommentEnd cs = some k) :
    2 ≤ k.text.length := by
  obtain ⟨body, hbody, -⟩ := Piece.text_of_throughCommentEnd h
  simp [hbody]

theorem throughCommentEnd_stays : Cut.Stays throughCommentEnd := by
  intro cs v h
  induction cs with
  | nil =>
    refine Option.eq_none_iff_forall_ne_some.2 fun k hk => ?_
    have := two_le_of_throughCommentEnd hk
    have := h k hk
    simp_all
  | cons c cs ih =>
    by_cases hend : c = '*' ∧ (cs ++ v).head? = some '/'
    · obtain ⟨rfl, hslash⟩ := hend
      rcases cs with _ | ⟨d, cs⟩
      · obtain ⟨v, rfl⟩ := List.head?_eq_some_iff.1 hslash
        simpa using h _ rfl
      · obtain rfl := Option.some.inj hslash
        rfl
    · have hshort : ¬ (c = '*' ∧ cs.head? = some '/') := by
        rintro ⟨hc, hhead⟩
        obtain ⟨cs, rfl⟩ := List.head?_eq_some_iff.1 hhead
        exact hend ⟨hc, rfl⟩
      rw [List.cons_append, throughCommentEnd_cons hend] at h ⊢
      rw [throughCommentEnd_cons hshort, ih fun k hk => ?_]
      · rcases throughCommentEnd cs with _ | k <;> rfl
      · simpa [Cut.after, hk] using h (k.after [c])

theorem items_escape {c : Char} (hc : c ≠ '\n') (cs : List Char) :
    items quote ('\\' :: c :: cs) = (items quote cs).after ['\\', c] := by
  rw [items, if_neg (by simpa using hc)]

theorem items_cons {c : Char} (hc : c ≠ '\\') (cs : List Char) :
    items quote (c :: cs) = if c == quote || isLineBreak c then ⟨[], c :: cs⟩
      else (items quote cs).after [c] := by
  rw [items]
  · simp [hc]
  · rintro _ _ rfl _
    exact hc rfl

theorem items_before (quote : Char) (cs v : List Char)
    (h : (items quote (cs ++ v)).text.length ≤ cs.length) :
    items quote (cs ++ v) = (items quote cs).before v := by
  fun_induction items quote cs with
  | case1 c cs hc =>
    obtain rfl := eq_of_beq hc
    rfl
  | case2 c cs hc ih =>
    have hc : c ≠ '\n' := by simpa using hc
    simp only [List.cons_append, items_escape hc] at h ⊢
    rw [ih (by simpa [Cut.after] using h), Cut.after_before]
  | case3 c cs hne hstop =>
    by_cases hc : c = '\\'
    · subst hc
      obtain rfl : cs = [] := by
        rcases cs with _ | ⟨d, cs⟩
        · rfl
        · exact (hne d cs rfl rfl).elim
      -- an escape would take the character that is cut off
      rcases v with _ | ⟨d, v⟩
      · simp [items, Cut.before]
      · by_cases hd : d = '\n'
        · subst hd
          rfl
        · simp [items_escape hd, Cut.after] at h
    · have hstop : (c == quote || isLineBreak c) = true := by simpa [hc] using hstop
      rw [List.cons_append, items_cons hc, if_pos hstop]
      rfl
  | case4 c cs hne hstop ih =>
    have hc : c ≠ '\\' := by
      rintro rfl
      simp at hstop
    have hgo : ¬ (c == quote || isLineBreak c) = true := by simpa [hc] using hstop
    rw [List.cons_append, items_cons hc, if_neg hgo] at h ⊢
    rw [ih (by simpa [Cut.after] using h), Cut.after_before]
  | case5 =>
    have hwhole := whole_items quote v
    rcases hitems : items quote v with ⟨text, rest⟩
    simp_all [Cut.whole, Cut.before]

theorem literal_of_items {kind : LiteralKind} {mayBeEmpty : Bool} {rest : List Char}
    (h : (items quote cs).rest = quote :: rest)
    (hempty : (mayBeEmpty || !(items quote cs).text.isEmpty) = true) :
    literal kind quote mayBeEmpty cs
      = (.literal kind (String.ofList (quote :: (items quote cs).text ++ [quote])),
        ⟨quote :: (items quote cs).text ++ [quote], rest⟩) := by
  simp only [literal, h, beq_self_eq_true, Bool.true_and, hempty, if_true]

theorem items_of_literal {kind : LiteralKind} {mayBeEmpty : Bool}
    (h : ∀ e, (literal kind quote mayBeEmpty cs).1 ≠ .faulty e) :
    ∃ rest, (items quote cs).rest = quote :: rest ∧
      (mayBeEmpty || !(items quote cs).text.isEmpty) = true := by
  simp only [literal] at h
  split at h
  · next c rest hrest =>
    split at h
    · next hc =>
      rw [Bool.and_eq_true, beq_iff_eq] at hc
      exact ⟨rest, by rw [hrest, hc.1], hc.2⟩
    · exact absurd rfl (h _)
  · exact absurd rfl (h _)

theorem literal_before {kind : LiteralKind} {mayBeEmpty : Bool}
    (hfault : ∀ e, (literal kind quote mayBeEmpty (cs ++ v)).1 ≠ .faulty e)
    (h : (literal kind quote mayBeEmpty (cs ++ v)).2.text.length ≤ cs.length + 1) :
    literal kind quote mayBeEmpty (cs ++ v)
      = (literal kind quote mayBeEmpty cs).map id (·.before v) := by
  obtain ⟨rest, hrest, hempty⟩ := items_of_literal hfault
  rw [literal_of_items hrest hempty] at h ⊢
  simp only [List.length_append, List.length_cons, List.length_nil] at h
  have hitems := items_before quote cs v (by omega)
  have hwhole := congrArg List.length (whole_items quote cs)
  rw [Cut.whole, List.length_append] at hwhole
  rw [hitems, Cut.before_text] at h hempty ⊢
  rw [hitems, Cut.before_rest] at hrest
  obtain ⟨hnil, -⟩ | ⟨rest, hshort, rfl⟩ := List.append_eq_cons_iff.1 hrest
  · rw [hnil, List.length_nil] at hwhole
    omega
  rw [literal_of_items hshort hempty]
  rfl

theorem rawString_of_run {c : Char} {rest : List Char}
    (h : (Cut.run (· != quote) cs).rest = c :: rest) :
    rawString quote cs
      = (.literal .rawString (String.ofList (quote :: (Cut.run (· != quote) cs).text ++ [c])),
        ⟨quote :: (Cut.run (· != quote) cs).text ++ [c], rest⟩) := by
  simp [rawString, Cut.after, h]

theorem run_of_rawString (h : ∀ e, (rawString quote cs).1 ≠ .faulty e) :
    ∃ c rest, (Cut.run (· != quote) cs).rest = c :: rest := by
  rcases hrest : (Cut.run (· != quote) cs).rest with _ | ⟨c, rest⟩
  · refine absurd ?_ (h .unterminatedRawString)
    simp [rawString, Cut.after, hrest]
  · exact ⟨c, rest, rfl⟩

theorem rawString_before (hfault : ∀ e, (rawString quote (cs ++ v)).1 ≠ .faulty e)
    (h : (rawString quote (cs ++ v)).2.text.length ≤ cs.length + 1) :
    rawString quote (cs ++ v) = (rawString quote cs).map id (·.before v) := by
  obtain ⟨c, rest, hrest⟩ := run_of_rawString hfault
  rw [rawString_of_run hrest] at h ⊢
  simp only [List.length_append, List.length_cons, List.length_nil] at h
  have hrun := Cut.run_before (· != quote) cs v (by omega)
  have hwhole := congrArg List.length (Cut.whole_run (· != quote) cs)
  rw [Cut.whole, List.length_append] at hwhole
  rw [hrun, Cut.before_text] at h ⊢
  rw [hrun, Cut.before_rest] at hrest
  obtain ⟨hnil, -⟩ | ⟨rest, hshort, rfl⟩ := List.append_eq_cons_iff.1 hrest
  · rw [hnil, List.length_nil] at hwhole
    omega
  rw [rawString_of_run hshort]
  rfl

end Delimited

/-! ## Pieces -/

namespace Piece

variable {c : Char} {cs v : List Char}

/-- The same piece of a text that goes on. -/
abbrev onto {κ : Type} (p : κ × Cut) (v : List Char) : κ × Cut := p.map id (·.before v)

theorem literal?_before
    (h : ∀ p, literal? c (cs ++ v) = some p → (∀ e, p.1 ≠ .faulty e) ∧
      p.2.text.length ≤ cs.length + 1) :
    literal? c (cs ++ v) = (literal? c cs).map (onto · v) := by
  unfold literal? at h ⊢
  split
  · next hc =>
    obtain ⟨hfault, hlen⟩ := h _ (if_pos hc)
    exact congrArg some (Delimited.rawString_before hfault hlen)
  next hraw =>
  rw [if_neg hraw] at h
  split
  · next hc =>
    obtain ⟨hfault, hlen⟩ := h _ (if_pos hc)
    exact congrArg some (Delimited.literal_before hfault hlen)
  next hstring =>
  rw [if_neg hstring] at h
  split
  · next hc =>
    obtain ⟨hfault, hlen⟩ := h _ (if_pos hc)
    exact congrArg some (Delimited.literal_before hfault hlen)
  · rfl

/-- A point before a digit is part of the numeral. -/
theorem two_le_of_point {d : Char} (hd : d.isDigit = true) :
    2 ≤ (Numeral.token ('.' :: d :: v)).2.text.length := by
  refine Nat.le_trans ?_ (Numeral.length_numeral_le_token _)
  have hpoint : (Cut.run Numeral.isDecimal ('.' :: d :: v)).rest = '.' :: d :: v := rfl
  rw [Numeral.numeral_of_ne (by decide), Numeral.decimal_of_point hpoint]
  refine Nat.le_trans ?_ (Cut.length_le_extend _ _)
  simp [Cut.after, Cut.run, Numeral.isDecimal, hd]

theorem word?_before
    (h : ∀ p, word? c (cs ++ v) = some p → (∀ e, p.1 ≠ .faulty e) ∧
      p.2.text.length ≤ cs.length + 1) :
    word? c (cs ++ v) = (word? c cs).map (onto · v) := by
  unfold word? at h ⊢
  split
  · next hc =>
    have hlen := (h _ (if_pos hc)).2
    rw [Cut.run_before _ _ _ (by simpa [Cut.after] using hlen)]
    rfl
  next hident =>
  rw [if_neg hident] at h
  have hnumeral : (c.isDigit || (c == '.' && (cs ++ v).head?.any (·.isDigit)))
      = (c.isDigit || (c == '.' && cs.head?.any (·.isDigit))) := by
    rcases cs with _ | ⟨d, cs⟩
    · rcases v with _ | ⟨d, v⟩
      · rfl
      · by_cases hpoint : c = '.' ∧ d.isDigit = true
        · obtain ⟨rfl, hd⟩ := hpoint
          have hlen := (h _ (if_pos (by simp [hd]))).2
          have := two_le_of_point (v := v) hd
          simp only [List.nil_append, List.length_nil] at hlen
          omega
        · simp_all
    · rfl
  rw [hnumeral] at h ⊢
  split
  · next hc =>
    obtain ⟨hfault, hlen⟩ := h _ (if_pos hc)
    exact congrArg some (Numeral.token_before hfault hlen)
  · next hc =>
    rw [if_neg hc] at h
    exact literal?_before h

theorem gap?_before (h : ∀ p, gap? c (cs ++ v) = some p → p.2.text.length ≤ cs.length + 1) :
    gap? c (cs ++ v) = (gap? c cs).map (onto · v) := by
  unfold gap? at h ⊢
  split
  · next hc =>
    have hlen := h _ (if_pos hc)
    rw [Cut.run_before _ _ _ (by simpa [Cut.after] using hlen)]
    rfl
  next hspace =>
  rw [if_neg hspace] at h
  split
  · rfl
  next hnewline =>
  rw [if_neg hnewline] at h
  split
  · next hreturn =>
    rw [if_pos hreturn] at h
    rcases cs with _ | ⟨d, cs⟩
    · rcases v with _ | ⟨d, v⟩
      · rfl
      · by_cases hd : d = '\n'
        · subst hd
          simpa using h _ rfl
        · simp [hd, Cut.before]
    · by_cases hd : d = '\n' <;> simp [hd, Cut.before]
  · split <;> rfl

theorem two_le_of_comment? {p : PieceKind × Cut} (h : comment? cs = some p) :
    2 ≤ p.2.text.length := by
  unfold comment? at h
  split at h
  · obtain rfl := Option.some.inj h
    simp [Cut.after]
  · split at h <;>
    · obtain rfl := Option.some.inj h
      simp [Cut.after]
  · simp at h

theorem comment?_before (h : ∀ p, comment? (cs ++ v) = some p →
      (∀ e, p.1 ≠ .token (.faulty e)) ∧ p.2.text.length ≤ cs.length + 1) :
    comment? (cs ++ v) = (comment? cs).map (onto · v) := by
  rcases cs with _ | ⟨d, cs⟩
  · refine Option.eq_none_iff_forall_ne_some.2 fun p hp => ?_
    have htwo := two_le_of_comment? hp
    have hone : p.2.text.length ≤ 1 := (h p hp).2
    omega
  by_cases hslash : d = '/'
  · subst hslash
    have hlen := (h _ rfl).2
    simp only [List.cons_append, comment?, Option.map_some]
    rw [Cut.run_before _ _ _ (by simpa [Cut.after] using hlen)]
    rfl
  by_cases hstar : d = '*'
  · subst hstar
    rcases hend : Delimited.throughCommentEnd (cs ++ v) with _ | k
    · have hfaulty : comment? ('*' :: cs ++ v)
          = some (.token (.faulty .unterminatedComment), ⟨'/' :: '*' :: (cs ++ v), []⟩) := by
        simp [comment?, hend]
      exact absurd rfl ((h _ hfaulty).1 _)
    · have hlong : comment? ('*' :: cs ++ v) = some (.blockComment, k.after ['/', '*']) := by
        simp [comment?, hend]
      have hlen := (h _ hlong).2
      have hstays := Delimited.throughCommentEnd_stays cs v fun e he => by
        obtain rfl := Option.some.inj (hend.symm.trans he)
        simpa [Cut.after] using hlen
      obtain ⟨k, hk, rfl⟩ := Option.map_eq_some_iff.1 (hstays.symm.trans hend)
      rw [hlong]
      simp [comment?, hk, Cut.after_before]
  · simp [comment?, hslash, hstar]

theorem leadingMark?_before {m : Mark} (hm : leadingMark? (c :: (cs ++ v)) = some m)
    (h : m.text.toList.length ≤ cs.length + 1) : leadingMark? (c :: cs) = some m := by
  obtain ⟨hstarts, before, after, hall, hnone⟩ := List.find?_eq_some_iff_append.1 hm
  rw [← List.cons_append, List.isPrefixOf_iff_prefix] at hstarts
  refine List.find?_eq_some_iff_append.2 ⟨?_, before, after, hall, fun k hk => ?_⟩
  · exact List.isPrefixOf_iff_prefix.2 (List.prefix_of_prefix_length_le hstarts
      (List.prefix_append _ _) h)
  · have hk := hnone k hk
    rw [← List.cons_append] at hk
    simp only [Bool.not_eq_true', ← Bool.not_eq_true, List.isPrefixOf_iff_prefix] at hk ⊢
    exact fun hstarts => hk (hstarts.trans (List.prefix_append _ _))

theorem mark_before (hfault : ∀ e, (mark c (cs ++ v)).1 ≠ .token (.faulty e))
    (h : (mark c (cs ++ v)).2.text.length ≤ cs.length + 1) :
    mark c (cs ++ v) = onto (mark c cs) v := by
  unfold mark at hfault h ⊢
  rcases hm : leadingMark? (c :: (cs ++ v)) with _ | m
  · simp [hm] at hfault
  · simp only [hm] at h ⊢
    rw [leadingMark?_before hm h]
    have hdrop : (c :: (cs ++ v)).drop m.text.toList.length
        = (c :: cs).drop m.text.toList.length ++ v := by
      rw [← List.cons_append, List.drop_append_of_le_length (by simpa using h)]
    rw [hdrop]
    rfl

/-- A piece is the same if the text is cut short after it. -/
theorem scan_before (hfault : ∀ e, (scan c (cs ++ v)).1 ≠ .token (.faulty e))
    (h : (scan c (cs ++ v)).2.text.length ≤ cs.length + 1) :
    scan c (cs ++ v) = onto (scan c cs) v := by
  have hgap : gap? c (cs ++ v) = (gap? c cs).map (onto · v) := by
    refine gap?_before fun p hp => ?_
    simpa [scan, hp] using h
  rcases hgap' : gap? c cs with _ | p
  · rw [hgap', Option.map_none] at hgap
    have hword : word? c (cs ++ v) = (word? c cs).map (onto · v) := by
      refine word?_before fun p hp => ?_
      simp only [scan, hgap, hp, Prod.map, id] at hfault h
      exact ⟨fun e he => hfault e (congrArg _ he), h⟩
    rcases hword' : word? c cs with _ | p
    · rw [hword', Option.map_none] at hword
      simp only [scan, hgap, hgap', hword, hword'] at hfault h ⊢
      split
      · next hc =>
        rw [if_pos hc] at h
        simp only [if_pos hc] at hfault
        have hcomment : comment? (cs ++ v) = (comment? cs).map (onto · v) := by
          refine comment?_before fun p hp => ?_
          simp only [hp, Option.getD_some] at hfault h
          exact ⟨hfault, h⟩
        rw [hcomment] at hfault h ⊢
        rcases hshort : comment? cs with _ | p
        · rw [hshort] at hfault h
          exact mark_before hfault h
        · rfl
      · next hc =>
        rw [if_neg hc] at h
        simp only [if_neg hc] at hfault
        exact mark_before hfault h
    · rw [hword', Option.map_some] at hword
      simp only [scan, hgap, hgap', hword, hword']
      rfl
  · rw [hgap', Option.map_some] at hgap
    simp only [scan, hgap, hgap']

/-- Cut short anywhere after its first piece, a text has the same first piece. -/
theorem scan_clipped {text rest : List Char}
    (hfault : ∀ e, (scan c (text ++ (rest ++ v))).1 ≠ .token (.faulty e))
    (h : (scan c (text ++ (rest ++ v))).2.text = c :: text) :
    scan c (text ++ rest) = ((scan c (text ++ (rest ++ v))).1, ⟨c :: text, rest⟩) := by
  rw [← List.append_assoc] at hfault h ⊢
  have hscan := scan_before hfault (by rw [h, List.length_cons, List.length_append]; omega)
  rw [hscan] at h ⊢
  have hwhole := (cuts_scan c (text ++ rest)).1
  rcases hk : scan c (text ++ rest) with ⟨kind, before, after⟩
  rw [hk] at h hwhole
  obtain rfl : before = c :: text := h
  obtain rfl : after = rest := by simpa [Cut.whole] using hwhole
  rfl

end Piece

def Piece.isFaulty (p : Piece) : Bool :=
  match p.kind with
  | .token (.faulty _) => true
  | _ => false

/-- A text that is cut off after some of its pieces starts with them. -/
theorem pieces_clipped {w v : List Char} : ∀ {ps qs : List Piece},
    pieces ((ps.flatMap (·.text) ++ w) ++ v) = ps ++ qs → (∀ p ∈ ps, p.isFaulty = false) →
      pieces (ps.flatMap (·.text) ++ w) = ps ++ pieces w ∧ pieces (w ++ v) = qs
  | [], qs, h, _ => ⟨by simp, by simpa using h⟩
  | p :: ps, qs, h, hfault => by
    rw [List.flatMap_cons, List.append_assoc p.text, List.append_assoc p.text] at h
    obtain ⟨c, ds, hds⟩ : ∃ c ds, p.text ++ ((ps.flatMap (·.text) ++ w) ++ v) = c :: ds := by
      refine List.exists_cons_of_ne_nil fun hnil => ?_
      rw [hnil, pieces] at h
      simp at h
    rw [hds, pieces, List.cons_append, List.cons.injEq] at h
    obtain ⟨rfl, hrest⟩ := h
    obtain ⟨hwhole, hne⟩ := Piece.cuts_scan c ds
    obtain ⟨hnil, -⟩ | ⟨text, htext, rfl⟩ := List.append_eq_cons_iff.1 hds
    · exact absurd hnil hne
    have hclipped := Piece.scan_clipped (fun e he => by
      have hp := hfault _ (.head _)
      simp only [Piece.isFaulty, he, reduceCtorEq] at hp) htext
    have htext : (Piece.scan c (text ++ ((ps.flatMap (·.text) ++ w) ++ v))).2.text = c :: text :=
      htext
    rw [Cut.whole, htext, List.cons_append, List.cons.injEq] at hwhole
    rw [List.append_cancel_left hwhole.2] at hrest
    obtain ⟨hps, hv⟩ := pieces_clipped hrest fun q hq => hfault q (.tail _ hq)
    refine ⟨?_, hv⟩
    have hcons : pieces (c :: (text ++ (ps.flatMap (·.text) ++ w)))
        = ⟨(Piece.scan c (text ++ ((ps.flatMap (·.text) ++ w) ++ v))).1, c :: text⟩
          :: (ps ++ pieces w) := by
      rw [pieces, hclipped, hps]
    rw [List.flatMap_cons, htext, List.append_assoc]
    exact hcons

/-- A text that is cut off between two pieces falls into the pieces up to there. -/
theorem pieces_of_append {v : List Char} {ps qs : List Piece}
    (h : pieces (ps.flatMap (·.text) ++ v) = ps ++ qs) (hfault : ∀ p ∈ ps, p.isFaulty = false) :
    pieces (ps.flatMap (·.text)) = ps ∧ pieces v = qs := by
  rw [← List.append_nil (ps.flatMap _)] at h
  have hclipped := pieces_clipped h hfault
  rwa [List.append_nil, pieces, List.append_nil, List.nil_append] at hclipped

end GoIface
