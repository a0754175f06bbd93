import GoIface.Lexeme.Stream
import GoIface.Proofs.Lexing

/-!
# Texts as tokens and gaps

A text is a row of tokens with gaps between them (`Tiled`). A gap holds white space and comments,
and at the very start of the text it may begin with a byte order mark. At most one semicolon is
inserted in a gap, and only in one that comes after a token. `lexemes_tile` says that the lexemes
of every text are laid out like this, so none of the text is lost and none is invented.
-/

namespace GoIface

open GoIface.Text

/-! ## Gaps -/

/-- What may stand between two tokens, one white character or one comment. The second text is what
comes after it: a line comment goes on up to a line break. -/
inductive Filler : List Char → List Char → Prop
  | white {c : Char} {rest : List Char} (h : c ∈ [' ', '\t', '\n', '\r']) : Filler [c] rest
  | lineComment {body rest : List Char} (h : ∀ c ∈ body, c ≠ '\n' ∧ c ≠ '\r')
      (hrest : ∀ c ∈ rest.head?, c = '\n' ∨ c = '\r') : Filler ('/' :: '/' :: body) rest
  | blockComment {body rest : List Char} (h : ¬ ['*', '/'] <:+: body ++ ['*']) :
      Filler ('/' :: '*' :: (body ++ ['*', '/'])) rest

inductive Gap : List Char → List Char → Prop
  | nil {rest : List Char} : Gap [] rest
  | cons {cs ds rest : List Char} (h : Filler cs (ds ++ rest)) (hds : Gap ds rest) :
      Gap (cs ++ ds) rest

/-- A gap that starts at an offset. -/
def GapAt (offset : Nat) (gap rest : List Char) : Prop :=
  Gap gap rest ∨ offset = 0 ∧ ∃ cs, gap = '\ufeff' :: cs ∧ Gap cs rest

theorem Filler.gap {cs rest : List Char} (h : Filler cs rest) : Gap cs rest := by
  have h : Gap (cs ++ []) rest := .cons (by simpa using h) .nil
  rwa [List.append_nil] at h

theorem Gap.append {cs ds rest : List Char} (hcs : Gap cs (ds ++ rest)) (hds : Gap ds rest) :
    Gap (cs ++ ds) rest := by
  generalize hafter : ds ++ rest = after at hcs
  induction hcs with
  | nil => exact hds
  | cons h _ ih =>
    subst hafter
    rw [List.append_assoc]
    exact .cons (by simpa using h) (ih rfl)

theorem GapAt.append {offset : Nat} {cs ds rest : List Char} (hcs : GapAt offset cs (ds ++ rest))
    (hds : Gap ds rest) : GapAt offset (cs ++ ds) rest := by
  rcases hcs with hcs | ⟨rfl, es, rfl, hes⟩
  · exact .inl (hcs.append hds)
  · exact .inr ⟨rfl, es ++ ds, rfl, hes.append hds⟩

theorem Gap.white : ∀ {cs rest : List Char}, (∀ c ∈ cs, c ∈ [' ', '\t', '\n', '\r']) → Gap cs rest
  | [], _, _ => .nil
  | c :: cs, rest, h => by
    have hc : Filler [c] (cs ++ rest) := .white (h c (by simp))
    exact .cons hc (white fun d hd => h d (by simp [hd]))

theorem Text.Cut.of_mem_run {p : Char → Bool} {cs : List Char} {c : Char}
    (h : c ∈ (Cut.run p cs).text) : p c = true :=
  List.all_eq_true.1 List.all_takeWhile c h

theorem Text.Cut.run_stops {p : Char → Bool} {cs : List Char} {c : Char}
    (h : c ∈ (Cut.run p cs).rest.head?) : p c = false := by
  have hnot := List.head?_dropWhile_not p cs
  have h : (cs.dropWhile p).head? = some c := h
  rwa [h] at hnot

/-! ## What a piece covers -/

/-- What the kind of a piece says about its text. -/
def PieceKind.Fits : PieceKind → Cut → Prop
  | .token t, k => (∀ e, t ≠ .faulty e) → t.text.toList = k.text
  | .blank, k | .newline, k | .lineComment, k | .blockComment, k => Gap k.text k.rest
  | .byteOrderMark, k => k.text = ['\ufeff']

namespace Piece

theorem text_word (s : String) : (word s).text = s := by
  unfold word
  split
  · next k hk =>
    have hk : Keyword.all.find? (·.text == s) = some k := hk
    have htext := List.find?_some hk
    exact eq_of_beq htext
  · rfl

theorem fits_numeral (cs : List Char) :
    (PieceKind.token (Numeral.token cs).1).Fits (Numeral.token cs).2 := by
  unfold Numeral.token
  split
  · exact fun hfault => absurd rfl (hfault _)
  split
  · exact fun hfault => absurd rfl (hfault _)
  split <;> exact fun _ => String.toList_ofList

theorem fits_literal (kind : LiteralKind) (quote : Char) (mayBeEmpty : Bool) (cs : List Char) :
    (PieceKind.token (Delimited.literal kind quote mayBeEmpty cs).1).Fits
      (Delimited.literal kind quote mayBeEmpty cs).2 := by
  intro hfault
  simp only [Delimited.literal] at hfault ⊢
  split at hfault
  · split at hfault
    · next h => simp [h, Token.text]
    · exact absurd rfl (hfault _)
  · exact absurd rfl (hfault _)

theorem fits_rawString (quote : Char) (cs : List Char) :
    (PieceKind.token (Delimited.rawString quote cs).1).Fits (Delimited.rawString quote cs).2 := by
  intro hfault
  simp only [Delimited.rawString] at hfault ⊢
  split at hfault
  · simp [Token.text]
  · exact absurd rfl (hfault _)

theorem fits_word? {c : Char} {cs : List Char} {p : Token × Cut} (h : word? c cs = some p) :
    (PieceKind.token p.1).Fits p.2 := by
  unfold word? at h
  split at h
  · obtain rfl := Option.some.inj h
    intro _
    simp [text_word]
  split at h
  · obtain rfl := Option.some.inj h
    exact fits_numeral _
  unfold literal? at h
  split at h
  · obtain rfl := Option.some.inj h
    exact fits_rawString _ _
  split at h
  · obtain rfl := Option.some.inj h
    exact fits_literal _ _ _ _
  split at h
  · obtain rfl := Option.some.inj h
    exact fits_literal _ _ _ _
  · simp at h

theorem fits_mark (c : Char) (cs : List Char) : (mark c cs).1.Fits (mark c cs).2 := by
  unfold mark
  split
  · intro _
    rfl
  · intro hfault
    exact absurd rfl (hfault _)

theorem fits_gap? {c : Char} {cs : List Char} {p : PieceKind × Cut} (h : gap? c cs = some p) :
    p.1.Fits p.2 := by
  unfold gap? at h
  split at h
  · next hc =>
    obtain rfl := Option.some.inj h
    refine Gap.white fun d hd => ?_
    have hd : isSpace d = true := by
      rcases List.mem_cons.1 hd with rfl | hd
      · exact hc
      · exact Cut.of_mem_run hd
    simp only [isSpace, Bool.or_eq_true, beq_iff_eq] at hd
    rcases hd with rfl | rfl <;> simp
  split at h
  · next hc =>
    obtain rfl := Option.some.inj h
    exact Gap.white (by simpa using .inr (.inr (.inl (eq_of_beq hc))))
  split at h
  · next hc =>
    obtain rfl := eq_of_beq hc
    split at h <;>
    · obtain rfl := Option.some.inj h
      exact Gap.white (by simp)
  split at h
  · next hc =>
    obtain rfl := Option.some.inj h
    simp [PieceKind.Fits, eq_of_beq hc]
  · simp at h

/-- A comment ends at the first text that closes it. -/
theorem text_of_throughCommentEnd {cs : List Char} {k : Cut}
    (h : Delimited.throughCommentEnd cs = some k) :
    ∃ body, k.text = body ++ ['*', '/'] ∧ ¬ ['*', '/'] <:+: body ++ ['*'] := by
  fun_induction Delimited.throughCommentEnd cs generalizing k with
  | case1 =>
    obtain rfl := Option.some.inj h
    exact ⟨[], rfl, by decide⟩
  | case2 c cs hne ih =>
    obtain ⟨e, he, rfl⟩ := Option.map_eq_some_iff.1 h
    obtain ⟨body, hbody, hinside⟩ := ih he
    refine ⟨c :: body, by simp [Cut.after, hbody], fun hinfix => ?_⟩
    -- a closing text would have been met at the start already
    rcases List.infix_cons_iff.1 hinfix with hprefix | hinfix
    · have hwhole := Delimited.whole_of_throughCommentEnd he
      rw [Cut.whole, hbody] at hwhole
      rcases body with _ | ⟨d, body⟩
      · simp at hprefix
      · obtain ⟨rfl, rfl⟩ : '*' = c ∧ '/' = d := by simpa using hprefix
        exact hne _ rfl hwhole.symm
    · exact hinside hinfix
  | case3 => simp at h

theorem fits_comment? {cs : List Char} {p : PieceKind × Cut} (h : comment? cs = some p) :
    p.1.Fits p.2 := by
  unfold comment? at h
  split at h
  · next cs =>
    obtain rfl := Option.some.inj h
    refine Filler.gap (.lineComment (fun d hd => ?_) fun d hd => ?_)
    · simpa [Delimited.isLineBreak] using Cut.of_mem_run hd
    · have hd := Cut.run_stops hd
      rwa [Bool.not_eq_false', Delimited.isLineBreak, Bool.or_eq_true, beq_iff_eq, beq_iff_eq] at hd
  · split at h
    · next hk =>
      obtain rfl := Option.some.inj h
      obtain ⟨body, hbody, hinside⟩ := text_of_throughCommentEnd hk
      have hfiller {rest : List Char} : Filler _ rest := .blockComment hinside
      rw [← hbody] at hfiller
      exact hfiller.gap
    · obtain rfl := Option.some.inj h
      intro hfault
      exact absurd rfl (hfault _)
  · simp at h

theorem fits_scan (c : Char) (cs : List Char) : (scan c cs).1.Fits (scan c cs).2 := by
  unfold scan
  split
  · exact fits_gap? ‹_›
  · exact fits_word? ‹_›
  · split
    · rcases hk : comment? cs with _ | p
      · exact fits_mark c cs
      · exact fits_comment? hk
    · exact fits_mark c cs

end Piece

/-! ## Tokens and gaps in a row -/

/-- The semicolons inserted in a gap that starts at an offset: none, or one if a token is before
the gap. -/
def InsertedIn (offset : Nat) (afterToken : Bool) (gap : List Char) (semis : List Lexeme) : Prop :=
  semis = [] ∨ afterToken = true ∧ ∃ before after, gap = before ++ after ∧
    semis = [.insertedSemi (offset + byteCount before)]

/-- The lexemes are those of a text that starts at an offset: gaps with tokens between them, each
token covering its spelling. -/
inductive Tiled : Nat → Bool → List Char → List Lexeme → Prop
  | last {offset : Nat} {afterToken : Bool} {gap : List Char} {semis : List Lexeme}
      (hgap : GapAt offset gap []) (hsemis : InsertedIn offset afterToken gap semis) :
      Tiled offset afterToken gap semis
  | token {offset start : Nat} {afterToken : Bool} {gap text rest : List Char}
      {semis ls : List Lexeme} {t : Token} (hgap : GapAt offset gap (text ++ rest))
      (hsemis : InsertedIn offset afterToken gap semis) (hstart : start = offset + byteCount gap)
      (hne : text ≠ []) (htext : (∀ e, t ≠ .faulty e) → t.text.toList = text)
      (h : Tiled (start + byteCount text) true rest ls) :
      Tiled offset afterToken (gap ++ (text ++ rest))
        (semis ++ ⟨t, start, start + byteCount text⟩ :: ls)

/-- A gap that is being read: so much of it is there, these semicolons are inserted in it so far,
and one more is if a line `ends`. The last text is what comes next. -/
structure InGap (offset : Nat) (afterToken : Bool) (gap : List Char) (semis : List Lexeme)
    (ends : Bool) (rest : List Char) : Prop where
  isGap : GapAt offset gap rest
  inserted : InsertedIn offset afterToken gap semis
  due : ends = true → semis = [] ∧ afterToken = true

namespace InGap

variable {offset : Nat} {afterToken ends : Bool} {gap text rest : List Char} {semis : List Lexeme}

theorem fresh (offset : Nat) (afterToken ends : Bool) (rest : List Char)
    (h : ends = true → afterToken = true) : InGap offset afterToken [] [] ends rest :=
  ⟨.inl .nil, .inl rfl, fun hends => ⟨rfl, h hends⟩⟩

theorem fill (h : InGap offset afterToken gap semis ends (text ++ rest)) (htext : Gap text rest) :
    InGap offset afterToken (gap ++ text) semis ends rest where
  isGap := h.isGap.append htext
  inserted := by
    rcases h.inserted with hsemis | ⟨hafter, before, after, rfl, hsemis⟩
    · exact .inl hsemis
    · exact .inr ⟨hafter, before, after ++ text, List.append_assoc _ _ _, hsemis⟩
  due := h.due

theorem insert (h : InGap offset afterToken gap semis true (text ++ rest)) (htext : Gap text rest)
    {before after : List Char} (hcut : text = before ++ after) :
    InGap offset afterToken (gap ++ text)
      (semis ++ [.insertedSemi (offset + byteCount gap + byteCount before)]) false rest where
  isGap := h.isGap.append htext
  inserted := by
    obtain ⟨rfl, hafter⟩ := h.due rfl
    refine .inr ⟨hafter, gap ++ before, after, by simp [hcut], ?_⟩
    rw [byteCount_append, ← Nat.add_assoc, List.nil_append]
  due := by simp

/-- At the end of the text a line ends. -/
theorem tiled_end (h : InGap offset afterToken gap semis ends []) :
    Tiled offset afterToken gap
      (semis ++ lexemesFrom (offset + byteCount gap) ends (pieces [])) := by
  refine .last h.isGap ?_
  cases ends with
  | false => simpa [pieces, lexemesFrom] using h.inserted
  | true =>
    obtain ⟨rfl, hafter⟩ := h.due rfl
    exact .inr ⟨hafter, gap, [], (List.append_nil _).symm, by simp [pieces, lexemesFrom]⟩

/-- A byte order mark that is met at the very start of the text. -/
theorem mark (h : InGap offset afterToken gap semis ends ('\ufeff' :: rest))
    (hzero : offset + byteCount gap = 0) :
    InGap offset afterToken (gap ++ ['\ufeff']) semis ends rest := by
  obtain ⟨rfl, hgap⟩ : offset = 0 ∧ byteCount gap = 0 := by omega
  obtain rfl : gap = [] := by
    rcases gap with _ | ⟨c, gap⟩
    · rfl
    · have := c.utf8Size_pos
      rw [byteCount_cons] at hgap
      omega
  refine ⟨.inr ⟨rfl, [], rfl, .nil⟩, ?_, h.due⟩
  rcases h.inserted with hsemis | ⟨hafter, before, after, hcut, hsemis⟩
  · exact .inl hsemis
  · exact .inr ⟨hafter, before, after ++ ['\ufeff'], by simp [← List.append_assoc, ← hcut], hsemis⟩

end InGap

theorem Piece.breakAt?_eq_some {p : Piece} {n : Nat} (h : p.breakAt? = some n) :
    ∃ before after, p.text = before ++ after ∧ n = byteCount before := by
  rw [breakAt?] at h
  split at h
  · exact ⟨_, _, List.takeWhile_append_dropWhile.symm, (Option.some.inj h).symm⟩
  · simp at h

section Break

variable {kind : PieceKind} {offset n : Nat} {ends : Bool} {text : List Char} {ps : List Piece}

theorem lexemesFrom_break (hkind : kind = .newline ∨ kind = .blockComment)
    (hn : Piece.breakAt? ⟨kind, text⟩ = some n) :
    lexemesFrom offset true (⟨kind, text⟩ :: ps)
      = .insertedSemi (offset + n) :: lexemesFrom (offset + byteCount text) false ps := by
  rcases hkind with rfl | rfl <;>
  · simp only [lexemesFrom, hn]
    rfl

theorem lexemesFrom_no_break (hkind : kind = .newline ∨ kind = .blockComment)
    (h : ends = false ∨ Piece.breakAt? ⟨kind, text⟩ = none) :
    lexemesFrom offset ends (⟨kind, text⟩ :: ps)
      = lexemesFrom (offset + byteCount text) ends ps := by
  rcases h with rfl | hn
  · rcases hkind with rfl | rfl <;> rfl
  · rcases hkind with rfl | rfl <;> cases ends <;>
    · simp only [lexemesFrom, hn]
      rfl

end Break

/-- The rest of a text is tiled, going on with a gap that is being read. -/
theorem InGap.tiled (cs : List Char) : ∀ {offset : Nat} {afterToken ends : Bool}
    {gap : List Char} {semis : List Lexeme}, InGap offset afterToken gap semis ends cs →
      Tiled offset afterToken (gap ++ cs)
        (semis ++ lexemesFrom (offset + byteCount gap) ends (pieces cs)) := by
  fun_induction pieces cs with
  | case1 =>
    intro offset afterToken ends gap semis h
    rw [List.append_nil]
    simpa [pieces] using h.tiled_end
  | case2 c cs ih =>
    intro offset afterToken ends gap semis h
    have hfits := Piece.fits_scan c cs
    obtain ⟨hwhole, hne⟩ := Piece.cuts_scan c cs
    rw [← hwhole, Cut.whole] at h ⊢
    generalize (Piece.scan c cs).1 = kind at *
    generalize (Piece.scan c cs).2 = k at *
    -- the piece goes into the gap
    have hgap (semis : List Lexeme) (ends : Bool)
        (h : InGap offset afterToken (gap ++ k.text) semis ends k.rest) :
        Tiled offset afterToken (gap ++ (k.text ++ k.rest)) (semis ++
          lexemesFrom (offset + byteCount gap + byteCount k.text) ends (pieces k.rest)) := by
      have hnext := ih h
      rwa [byteCount_append, List.append_assoc, ← Nat.add_assoc] at hnext
    -- and a line ends in it
    have hbreak (hkind : kind = .newline ∨ kind = .blockComment) (htext : Gap k.text k.rest) :
        Tiled offset afterToken (gap ++ (k.text ++ k.rest)) (semis ++
          lexemesFrom (offset + byteCount gap) ends (⟨kind, k.text⟩ :: pieces k.rest)) := by
      have hsame := hgap _ _ (h.fill htext)
      cases ends with
      | false => rwa [lexemesFrom_no_break hkind (.inl rfl)]
      | true =>
        cases hn : Piece.breakAt? ⟨kind, k.text⟩ with
        | none => rwa [lexemesFrom_no_break hkind (.inr hn)]
        | some n =>
          obtain ⟨before, after, hcut, rfl⟩ := Piece.breakAt?_eq_some hn
          have hsemi := hgap _ _ (h.insert htext hcut)
          rw [List.append_assoc] at hsemi
          rwa [lexemesFrom_break hkind hn]
    cases kind with
    | token t => exact .token h.isGap h.inserted rfl hne hfits (ih (.fresh _ true _ _ fun _ => rfl))
    | blank | lineComment => exact hgap _ _ (h.fill hfits)
    | newline => exact hbreak (.inl rfl) hfits
    | blockComment => exact hbreak (.inr rfl) hfits
    | byteOrderMark =>
      have hmark : k.text = ['\ufeff'] := hfits
      rw [hmark] at h hne hgap ⊢
      simp only [lexemesFrom]
      split
      · next hzero => exact hgap _ _ (h.mark hzero)
      · refine .token h.isGap h.inserted rfl hne (fun hfault => absurd rfl (hfault _)) ?_
        exact ih (.fresh _ true _ _ fun _ => rfl)

theorem tiled_lex (source : String) : Tiled 0 false source.toList (lex source) := by
  have h := InGap.tiled source.toList (.fresh 0 false false _ (by simp))
  simpa [lex] using h

/-! ## Where lexemes stand -/

/-- The lexeme covers a stretch of a text that starts at an offset: the spelling of its token,
unless that is faulty, and nothing if it is an inserted semicolon. -/
def Lexeme.StandsIn (offset : Nat) (cs : List Char) (l : Lexeme) : Prop :=
  ∃ before text after, cs = before ++ (text ++ after) ∧
    l.span = ⟨offset + byteCount before, offset + byteCount before + byteCount text⟩ ∧
    if text = [] then l.token = .mark .semi
    else (∀ e, l.token ≠ .faulty e) → l.token.text.toList = text

theorem Lexeme.isInserted_insertedSemi (n : Nat) : (Lexeme.insertedSemi n).isInserted = true := by
  simp [isInserted, insertedSemi, Span.isEmpty, Span.size, Span.point]

theorem Lexeme.isInserted_of_ne {l : Lexeme} (h : l.token ≠ .mark .semi) :
    l.isInserted = false := by
  simp [isInserted, h]

theorem byteCount_pos {cs : List Char} (h : cs ≠ []) : 0 < byteCount cs := by
  obtain ⟨c, cs, rfl⟩ := List.exists_cons_of_ne_nil h
  have := c.utf8Size_pos
  rw [byteCount_cons]
  omega

namespace Lexeme.StandsIn

variable {offset : Nat} {cs ds es : List Char} {l : Lexeme}

theorem bounds (h : l.StandsIn offset cs) :
    offset ≤ l.span.start ∧ l.span.start ≤ l.span.stop ∧ l.span.stop ≤ offset + byteCount cs := by
  obtain ⟨before, text, after, rfl, hspan, -⟩ := h
  simp only [hspan, byteCount_append]
  omega

/-- Within a longer text. -/
theorem widen (h : l.StandsIn (offset + byteCount ds) cs) (es : List Char) :
    l.StandsIn offset (ds ++ (cs ++ es)) := by
  obtain ⟨before, text, after, rfl, hspan, htext⟩ := h
  refine ⟨ds ++ before, text, after ++ es, by simp, ?_, htext⟩
  rw [hspan, byteCount_append, Nat.add_assoc]

theorem nonempty_iff (h : l.StandsIn offset cs) :
    l.isInserted = false ↔ l.span.start < l.span.stop := by
  obtain ⟨before, text, after, -, hspan, htext⟩ := h
  by_cases hnil : text = []
  · rw [if_pos hnil] at htext
    simp [isInserted, Span.isEmpty, Span.size, htext, hspan, hnil]
  · have := byteCount_pos hnil
    simp [isInserted, Span.isEmpty, Span.size, hspan]
    omega

theorem text_eq {source : String} (h : l.StandsIn 0 source.toList) (hl : l.isInserted = false)
    (hfault : l.fault? = none) : l.span.text source = l.token.text := by
  have hne := h.nonempty_iff.1 hl
  obtain ⟨before, text, after, hcs, hspan, htext⟩ := h
  have hslice : l.span.slice source.toList = text := by
    rw [hspan, hcs, Nat.zero_add]
    exact slice_append before text after
  have hnil : text ≠ [] := by
    rintro rfl
    simp [hspan] at hne
  have hnot : ∀ e, l.token ≠ .faulty e := by
    intro e he
    simp [Lexeme.fault?, he] at hfault
  rw [if_neg hnil] at htext
  rw [Span.text, hslice, ← htext hnot, String.ofList_toList]

end Lexeme.StandsIn

theorem InsertedIn.standsIn {offset : Nat} {afterToken : Bool} {gap : List Char}
    {semis : List Lexeme} (h : InsertedIn offset afterToken gap semis) :
    ∀ l ∈ semis, l.StandsIn offset gap := by
  rcases h with rfl | ⟨-, before, after, rfl, rfl⟩
  · simp
  · intro l hl
    obtain rfl := List.mem_singleton.1 hl
    exact ⟨before, [], after, by simp, by simp [Lexeme.insertedSemi, Span.point], rfl⟩

theorem InsertedIn.pairwise {offset : Nat} {afterToken : Bool} {gap : List Char}
    {semis : List Lexeme} (h : InsertedIn offset afterToken gap semis) :
    semis.Pairwise fun l m => l.span.stop ≤ m.span.start := by
  rcases h with rfl | ⟨-, before, after, rfl, rfl⟩
  · exact .nil
  · exact List.pairwise_singleton _ _

namespace Tiled

variable {offset : Nat} {afterToken : Bool} {cs : List Char} {ls : List Lexeme}

theorem standsIn (h : Tiled offset afterToken cs ls) : ∀ l ∈ ls, l.StandsIn offset cs := by
  induction h with
  | last _ hsemis => exact hsemis.standsIn
  | @token offset _ _ gap text rest semis ls t _ hsemis hstart hne htext _ ih =>
    intro l hl
    rcases List.mem_append.1 hl with hl | hl
    · have hl := hsemis.standsIn l hl
      rw [← Nat.add_zero offset, ← byteCount_nil] at hl
      exact hl.widen _
    subst hstart
    rcases List.mem_cons.1 hl with rfl | hl
    · exact ⟨gap, text, rest, rfl, rfl, by simpa [hne] using htext⟩
    · rw [Nat.add_assoc, ← byteCount_append] at ih
      have hl := (ih l hl).widen []
      rwa [List.append_nil, List.append_assoc] at hl

/-- Each lexeme stops before the next one starts. -/
theorem pairwise (h : Tiled offset afterToken cs ls) :
    ls.Pairwise fun l m => l.span.stop ≤ m.span.start := by
  induction h with
  | last _ hsemis => exact hsemis.pairwise
  | @token offset start _ gap text rest semis ls t _ hsemis hstart _ _ hrest ih =>
    have hbefore : ∀ l ∈ semis, l.span.stop ≤ start := fun l hl => by
      have := (hsemis.standsIn l hl).bounds
      omega
    have hafter : ∀ l ∈ ls, start + byteCount text ≤ l.span.start :=
      fun l hl => (hrest.standsIn l hl).bounds.1
    refine List.pairwise_append.2 ⟨hsemis.pairwise, List.pairwise_cons.2 ⟨hafter, ih⟩, ?_⟩
    intro l hl m hm
    have hl := hbefore l hl
    rcases List.mem_cons.1 hm with rfl | hm
    · exact hl
    · have := hafter m hm
      omega

end Tiled

/-! ## One lexeme after the other -/

/-- What a stream gives when it is asked `n` times. -/
def LexemeStream.answers : Nat → LexemeStream → List (Option Lexeme)
  | 0, _ => []
  | n + 1, s => s.next.1 :: answers n s.next.2

theorem LexemeStream.answers_of_left : ∀ (ls : List Lexeme) (k : Nat) (gathered : List Diagnostic),
    LexemeStream.answers (ls.length + k) ⟨ls, gathered⟩ = ls.map some ++ List.replicate k none
  | [], 0, _ => rfl
  | [], k + 1, gathered => by
    have ih := answers_of_left [] k gathered
    rw [List.length_nil, Nat.zero_add, List.map_nil, List.nil_append] at ih ⊢
    rw [List.replicate_succ, ← ih]
    rfl
  | l :: ls, k, gathered => by
    have ih := answers_of_left ls k (gathered ++ l.diagnostic?.toList)
    rw [List.length_cons, Nat.succ_add, List.map_cons, List.cons_append, ← ih]
    rfl

/-- The lexemes of a text come one by one until there are no more. Laid out with the gaps between
them they are the text; they are in order and apart, and those that are not inserted cover
something, which is the spelling of their token. -/
theorem lexemes_tile (source : String) :
    (∀ k, (LexemeStream.ofSource source).answers ((lex source).length + k)
      = (lex source).map some ++ List.replicate k none) ∧
    Tiled 0 false source.toList (lex source) ∧
    ((lex source).Pairwise fun l m => l.span.stop ≤ m.span.start) ∧
    ∀ l ∈ lex source, l.span.stop ≤ byteCount source.toList ∧
      if l.isInserted then l.span.start = l.span.stop
      else l.span.start < l.span.stop ∧ (l.fault? = none → l.span.text source = l.token.text) := by
  have htiled := tiled_lex source
  refine ⟨fun k => LexemeStream.answers_of_left _ k [], htiled, htiled.pairwise, fun l hl => ?_⟩
  have hstands := htiled.standsIn l hl
  obtain ⟨-, hle, hstop⟩ := hstands.bounds
  refine ⟨by omega, ?_⟩
  split
  · next hinserted =>
    have hnot := mt hstands.nonempty_iff.2 (by simp [hinserted])
    omega
  · next hinserted =>
    have hwritten : l.isInserted = false := Bool.not_eq_true _ ▸ hinserted
    exact ⟨hstands.nonempty_iff.1 hwritten, hstands.text_eq hwritten⟩

end GoIface
