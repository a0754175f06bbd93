import GoIface.Proofs.Levels

/-!
# Readers step by step

What a reader does at one cursor, from what comes next there. A mark that may be left out is read
or it is not (`eat_some`, `eat_none`), a list goes on with a comma or ends (`listedItems_of_comma`,
`listedItems_of_last`), and so does a block with its semicolons (`blockItems_cases`).
-/

namespace GoIface.Parse

variable {α : Type}

theorem Consumes.of_run {p : Parse α} {Q : List Token → Prop} {c c' : Cursor} {x : α}
    {ls : List Lexeme} (h : Consumes p Q c) (hok : p c = .ok (x, c'))
    (hls : c.rest = ls ++ c'.rest) : Q (ls.map Lexeme.token) := by
  obtain ⟨ms, hms, hQ⟩ := h x c' hok
  obtain rfl := List.append_cancel_right (hls.symm.trans hms)
  exact hQ

theorem Consumes.and {p : Parse α} {Q R : List Token → Prop} {c : Cursor} (hQ : Consumes p Q c)
    (hR : Consumes p R c) : Consumes p (fun ts => Q ts ∧ R ts) c := by
  intro x c' hok
  obtain ⟨ls, hls, h⟩ := hQ x c' hok
  exact ⟨ls, hls, h, hR.of_run hok hls⟩

theorem get_bind (f : Cursor → Parse α) (c : Cursor) : (get >>= f) c = f c c := rfl

theorem eat_some {m : Mark} {c : Cursor} {l : Lexeme} {ls : List Lexeme} (hrest : c.rest = l :: ls)
    (hl : l.token = .mark m) :
    eat m c = .ok (some l.span, { c with rest := ls, last := l.span }) := by
  have hat : c.isAt m = true := Cursor.isAt_iff.2 (by simp [Cursor.next?, hrest, hl])
  show (if c.isAt m then some <$> bump else pure none : Parse (Option Span)) c = _
  rw [if_pos hat]
  show (some <$> bump : Parse (Option Span)) c = _
  exact bind_of_ok (f := fun s => Pure.pure (some s)) (by rw [bump, hrest])

theorem eat_none {m : Mark} {c : Cursor} (h : c.next? ≠ some (.mark m)) :
    eat m c = .ok (none, c) := by
  show (if c.isAt m then some <$> bump else pure none : Parse (Option Span)) c = _
  rw [if_neg (mt Cursor.isAt_iff.1 h)]
  rfl

theorem expect_eq_ok_iff {t : Token} {c c' : Cursor} {s : Span} :
    expect t c = .ok (s, c') ↔ ∃ l ls, c.rest = l :: ls ∧ l.token = t ∧ s = l.span ∧
      c' = { c with rest := ls, last := l.span } := by
  obtain ⟨_ | ⟨l, ls⟩, last, textEnd, made⟩ := c
  · constructor
    · rintro ⟨⟩
    · rintro ⟨_, _, ⟨⟩, -⟩
  · by_cases ht : l.token = t
    · have hrun : expect t ⟨l :: ls, last, textEnd, made⟩
          = .ok (l.span, ⟨ls, l.span, textEnd, made⟩) := by
        show (if (some l.token == some t) = true then bump else expected (.token t)) _ = _
        rw [if_pos (by simp [ht])]
        rfl
      rw [hrun]
      constructor
      · rintro ⟨⟩
        exact ⟨l, ls, rfl, ht, rfl, rfl⟩
      · rintro ⟨_, _, ⟨⟩, -, rfl, rfl⟩
        rfl
    · constructor
      · intro h
        replace h : (if (some l.token == some t) = true then bump else expected (.token t)) _ = _ :=
          h
        rw [if_neg (by simpa using ht)] at h
        cases h
      · rintro ⟨_, _, ⟨⟩, hl, -⟩
        exact absurd hl ht

theorem ident_eq_ok_iff {c c' : Cursor} {x : Ident} :
    ident c = .ok (x, c') ↔ ∃ l ls name, c.rest = l :: ls ∧ l.token = .ident name ∧
      x = ⟨name, l.span⟩ ∧ c' = { c with rest := ls, last := l.span } := by
  obtain ⟨_ | ⟨⟨t, s⟩, ls⟩, last, textEnd, made⟩ := c
  · constructor
    · rintro ⟨⟩
    · rintro ⟨_, _, _, ⟨⟩, -⟩
  · cases t with
    | ident name =>
      constructor
      · rintro ⟨⟩
        exact ⟨_, _, name, rfl, rfl, rfl, rfl⟩
      · rintro ⟨_, _, _, ⟨⟩, ⟨⟩, rfl, rfl⟩
        rfl
    | _ =>
      constructor
      · rintro ⟨⟩
      · rintro ⟨_, _, _, ⟨⟩, ⟨⟩, -⟩

theorem eat_cases (m : Mark) (c : Cursor) :
    (∃ l ls, c.rest = l :: ls ∧ l.token = .mark m) ∨ c.next? ≠ some (.mark m) := by
  by_cases h : c.next? = some (.mark m)
  · obtain ⟨l, hl, ht⟩ := Option.map_eq_some_iff.1 h
    obtain ⟨ls, hls⟩ := List.head?_eq_some_iff.1 hl
    exact .inl ⟨l, ls, hls, ht⟩
  · exact .inr h

section Listed

variable {stop : Cursor → Bool} {item : Parse α} {c c₁ : Cursor} {x : α}

theorem listedItems_of_stop (hc : stop c = true) (n : Nat) :
    listedItems stop item n c = .ok ([], c) := by
  cases n <;>
  · show (if stop c then _ else _ : Parse (List α)) c = _
    rw [if_pos hc]
    rfl

theorem item_of_listedItems (hc : stop c = false) {n : Nat} {xs : List α} {c' : Cursor}
    (h : listedItems stop item n c = .ok (xs, c')) : ∃ x c₁, item c = .ok (x, c₁) := by
  cases n <;>
  · replace h : (if stop c then _ else _ : Parse (List α)) c = _ := h
    rw [if_neg (by simp [hc])] at h
    obtain ⟨x, c₁, hx, -⟩ := ok_of_bind h
    exact ⟨x, c₁, hx⟩

/-- The last item has no comma after it, or there are no more to be read. -/
theorem listedItems_of_last (hc : stop c = false) (hx : item c = .ok (x, c₁)) {n : Nat}
    (hlast : n = 0 ∨ c₁.next? ≠ some (.mark .comma)) :
    listedItems stop item n c = .ok ([x], c₁) := by
  cases n with
  | zero =>
    show (if stop c then _ else _ : Parse (List α)) c = _
    rw [if_neg (by simp [hc])]
    exact bind_of_ok hx
  | succ n =>
    show (if stop c then _ else _ : Parse (List α)) c = _
    rw [if_neg (by simp [hc]), bind_of_ok hx]
    exact bind_of_ok (eat_none (hlast.resolve_left (by simp)))

theorem listedItems_of_comma (hc : stop c = false) (hx : item c = .ok (x, c₁)) {l : Lexeme}
    {ls : List Lexeme} (hrest : c₁.rest = l :: ls) (hl : l.token = .mark .comma) (n : Nat) :
    listedItems stop item (n + 1) c = (listedItems stop item n >>= fun xs => pure (x :: xs))
      { c₁ with rest := ls, last := l.span } := by
  show (if stop c then _ else _ : Parse (List α)) c = _
  rw [if_neg (by simp [hc]), bind_of_ok hx, bind_of_ok (eat_some hrest hl)]

end Listed

/-- An item without a separator after it is read alone. -/
theorem separated_of_last {separator : Mark} {item : Parse α} {c c₁ : Cursor} {x : α}
    (hx : item c = .ok (x, c₁)) (hlast : c₁.next? ≠ some (.mark separator)) :
    separated separator item c = .ok ([x], c₁) := by
  have hmore (n : Nat) : moreItems separator item n c₁ = .ok ([], c₁) := by
    cases n with
    | zero => rfl
    | succ n => exact bind_of_ok (eat_none hlast)
  rw [separated, bind_of_ok hx, get_bind, bind_of_ok (hmore _)]
  rfl

section Block

variable {close : Mark} {item : Parse α} {c c₁ c₂ c' : Cursor} {x : α} {xs : List α}

theorem blockItems_of_close (hc : c.next? = some (.mark close)) (n : Nat) :
    blockItems close item n c = .ok ([], c) := by
  cases n with
  | zero => rfl
  | succ n =>
    show (if c.isAt close || c.atEnd then _ else _ : Parse (List α)) c = _
    rw [if_pos (by simp [Cursor.isAt_iff.2 hc])]
    rfl

theorem blockItems_of_item (hclose : c.next? ≠ some (.mark close)) (hend : c.next? ≠ none)
    (hx : item c = .ok (x, c₁)) (hsemi : semiBefore close c₁ = .ok ((), c₂)) {n : Nat}
    (hxs : blockItems close item n c₂ = .ok (xs, c')) :
    blockItems close item (n + 1) c = .ok (x :: xs, c') := by
  show (if c.isAt close || c.atEnd then _ else _ : Parse (List α)) c = _
  rw [if_neg (by simp [Cursor.isAt_iff, Cursor.atEnd_iff, hclose, hend]), bind_of_ok hx,
    bind_of_ok hsemi, bind_of_ok hxs]
  rfl

theorem blockItems_cases {n : Nat} (h : blockItems close item n c = .ok (xs, c')) :
    (xs = [] ∧ c' = c) ∨ ∃ m x c₁ c₂ ys, n = m + 1 ∧ c.next? ≠ some (.mark close) ∧
      c.next? ≠ none ∧ item c = .ok (x, c₁) ∧ semiBefore close c₁ = .ok ((), c₂) ∧
        blockItems close item m c₂ = .ok (ys, c') ∧ xs = x :: ys := by
  cases n with
  | zero =>
    cases h
    exact .inl ⟨rfl, rfl⟩
  | succ n =>
    replace h : (if c.isAt close || c.atEnd then _ else _ : Parse (List α)) c = _ := h
    split at h
    · cases h
      exact .inl ⟨rfl, rfl⟩
    · next hgo =>
      obtain ⟨hclose, hend⟩ : c.next? ≠ some (.mark close) ∧ c.next? ≠ none := by
        simpa [Cursor.isAt_iff, Cursor.atEnd_iff] using hgo
      obtain ⟨x, c₁, hx, h⟩ := ok_of_bind h
      obtain ⟨_, c₂, hsemi, h⟩ := ok_of_bind h
      obtain ⟨ys, c₃, hys, h⟩ := ok_of_bind h
      cases h
      exact .inr ⟨n, x, c₁, c₂, ys, rfl, hclose, hend, hx, hsemi, hys, rfl⟩

theorem semiBefore_of_semi {l : Lexeme} {ls : List Lexeme} (hrest : c.rest = l :: ls)
    (hl : l.token = .mark .semi) :
    semiBefore close c = .ok ((), { c with rest := ls, last := l.span }) := by
  show (eat .semi >>= fun s =>
    if c.isAt close || s.isSome then pure () else expected .semicolon) c = _
  rw [bind_of_ok (eat_some hrest hl), if_pos (by simp)]
  rfl

theorem semiBefore_of_close (hclose : close ≠ .semi) (hc : c.next? = some (.mark close)) :
    semiBefore close c = .ok ((), c) := by
  show (eat .semi >>= fun s =>
    if c.isAt close || s.isSome then pure () else expected .semicolon) c = _
  rw [bind_of_ok (eat_none (by simpa [hc] using hclose)), if_pos (by simp [Cursor.isAt_iff.2 hc])]
  rfl

/-- An item of a block is followed by a semicolon, which is read, or by what closes the block. -/
theorem semiBefore_cases (h : semiBefore close c = .ok ((), c')) :
    (∃ l ls, c.rest = l :: ls ∧ l.token = .mark .semi) ∨ c.next? = some (.mark close) := by
  rcases eat_cases .semi c with hsemi | hne
  · exact .inl hsemi
  · replace h : (eat .semi >>= fun s =>
      if c.isAt close || s.isSome then pure () else expected .semicolon) c = _ := h
    rw [bind_of_ok (eat_none hne)] at h
    split at h
    · next hat => exact .inr (Cursor.isAt_iff.1 (by simpa using hat))
    · cases h

end Block

/-- What is read up to a token is what passing over finds, if that is something. -/
theorem through_eq_ok_iff {wanted : Wanted} {stop : Token → Bool} {c c' : Cursor} {s : Span} :
    through wanted stop c = .ok (s, c') ↔ ∃ l passed rest,
      passOver stop [] l.span c.rest = .ok (l :: passed, rest) ∧
        c' = { c with rest, last := (passed.getLast?.getD l).span } ∧ s = l.span.hull c'.last := by
  have hrun : through wanted stop c = (pass stop c.here none >>= fun passed =>
      if passed.isEmpty then expected wanted else spanFrom c.here) c :=
    rfl
  have hpass {passed rest : List Lexeme} (h : passOver stop [] c.here c.rest = .ok (passed, rest)) :
      pass stop c.here none c = .ok (passed,
        { c with rest, last := (passed.getLast?.map Lexeme.span).getD c.last }) := by
    simp only [pass, Option.toList_none, h]
  have hlast (l : Lexeme) (passed : List Lexeme) (last : Span) :
      ((l :: passed).getLast?.map Lexeme.span).getD last = (passed.getLast?.getD l).span := by
    rw [List.getLast?_cons]
    rfl
  rw [hrun]
  constructor
  · intro h
    obtain ⟨passed, c₁, hok, h⟩ := ok_of_bind h
    rcases hover : passOver stop [] c.here c.rest with e | ⟨passed, rest⟩
    · simp [pass, hover] at hok
    · rw [hpass hover] at hok
      cases hok
      rcases passed with _ | ⟨l, passed⟩
      · cases h
      · cases h
        have hhere : c.here = l.span := by
          simp [Cursor.here, ← passOver_append hover]
        rw [hhere] at hover
        refine ⟨l, passed, rest, hover, ?_, ?_⟩
        · rw [hlast]
        · rw [hlast, hhere]
  · rintro ⟨l, passed, rest, hover, rfl, rfl⟩
    have hhere : c.here = l.span := by
      simp [Cursor.here, ← passOver_append hover]
    rw [← hhere] at hover
    rw [bind_of_ok (hpass hover), hlast, hhere]
    rfl

theorem lexeme_of_opens? {c : Cursor} {b : Bracket} (hc : c.next?.bind Token.opens? = some b) :
    ∃ l ls, c.rest = l :: ls ∧ l.token.opens? = some b := by
  rcases hrest : c.rest with _ | ⟨l, ls⟩
  · simp [Cursor.next?, hrest] at hc
  · exact ⟨l, ls, rfl, by simpa [Cursor.next?, hrest] using hc⟩

/-- A bracket is read with what passing over finds up to the one that closes it. -/
theorem bracketed_eq_ok_iff {c : Cursor} {l : Lexeme} {ls : List Lexeme} {b : Bracket}
    (hrest : c.rest = l :: ls) (hl : l.token.opens? = some b) {s : Span} {c' : Cursor} :
    bracketed c = .ok (s, c') ↔ ∃ inner rest,
      passOver (fun _ => true) [b] l.span ls = .ok (inner, rest) ∧
        c' = { c with rest, last := (inner.getLast?.getD l).span } ∧ s = l.span.hull c'.last := by
  obtain ⟨rest, last, textEnd, made⟩ := c
  obtain rfl : rest = l :: ls := hrest
  have hrun : bracketed ⟨l :: ls, last, textEnd, made⟩
      = (pass (fun _ => true) l.span (some b) >>= fun _ => spanFrom l.span)
        ⟨ls, l.span, textEnd, made⟩ := by
    rw [← hl]
    rfl
  rw [hrun]
  rcases hover : passOver (fun _ => true) [b] l.span ls with e | ⟨inner, rest⟩
  · have hpass : pass (fun _ => true) l.span (some b) ⟨ls, l.span, textEnd, made⟩ = .error e := by
      simp [pass, hover]
    constructor
    · intro h
      obtain ⟨_, _, hok, -⟩ := ok_of_bind h
      simp [hpass] at hok
    · rintro ⟨_, _, ⟨⟩, -⟩
  · have hpass : pass (fun _ => true) l.span (some b) ⟨ls, l.span, textEnd, made⟩
        = .ok (inner, ⟨rest, (inner.getLast?.getD l).span, textEnd, made⟩) := by
      simp only [pass, Option.toList_some, hover]
      cases inner.getLast? <;> rfl
    rw [bind_of_ok hpass]
    constructor
    · rintro ⟨⟩
      exact ⟨inner, rest, rfl, rfl, rfl⟩
    · rintro ⟨_, _, ⟨⟩, rfl, rfl⟩
      rfl

theorem stringLiteral?_some {c : Cursor} {l : Lexeme} {ls : List Lexeme} (hrest : c.rest = l :: ls)
    (hl : IsTag [l.token]) :
    stringLiteral? c = .ok (some ⟨l.span⟩, { c with rest := ls, last := l.span }) := by
  obtain ⟨_, rest, last, made⟩ := c
  obtain rfl := hrest
  obtain ⟨t, s⟩ := l
  obtain ⟨kind, text, ht, rfl | rfl⟩ := hl <;>
  · obtain rfl := List.singleton_inj.1 ht
    rfl

theorem stringLiteral?_none {c : Cursor} (h : ∀ t, c.next? = some t → ¬IsTag [t]) :
    stringLiteral? c = .ok (none, c) := by
  obtain ⟨rest, last, textEnd, made⟩ := c
  rcases rest with _ | ⟨⟨t, s⟩, ls⟩
  · rfl
  · cases t with
    | literal kind text =>
      have hkind : ¬(kind = .string ∨ kind = .rawString) :=
        fun hkind => h _ rfl ⟨kind, text, rfl, hkind⟩
      cases kind <;> first | rfl | simp at hkind
    | _ => rfl

theorem stringLiteral?_cases (c : Cursor) :
    (∃ l ls, c.rest = l :: ls ∧ IsTag [l.token]) ∨ ∀ t, c.next? = some t → ¬IsTag [t] := by
  by_cases h : ∃ l ls, c.rest = l :: ls ∧ IsTag [l.token]
  · exact .inl h
  · refine .inr fun t ht htag => ?_
    obtain ⟨l, hl, rfl⟩ := Option.map_eq_some_iff.1 ht
    obtain ⟨ls, hls⟩ := List.head?_eq_some_iff.1 hl
    exact h ⟨l, ls, hls, htag⟩

end GoIface.Parse
