import GoIface.Tree.Declarations

/-!
# What looking ahead goes by

Looking ahead and passing over go by the tokens, and not by the names of identifiers or by where
anything stands. So they tell the same after any change of the lexemes that leaves tokens alike
(`entryStart_change`, `embeds?_change`, `passOver_change`): when lexemes are moved, put elsewhere or
renamed.
-/

namespace GoIface

/-- The same token, but for the name of an identifier. -/
inductive Token.Alike : Token → Token → Prop
  | ident (x y : String) : Alike (.ident x) (.ident y)
  | same {t : Token} (h : ∀ x, t ≠ .ident x) : Alike t t

theorem Token.Alike.refl (t : Token) : t.Alike t := by
  cases t with
  | ident x => exact .ident x x
  | _ => exact .same (by simp)

/-- A property of tokens that all identifiers have or none. -/
theorem Token.Alike.congr {τ : Type} {g : Token → τ} (hg : ∀ x y, g (.ident x) = g (.ident y))
    {t u : Token} (h : t.Alike u) : g t = g u := by
  cases h with
  | ident x y => exact hg x y
  | same => rfl

/-- A change of lexemes that leaves tokens alike and takes spans along. -/
structure LexemeChange where
  lexeme : Lexeme → Lexeme
  span : Span → Span
  span_lexeme : ∀ l, (lexeme l).span = span l.span
  alike : ∀ l, (lexeme l).token.Alike l.token

section

variable (F : LexemeChange)

theorem LexemeChange.lexeme_cases (l : Lexeme) :
    (∃ x y s s', l = ⟨.ident x, s⟩ ∧ F.lexeme l = ⟨.ident y, s'⟩) ∨
      ∃ t s s', (∀ x, t ≠ .ident x) ∧ l = ⟨t, s⟩ ∧ F.lexeme l = ⟨t, s'⟩ := by
  have hl := F.alike l
  generalize F.lexeme l = k at hl
  obtain ⟨t, s⟩ := l
  obtain ⟨u, s'⟩ := k
  cases hl with
  | ident y x => exact .inl ⟨x, y, s, s', rfl, rfl⟩
  | same hne => exact .inr ⟨t, s, s', hne, rfl, rfl⟩

/-! ## Looking ahead -/

theorem holdsTypeArgs_change (depth : Nat) (ls : List Lexeme) :
    holdsTypeArgs depth (ls.map F.lexeme) = holdsTypeArgs depth ls := by
  induction ls generalizing depth with
  | nil => rfl
  | cons l ls ih =>
    have hopens := (F.alike l).congr (g := Token.opens?) fun _ _ => rfl
    have hcloses := (F.alike l).congr (g := Token.closes?) fun _ _ => rfl
    have hhead : (ls.map F.lexeme).head?.any (·.token.startsType)
        = ls.head?.any (·.token.startsType) := by
      cases ls with
      | nil => rfl
      | cons k _ => exact (F.alike k).congr (g := Token.startsType) fun _ _ => rfl
    simp only [List.map_cons, holdsTypeArgs, hopens, hcloses, ih, hhead]

namespace Parse

theorem entryStart_change (ls : List Lexeme) :
    entryStart (ls.map F.lexeme) = entryStart ls := by
  rcases ls with _ | ⟨l, ls⟩
  · rfl
  rcases F.lexeme_cases l with ⟨x, y, s, s', rfl, h⟩ | ⟨t, s, s', hne, rfl, h⟩
  · rw [List.map_cons, h]
    simp only [entryStart, holdsTypeArgs_change]
    rcases ls with _ | ⟨k, ls⟩
    · rfl
    · rcases F.lexeme_cases k with ⟨x, y, s, s', rfl, h⟩ | ⟨t, s, s', -, rfl, h⟩ <;>
        rw [List.map_cons, h] <;> rfl
  · rw [List.map_cons, h]
    cases t with
    | ident x => exact absurd rfl (hne x)
    | _ => rfl

theorem embeds?_change (ls : List Lexeme) : embeds? (ls.map F.lexeme) = embeds? ls := by
  rcases ls with _ | ⟨l, ls⟩
  · rfl
  rcases F.lexeme_cases l with ⟨x, y, s, s', rfl, h⟩ | ⟨t, s, s', hne, rfl, h⟩
  · rw [List.map_cons, h]
    simp only [embeds?, holdsTypeArgs_change]
    rcases ls with _ | ⟨k, ls⟩
    · rfl
    · rcases F.lexeme_cases k with ⟨x, y, s, s', rfl, h⟩ | ⟨t, s, s', -, rfl, h⟩ <;>
        rw [List.map_cons, h] <;> rfl
  · rw [List.map_cons, h]
    cases t with
    | ident x => exact absurd rfl (hne x)
    | mark m => cases m <;> rfl
    | _ => rfl

theorem declaresMethod_change (ls : List Lexeme) :
    declaresMethod (ls.map F.lexeme) = declaresMethod ls := by
  rcases ls with _ | ⟨l, ls⟩
  · rfl
  rcases F.lexeme_cases l with ⟨x, y, s, s', rfl, h⟩ | ⟨t, s, s', hne, rfl, h⟩
  · rw [List.map_cons, h]
    rcases ls with _ | ⟨k, ls⟩
    · rfl
    rcases F.lexeme_cases k with ⟨x, y, s, s', rfl, h⟩ | ⟨t, s, s', -, rfl, h⟩
    · rw [List.map_cons, h]
      rfl
    · rw [List.map_cons, h]
      cases t with
      | mark m => cases m <;> rfl
      | _ => rfl
  · rw [List.map_cons, h]
    cases t with
    | ident x => exact absurd rfl (hne x)
    | _ => rfl

theorem holdsTypeParams_change (ls : List Lexeme) :
    holdsTypeParams (ls.map F.lexeme) = holdsTypeParams ls := by
  rcases ls with _ | ⟨l, ls⟩
  · rfl
  rcases F.lexeme_cases l with ⟨x, y, s, s', rfl, h⟩ | ⟨t, s, s', hne, rfl, h⟩
  · rw [List.map_cons, h]
    rfl
  rw [List.map_cons, h]
  cases t with
  | mark m =>
    cases m <;> try rfl
    rcases ls with _ | ⟨k, ls⟩
    · rfl
    rcases F.lexeme_cases k with ⟨x, y, s, s', rfl, h⟩ | ⟨t, s, s', hne, rfl, h⟩
    · rw [List.map_cons, h]
      rcases ls with _ | ⟨j, ls⟩
      · rfl
      rcases F.lexeme_cases j with ⟨x, y, s, s', rfl, h⟩ | ⟨t, s, s', -, rfl, h⟩ <;>
        rw [List.map_cons, h] <;> rfl
    · rw [List.map_cons, h]
      cases t with
      | ident x => exact absurd rfl (hne x)
      | _ => rfl
  | _ => rfl

end Parse

/-! ## Passing over -/

/-- What is passed over is passed over after the change, and what is not is not, if the lexemes to
stop at are those they were. -/
theorem passOver_change {stop : Token → Bool}
    (hstop : ∀ l, stop (F.lexeme l).token = stop l.token) (bs : List Bracket) (opener : Span)
    (ls : List Lexeme) :
    passOver stop bs (F.span opener) (ls.map F.lexeme)
      = ((passOver stop bs opener ls).map (·.map (·.map F.lexeme) (·.map F.lexeme))).mapError
        fun e => ⟨e.fault, F.span e.span⟩ := by
  have hcons {l : Lexeme} {r r' : Except (Located ParseFault) (List Lexeme × List Lexeme)}
      (h : r' = (r.map (·.map (·.map F.lexeme) (·.map F.lexeme))).mapError
        fun e => ⟨e.fault, F.span e.span⟩) :
      r'.map (·.map (F.lexeme l :: ·) id) = ((r.map (·.map (l :: ·) id)).map
        (·.map (·.map F.lexeme) (·.map F.lexeme))).mapError
          fun e => ⟨e.fault, F.span e.span⟩ := by
    subst h
    rcases r with e | ⟨before, after⟩ <;> rfl
  have hopens (l : Lexeme) : (F.lexeme l).token.opens? = l.token.opens? :=
    (F.alike l).congr fun _ _ => rfl
  have hcloses (l : Lexeme) : (F.lexeme l).token.closes? = l.token.closes? :=
    (F.alike l).congr fun _ _ => rfl
  -- a lexeme that closes a bracket is no identifier
  have hcloser {l : Lexeme} (h : l.token.closes?.isSome = true) :
      (F.lexeme l).token = l.token := by
    rcases F.lexeme_cases l with ⟨x, y, s, s', rfl, -⟩ | ⟨t, s, s', -, rfl, hl⟩
    · cases h
    · rw [hl]
  fun_induction passOver stop bs opener ls with
  | case1 => rfl
  | case2 => rfl
  | case3 opener l ls hstops =>
    rw [List.map_cons, passOver, hstop, if_pos hstops]
    rfl
  | case4 opener l ls hstops hclose =>
    rw [List.map_cons, passOver, hstop, hcloses, if_neg hstops, if_pos hclose, hcloser hclose,
      F.span_lexeme]
    rfl
  | case5 opener l ls hstops hclose ih =>
    rw [List.map_cons, passOver, hstop, hcloses, hopens, if_neg hstops, if_neg hclose,
      F.span_lexeme]
    exact hcons ih
  | case6 b bs opener l ls inner hopen ih =>
    rw [List.map_cons, passOver, hopens, hopen]
    exact hcons ih
  | case7 b bs opener l ls hclose hopen ih =>
    rw [List.map_cons, passOver, hopens, hcloses, hopen, hclose]
    simp only [if_true]
    exact hcons ih
  | case8 b bs opener l ls closed hclose hopen hne =>
    have hclosed : l.token.closes?.isSome = true := by rw [hclose, Option.isSome_some]
    rw [List.map_cons, passOver, hopens, hcloses, hopen, hclose, hcloser hclosed, F.span_lexeme]
    simp only [if_neg hne]
    rfl
  | case9 b bs opener l ls hclose hopen ih =>
    rw [List.map_cons, passOver, hopens, hcloses, hopen, hclose]
    exact hcons ih

end

end GoIface
