import GoIface.Proofs.Entries

/-!
# How far looking ahead sees

Looking ahead, like passing over, stops at the bracket that closes the one where it started. So it
sees a run that closes its brackets and the token after it, and no more: what it tells is the same
whatever comes after that (`entryStart_congr`, `embeds?_congr`, `declaresMethod_congr`).
-/

namespace GoIface

/-- A bracket that is closed in a run is followed by what comes after it there, or by what comes
after the run. -/
theorem holdsTypeArgs_congr {q r : List Lexeme}
    (hnext : q.head?.map Lexeme.token = r.head?.map Lexeme.token) {ls : List Lexeme} {n : Nat}
    (h : openAfter (n + 1) (ls.map Lexeme.token) = some 0) :
    holdsTypeArgs (n + 1) (ls ++ q) = holdsTypeArgs (n + 1) (ls ++ r) := by
  have hhead (ls : List Lexeme) : (ls ++ q).head?.any (·.token.startsType)
      = (ls ++ r).head?.any (·.token.startsType) := by
    have hany (ls : List Lexeme) : ls.head?.any (·.token.startsType)
        = (ls.head?.map Lexeme.token).any Token.startsType := by
      cases ls <;> rfl
    rw [hany, hany, head?_append_map, head?_append_map, hnext]
  induction ls generalizing n with
  | nil => simp [openAfter] at h
  | cons l ls ih =>
    rw [List.map_cons, openAfter] at h
    rw [List.cons_append, List.cons_append, holdsTypeArgs, holdsTypeArgs]
    split at h
    · next hopen => rw [if_pos hopen, if_pos hopen, ih h]
    · next hopen =>
      rw [if_neg hopen, if_neg hopen]
      split at h
      · next hclose =>
        rw [if_pos hclose, if_pos hclose]
        rcases n with _ | n
        · simp only [Nat.zero_add, Nat.le_refl, if_true, hhead]
        · simpa using ih (by simpa using h)
      · next hclose => rw [if_neg hclose, if_neg hclose, ih h]

/-- Nothing that looks ahead starts there. -/
def NoStart (o : Option Token) : Prop := (∀ n, o ≠ some (.ident n)) ∧ o ≠ some (.mark .lbrack)

section

variable {ls q r : List Lexeme} (hls : Level (ls.map Lexeme.token))
  (hnext : q.head?.map Lexeme.token = r.head?.map Lexeme.token)
  (hstart : NoStart (q.head?.map Lexeme.token))

include hls hnext hstart

/-- What looking ahead can depend on. -/
theorem sameAhead {n : String} {s : Span} {ks : List Lexeme} (h : ls = ⟨.ident n, s⟩ :: ks) :
    (ks ++ q).head?.map Lexeme.token = (ks ++ r).head?.map Lexeme.token ∧
      ((ks ++ q).head?.map Lexeme.token = some (.mark .lbrack) →
        holdsTypeArgs 0 (ks ++ q) = holdsTypeArgs 0 (ks ++ r)) := by
  subst h
  refine ⟨by rw [head?_append_map, head?_append_map, hnext], fun hbrack => ?_⟩
  rcases ks with _ | ⟨k, ks⟩
  · exact absurd hbrack hstart.2
  · obtain hk : k.token = .mark .lbrack := by simpa using hbrack
    have hopen : openAfter 1 (ks.map Lexeme.token) = some 0 := by
      simpa [Level, openAfter, hk, Token.opens?, Token.closes?] using hls
    have := holdsTypeArgs_congr hnext hopen
    simpa [holdsTypeArgs, hk, Token.opens?] using this

theorem entryStart_congr : Parse.entryStart (ls ++ q) = Parse.entryStart (ls ++ r) := by
  rcases hcons : ls with _ | ⟨⟨t, s⟩, ks⟩
  · have hunnamed {q : List Lexeme} (hq : NoStart (q.head?.map Lexeme.token)) :
        Parse.entryStart q = .unnamed := by
      rcases q with _ | ⟨l, q⟩
      · rfl
      · exact Parse.entryStart_of_not_ident (fun n hn => hq.1 n (by simp [hn])) q
    rw [List.nil_append, List.nil_append, hunnamed hstart, hunnamed (hnext ▸ hstart)]
  · cases t with
    | ident n =>
      obtain ⟨hhead, hargs⟩ := sameAhead hls hnext hstart hcons
      simp only [List.cons_append, Parse.entryStart, ← hhead]
      split
      case h_4 hbrack => rw [hargs hbrack]
      all_goals rfl
    | _ => rfl

theorem embeds?_congr : Parse.embeds? (ls ++ q) = Parse.embeds? (ls ++ r) := by
  rcases hcons : ls with _ | ⟨⟨t, s⟩, ks⟩
  · rcases q with _ | ⟨⟨t, s⟩, q⟩ <;> rcases r with _ | ⟨⟨u, s'⟩, r⟩
    · rfl
    · simp at hnext
    · simp at hnext
    · obtain rfl : t = u := by simpa using hnext
      cases t with
      | ident n => exact absurd rfl (hstart.1 n)
      | mark m => cases m <;> rfl
      | _ => rfl
  · cases t with
    | ident n =>
      obtain ⟨hhead, hargs⟩ := sameAhead hls hnext hstart hcons
      simp only [List.cons_append, Parse.embeds?, ← hhead]
      split
      case h_7 hbrack => rw [hargs hbrack]
      all_goals rfl
    | mark m => cases m <;> rfl
    | _ => rfl

theorem declaresMethod_congr : Parse.declaresMethod (ls ++ q) = Parse.declaresMethod (ls ++ r) := by
  have hident (n : String) (s : Span) (ks : List Lexeme) :
      Parse.declaresMethod (⟨.ident n, s⟩ :: ks)
        = (ks.head?.map Lexeme.token == some (.mark .lparen)) := by
    rcases ks with _ | ⟨⟨u, s'⟩, ks⟩
    · rfl
    · cases u with
      | mark m => cases m <;> rfl
      | _ => rfl
  have hother (t : Token) (ht : ∀ n, t ≠ .ident n) (s : Span) (ks : List Lexeme) :
      Parse.declaresMethod (⟨t, s⟩ :: ks) = false := by
    cases t with
    | ident n => exact absurd rfl (ht n)
    | _ => rfl
  rcases hcons : ls with _ | ⟨⟨t, s⟩, ks⟩
  · have hnone {q : List Lexeme} (hq : NoStart (q.head?.map Lexeme.token)) :
        Parse.declaresMethod q = false := by
      rcases q with _ | ⟨⟨t, s⟩, q⟩
      · rfl
      · exact hother t (fun n hn => hq.1 n (by simp [hn])) s q
    rw [List.nil_append, List.nil_append, hnone hstart, hnone (hnext ▸ hstart)]
  · rw [List.cons_append, List.cons_append]
    by_cases ht : ∃ n, t = .ident n
    · obtain ⟨n, rfl⟩ := ht
      rw [hident, hident, (sameAhead hls hnext hstart hcons).1]
    · have ht : ∀ n, t ≠ .ident n := fun n hn => ht ⟨n, hn⟩
      rw [hother t ht, hother t ht]

end

/-- What is passed over does not depend on how the text goes on after it, if passing over ends
there. -/
theorem passOver_before {stop : Token → Bool} {bs : List Bracket} {opener : Span}
    {ls before after : List Lexeme} (h : passOver stop bs opener ls = .ok (before, after))
    {r : List Lexeme} (hr : ∀ l ∈ r.head?, stop l.token = true) :
    passOver stop bs opener (before ++ r) = .ok (before, r) := by
  have hnil (opener : Span) : passOver stop [] opener r = .ok ([], r) := by
    rcases r with _ | ⟨l, r⟩
    · rfl
    · rw [passOver, if_pos (hr l rfl)]
  fun_induction passOver stop bs opener ls generalizing before with
  | case1 =>
    cases h
    exact hnil _
  | case2 => simp at h
  | case3 opener l ls hstop =>
    cases h
    exact hnil _
  | case4 => simp at h
  | case5 opener l ls hstop hclose ih =>
    obtain ⟨b, rfl, hb⟩ := passed_cons h
    rw [List.cons_append, passOver, if_neg hstop, if_neg hclose, ih hb]
    rfl
  | case6 b bs opener l ls inner hopen ih =>
    obtain ⟨b, rfl, hb⟩ := passed_cons h
    simp only [List.cons_append, passOver, hopen, ih hb]
    rfl
  | case7 bs opener l ls closed hopen hclose ih =>
    obtain ⟨b, rfl, hb⟩ := passed_cons h
    simp only [List.cons_append, passOver, hopen, hclose, if_true, ih hb]
    rfl
  | case8 => simp at h
  | case9 b bs opener l ls hopen hclose ih =>
    obtain ⟨b, rfl, hb⟩ := passed_cons h
    simp only [List.cons_append, passOver, hopen, hclose, ih hb]
    rfl

end GoIface
