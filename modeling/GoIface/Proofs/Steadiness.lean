import GoIface.Proofs.Endings
import GoIface.Proofs.LookingAhead
import GoIface.Proofs.TypeReading
import GoIface.Proofs.Unrolling

/-!
# Reading a text that is cut off

A reader sees the lexemes that it takes and the one after them. So it makes the same of them if
the text goes on in another way, provided what comes next is the same or ends what is read
(`Steady`). Looking ahead is no exception, since it stops at the bracket that closes the one where
it started. A type is read the same whether it is followed by what it was followed by, by an
inserted semicolon or by nothing (`Steady.typeWithin`). Nor does a reader see what came before it
(`Fresh.typeWithin`).
-/

namespace GoIface

variable {α β : Type}

/-- The cursor in a text that goes on as `r` and ends at `e`. -/
def Cursor.before (c : Cursor) (r : List Lexeme) (e : Nat) : Cursor :=
  { c with rest := r, textEnd := e }

/-- What the token after a run may be exchanged for. -/
abbrev Exchange := Option Token → Option Token → Prop

/-- A text may end there, or a statement. -/
def Ended : Exchange := fun o o' => o' = o ∨ o' = none ∨ o' = some (.mark .semi)

/-- It is of this kind and stays. -/
def Kept (F : Follow) : Exchange := fun o o' => o' = o ∧ F o

/-- It stays, of whatever kind it is. -/
abbrev Same : Exchange := Kept anything

theorem Ended.of_kept {F : Follow} {o o' : Option Token} (h : Kept F o o') : Ended o o' := .inl h.1

theorem Ended.ne {o o' : Option Token} (h : Ended o o') {m : Mark} (ho : o ≠ some (.mark m))
    (hm : m ≠ .semi) : o' ≠ some (.mark m) := by
  rcases h with rfl | rfl | rfl
  · exact ho
  · simp
  · simpa using hm.symm

namespace Cursor

variable {c c' : Cursor} {ls r : List Lexeme} {e : Nat}

@[simp] theorem before_rest : (c.before r e).rest = r := rfl

@[simp] theorem before_made : (c.before r e).made = c.made := rfl

theorem isAt_congr {d : Cursor} (h : d.next? = c.next?) (m : Mark) : d.isAt m = c.isAt m := by
  rw [isAt, isAt, h]

/-- After a run, the exchanged token is the next one only if the run is empty. -/
theorem next?_before (hls : c.rest = ls ++ c'.rest) : ls = [] ∧ c.next? = c'.next? ∧
      (c.before (ls ++ r) e).next? = (c'.before r e).next? ∨
    ls ≠ [] ∧ (c.before (ls ++ r) e).next? = c.next? := by
  rcases ls with _ | ⟨l, ls⟩
  · exact .inl ⟨rfl, congrArg (·.head?.map Lexeme.token) hls, rfl⟩
  · exact .inr ⟨by simp, by simp [next?, hls]⟩

theorem next?_before_of_eq (hls : c.rest = ls ++ c'.rest)
    (hr : (c'.before r e).next? = c'.next?) : (c.before (ls ++ r) e).next? = c.next? := by
  rcases next?_before hls with ⟨-, hc, hnext⟩ | ⟨-, hnext⟩
  · rw [hnext, hr, hc]
  · exact hnext

theorem exchange_before {F : Exchange} (hF : ∀ o, F o o) (hls : c.rest = ls ++ c'.rest)
    (hr : F c'.next? (c'.before r e).next?) : F c.next? (c.before (ls ++ r) e).next? := by
  rcases next?_before hls with ⟨-, hc, hnext⟩ | ⟨-, hnext⟩
  · rwa [hc, hnext]
  · rw [hnext]
    exact hF _

theorem ended_before (hls : c.rest = ls ++ c'.rest)
    (hr : Ended c'.next? (c'.before r e).next?) :
    Ended c.next? (c.before (ls ++ r) e).next? :=
  exchange_before (fun _ => .inl rfl) hls hr

theorem here_before (hls : c.rest = ls ++ c'.rest) (hne : ls ≠ []) :
    (c.before (ls ++ r) e).here = c.here := by
  obtain ⟨l, ls, rfl⟩ := List.exists_cons_of_ne_nil hne
  simp [here, before, hls]

end Cursor

namespace Parse

/-- A reader that succeeds also succeeds where the text goes on in another way after what it took,
and makes the same there. What comes next may be exchanged as `F` allows. -/
def Steady (F : Exchange) (p : Parse α) (c : Cursor) : Prop :=
  ∀ x c', p c = .ok (x, c') → ∃ ls, c.rest = ls ++ c'.rest ∧
    ∀ r e, F c'.next? (c'.before r e).next? → p (c.before (ls ++ r) e) = .ok (x, c'.before r e)

namespace Steady

variable {c : Cursor} {p : Parse α} {f : α → Parse β} {F G : Exchange}

theorem mono (hp : Steady F p c) (h : ∀ o o', G o o' → F o o') : Steady G p c := by
  intro x c' hx
  obtain ⟨ls, hls, hsame⟩ := hp x c' hx
  exact ⟨ls, hls, fun r e hr => hsame r e (h _ _ hr)⟩

theorem kept {P : Follow} (hp : Steady Ended p c) : Steady (Kept P) p c :=
  hp.mono fun _ _ => .of_kept

/-- The reader takes nothing and does not look. -/
theorem still (h : ∀ x c', p c = .ok (x, c') →
    c'.rest = c.rest ∧ ∀ r e, p (c.before r e) = .ok (x, c'.before r e)) : Steady F p c := by
  intro x c' hx
  obtain ⟨hrest, hsame⟩ := h x c' hx
  exact ⟨[], hrest.symm, fun r e _ => hsame r e⟩

theorem pure {x : α} : Steady F (pure x) c := by
  refine still ?_
  rintro _ _ ⟨⟩
  exact ⟨rfl, fun _ _ => rfl⟩

theorem error {e : Cursor → Located ParseFault} (h : ∀ c, p c = .error (e c)) : Steady F p c := by
  intro x c' hx
  simp [h] at hx

theorem seq (hF : ∀ o, F o o) (hp : Steady F p c)
    (hf : ∀ x c', p c = .ok (x, c') → Steady F (f x) c') : Steady F (p >>= f) c := by
  intro y c₂ hok
  obtain ⟨x, c₁, hx, hy⟩ := ok_of_bind hok
  obtain ⟨ls, hls, hp⟩ := hp x c₁ hx
  obtain ⟨ms, hms, hf⟩ := hf x c₁ hx y c₂ hy
  refine ⟨ls ++ ms, by rw [hls, hms, List.append_assoc], fun r e hr => ?_⟩
  rw [List.append_assoc, bind_of_ok (hp _ _ (Cursor.exchange_before hF hms hr))]
  exact hf r e hr

theorem bind (hp : Steady Ended p c) (hf : ∀ x c', p c = .ok (x, c') → Steady Ended (f x) c') :
    Steady Ended (p >>= f) c :=
  seq (fun _ => .inl rfl) hp hf

theorem chain (hp : Steady Same p c) (hf : ∀ x c', p c = .ok (x, c') → Steady Same (f x) c') :
    Steady Same (p >>= f) c :=
  seq (fun _ => ⟨rfl, trivial⟩) hp hf

theorem finish {g : α → β} (hp : Steady Ended p c) :
    Steady Ended (p >>= fun x => Pure.pure (g x)) c :=
  hp.bind fun _ _ _ => pure

theorem map {g : α → β} (hp : Steady Ended p c) : Steady Ended (g <$> p) c := hp.finish

/-- The text ends where it did. -/
theorem textEnd_eq {x : α} {c' : Cursor} (hp : Steady Same p c) (hx : p c = .ok (x, c')) :
    c'.textEnd = c.textEnd := by
  obtain ⟨ls, hls, hsame⟩ := hp x c' hx
  have h := hsame c'.rest c.textEnd ⟨rfl, trivial⟩
  have hc : c.before (ls ++ c'.rest) c.textEnd = c := by rw [Cursor.before, ← hls]
  rw [hc, hx, Except.ok.injEq, Prod.mk.injEq] at h
  rw [h.2]
  rfl

/-- The reader depends on what it sees, and that is the same. -/
theorem look {g : Cursor → Parse α} (hg : Steady F (g c) c)
    (hsame : ∀ x c' ls, g c c = .ok (x, c') → c.rest = ls ++ c'.rest → ∀ r e,
      F c'.next? (c'.before r e).next? → g (c.before (ls ++ r) e) = g c) :
    Steady F (get >>= g) c := by
  intro x c' hok
  obtain ⟨ls, hls, h⟩ := hg x c' hok
  refine ⟨ls, hls, fun r e hr => ?_⟩
  show g (c.before (ls ++ r) e) (c.before (ls ++ r) e) = _
  rw [hsame x c' ls hok hls r e hr, h r e hr]

theorem bump {t : Token} (hc : c.next? = some t) : Steady F bump c := by
  intro x c' hx
  rcases hrest : c.rest with _ | ⟨l, ls⟩
  · simp [Cursor.next?, hrest] at hc
  · simp only [Parse.bump, hrest] at hx
    cases hx
    exact ⟨[l], rfl, fun r e _ => rfl⟩

/-- A reader that sees the next lexeme and takes it, and maybe more. -/
theorem peek {g : Cursor → Parse α} {Q : List Token → Prop} (hg : Steady F (g c) c)
    (htakes : Consumes (get >>= g) Q c) (hQ : ¬ Q [])
    (hsame : ∀ d : Cursor, d.next? = c.next? → d.here = c.here → g d = g c) :
    Steady F (get >>= g) c := by
  refine look hg fun x c' ls hok hls r e _ => ?_
  rcases Cursor.next?_before hls with ⟨rfl, -⟩ | ⟨hne, hnext⟩
  · exact absurd (htakes.of_run hok hls) hQ
  · exact hsame _ hnext (Cursor.here_before hls hne)

theorem expect (t : Token) : Steady F (expect t) c := by
  refine peek ?_ (Consumes.expect t) (by simp) fun d hd _ => by rw [hd]
  split
  · next h => exact bump (eq_of_beq h)
  · exact error fun _ => rfl

theorem ident : Steady Ended ident c := by
  refine peek ?_ Consumes.ident (by simp) fun d hd _ => by rw [hd]
  split
  · next name h => exact (bump h).finish
  · exact error fun _ => rfl

/-- A mark that is there or not. Where a statement may end, the mark is not a semicolon. -/
theorem eat {m : Mark} (hm : m ≠ .semi) : Steady Ended (eat m) c := by
  intro x c' hok
  rcases eat_cases m c with ⟨l, ls, hrest, hl⟩ | hne
  · rw [eat_some hrest hl] at hok
    cases hok
    exact ⟨[l], hrest, fun r e _ => eat_some rfl hl⟩
  · rw [eat_none hne] at hok
    cases hok
    exact ⟨[], rfl, fun r e hr => eat_none (hr.ne hne hm)⟩

/-- What is read up to a token, and the token. -/
theorem closed {γ : Type} {t : Token} {f : α → Span → Parse γ} (hp : Steady (Kept (· = some t)) p c)
    (hf : ∀ x s c', Steady Ended (f x s) c') :
    Steady Ended (p >>= fun x => Parse.expect t >>= f x) c := by
  intro y c₃ hok
  obtain ⟨x, c₁, hx, hy⟩ := ok_of_bind hok
  obtain ⟨s, c₂, hs, hy⟩ := ok_of_bind hy
  obtain ⟨ls, hls, hp⟩ := hp x c₁ hx
  obtain ⟨_, hl, hexpect⟩ := expect (F := fun _ _ => True) t s c₂ hs
  obtain ⟨l, rfl, ht⟩ := List.map_eq_singleton_iff.1 ((Consumes.expect t).of_run hs hl)
  obtain ⟨ms, hms, hf⟩ := hf x s c₂ y c₃ hy
  refine ⟨ls ++ l :: ms, by simp [hls, hl, hms], fun r e hr => ?_⟩
  have hnext : Kept (· = some t) c₁.next? (c₁.before ([l] ++ (ms ++ r)) e).next? := by
    simp [Kept, Cursor.next?, hl, ht]
  have hrun : ls ++ l :: ms ++ r = ls ++ ([l] ++ (ms ++ r)) := by simp
  rw [hrun, bind_of_ok (hp _ _ hnext), bind_of_ok (hexpect _ _ trivial)]
  exact hf r e hr

/-! ## Sequences

As many items are read if there may be more, since an item takes something. -/

section Sequence

variable {item : Parse α}

theorem moreItems (hitem : ∀ c, Steady Ended item c) {separator : Mark} (hsep : separator ≠ .semi) :
    ∀ (n : Nat) (c : Cursor), c.rest.length ≤ n → ∀ xs c',
      moreItems separator item n c = .ok (xs, c') → ∃ ls, c.rest = ls ++ c'.rest ∧
        ∀ m, ls.length ≤ m → ∀ r e, Ended c'.next? (c'.before r e).next? →
          Parse.moreItems separator item m (c.before (ls ++ r) e) = .ok (xs, c'.before r e) := by
  -- where there is no separator
  have hnone {c : Cursor} (hne : c.next? ≠ some (.mark separator)) (m : Nat) (r : List Lexeme)
      (e : Nat) (hr : Ended c.next? (c.before r e).next?) :
      Parse.moreItems separator item m (c.before r e) = .ok ([], c.before r e) := by
    cases m with
    | zero => rfl
    | succ m => exact bind_of_ok (eat_none (hr.ne hne hsep))
  intro n
  induction n with
  | zero =>
    rintro c hc _ _ ⟨⟩
    have hnil : c.rest = [] := List.eq_nil_of_length_eq_zero (Nat.le_zero.1 hc)
    exact ⟨[], rfl, fun m _ => hnone (by simp [Cursor.next?, hnil]) m⟩
  | succ n ih =>
    intro c hc xs c' hok
    rcases eat_cases separator c with ⟨l, rest, hrest, hl⟩ | hne
    · rw [Parse.moreItems, bind_of_ok (eat_some hrest hl)] at hok
      obtain ⟨x, c₁, hx, hok⟩ := ok_of_bind hok
      obtain ⟨ys, c₂, hys, hok⟩ := ok_of_bind hok
      cases hok
      obtain ⟨ls, hls, hitem⟩ := hitem _ x c₁ hx
      obtain rfl : rest = ls ++ c₁.rest := hls
      obtain ⟨ms, hms, ih⟩ := ih c₁ (by simp [hrest] at hc; omega) ys _ hys
      refine ⟨l :: (ls ++ ms), by simp [hrest, hms], fun m hm r e hr => ?_⟩
      obtain ⟨m, rfl⟩ : ∃ k, m = k + 1 := ⟨m - 1, by simp at hm; omega⟩
      have hrun : (c.before (l :: (ls ++ ms) ++ r) e).rest = l :: (ls ++ (ms ++ r)) := by simp
      rw [Parse.moreItems, bind_of_ok (eat_some hrun hl)]
      refine (bind_of_ok (hitem _ _ (Cursor.ended_before hms hr))).trans ?_
      exact bind_of_ok (ih m (by simp at hm; omega) r e hr)
    · rw [Parse.moreItems, bind_of_ok (eat_none hne)] at hok
      cases hok
      exact ⟨[], rfl, fun m _ => hnone hne m⟩

theorem separated (hitem : ∀ c, Steady Ended item c) {separator : Mark} (hsep : separator ≠ .semi)
    (c : Cursor) : Steady Ended (separated separator item) c := by
  refine (hitem c).bind fun x c₁ _ => ?_
  intro ys c₂ hok
  obtain ⟨xs, c₃, hxs, hok⟩ := ok_of_bind (f := fun xs => Pure.pure (x :: xs)) hok
  cases hok
  obtain ⟨ls, hls, h⟩ := moreItems hitem hsep _ c₁ (Nat.le_refl _) xs _ hxs
  refine ⟨ls, hls, fun r e hr => ?_⟩
  exact bind_of_ok (f := fun xs => Pure.pure (x :: xs)) (h _ (by simp) r e hr)

variable {close : Mark} (htakes : ∀ c, Consumes item (· ≠ []) c)

include htakes

/-- An item takes something, so what comes first stays. -/
theorem length_pos_of_item {c c₁ : Cursor} {x : α} {ls : List Lexeme} (hx : item c = .ok (x, c₁))
    (hls : c.rest = ls ++ c₁.rest) : 0 < ls.length := by
  simpa using List.length_pos_iff.2 ((htakes c).of_run hx hls)

theorem next?_before_item {c c₁ : Cursor} {x : α} {ls : List Lexeme} (hx : item c = .ok (x, c₁))
    (hls : c.rest = ls ++ c₁.rest) (r : List Lexeme) (e : Nat) :
    (c.before (ls ++ r) e).next? = c.next? := by
  have hlen := length_pos_of_item htakes hx hls
  rcases Cursor.next?_before (r := r) (e := e) hls with ⟨rfl, -⟩ | ⟨-, hnext⟩
  · simp at hlen
  · exact hnext

/-- A list goes on at an item wherever the item is followed by the rest of the list. -/
theorem stop_before {stop : Cursor → Bool} (hstop : Takes.Stops stop close) {c c₁ : Cursor} {x : α}
    {ls : List Lexeme} (hc : stop c = false) (hx : item c = .ok (x, c₁))
    (hls : c.rest = ls ++ c₁.rest) (r : List Lexeme) (e : Nat) :
    stop (c.before (ls ++ r) e) = false := by
  have hnext := next?_before_item htakes hx hls r e
  obtain ⟨l, ls, rfl⟩ := List.exists_cons_of_length_pos (length_pos_of_item htakes hx hls)
  have hl : c.next? = some l.token := by simp [Cursor.next?, hls]
  refine hstop.at_other _ l.token (hnext.trans hl) fun hclose => ?_
  rw [hstop.at_close c (hl.trans (congrArg some hclose))] at hc
  simp at hc

theorem listedItems (hitem : ∀ c, Steady (Kept (Takes.afterItem close)) item c)
    {stop : Cursor → Bool} (hstop : Takes.Stops stop close) (hclose : close ≠ .comma) (n : Nat) :
    ∀ c xs c', listedItems stop item n c = .ok (xs, c') → ∃ ls, c.rest = ls ++ c'.rest ∧
      ∀ m, ls.length ≤ m → ∀ r e, Kept (· = some (.mark close)) c'.next? (c'.before r e).next? →
        Parse.listedItems stop item m (c.before (ls ++ r) e) = .ok (xs, c'.before r e) := by
  induction n using Nat.strongRecOn with
  | ind n ih =>
    intro c xs c' hok
    cases hstopped : stop c with
    | true =>
      rw [listedItems_of_stop hstopped] at hok
      cases hok
      exact ⟨[], rfl, fun m _ r e hr => listedItems_of_stop (hstop.at_close _ (hr.1.trans hr.2)) m⟩
    | false =>
      obtain ⟨x, c₁, hx⟩ := item_of_listedItems hstopped hok
      obtain ⟨ls, hls, hitem⟩ := hitem c x c₁ hx
      have hlen := length_pos_of_item htakes hx hls
      have hstopped' := stop_before htakes hstop hstopped hx hls
      by_cases hlast : n = 0 ∨ c₁.next? ≠ some (.mark .comma)
      · rw [listedItems_of_last hstopped hx hlast] at hok
        cases hok
        refine ⟨ls, hls, fun m _ r e hr => ?_⟩
        have hnext : (c'.before r e).next? ≠ some (.mark .comma) := by
          rw [hr.1, hr.2]
          simpa using hclose
        exact listedItems_of_last (hstopped' r e) (hitem r e ⟨hr.1, .inr hr.2⟩) (.inr hnext)
      · obtain ⟨n, rfl⟩ := Nat.exists_eq_succ_of_ne_zero fun h => hlast (.inl h)
        obtain ⟨l, rest, hrest, hl⟩ := (eat_cases .comma c₁).resolve_right fun h => hlast (.inr h)
        rw [listedItems_of_comma hstopped hx hrest hl] at hok
        obtain ⟨ys, c₂, hys, hok⟩ := ok_of_bind hok
        cases hok
        obtain ⟨ms, hms, ih⟩ := ih n (Nat.lt_succ_self n) _ ys _ hys
        obtain rfl : rest = ms ++ c'.rest := hms
        refine ⟨ls ++ l :: ms, by simp [hls, hrest], fun m hm r e hr => ?_⟩
        obtain ⟨m, rfl⟩ : ∃ k, m = k + 1 := ⟨m - 1, by simp at hm; omega⟩
        have hcomma : c₁.next? = some (.mark .comma) := by simp [Cursor.next?, hrest, hl]
        have hkept := hitem (l :: (ms ++ r)) e ⟨by simp [Cursor.next?, hrest], .inl hcomma⟩
        rw [List.append_assoc, List.cons_append,
          listedItems_of_comma (hstopped' _ e) hkept Cursor.before_rest hl]
        exact bind_of_ok (ih m (by simp at hm; omega) r e hr)

theorem listed (hitem : ∀ c, Steady (Kept (Takes.afterItem close)) item c)
    {stop : Cursor → Bool} (hstop : Takes.Stops stop close) (hclose : close ≠ .comma) (c : Cursor) :
    Steady (Kept (· = some (.mark close))) (listed stop item) c := by
  intro xs c' hok
  obtain ⟨ls, hls, h⟩ := listedItems htakes hitem hstop hclose _ c xs c' hok
  exact ⟨ls, hls, fun r e hr => h _ (by simp) r e hr⟩

theorem blockItems (hitem : ∀ c, Steady (Kept (Takes.endsItem close)) item c)
    (hclose : close ≠ .semi) (n : Nat) :
    ∀ c xs c', blockItems close item n c = .ok (xs, c') → ∃ ls, c.rest = ls ++ c'.rest ∧
      ∀ m, ls.length ≤ m → ∀ r e, Kept (· = some (.mark close)) c'.next? (c'.before r e).next? →
        Parse.blockItems close item m (c.before (ls ++ r) e) = .ok (xs, c'.before r e) := by
  induction n using Nat.strongRecOn with
  | ind n ih =>
    intro c xs c' hok
    obtain ⟨rfl, rfl⟩ | ⟨n, x, c₁, c₂, ys, rfl, hother, hend, hx, hsemi, hys, rfl⟩ :=
      blockItems_cases hok
    · exact ⟨[], rfl, fun m _ r e hr => blockItems_of_close (hr.1.trans hr.2) m⟩
    obtain ⟨ls, hls, hitem⟩ := hitem c x c₁ hx
    obtain ⟨ms, hms, ih⟩ := ih n (Nat.lt_succ_self n) c₂ ys c' hys
    have hlen := length_pos_of_item htakes hx hls
    have hnext (r : List Lexeme) (e : Nat) := next?_before_item htakes hx hls r e
    rcases semiBefore_cases hsemi with ⟨l, rest, hrest, hl⟩ | hc₁
    · rw [semiBefore_of_semi hrest hl] at hsemi
      cases hsemi
      obtain rfl : rest = ms ++ c'.rest := hms
      refine ⟨ls ++ l :: ms, by simp [hls, hrest], fun m hm r e hr => ?_⟩
      obtain ⟨m, rfl⟩ : ∃ k, m = k + 1 := ⟨m - 1, by simp at hm; omega⟩
      have hc₁ : c₁.next? = some (.mark .semi) := by simp [Cursor.next?, hrest, hl]
      have hkept := hitem (l :: (ms ++ r)) e ⟨by simp [Cursor.next?, hrest], .inl hc₁⟩
      rw [List.append_assoc, List.cons_append]
      exact blockItems_of_item (hnext _ e ▸ hother) (hnext _ e ▸ hend) hkept
        (semiBefore_of_semi rfl hl) (ih m (by simp at hm; omega) r e hr)
    · rw [semiBefore_of_close hclose hc₁] at hsemi
      cases hsemi
      refine ⟨ls ++ ms, by simp [hls, hms], fun m hm r e hr => ?_⟩
      obtain ⟨m, rfl⟩ : ∃ k, m = k + 1 := ⟨m - 1, by simp at hm; omega⟩
      have hsame := Cursor.next?_before_of_eq hms hr.1
      rw [List.append_assoc]
      exact blockItems_of_item (hnext _ e ▸ hother) (hnext _ e ▸ hend)
        (hitem _ e ⟨hsame, .inr hc₁⟩) (semiBefore_of_close hclose (hsame.trans hc₁))
        (ih m (by simp at hm; omega) r e hr)

theorem block (hitem : ∀ c, Steady (Kept (Takes.endsItem close)) item c)
    (hclose : close ≠ .semi) (c : Cursor) : Steady Ended (Parse.block close item) c := by
  have hitems (c : Cursor) : Steady (Kept (· = some (.mark close)))
      (get >>= fun c => Parse.blockItems close item c.rest.length) c := by
    intro xs c' hok
    obtain ⟨ls, hls, h⟩ := blockItems htakes hitem hclose _ c xs c' hok
    exact ⟨ls, hls, fun r e hr => h _ (by simp) r e hr⟩
  exact (hitems c).closed fun _ _ _ => pure

end Sequence

/-! ## Parts of types -/

/-- It reads as far, if it may stop there. -/
theorem through_of_stop {wanted : Wanted} {stop : Token → Bool}
    (hstop : ∀ x c', through wanted stop c = .ok (x, c') → ∀ r e, F c'.next? (c'.before r e).next? →
      ∀ l ∈ r.head?, stop l.token = true) :
    Steady F (through wanted stop) c := by
  intro s c' hok
  obtain ⟨l, passed, rest, hover, rfl, rfl⟩ := through_eq_ok_iff.1 hok
  refine ⟨l :: passed, (passOver_append hover).symm, fun r e hr => ?_⟩
  refine through_eq_ok_iff.2 ⟨l, passed, r, ?_, rfl, rfl⟩
  exact passOver_before hover (hstop _ _ hok r e hr)

theorem through {wanted : Wanted} {stop : Token → Bool} :
    Steady (Kept fun o => o.any stop = true) (through wanted stop) c := by
  refine through_of_stop fun s c' _ r e hr l hl => ?_
  have hstop : (r.head?.map Lexeme.token).any stop = true :=
    (congrArg (Option.any stop) hr.1).trans hr.2
  rwa [Option.mem_def.1 hl] at hstop

theorem stringLiteral? : Steady Ended stringLiteral? c := by
  intro x c' hok
  rcases stringLiteral?_cases c with ⟨l, ls, hrest, hl⟩ | hnone
  · rw [stringLiteral?_some hrest hl] at hok
    cases hok
    exact ⟨[l], hrest, fun r e _ => stringLiteral?_some rfl hl⟩
  · rw [stringLiteral?_none hnone] at hok
    cases hok
    refine ⟨[], rfl, fun r e hr => stringLiteral?_none fun t ht => ?_⟩
    rcases hr with hr | hr | hr
    · exact hnone t (hr ▸ ht)
    · exact absurd (hr.symm.trans ht) (by simp)
    · obtain rfl := Option.some.inj (hr.symm.trans ht)
      rintro ⟨kind, text, htag, -⟩
      simp at htag

theorem resolve (es : List (ParamEntry TypeNode)) : Steady F (resolve es) c := by
  refine still fun xs c' hok => ?_
  unfold Parse.resolve at hok ⊢
  split at hok
  · next hes =>
    cases hok
    exact ⟨rfl, fun r e => by simp only [Cursor.before_made, hes]; rfl⟩
  · cases hok

theorem spanFrom (start : Span) : Steady F (spanFrom start) c := by
  refine still ?_
  rintro _ _ ⟨⟩
  exact ⟨rfl, fun _ _ => rfl⟩

section Types

variable {type : Parse TypeNode} (hlike : ∀ c, Consumes type Consumes.IsType c)
  (hends : ∀ c, Consumes type EndsLine c) (htype : ∀ c, Steady Ended type c)

include htype

theorem typeArgs (hends : ∀ c, Consumes type EndsLine c) : Steady Ended (typeArgs type) c := by
  have hlisted := listed (fun c => (hends c).takes) (fun c => (htype c).kept) Takes.stops_rbrack
    (by decide)
  refine (eat (by decide)).bind fun s c _ => ?_
  cases s with
  | none => exact pure
  | some s =>
    refine (hlisted c).closed fun ts s c => ?_
    split
    · exact error fun _ => rfl
    · exact pure

theorem typeName (hends : ∀ c, Consumes type EndsLine c) : Steady Ended (typeName type) c := by
  refine ident.bind fun x c _ => (eat (by decide)).bind fun s c _ => ?_
  cases s with
  | none => exact (typeArgs htype hends).finish
  | some s => exact ident.bind fun y c _ => (typeArgs htype hends).finish

theorem arrayOrSlice (hends : ∀ c, Consumes type EndsLine c) {t : Token} (hc : c.next? = some t) :
    Steady Ended (arrayOrSlice type) c := by
  refine (bump hc).bind fun lbrack c _ => (eat (by decide)).bind fun s c _ => ?_
  cases s with
  | some s => exact (htype c).finish
  | none =>
    refine peek (Q := EndsLine) ?_ (Consumes.look ?_) (fun h => h.ne_nil rfl) fun d hd _ => ?_
    · split
      · exact error fun _ => rfl
      · refine (through.mono fun o o' h => ?_).closed fun length _ c => (htype c).finish
        exact ⟨h.1, by simp [h.2]⟩
    · split
      · exact .error fun _ => rfl
      · exact Consumes.through.advances.ending fun _ c => (Consumes.expect _).advances.ending
          fun _ c => (hends c).finish
    · rw [Cursor.isAt_congr hd]

theorem term : Steady Ended (term type) c :=
  (eat (by decide)).bind fun _ c _ => (htype c).finish

include hends hlike

/-- An entry is followed by a comma or by the parenthesis that closes the list. -/
theorem paramEntry : Steady (Kept (Takes.afterItem .rparen)) (paramEntry type) c := by
  have hrest (names : List Ident) (c₀ c : Cursor) :
      Steady Ended (do
        let ellipsis ← Parse.eat .ellipsis
        let type ← type
        return (⟨names, ellipsis, some type, ← Parse.spanFrom c₀.here⟩ : ParamEntry TypeNode)) c :=
    (eat (by decide)).bind fun _ c _ => (htype c).bind fun _ _ _ => (spanFrom _).finish
  refine look ?_ fun x c' ls hok hls r e hr => ?_
  · split
    · exact ident.finish.kept
    · split
      · exact (ident.map.bind fun names c' _ => hrest names c c').kept
      · exact (hrest [] c c).kept
  · have hlevel := (Consumes.paramEntry (Consumes.level hlike)).of_run hok hls
    have hne := ((Consumes.paramEntry_endsLine hends).of_run hok hls).ne_nil
    have hhere := Cursor.here_before (r := r) (e := e) hls (by simpa using hne)
    have hstart : NoStart c'.next? := by rcases hr.2 with h | h <;> simp [NoStart, h]
    have hentry : entryStart (ls ++ r) = entryStart c.rest := by
      rw [hls]
      exact (entryStart_congr hlevel hr.1.symm hstart).symm
    simp only [Cursor.before_rest, hentry, hhere]

theorem params : Steady Ended (params type) c := by
  refine (expect _).bind fun l c _ => ?_
  have hlisted := listed (fun c => (Consumes.paramEntry_endsLine hends).takes)
    (fun c => paramEntry hlike hends htype) stops_rparen (by decide)
  exact (hlisted c).closed fun es r c => (resolve es).finish

theorem results : Steady Ended (results type) c := by
  refine look ?_ fun x c' ls hok hls r e hr => ?_
  · split
    · exact (params hlike hends htype).map
    · split
      · exact (htype c).map
      · exact pure
  · rcases Cursor.next?_before (r := r) (e := e) hls with ⟨rfl, hc, hnext⟩ | ⟨-, hnext⟩
    · -- nothing was read, so what followed was neither a list nor a type
      split at hok
      · have hlevel := Consumes.level hlike
        exact absurd rfl ((Consumes.params_endsLine hlevel).map.of_run hok hls).ne_nil
      · next hparen =>
        split at hok
        · exact absurd rfl ((hends c).map.of_run hok hls).ne_nil
        · next hstart =>
          rcases Cursor.ended_before hls hr with h | h | h
          · rw [Cursor.isAt_congr h, h]
          · rw [if_neg hparen, if_neg hstart, Cursor.isAt, h]
            rfl
          · rw [if_neg hparen, if_neg hstart, Cursor.isAt, h]
            rfl
    · rw [Cursor.isAt_congr hnext, hnext]

theorem signature : Steady Ended (signature type) c := by
  refine (params hlike hends htype).bind fun ps c _ =>
    (results hlike hends htype).bind fun rs c _ => still ?_
  rintro _ _ ⟨⟩
  exact ⟨rfl, fun _ _ => rfl⟩

/-- An element is followed by a semicolon or by the brace that closes the interface. -/
theorem element : Steady (Kept (Takes.endsItem .rbrace)) (element type) c := by
  refine look ?_ fun x c' ls hok hls r e hr => ?_
  · split
    · exact (ident.bind fun _ c _ => (signature hlike hends htype).finish).kept
    · exact (separated (fun c => term htype) (by decide) _).map.kept
  · have hlevel := (Consumes.element hlike c).of_run hok hls
    have hstart : NoStart c'.next? := by rcases hr.2 with h | h <;> simp [NoStart, h]
    have hmethod : declaresMethod (ls ++ r) = declaresMethod c.rest := by
      rw [hls]
      exact (declaresMethod_congr hlevel hr.1.symm hstart).symm
    simp only [Cursor.before_rest, hmethod]

theorem structField : Steady (Kept (Takes.endsItem .rbrace)) (structField type) c := by
  have hrest (names : List Ident) (embedded : Bool) (c₀ c : Cursor) :
      Steady Ended (do
        let type ← type
        let tag ← Parse.stringLiteral?
        makeField c₀.here names type tag embedded) c := by
    refine (htype c).bind fun t c _ => stringLiteral?.bind fun tag c _ => still ?_
    rintro _ _ ⟨⟩
    exact ⟨rfl, fun _ _ => rfl⟩
  refine look ?_ fun x c' ls hok hls r e hr => ?_
  · split
    · exact error fun _ => rfl
    · next embedded _ =>
      split
      · exact (hrest [] embedded c c).kept
      · refine ((separated (fun _ => ident) (by decide) _).bind fun names c' _ => ?_).kept
        exact hrest names embedded c c'
  · have hlevel := (Consumes.structField hlike c).of_run hok hls
    have hne := ((Consumes.structField_endsLine hends c).of_run hok hls).ne_nil
    have hhere := Cursor.here_before (r := r) (e := e) hls (by simpa using hne)
    have hstart : NoStart c'.next? := by rcases hr.2 with h | h <;> simp [NoStart, h]
    have hembeds : embeds? (ls ++ r) = embeds? c.rest := by
      rw [hls]
      exact (embeds?_congr hlevel hr.1.symm hstart).symm
    simp only [Cursor.before_rest, hembeds, hhere]

theorem typeForm : Steady Ended (typeForm type) c := by
  refine peek ?_ (Consumes.typeForm_endsLine hlike hends) (fun h => h.ne_nil rfl)
    fun d hd _ => by rw [hd]
  · split
    · exact typeName htype hends
    · next h => exact (bump h).bind fun _ c _ => (htype c).finish
    · next h => exact arrayOrSlice htype hends h
    · next h =>
      exact (bump h).bind fun _ c _ => (expect _).bind fun _ c _ => (htype c).bind fun _ c _ =>
        (expect _).bind fun _ c _ => (htype c).finish
    · next h =>
      exact (bump h).bind fun _ c _ => (eat (by decide)).bind fun _ c _ => (htype c).finish
    · next h => exact (bump h).bind fun _ c _ => (expect _).bind fun _ c _ => (htype c).finish
    · next h => exact (bump h).bind fun _ c _ => (signature hlike hends htype).finish
    · next h =>
      exact (bump h).bind fun _ c _ => (expect _).bind fun _ c _ =>
        (block (fun c => (Consumes.element_endsLine (Consumes.level hlike) hends c).takes)
          (fun c => element hlike hends htype) (by decide) c).finish
    · next h =>
      exact (bump h).bind fun _ c _ => (expect _).bind fun _ c _ =>
        (block (fun c => (Consumes.structField_endsLine hends c).takes)
          (fun c => structField hlike hends htype) (by decide) c).finish
    · next h =>
      exact (bump h).bind fun _ c _ => (htype c).bind fun _ c _ => (expect _).finish
    · exact error fun _ => rfl

end Types

/-- A type is read the same where the text ends after it or a statement does. -/
theorem typeWithin : ∀ (room : Nat) (c : Cursor), Steady Ended (typeWithin room) c
  | 0, _ => error fun _ => rfl
  | room + 1, c => by
    have hlike := Consumes.typeWithin room
    have hends := Consumes.typeWithin_endsLine room
    refine peek ?_ (Consumes.typeWithin_endsLine (room + 1) c) (fun h => h.ne_nil rfl)
      fun d _ hhere => by rw [hhere]
    refine (typeForm hlike hends (typeWithin room)).bind fun form c _ => still ?_
    rintro _ _ ⟨⟩
    exact ⟨rfl, fun _ _ => rfl⟩

end Steady

/-! ## What came before -/

/-- The reader does not know the last lexeme that was read. -/
def Fresh (p : Parse α) (c : Cursor) : Prop := ∀ s, p { c with last := s } = p c

namespace Fresh

variable {c : Cursor} {p : Parse α} {f : α → Parse β}

theorem bind (hp : Fresh p c) : Fresh (p >>= f) c := by
  intro s
  show Except.bind (p { c with last := s }) _ = Except.bind (p c) _
  rw [hp s]

theorem look {g : Cursor → Parse α} (hsame : ∀ s, g { c with last := s } = g c)
    (hg : Fresh (g c) c) : Fresh (get >>= g) c := by
  intro s
  show g { c with last := s } { c with last := s } = g c c
  rw [hsame, hg s]

theorem error {e : Cursor → Located ParseFault} (h : ∀ c, p c = .error (e c))
    (he : ∀ s, e { c with last := s } = e c) : Fresh p c := by
  intro s
  rw [h, h, he]

theorem bump {t : Token} (hc : c.next? = some t) : Fresh bump c := by
  intro s
  rcases hrest : c.rest with _ | ⟨l, ls⟩
  · simp [Cursor.next?, hrest] at hc
  · simp only [Parse.bump, hrest]

theorem ident : Fresh ident c := by
  refine look (fun _ => rfl) ?_
  split
  · next h => exact (bump h).bind
  · exact error (fun _ => rfl) fun _ => rfl

theorem typeForm (type : Parse TypeNode) : Fresh (typeForm type) c := by
  refine look (fun _ => rfl) ?_
  split
  · exact ident.bind
  · next h => exact (bump h).bind
  · next h => exact (bump h).bind
  · next h => exact (bump h).bind
  · next h => exact (bump h).bind
  · next h => exact (bump h).bind
  · next h => exact (bump h).bind
  · next h => exact (bump h).bind
  · next h => exact (bump h).bind
  · next h => exact (bump h).bind
  · exact error (fun _ => rfl) fun _ => rfl

theorem typeWithin : ∀ (room : Nat), Fresh (typeWithin room) c
  | 0 => error (fun _ => rfl) fun _ => rfl
  | _ + 1 => look (fun _ => rfl) (typeForm _).bind

end Fresh

end Parse

end GoIface
