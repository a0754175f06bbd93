import GoIface.Proofs.Taking

/-!
# Balanced runs

A run is balanced if every bracket in it is closed by its own kind and none is closed that was not
opened in it. Passing over what is not read takes such a run as a whole (`Takes.through`). Looking
ahead for the end of a bracket only counts brackets (`holdsTypeArgs_of_openAfter`), so for it a run
need only be level.
-/

namespace GoIface

inductive Balanced : List Token → Prop
  | nil : Balanced []
  | plain {t : Token} {ts : List Token} (hopen : t.opens? = none) (hclose : t.closes? = none)
      (h : Balanced ts) : Balanced (t :: ts)
  | nested {o c : Token} {b : Bracket} {ts us : List Token} (hopen : o.opens? = some b)
      (hclose : c.closes? = some b) (hts : Balanced ts) (hus : Balanced us) :
      Balanced (o :: (ts ++ c :: us))

/-- The run is balanced, and outside its brackets there is nothing at which to stop. -/
inductive Unbroken (stop : Token → Bool) : List Token → Prop
  | nil : Unbroken stop []
  | plain {t : Token} {ts : List Token} (hstop : stop t = false) (hopen : t.opens? = none)
      (hclose : t.closes? = none) (h : Unbroken stop ts) : Unbroken stop (t :: ts)
  | nested {o c : Token} {b : Bracket} {ts us : List Token} (hstop : stop o = false)
      (hopen : o.opens? = some b) (hclose : c.closes? = some b) (hts : Balanced ts)
      (hus : Unbroken stop us) : Unbroken stop (o :: (ts ++ c :: us))

namespace Balanced

theorem append {ts us : List Token} (hts : Balanced ts) (hus : Balanced us) :
    Balanced (ts ++ us) := by
  induction hts with
  | nil => exact hus
  | plain hopen hclose _ ih => exact .plain hopen hclose ih
  | @nested o c b ts vs hopen hclose hts _ _ ih =>
    rw [List.cons_append, List.append_assoc]
    exact .nested hopen hclose hts ih

/-- A run in brackets. -/
theorem enclosed {o c : Token} {b : Bracket} {ts : List Token} (hopen : o.opens? = some b)
    (hclose : c.closes? = some b) (hts : Balanced ts) : Balanced (o :: (ts ++ [c])) :=
  .nested hopen hclose hts .nil

theorem joined {separator : Mark} (hopen : (Token.mark separator).opens? = none)
    (hclose : (Token.mark separator).closes? = none) :
    ∀ {runs : List (List Token)}, (∀ ts ∈ runs, Balanced ts) → Balanced (joined separator runs)
  | [], _ => .nil
  | [ts], h => by simpa using h ts (by simp)
  | ts :: us :: rest, h => by
    rw [joined_cons_cons]
    exact (h ts (by simp)).append (.plain hopen hclose
      (joined hopen hclose fun vs hvs => h vs (by simp [hvs])))

end Balanced

theorem Token.opens?_of_closes? {t : Token} {b : Bracket} (h : t.closes? = some b) :
    t.opens? = none := by
  unfold closes? at h
  split at h <;> first | rfl | simp at h

theorem Token.closes?_of_opens? {t : Token} {b : Bracket} (h : t.opens? = some b) :
    t.closes? = none := by
  unfold opens? at h
  split at h <;> first | rfl | simp at h

/-- A run that stops at brackets that close only is not broken if it is balanced. -/
theorem Balanced.unbroken {stop : Token → Bool} (hstop : ∀ t, t.closes? = none → stop t = false)
    {ts : List Token} (h : Balanced ts) : Unbroken stop ts := by
  induction h with
  | nil => exact .nil
  | plain hopen hclose _ ih => exact .plain (hstop _ hclose) hopen hclose ih
  | nested hopen hclose hts _ _ ih =>
    exact .nested (hstop _ (Token.closes?_of_opens? hopen)) hopen hclose hts ih

/-- Brackets that close may be stopped at as well. -/
theorem Unbroken.mono {stop stop' : Token → Bool} {ts : List Token} (h : Unbroken stop ts)
    (hstop : ∀ t, t.closes? = none → stop t = false → stop' t = false) : Unbroken stop' ts := by
  induction h with
  | nil => exact .nil
  | plain hs hopen hclose _ ih => exact .plain (hstop _ hclose hs) hopen hclose ih
  | nested hs hopen hclose hts _ ih =>
    exact .nested (hstop _ (Token.closes?_of_opens? hopen) hs) hopen hclose hts ih

theorem Balanced.head?_ne {ts : List Token} (h : Balanced ts) {t : Token} {b : Bracket}
    (ht : t.closes? = some b) : ts.head? ≠ some t := by
  cases h with
  | nil => simp
  | plain _ hclose =>
    rintro ⟨⟩
    simp [ht] at hclose
  | nested hopen =>
    rintro ⟨⟩
    simp [Token.closes?_of_opens? hopen] at ht

/-- How many brackets are open after the tokens, of whatever kind, if `n` are before them. None if
more are closed than are open. -/
def openAfter : Nat → List Token → Option Nat
  | n, [] => some n
  | n, t :: ts =>
    if t.opens?.isSome then openAfter (n + 1) ts
    else if t.closes?.isSome then
      if n = 0 then none else openAfter (n - 1) ts
    else openAfter n ts

/-- As many brackets are closed as are opened, and none of those open before. -/
def Level (ts : List Token) : Prop := openAfter 0 ts = some 0

theorem openAfter_append {n m k : Nat} {ts us : List Token} (hts : openAfter n ts = some m)
    (hus : openAfter m us = some k) : openAfter n (ts ++ us) = some k := by
  fun_induction openAfter n ts with
  | case1 => simp_all
  | case2 n t ts hopen ih => simpa [openAfter, hopen] using ih hts
  | case3 => simp at hts
  | case4 n t ts hopen hclose hn ih => simpa [openAfter, hopen, hclose, hn] using ih hts
  | case5 n t ts hopen hclose ih => simpa [openAfter, hopen, hclose] using ih hts

/-- More brackets may be open all along. -/
theorem openAfter_add {n m : Nat} {ts : List Token} (h : openAfter n ts = some m) (k : Nat) :
    openAfter (n + k) ts = some (m + k) := by
  fun_induction openAfter n ts with
  | case1 => simp_all [openAfter]
  | case2 n t ts hopen ih =>
    have ih := ih h
    rw [Nat.add_right_comm] at ih
    rw [openAfter, if_pos hopen, ih]
  | case3 => simp at h
  | case4 n t ts hopen hclose hn ih =>
    have ih := ih h
    rw [openAfter, if_neg hopen, if_pos hclose, if_neg (by omega), ← ih]
    congr 1
    omega
  | case5 n t ts hopen hclose ih =>
    rw [openAfter, if_neg hopen, if_neg hclose]
    exact ih h

theorem Level.at {ts : List Token} (h : Level ts) (n : Nat) : openAfter n ts = some n := by
  simpa using openAfter_add h n

theorem Level.enclosed {o c : Token} {ts : List Token} (hopen : openAfter 0 [o] = some 1)
    (hclose : openAfter 1 [c] = some 0) (h : Level ts) : Level (o :: (ts ++ [c])) :=
  openAfter_append hopen (openAfter_append (h.at 1) hclose)

theorem Balanced.level {ts : List Token} (h : Balanced ts) : Level ts := by
  induction h with
  | nil => rfl
  | plain hopen hclose _ ih =>
    rw [Level, openAfter, hopen, hclose]
    exact ih
  | @nested o c b ts us hopen hclose _ _ ihts ihus =>
    have hin : openAfter 1 (c :: us) = some 0 := by
      rw [openAfter, Token.opens?_of_closes? hclose, hclose]
      exact ihus
    rw [Level, openAfter, hopen]
    exact openAfter_append (ihts.at 1) hin

/-- Looking ahead keeps count of the brackets that are open. -/
theorem holdsTypeArgs_of_openAfter {n m : Nat} {ts : List Token} (h : openAfter n ts = some m)
    {ls : List Lexeme} (hls : ls.map Lexeme.token = ts) (r : List Lexeme) :
    holdsTypeArgs (n + 1) (ls ++ r) = holdsTypeArgs (m + 1) r := by
  fun_induction openAfter n ts generalizing ls with
  | case1 =>
    obtain rfl := Option.some.inj h
    rw [List.map_eq_nil_iff.1 hls, List.nil_append]
  | case2 n t ts hopen ih =>
    obtain ⟨l, ls, rfl, rfl, hls⟩ := List.map_eq_cons_iff.1 hls
    rw [List.cons_append, holdsTypeArgs, if_pos hopen]
    exact ih h ‹_›
  | case3 => simp at h
  | case4 n t ts hopen hclose hn ih =>
    obtain ⟨l, ls, rfl, rfl, hls⟩ := List.map_eq_cons_iff.1 hls
    rw [List.cons_append, holdsTypeArgs, if_neg hopen, if_pos hclose, if_neg (by omega),
      ← ih h ‹_›]
    congr 1
    omega
  | case5 n t ts hopen hclose ih =>
    obtain ⟨l, ls, rfl, rfl, hls⟩ := List.map_eq_cons_iff.1 hls
    rw [List.cons_append, holdsTypeArgs, if_neg hopen, if_neg hclose]
    exact ih h ‹_›

/-- Looking ahead from a bracket finds what comes after the one that closes it. -/
theorem holdsTypeArgs_enclosed {o c : Token} {b b' : Bracket} {ts : List Token}
    (hopen : o.opens? = some b) (hclose : c.closes? = some b') (hts : Level ts)
    {ls : List Lexeme} (hls : ls.map Lexeme.token = o :: (ts ++ [c])) (r : List Lexeme) :
    holdsTypeArgs 0 (ls ++ r) = !(r.head?.any (·.token.startsType)) := by
  obtain ⟨l, _, rfl, rfl, h⟩ := List.map_eq_cons_iff.1 hls
  obtain ⟨ls₁, _, rfl, h₁, h⟩ := List.map_eq_append_iff.1 h
  obtain ⟨k, rfl, rfl⟩ := List.map_eq_singleton_iff.1 h
  have hin := holdsTypeArgs_of_openAfter hts h₁ (k :: r)
  simp only [List.cons_append, List.append_assoc, List.nil_append, holdsTypeArgs, hopen,
    Option.isSome_some, if_true, hin, Token.opens?_of_closes? hclose, hclose, Option.isSome_none,
    Bool.false_eq_true, if_false, Nat.zero_add, Nat.le_refl]

section PassOver

variable {stop : Token → Bool} {opener : Span} {b : Bracket} {bs : List Bracket} {l : Lexeme}
  {ls r before after : List Lexeme}

/-- What is passed over after a lexeme is passed over with it. -/
theorem passed_cons {p : Except (Located ParseFault) (List Lexeme × List Lexeme)}
    (h : p.map (fun p : List Lexeme × List Lexeme => p.map (l :: ·) id) = .ok (before, after)) :
    ∃ passed, before = l :: passed ∧ p = .ok (passed, after) := by
  rcases p with e | ⟨passed, rest⟩
  · simp [Except.map] at h
  · cases h
    exact ⟨passed, rfl, rfl⟩

/-- Passing over stops where it may, or at the end. -/
theorem stop_of_passOver (h : passOver stop bs opener ls = .ok (before, after)) :
    ∀ l ∈ after.head?, stop l.token = true := by
  fun_induction passOver stop bs opener ls generalizing before with
  | case1 =>
    cases h
    simp
  | case2 => simp at h
  | case3 opener l ls hstop =>
    cases h
    rintro _ ⟨⟩
    exact hstop
  | case4 => simp at h
  | case5 _ _ _ _ _ ih | case6 _ _ _ _ _ _ _ ih | case7 _ _ _ _ _ _ _ ih
  | case9 _ _ _ _ _ _ _ ih =>
    obtain ⟨passed, -, hpassed⟩ := passed_cons h
    exact ih hpassed
  | case8 => simp at h

theorem passOver_cons_plain (hopen : l.token.opens? = none) (hclose : l.token.closes? = none)
    (h : passOver stop (b :: bs) opener ls = .ok (before, after)) :
    passOver stop (b :: bs) opener (l :: ls) = .ok (l :: before, after) := by
  rw [passOver, hopen, hclose]
  simp only [h]
  rfl

theorem passOver_cons_opener {inner : Bracket} (hopen : l.token.opens? = some inner)
    (h : passOver stop (inner :: b :: bs) opener ls = .ok (before, after)) :
    passOver stop (b :: bs) opener (l :: ls) = .ok (l :: before, after) := by
  rw [passOver, hopen]
  simp only [h]
  rfl

theorem passOver_cons_closer (hclose : l.token.closes? = some b)
    (h : passOver stop bs opener ls = .ok (before, after)) :
    passOver stop (b :: bs) opener (l :: ls) = .ok (l :: before, after) := by
  rw [passOver, Token.opens?_of_closes? hclose, hclose]
  simp only [if_true, h]
  rfl

/-- Outside brackets. -/
theorem passOver_cons_outside (opener : Span) (hstop : stop l.token = false)
    (hclose : l.token.closes? = none)
    (h : passOver stop l.token.opens?.toList l.span ls = .ok (before, after)) :
    passOver stop [] opener (l :: ls) = .ok (l :: before, after) := by
  rw [passOver, hstop, hclose]
  simp only [Bool.false_eq_true, if_false, Option.isSome_none, h]
  rfl

/-- Within brackets, a balanced run is passed over as a whole. -/
theorem passOver_inside {ts : List Token} (h : Balanced ts) :
    ∀ {ls : List Lexeme}, ls.map Lexeme.token = ts → ∀ {b : Bracket} {bs : List Bracket}
      {r before : List Lexeme}, passOver stop (b :: bs) opener r = .ok (before, after) →
        passOver stop (b :: bs) opener (ls ++ r) = .ok (ls ++ before, after) := by
  induction h with
  | nil =>
    intro ls hls b bs r before hr
    rw [List.map_eq_nil_iff.1 hls, List.nil_append, List.nil_append, hr]
  | plain hopen hclose _ ih =>
    intro _ hls b bs r before hr
    obtain ⟨l, ls, rfl, rfl, h⟩ := List.map_eq_cons_iff.1 hls
    exact passOver_cons_plain hopen hclose (ih h hr)
  | nested hopen hclose _ _ ihts ihus =>
    intro _ hls b bs r before hr
    obtain ⟨l, _, rfl, rfl, h⟩ := List.map_eq_cons_iff.1 hls
    obtain ⟨ls₁, _, rfl, h₁, h⟩ := List.map_eq_append_iff.1 h
    obtain ⟨k, ls₂, rfl, rfl, h₂⟩ := List.map_eq_cons_iff.1 h
    have hk := passOver_cons_closer (l := k) hclose (ihus h₂ hr)
    have hl := passOver_cons_opener (l := l) hopen (ihts h₁ hk)
    simpa using hl

/-- Outside brackets too, up to where it stops. -/
theorem passOver_outside (hr : ∀ opener, passOver stop [] opener r = .ok (before, after))
    {ts : List Token} (h : Unbroken stop ts) :
    ∀ {ls : List Lexeme}, ls.map Lexeme.token = ts → ∀ opener,
      passOver stop [] opener (ls ++ r) = .ok (ls ++ before, after) := by
  induction h with
  | nil =>
    intro ls hls opener
    rw [List.map_eq_nil_iff.1 hls, List.nil_append, List.nil_append, hr]
  | plain hstop hopen hclose _ ih =>
    intro _ hls opener
    obtain ⟨l, ls, rfl, rfl, h⟩ := List.map_eq_cons_iff.1 hls
    refine passOver_cons_outside opener hstop hclose ?_
    rw [hopen]
    exact ih h l.span
  | nested hstop hopen hclose hts _ ihus =>
    intro _ hls opener
    obtain ⟨l, _, rfl, rfl, h⟩ := List.map_eq_cons_iff.1 hls
    obtain ⟨ls₁, _, rfl, h₁, h⟩ := List.map_eq_append_iff.1 h
    obtain ⟨k, ls₂, rfl, rfl, h₂⟩ := List.map_eq_cons_iff.1 h
    have hk := passOver_cons_closer (l := k) hclose (ihus h₂ l.span)
    have hin := passOver_inside hts h₁ hk
    have hout := passOver_cons_outside opener hstop (Token.closes?_of_opens? hopen)
      (by rw [hopen]; exact hin)
    simpa using hout

end PassOver

namespace Parse

theorem Takes.through {L : Legend} {wanted : Wanted} {stop : Token → Bool} {ts : List Token}
    (hts : Balanced ts) (hne : ts ≠ []) (hstop : ∀ t, t.closes? = none → stop t = false) :
    Takes L (through wanted stop) ts (fun o => ∃ t, o = some t ∧ stop t = true)
      (L.known ts) := by
  intro c ls r hls hL ho hc
  obtain ⟨t, ht, hstopt⟩ := ho
  obtain ⟨k, r, rfl⟩ : ∃ k r', r = k :: r' := by
    cases r with
    | nil => simp at ht
    | cons k r => exact ⟨k, r, rfl⟩
  obtain rfl : k.token = t := by simpa using ht
  have hend (opener : Span) : passOver stop [] opener (k :: r) = .ok ([], k :: r) := by
    rw [passOver, if_pos hstopt]
  have hpass := passOver_outside hend (hts.unbroken hstop) hls c.here
  rw [List.append_nil, ← hc] at hpass
  obtain ⟨l, ls, rfl⟩ := List.exists_cons_of_ne_nil (by
    rintro rfl
    exact hne hls.symm : ls ≠ [])
  let c' : Cursor := { c with rest := k :: r, last := (ls.getLast?.getD l).span }
  have hp : pass stop c.here none c = .ok (l :: ls, c') := by
    unfold pass
    rw [Option.toList_none, hpass]
    simp [c', List.getLast?_cons]
  have hhere : c.here = l.span := by simp [Cursor.here, hc]
  refine ⟨runSpan (l :: ls), c', ?_, rfl, ?_⟩
  · have hrun : Parse.through wanted stop c
        = (pass stop c.here none >>= fun passed =>
            if passed.isEmpty then expected wanted else spanFrom c.here) c := rfl
    rw [hrun, bind_of_ok hp, hhere]
    rfl
  · rw [← hls]
    exact hL _ List.infix_rfl (by simp)

end Parse

end GoIface
