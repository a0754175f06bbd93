import GoIface.Proofs.Unrolling
import Mathlib.Data.List.Induction

/-!
# The language of brackets

Of the tokens from an opening bracket on, some first ones are balanced, or all of them leave a
bracket open, or there is a first token that closes another bracket than was opened last
(`LeavesOpen.or_mismatch`). A bracket is passed over just in the first case, and fails where the
others say (`bracketed_ok_iff`, `bracketed_error_iff`). Passing over up to some token goes from
bracket to bracket (`through_ok_iff`, `through_error_iff`).
-/

namespace GoIface

/-- The run leaves these brackets open, the last one first, and is well nested otherwise. -/
def LeavesOpen : List Bracket → List Token → Prop
  | [], ts => Balanced ts
  | b :: bs, ts => ∃ before o inner, ts = before ++ o :: inner ∧ LeavesOpen bs before ∧
      o.opens? = some b ∧ Balanced inner

namespace LeavesOpen

variable {bs : List Bracket} {ts us : List Token} {b : Bracket} {t : Token}

theorem append (h : LeavesOpen bs ts) (hus : Balanced us) : LeavesOpen bs (ts ++ us) := by
  cases bs with
  | nil => exact Balanced.append h hus
  | cons b bs =>
    obtain ⟨before, o, inner, rfl, hbefore, ho, hinner⟩ := h
    exact ⟨before, o, inner ++ us, by simp, hbefore, ho, hinner.append hus⟩

theorem plain (h : LeavesOpen bs ts) (hopen : t.opens? = none) (hclose : t.closes? = none) :
    LeavesOpen bs (ts ++ [t]) :=
  h.append (.plain hopen hclose .nil)

theorem opened (h : LeavesOpen bs ts) (hopen : t.opens? = some b) :
    LeavesOpen (b :: bs) (ts ++ [t]) :=
  ⟨ts, t, [], rfl, h, hopen, .nil⟩

theorem closed (h : LeavesOpen (b :: bs) ts) (hclose : t.closes? = some b) :
    LeavesOpen bs (ts ++ [t]) := by
  obtain ⟨before, o, inner, rfl, hbefore, ho, hinner⟩ := h
  have hall := hbefore.append (.enclosed ho hclose hinner)
  rwa [← List.cons_append, ← List.append_assoc] at hall

/-- After an opening bracket, what is left open is left open inside of it. -/
theorem under (h : LeavesOpen bs ts) (hopen : t.opens? = some b) :
    LeavesOpen (bs ++ [b]) (t :: ts) := by
  induction bs generalizing ts with
  | nil => exact ⟨[], t, ts, rfl, .nil, hopen, h⟩
  | cons c bs ih =>
    obtain ⟨before, o, inner, rfl, hbefore, ho, hinner⟩ := h
    exact ⟨t :: before, o, inner, rfl, ih hbefore, ho, hinner⟩

/-- A run leaves some brackets open, or has a first token that closes none of them. -/
theorem or_mismatch (ls : List Lexeme) : (∃ bs, LeavesOpen bs (ls.map Lexeme.token)) ∨
    ∃ before k after bs b, ls = before ++ k :: after ∧ LeavesOpen bs (before.map Lexeme.token) ∧
      k.token.closes? = some b ∧ bs.head? ≠ some b := by
  induction ls using List.reverseRecOn with
  | nil => exact .inl ⟨[], .nil⟩
  | append_singleton ls l ih =>
    rcases ih with ⟨bs, hbs⟩ | ⟨before, k, after, bs, b, rfl, hbs, hk, hb⟩
    · rw [List.map_append, List.map_singleton]
      cases hopen : l.token.opens? with
      | some b => exact .inl ⟨b :: bs, hbs.opened hopen⟩
      | none =>
        cases hclose : l.token.closes? with
        | none => exact .inl ⟨bs, hbs.plain hopen hclose⟩
        | some b =>
          by_cases hb : bs.head? = some b
          · obtain ⟨cs, rfl⟩ := List.head?_eq_some_iff.1 hb
            exact .inl ⟨cs, hbs.closed hclose⟩
          · exact .inr ⟨ls, l, [], bs, b, rfl, hbs, hclose, hb⟩
    · exact .inr ⟨before, k, after ++ [l], bs, b, by simp, hbs, hk, hb⟩

end LeavesOpen

/-! ## Passing over -/

section

variable {stop : Token → Bool} {opener : Span} {b : Bracket} {bs cs : List Bracket} {l k : Lexeme}
  {ls r : List Lexeme}

/-- What is passed over after `ls`, passed over together with it. -/
def passedAfter (ls : List Lexeme)
    (p : Except (Located ParseFault) (List Lexeme × List Lexeme)) :
    Except (Located ParseFault) (List Lexeme × List Lexeme) :=
  p.map (·.map (ls ++ ·) id)

@[simp] theorem passedAfter_nil (p : Except (Located ParseFault) (List Lexeme × List Lexeme)) :
    passedAfter [] p = p := by
  rcases p with _ | _ <;> rfl

theorem passedAfter_append (ls ms : List Lexeme)
    (p : Except (Located ParseFault) (List Lexeme × List Lexeme)) :
    passedAfter (ls ++ ms) p = passedAfter ls (passedAfter ms p) := by
  rcases p with _ | _ <;> simp [passedAfter, Except.map, Prod.map]

theorem passOver_plain (hopen : l.token.opens? = none) (hclose : l.token.closes? = none) :
    passOver stop (b :: bs) opener (l :: ls)
      = passedAfter [l] (passOver stop (b :: bs) opener ls) := by
  rw [passOver, hopen, hclose]
  rfl

theorem passOver_opener (hopen : l.token.opens? = some b) {c : Bracket} :
    passOver stop (c :: bs) opener (l :: ls)
      = passedAfter [l] (passOver stop (b :: c :: bs) opener ls) := by
  rw [passOver, hopen]
  rfl

theorem passOver_closer (hclose : l.token.closes? = some b) :
    passOver stop (b :: bs) opener (l :: ls) = passedAfter [l] (passOver stop bs opener ls) := by
  rw [passOver, Token.opens?_of_closes? hclose, hclose]
  exact if_pos rfl

theorem passOver_mismatch (hclose : l.token.closes? = some b) {c : Bracket} (hne : c ≠ b) :
    passOver stop (c :: bs) opener (l :: ls) = .error ⟨.unexpected l.token, l.span⟩ := by
  rw [passOver, Token.opens?_of_closes? hclose, hclose]
  exact if_neg hne.symm

/-- Within brackets a balanced run is passed over as a whole, whatever comes of the rest. -/
theorem passOver_balanced {ts : List Token} (h : Balanced ts) :
    ∀ {ls : List Lexeme}, ls.map Lexeme.token = ts → ∀ (b : Bracket) (bs : List Bracket)
      (r : List Lexeme), passOver stop (b :: bs) opener (ls ++ r)
        = passedAfter ls (passOver stop (b :: bs) opener r) := by
  induction h with
  | nil =>
    intro ls hls b bs r
    rw [List.map_eq_nil_iff.1 hls, List.nil_append, passedAfter_nil]
  | plain hopen hclose _ ih =>
    intro _ hls b bs r
    obtain ⟨l, ls, rfl, rfl, h⟩ := List.map_eq_cons_iff.1 hls
    rw [List.cons_append, passOver_plain hopen hclose, ih h, ← passedAfter_append]
    rfl
  | nested hopen hclose _ _ ihts ihus =>
    intro _ hls b bs r
    obtain ⟨l, _, rfl, rfl, h⟩ := List.map_eq_cons_iff.1 hls
    obtain ⟨ls₁, _, rfl, h₁, h⟩ := List.map_eq_append_iff.1 h
    obtain ⟨k, ls₂, rfl, rfl, h₂⟩ := List.map_eq_cons_iff.1 h
    rw [List.cons_append, List.append_assoc, List.cons_append, passOver_opener hopen, ihts h₁,
      passOver_closer hclose, ihus h₂, ← passedAfter_append, ← passedAfter_append,
      ← passedAfter_append]
    congr 1
    simp

/-- And so is a run that leaves brackets open, which are open after it. -/
theorem passOver_leavesOpen {ls : List Lexeme} (h : LeavesOpen cs (ls.map Lexeme.token))
    (b : Bracket) (bs : List Bracket) (r : List Lexeme) :
    passOver stop (b :: bs) opener (ls ++ r)
      = passedAfter ls (passOver stop (cs ++ b :: bs) opener r) := by
  induction cs generalizing ls r with
  | nil => exact passOver_balanced h rfl b bs r
  | cons c cs ih =>
    obtain ⟨ts, o, us, hls, hts, ho, hus⟩ := h
    obtain ⟨before, _, rfl, rfl, h⟩ := List.map_eq_append_iff.1 hls
    obtain ⟨l, inner, rfl, rfl, rfl⟩ := List.map_eq_cons_iff.1 h
    obtain ⟨d, ds, hds⟩ : ∃ d ds, cs ++ b :: bs = d :: ds :=
      List.exists_cons_of_ne_nil (by simp)
    rw [List.append_assoc, ih hts, List.cons_append, List.cons_append, hds, passOver_opener ho,
      passOver_balanced hus rfl, ← passedAfter_append, ← passedAfter_append]
    congr 1
    simp

end

/-! ## A bracket -/

/-- Of what stands after a bracket, some first tokens close it, or a token closes another bracket
first, or nothing closes it. -/
theorem bracket_cases (b : Bracket) (ls : List Lexeme) :
    (∃ inner k rest, ls = inner ++ k :: rest ∧ Balanced (inner.map Lexeme.token) ∧
      k.token.closes? = some b) ∨
    (∃ before k after bs c d, ls = before ++ k :: after ∧
      LeavesOpen bs (before.map Lexeme.token) ∧ k.token.closes? = some d ∧ c ≠ d ∧
        (bs ++ [b]).head? = some c) ∨
    ∃ bs, LeavesOpen bs (ls.map Lexeme.token) := by
  rcases LeavesOpen.or_mismatch ls with hopen | ⟨before, k, after, bs, d, rfl, hbs, hk, hd⟩
  · exact .inr (.inr hopen)
  · cases bs with
    | cons c bs =>
      exact .inr (.inl ⟨before, k, after, c :: bs, c, d, rfl, hbs, hk, by simpa using hd, rfl⟩)
    | nil =>
      by_cases hb : b = d
      · exact .inl ⟨before, k, after, rfl, hbs, hb ▸ hk⟩
      · exact .inr (.inl ⟨before, k, after, [], b, d, rfl, hbs, hk, hb, rfl⟩)

section

variable {stop : Token → Bool} {opener : Span} {b c d : Bracket} {bs cs : List Bracket}
  {k : Lexeme} {ls rest : List Lexeme}

theorem passOver_closed (hls : Balanced (ls.map Lexeme.token)) (hk : k.token.closes? = some b) :
    passOver stop (b :: bs) opener (ls ++ k :: rest)
      = passedAfter (ls ++ [k]) (passOver stop bs opener rest) := by
  rw [passOver_balanced hls rfl, passOver_closer hk, passedAfter_append]

theorem passOver_of_mismatch (hls : LeavesOpen cs (ls.map Lexeme.token))
    (hk : k.token.closes? = some d) (hne : c ≠ d) (hc : (cs ++ [b]).head? = some c) :
    passOver stop [b] opener (ls ++ k :: rest) = .error ⟨.unexpected k.token, k.span⟩ := by
  obtain ⟨ds, hds⟩ := List.head?_eq_some_iff.1 hc
  rw [passOver_leavesOpen hls, hds, passOver_mismatch hk hne]
  rfl

theorem passOver_of_missing (hls : LeavesOpen cs (ls.map Lexeme.token)) :
    passOver stop [b] opener ls = .error ⟨.missingCloser, opener⟩ := by
  have hpass : passOver stop [b] opener (ls ++ [])
      = passedAfter ls (passOver stop (cs ++ [b]) opener []) :=
    passOver_leavesOpen hls b [] []
  obtain ⟨d, ds, hds⟩ : ∃ d ds, cs ++ [b] = d :: ds := List.exists_cons_of_ne_nil (by simp)
  rw [List.append_nil, hds] at hpass
  rw [hpass]
  rfl

end

theorem passOver_everywhere (opener : Span) (ls : List Lexeme) :
    passOver (fun _ => true) [] opener ls = .ok ([], ls) := by
  cases ls <;> simp [passOver]

/-- A bracket fails alike wherever passing over may stop after it. -/
theorem passOver_error_congr {stop : Token → Bool} {opener : Span} {b : Bracket}
    {ls : List Lexeme} {e : Located ParseFault}
    (h : passOver (fun _ => true) [b] opener ls = .error e) :
    passOver stop [b] opener ls = .error e := by
  rcases bracket_cases b ls with ⟨inner, k, rest, rfl, hinner, hk⟩ |
    ⟨before, k, after, bs, c, d, rfl, hbs, hk, hne, hc⟩ | ⟨bs, hbs⟩
  · rw [passOver_closed hinner hk, passOver_everywhere] at h
    cases h
  · rw [passOver_of_mismatch hbs hk hne hc] at h ⊢
    exact h
  · rw [passOver_of_missing hbs] at h ⊢
    exact h

namespace Parse

section

variable {c c' : Cursor} {l : Lexeme} {ls : List Lexeme} {b : Bracket} {s : Span}
  {e : Located ParseFault} (hrest : c.rest = l :: ls) (hl : l.token.opens? = some b)

include hrest hl

theorem bracketed_eq_error_iff :
    bracketed c = .error e ↔ passOver (fun _ => true) [b] l.span ls = .error e := by
  rcases hover : passOver (fun _ => true) [b] l.span ls with e' | ⟨inner, rest⟩
  · obtain ⟨rest, last, textEnd, made⟩ := c
    obtain rfl : rest = l :: ls := hrest
    have hpass : pass (fun _ => true) l.span (some b) ⟨ls, l.span, textEnd, made⟩ = .error e' := by
      simp [pass, hover]
    have hrun : bracketed ⟨l :: ls, last, textEnd, made⟩ = .error e' := by
      rw [← hl] at hpass
      exact bind_of_error (f := fun _ => spanFrom l.span) hpass
    simp [hrun]
  · simp [(bracketed_eq_ok_iff hrest hl).2 ⟨inner, rest, hover, rfl, rfl⟩]

/-- A bracket is read up to what closes it after a balanced run. -/
theorem bracketed_ok_iff : bracketed c = .ok (s, c') ↔ ∃ inner k rest,
    ls = inner ++ k :: rest ∧ Balanced (inner.map Lexeme.token) ∧ k.token.closes? = some b ∧
      s = l.span.hull k.span ∧ c' = { c with rest, last := k.span } := by
  have hclosed {inner rest : List Lexeme} {k : Lexeme}
      (hinner : Balanced (inner.map Lexeme.token)) (hk : k.token.closes? = some b) :
      passOver (fun _ => true) [b] l.span (inner ++ k :: rest) = .ok (inner ++ [k], rest) := by
    rw [passOver_closed hinner hk, passOver_everywhere]
    simp [passedAfter, Except.map]
  rw [bracketed_eq_ok_iff hrest hl]
  constructor
  · rintro ⟨inner, rest, hover, rfl, rfl⟩
    rcases bracket_cases b ls with ⟨inner', k, rest', rfl, hinner, hk⟩ |
      ⟨before, k, after, bs, c, d, rfl, hbs, hk, hne, hc⟩ | ⟨bs, hbs⟩
    · rw [hclosed hinner hk] at hover
      cases hover
      exact ⟨inner', k, rest, rfl, hinner, hk, by simp, by simp⟩
    · rw [passOver_of_mismatch hbs hk hne hc] at hover
      cases hover
    · rw [passOver_of_missing hbs] at hover
      cases hover
  · rintro ⟨inner, k, rest, rfl, hinner, hk, rfl, rfl⟩
    exact ⟨inner ++ [k], rest, hclosed hinner hk, by simp, by simp⟩

/-- It fails at the first token that closes another bracket than was opened last, and else for what
is missing. -/
theorem bracketed_error_iff : bracketed c = .error e ↔
    (∃ before k after bs b₁ b₂, ls = before ++ k :: after ∧
      LeavesOpen bs (before.map Lexeme.token) ∧ k.token.closes? = some b₂ ∧ b₁ ≠ b₂ ∧
        (bs ++ [b]).head? = some b₁ ∧ e = ⟨.unexpected k.token, k.span⟩) ∨
    (∃ bs, LeavesOpen bs (ls.map Lexeme.token)) ∧ e = ⟨.missingCloser, l.span⟩ := by
  rw [bracketed_eq_error_iff hrest hl]
  constructor
  · intro hover
    rcases bracket_cases b ls with ⟨inner, k, rest, rfl, hinner, hk⟩ |
      ⟨before, k, after, bs, b₁, b₂, rfl, hbs, hk, hne, hb⟩ | ⟨bs, hbs⟩
    · rw [passOver_closed hinner hk, passOver_everywhere] at hover
      cases hover
    · rw [passOver_of_mismatch hbs hk hne hb] at hover
      exact .inl ⟨before, k, after, bs, b₁, b₂, rfl, hbs, hk, hne, hb, by cases hover; rfl⟩
    · rw [passOver_of_missing hbs] at hover
      exact .inr ⟨⟨bs, hbs⟩, by cases hover; rfl⟩
  · rintro (⟨before, k, after, bs, b₁, b₂, rfl, hbs, hk, hne, hb, rfl⟩ | ⟨⟨bs, hbs⟩, rfl⟩)
    · exact passOver_of_mismatch hbs hk hne hb
    · exact passOver_of_missing hbs

end

end Parse

/-! ## From bracket to bracket -/

section

variable {stop : Token → Bool}

theorem passOver_outside_congr (opener opener' : Span) (ls : List Lexeme) :
    passOver stop [] opener ls = passOver stop [] opener' ls := by
  cases ls <;> rfl

theorem passOver_step {l : Lexeme} (opener : Span) (ls : List Lexeme) (hstop : stop l.token = false)
    (hclose : l.token.closes? = none) : passOver stop [] opener (l :: ls)
      = passedAfter [l] (passOver stop l.token.opens?.toList l.span ls) := by
  rw [passOver, hstop, hclose]
  rfl

theorem passOver_bracket {l : Lexeme} {b : Bracket} (opener : Span) (ls : List Lexeme)
    (hstop : stop l.token = false) (hopen : l.token.opens? = some b) :
    passOver stop [] opener (l :: ls) = passedAfter [l] (passOver stop [b] l.span ls) := by
  rw [passOver_step opener ls hstop (Token.closes?_of_opens? hopen), hopen]
  rfl

theorem passOver_stray {l : Lexeme} (opener : Span) (ls : List Lexeme)
    (hstop : stop l.token = false) (hclose : l.token.closes?.isSome = true) :
    passOver stop [] opener (l :: ls) = .error ⟨.unexpected l.token, l.span⟩ := by
  rw [passOver, hstop, hclose]
  rfl

theorem passOver_stopped (opener : Span) {ls : List Lexeme}
    (h : ∀ l ∈ ls.head?, stop l.token = true) : passOver stop [] opener ls = .ok ([], ls) := by
  rcases ls with _ | ⟨l, ls⟩
  · rfl
  · rw [passOver, if_pos (h l rfl)]

/-- Outside brackets an unbroken run is passed over as a whole. -/
theorem passOver_unbroken {ts : List Token} (h : Unbroken stop ts) :
    ∀ {ls : List Lexeme}, ls.map Lexeme.token = ts → ∀ (opener : Span) (r : List Lexeme),
      passOver stop [] opener (ls ++ r) = passedAfter ls (passOver stop [] opener r) := by
  induction h with
  | nil =>
    intro ls hls opener r
    rw [List.map_eq_nil_iff.1 hls, List.nil_append, passedAfter_nil]
  | plain hstop hopen hclose _ ih =>
    intro _ hls opener r
    obtain ⟨l, ls, rfl, rfl, h⟩ := List.map_eq_cons_iff.1 hls
    rw [List.cons_append, passOver_step opener _ hstop hclose, hopen]
    show passedAfter [l] (passOver stop [] l.span _) = _
    rw [ih h, ← passedAfter_append, passOver_outside_congr l.span opener]
    rfl
  | nested hstop hopen hclose hts _ ih =>
    intro _ hls opener r
    obtain ⟨l, _, rfl, rfl, h⟩ := List.map_eq_cons_iff.1 hls
    obtain ⟨ls₁, _, rfl, h₁, h⟩ := List.map_eq_append_iff.1 h
    obtain ⟨k, ls₂, rfl, rfl, h₂⟩ := List.map_eq_cons_iff.1 h
    subst h₁
    rw [List.cons_append, List.append_assoc, List.cons_append,
      passOver_bracket opener _ hstop hopen, passOver_closed hts hclose, ih h₂,
      ← passedAfter_append, ← passedAfter_append, passOver_outside_congr l.span opener]
    congr 1
    simp

/-- What passing over does not get past: the end or a token to stop at, a token that closes what
was not opened, a bracket that is not closed well. -/
inductive Halts (stop : Token → Bool) : List Lexeme → Prop
  | stop {rest : List Lexeme} (h : ∀ l ∈ rest.head?, stop l.token = true) : Halts stop rest
  | closer {k : Lexeme} {after : List Lexeme} (hstop : stop k.token = false)
      (hk : k.token.closes?.isSome = true) : Halts stop (k :: after)
  | bracket {k : Lexeme} {after : List Lexeme} {b : Bracket} {e : Located ParseFault}
      (hstop : stop k.token = false) (hk : k.token.opens? = some b)
      (hall : ∀ stop, passOver stop [b] k.span after = .error e) : Halts stop (k :: after)

/-- Up to there the run is unbroken. -/
theorem unbroken_halts (stop : Token → Bool) (ls : List Lexeme) : ∃ run rest,
    ls = run ++ rest ∧ Unbroken stop (run.map Lexeme.token) ∧ Halts stop rest := by
  rcases ls with _ | ⟨l, ls⟩
  · exact ⟨[], [], rfl, .nil, .stop (by simp)⟩
  cases hstop : stop l.token with
  | true => exact ⟨[], l :: ls, rfl, .nil, .stop (by simpa using hstop)⟩
  | false =>
    cases hclose : l.token.closes? with
    | some b => exact ⟨[], l :: ls, rfl, .nil, .closer hstop (by simp [hclose])⟩
    | none =>
      cases hopen : l.token.opens? with
      | none =>
        obtain ⟨run, rest, rfl, hrun, hhalts⟩ := unbroken_halts stop ls
        exact ⟨l :: run, rest, rfl, .plain hstop hopen hclose hrun, hhalts⟩
      | some b =>
        rcases bracket_cases b ls with ⟨inner, k, after, rfl, hinner, hk⟩ |
          ⟨before, k, after, bs, c, d, rfl, hbs, hk, hne, hc⟩ | ⟨bs, hbs⟩
        · obtain ⟨run, rest, rfl, hrun, hhalts⟩ := unbroken_halts stop after
          refine ⟨l :: (inner ++ k :: run), rest, by simp, ?_, hhalts⟩
          rw [List.map_cons, List.map_append]
          exact .nested hstop hopen hk hinner hrun
        · exact ⟨[], _, rfl, .nil, .bracket hstop hopen
            fun _ => passOver_of_mismatch hbs hk hne hc⟩
        · exact ⟨[], _, rfl, .nil, .bracket hstop hopen fun _ => passOver_of_missing hbs⟩
termination_by ls.length

end

namespace Parse

variable {wanted : Wanted} {stop : Token → Bool} {c c' : Cursor} {s : Span} {e : Located ParseFault}

theorem through_eq_error_iff : through wanted stop c = .error e ↔
    passOver stop [] c.here c.rest = .error e ∨
      (∃ rest, passOver stop [] c.here c.rest = .ok ([], rest)) ∧
        e = ⟨.expected wanted (.ofNext c.rest), c.here⟩ := by
  have hrun : through wanted stop c = (pass stop c.here none >>= fun passed =>
      if passed.isEmpty then expected wanted else spanFrom c.here) c :=
    rfl
  rcases hover : passOver stop [] c.here c.rest with e' | ⟨passed, rest⟩
  · have hpass : pass stop c.here none c = .error e' := by
      simp [pass, hover]
    simp [hrun, bind_of_error hpass]
  · rcases passed with _ | ⟨l, passed⟩
    · obtain rfl : c.rest = rest := (passOver_append hover).symm
      have hpass : pass stop c.here none c = .ok ([], c) := by
        simp [pass, hover]
      rw [hrun, bind_of_ok hpass]
      simp [expected, eq_comm]
    · have hhere : c.here = l.span := by
        simp [Cursor.here, ← passOver_append hover]
      rw [hhere] at hover
      simp [through_eq_ok_iff.2 ⟨l, passed, rest, hover, rfl, rfl⟩]

/-- What is read through is an unbroken run of at least one token, up to the end or a token to stop
at. -/
theorem through_ok_iff : through wanted stop c = .ok (s, c') ↔ ∃ run k rest,
    c.rest = run ++ rest ∧ Unbroken stop (run.map Lexeme.token) ∧ run.getLast? = some k ∧
      (∀ l ∈ rest.head?, stop l.token = true) ∧ s = c.here.hull k.span ∧
        c' = { c with rest, last := k.span } := by
  rw [through_eq_ok_iff]
  constructor
  · rintro ⟨l, passed, rest, hover, rfl, rfl⟩
    have hhere : c.here = l.span := by
      simp [Cursor.here, ← passOver_append hover]
    obtain ⟨run, rest', hrest, hrun, hhalts⟩ := unbroken_halts stop c.rest
    rw [hrest, passOver_unbroken hrun rfl] at hover
    cases hhalts with
    | stop h =>
      rw [passOver_stopped _ h, passedAfter, Except.map, Prod.map, List.append_nil] at hover
      cases hover
      exact ⟨_, _, _, hrest, hrun, List.getLast?_cons, h, by rw [hhere], rfl⟩
    | closer hstop hk =>
      rw [passOver_stray _ _ hstop hk] at hover
      cases hover
    | bracket hstop hk hall =>
      rw [passOver_bracket _ _ hstop hk, hall] at hover
      cases hover
  · rintro ⟨run, k, rest, hrest, hrun, hk, h, rfl, rfl⟩
    obtain ⟨l, passed, rfl⟩ : ∃ l passed, run = l :: passed := by
      cases run with
      | nil => simp at hk
      | cons l passed => exact ⟨l, passed, rfl⟩
    have hhere : c.here = l.span := by
      simp [Cursor.here, hrest]
    obtain rfl : passed.getLast?.getD l = k := by
      simpa [List.getLast?_cons] using hk
    refine ⟨l, passed, rest, ?_, rfl, by rw [hhere]⟩
    rw [hrest, passOver_unbroken hrun rfl, passOver_stopped _ h, passedAfter, Except.map, Prod.map,
      List.append_nil]
    rfl

/-- It fails if it would be empty, at a token that closes what was not opened in it, and where a
bracket fails. -/
theorem through_error_iff : through wanted stop c = .error e ↔
    (∀ l ∈ c.rest.head?, stop l.token = true) ∧
        e = ⟨.expected wanted (.ofNext c.rest), c.here⟩ ∨
      ∃ run k after, c.rest = run ++ k :: after ∧ Unbroken stop (run.map Lexeme.token) ∧
        stop k.token = false ∧
          (k.token.closes?.isSome = true ∧ e = ⟨.unexpected k.token, k.span⟩ ∨
            k.token.opens?.isSome = true ∧
              bracketed { c with rest := k :: after } = .error e) := by
  rw [through_eq_error_iff]
  have hpass {run rest : List Lexeme} (hrest : c.rest = run ++ rest)
      (hrun : Unbroken stop (run.map Lexeme.token)) :
      passOver stop [] c.here c.rest = passedAfter run (passOver stop [] c.here rest) := by
    rw [hrest]
    exact passOver_unbroken hrun rfl c.here rest
  constructor
  · intro h
    obtain ⟨run, rest, hrest, hrun, hhalts⟩ := unbroken_halts stop c.rest
    rw [hpass hrest hrun] at h
    cases hhalts with
    | stop hstops =>
      rw [passOver_stopped _ hstops] at h
      rcases h with h | ⟨⟨rest', h⟩, rfl⟩
      · cases h
      · obtain rfl : run = [] := by
          simp only [passedAfter, Except.map, Prod.map, List.append_nil] at h
          cases h
          rfl
        exact .inl ⟨hrest ▸ hstops, rfl⟩
    | @closer k after hstop hk =>
      rw [passOver_stray _ _ hstop hk] at h
      rcases h with h | ⟨⟨rest', h⟩, -⟩
      · cases h
        exact .inr ⟨run, k, after, hrest, hrun, hstop, .inl ⟨hk, rfl⟩⟩
      · cases h
    | @bracket k after b e' hstop hk hall =>
      rw [passOver_bracket _ _ hstop hk, hall] at h
      rcases h with h | ⟨⟨rest', h⟩, -⟩
      · cases h
        exact .inr ⟨run, k, after, hrest, hrun, hstop, .inr ⟨by simp [hk],
          (bracketed_eq_error_iff rfl hk).2 (hall _)⟩⟩
      · cases h
  · rintro (⟨hstops, rfl⟩ | ⟨run, k, after, hrest, hrun, hstop, ⟨hk, rfl⟩ | ⟨hk, hfails⟩⟩)
    · exact .inr ⟨⟨_, passOver_stopped _ hstops⟩, rfl⟩
    · refine .inl ?_
      rw [hpass hrest hrun, passOver_stray _ _ hstop hk]
      rfl
    · obtain ⟨b, hb⟩ := Option.isSome_iff_exists.1 hk
      refine .inl ?_
      rw [hpass hrest hrun, passOver_bracket _ _ hstop hb,
        passOver_error_congr ((bracketed_eq_error_iff rfl hb).1 hfails)]
      rfl

/-! ## What is passed over -/

/-- Some first tokens of the lexemes, at least one, are balanced. -/
def StartsBalanced (ls : List Lexeme) : Prop :=
  ∃ run, run <+: ls ∧ run ≠ [] ∧ Balanced (run.map Lexeme.token)

/-- A balanced run that starts with a bracket starts with a run in it. -/
theorem exists_closed_of_balanced {l : Lexeme} {ls run : List Lexeme} {b : Bracket}
    (hl : l.token.opens? = some b) (hinit : run <+: l :: ls) (hne : run ≠ [])
    (hrun : Balanced (run.map Lexeme.token)) : ∃ inner k rest, ls = inner ++ k :: rest ∧
      Balanced (inner.map Lexeme.token) ∧ k.token.closes? = some b ∧
        (l :: (inner ++ [k])).length ≤ run.length := by
  obtain ⟨l', ms, rfl⟩ := List.exists_cons_of_ne_nil hne
  obtain ⟨rfl, after, hls⟩ := List.cons_prefix_cons.1 hinit
  generalize hts : (l' :: ms).map Lexeme.token = ts at hrun
  cases hrun with
  | nil => cases hts
  | plain hopen =>
    obtain ⟨rfl, -⟩ := List.cons.inj hts
    rw [hl] at hopen
    cases hopen
  | nested hopen hclose hinner _ =>
    obtain ⟨rfl, hms⟩ := List.cons.inj hts
    obtain ⟨inner, _, rfl, rfl, h⟩ := List.map_eq_append_iff.1 hms
    obtain ⟨k, rest, rfl, rfl, rfl⟩ := List.map_eq_cons_iff.1 h
    obtain rfl := Option.some.inj (hl.symm.trans hopen)
    exact ⟨inner, k, rest ++ after, by simp [← hls], hinner, hclose, by simp⟩

theorem bracketed_isOk_iff {c : Cursor} {l : Lexeme} {ls : List Lexeme} {b : Bracket}
    (hrest : c.rest = l :: ls) (hl : l.token.opens? = some b) :
    (∃ s c', bracketed c = .ok (s, c')) ↔ StartsBalanced c.rest := by
  constructor
  · rintro ⟨s, c', hok⟩
    obtain ⟨inner, k, rest, rfl, hinner, hk, -⟩ := (bracketed_ok_iff hrest hl).1 hok
    refine ⟨l :: (inner ++ [k]), ⟨rest, by simp [hrest]⟩, by simp, ?_⟩
    rw [List.map_cons, List.map_append]
    exact .enclosed hl hk hinner
  · rintro ⟨run, hinit, hne, hrun⟩
    obtain ⟨inner, k, rest, hls, hinner, hk, -⟩ :=
      exists_closed_of_balanced hl (hrest ▸ hinit) hne hrun
    exact ⟨_, _, (bracketed_ok_iff hrest hl).2 ⟨inner, k, rest, hls, hinner, hk, rfl, rfl⟩⟩

/-- Of the first tokens that are balanced, these are the fewest. -/
def ShortestBalanced (run ls : List Lexeme) : Prop :=
  Balanced (run.map Lexeme.token) ∧ ∀ run', run' <+: ls → run' ≠ [] →
    Balanced (run'.map Lexeme.token) → run.length ≤ run'.length

theorem shortestBalanced_of_closed {l k : Lexeme} {inner rest : List Lexeme} {b : Bracket}
    (hl : l.token.opens? = some b) (hinner : Balanced (inner.map Lexeme.token))
    (hk : k.token.closes? = some b) :
    ShortestBalanced (l :: (inner ++ [k])) (l :: (inner ++ k :: rest)) := by
  refine ⟨?_, fun run' hinit hne hrun => ?_⟩
  · rw [List.map_cons, List.map_append]
    exact .enclosed hl hk hinner
  · obtain ⟨inner', k', rest', hls, hinner', hk', hle⟩ :=
      exists_closed_of_balanced hl hinit hne hrun
    -- both are what the reader passes over, and it passes over one run
    let c : Cursor := ⟨l :: (inner ++ k :: rest), l.span, 0, ⟨0, 0, 0, 0, 0⟩⟩
    have h := (bracketed_ok_iff (c := c) rfl hl).2 ⟨inner, k, rest, rfl, hinner, hk, rfl, rfl⟩
    have h' := (bracketed_ok_iff (c := c) rfl hl).2
      ⟨inner', k', rest', hls, hinner', hk', rfl, rfl⟩
    have hrest : rest = rest' := by
      rw [h] at h'
      exact congrArg (fun p => p.2.rest) (Except.ok.inj h')
    have hlen := congrArg List.length hls
    subst hrest
    simp only [List.length_append, List.length_cons, List.length_nil] at hlen hle ⊢
    omega

/-- A bracket is passed over just if some first tokens from it on are balanced, and then the fewest
of them are. It fails else at the first token that closes another bracket than was opened last, or
for want of one. Passing over up to some token passes over the unbroken run before it, and fails if
that is empty, a bracket in it fails or it ends at a token that closes what was not opened. -/
theorem passing_over_is_exact (c : Cursor) :
    (∀ l ls b, c.rest = l :: ls → l.token.opens? = some b →
      ((∃ s c', bracketed c = .ok (s, c')) ↔ StartsBalanced c.rest) ∧
      (∀ s c', bracketed c = .ok (s, c') ↔ ∃ inner k rest, c.rest = l :: (inner ++ k :: rest) ∧
        Balanced (inner.map Lexeme.token) ∧ k.token.closes? = some b ∧
          ShortestBalanced (l :: (inner ++ [k])) c.rest ∧ s = l.span.hull k.span ∧
            c' = { c with rest, last := k.span }) ∧
      ∀ e, bracketed c = .error e ↔
        (∃ before k after bs b₁ b₂, c.rest = l :: (before ++ k :: after) ∧
          LeavesOpen bs (before.map Lexeme.token) ∧ (bs ++ [b]).head? = some b₁ ∧
            k.token.closes? = some b₂ ∧ b₁ ≠ b₂ ∧ e = ⟨.unexpected k.token, k.span⟩) ∨
        (∃ bs, LeavesOpen bs (ls.map Lexeme.token)) ∧ e = ⟨.missingCloser, l.span⟩) ∧
    ∀ wanted stop,
      (∀ s c', through wanted stop c = .ok (s, c') ↔ ∃ run k rest, c.rest = run ++ rest ∧
        Unbroken stop (run.map Lexeme.token) ∧ run.getLast? = some k ∧
          (∀ l ∈ rest.head?, stop l.token = true) ∧ s = c.here.hull k.span ∧
            c' = { c with rest, last := k.span }) ∧
      ∀ e, through wanted stop c = .error e ↔
        (∀ l ∈ c.rest.head?, stop l.token = true) ∧
            e = ⟨.expected wanted (.ofNext c.rest), c.here⟩ ∨
          ∃ run k after, c.rest = run ++ k :: after ∧ Unbroken stop (run.map Lexeme.token) ∧
            stop k.token = false ∧
              (k.token.closes?.isSome = true ∧ e = ⟨.unexpected k.token, k.span⟩ ∨
                k.token.opens?.isSome = true ∧
                  bracketed { c with rest := k :: after } = .error e) := by
  refine ⟨fun l ls b hrest hl => ⟨bracketed_isOk_iff hrest hl, fun s c' => ?_, fun e => ?_⟩,
    fun wanted stop => ⟨fun s c' => through_ok_iff, fun e => through_error_iff⟩⟩
  · rw [bracketed_ok_iff hrest hl, hrest]
    constructor
    · rintro ⟨inner, k, rest, rfl, hinner, hk, hs, hc'⟩
      exact ⟨inner, k, rest, rfl, hinner, hk, shortestBalanced_of_closed hl hinner hk, hs, hc'⟩
    · rintro ⟨inner, k, rest, hls, hinner, hk, -, hs, hc'⟩
      exact ⟨inner, k, rest, (List.cons.inj hls).2, hinner, hk, hs, hc'⟩
  · rw [bracketed_error_iff hrest hl, hrest]
    refine or_congr_left ?_
    constructor
    · rintro ⟨before, k, after, bs, b₁, b₂, rfl, hbs, hk, hne, hb, he⟩
      exact ⟨before, k, after, bs, b₁, b₂, rfl, hbs, hb, hk, hne, he⟩
    · rintro ⟨before, k, after, bs, b₁, b₂, hls, hbs, hb, hk, hne, he⟩
      exact ⟨before, k, after, bs, b₁, b₂, (List.cons.inj hls).2, hbs, hk, hne, hb, he⟩

/-- The bracket of `( [ ) ]` fails at the third token. -/
theorem crossed_brackets_fail :
    bracketed (⟨[⟨.mark .lparen, ⟨0, 1⟩⟩, ⟨.mark .lbrack, ⟨1, 2⟩⟩, ⟨.mark .rparen, ⟨2, 3⟩⟩,
        ⟨.mark .rbrack, ⟨3, 4⟩⟩], .point 0, 4, ⟨0, 0, 0, 0, 0⟩⟩ : Cursor)
      = .error ⟨.unexpected (.mark .rparen), ⟨2, 3⟩⟩ :=
  (((passing_over_is_exact _).1 _ _ .round rfl rfl).2.2 _).2 (.inl ⟨[⟨.mark .lbrack, ⟨1, 2⟩⟩],
    ⟨.mark .rparen, ⟨2, 3⟩⟩, [⟨.mark .rbrack, ⟨3, 4⟩⟩], [.square], .square, .round, rfl,
    ⟨[], _, [], rfl, .nil, rfl, .nil⟩, rfl, rfl, by decide, rfl⟩)

end Parse

end GoIface
