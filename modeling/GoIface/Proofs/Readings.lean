import GoIface.Proofs.Holding

/-!
# Readers and what they make

What a reader makes of the run it moves over is stated for one reader at a time
(`LexedText.Spec`), and a reader that fails blames the text. Where only the content matters
(`LexedText.Yields`), a reader put together of others has the contents of these one after the
other: going on after a run with some content (`LexedText.GoesOn`) adds to it step by step.

The items of a sequence follow one another in its run, and the counts go on from each to the next
(`LexedText.Series`).
-/

namespace GoIface

variable {α β : Type}

namespace LexedText

variable {T : LexedText}

/-- What is passed over without success fails where it starts or at one of the lexemes. -/
theorem span_of_passOver_error {stop : Token → Bool} {bs : List Bracket} {opener : Span}
    {ls : List Lexeme} {e : Located ParseFault} (h : passOver stop bs opener ls = .error e) :
    e.span = opener ∨ ∃ l ∈ ls, e.span = l.span := by
  have hmap {l : Lexeme} {r : Except (Located ParseFault) (List Lexeme × List Lexeme)}
      (h : r.map (fun p : List Lexeme × List Lexeme => p.map (l :: ·) id) = .error e) :
      r = .error e := by
    rcases r with e' | p
    · simpa [Except.map] using h
    · simp [Except.map] at h
  have htail {s o : Span} {l : Lexeme} {ls : List Lexeme}
      (h : s = o ∨ ∃ m ∈ ls, s = m.span) : s = o ∨ ∃ m ∈ l :: ls, s = m.span :=
    h.imp_right fun ⟨m, hm, hs⟩ => ⟨m, .tail _ hm, hs⟩
  fun_induction passOver stop bs opener ls with
  | case1 => simp at h
  | case2 =>
    cases h
    exact .inl rfl
  | case3 => simp at h
  | case4 _ l ls =>
    cases h
    exact .inr ⟨l, .head _, rfl⟩
  | case5 opener l ls _ _ ih =>
    -- the bracket opened here is the outermost from now on
    rcases ih (hmap h) with hspan | ⟨m, hm, hspan⟩
    · exact .inr ⟨l, .head _, hspan⟩
    · exact .inr ⟨m, .tail _ hm, hspan⟩
  | case6 _ _ _ _ _ _ _ ih => exact htail (ih (hmap h))
  | case7 _ _ _ _ _ _ _ ih => exact htail (ih (hmap h))
  | case8 _ _ _ l =>
    cases h
    exact .inr ⟨l, .head _, rfl⟩
  | case9 _ _ _ _ _ _ _ ih => exact htail (ih (hmap h))

/-- From the cursor, a reader that succeeds moves over a run, and `R` holds of the run, of the
counts after it and of what is made of it. One that fails blames the text. -/
def Spec (T : LexedText) (p : Parse α) (c : Cursor) (R : List Lexeme → Counts → α → Prop) : Prop :=
  T.At c → match p c with
    | .ok (x, c') => ∃ run, T.Moves c run c' ∧ R run c'.made x
    | .error e => T.Blames e.span

namespace Spec

variable {c : Cursor} {p : Parse α} {f : α → Parse β} {Q Q' : List Lexeme → Counts → α → Prop}
  {R : List Lexeme → Counts → β → Prop}

theorem of_ok {x : α} {c' : Cursor} (h : T.Spec p c Q) (hc : T.At c) (hok : p c = .ok (x, c')) :
    ∃ run, T.Moves c run c' ∧ Q run c'.made x := by
  have h := h hc
  rwa [hok] at h

theorem of_error {e : Located ParseFault} (h : T.Spec p c Q) (hc : T.At c)
    (herror : p c = .error e) : T.Blames e.span := by
  have h := h hc
  rwa [herror] at h

theorem of_at (h : T.At c → T.Spec p c Q) : T.Spec p c Q := fun hc => h hc hc

theorem pure {x : α} (h : Q [] c.made x) : T.Spec (pure x) c Q :=
  fun hc => ⟨[], .stay hc, h⟩

theorem mono (h : T.Spec p c Q) (hQ : ∀ run b x, T.At c → Q run b x → Q' run b x) :
    T.Spec p c Q' := by
  intro hc
  have h := h hc
  split
  · next hok =>
    rw [hok] at h
    obtain ⟨run, hmoves, hx⟩ := h
    exact ⟨run, hmoves, hQ _ _ _ hc hx⟩
  · next herror => rwa [herror] at h

theorem bind_ok (hp : T.Spec p c Q) (hf : ∀ x c' run, p c = .ok (x, c') → T.Moves c run c' →
    Q run c'.made x → T.Spec (f x) c' fun run' b y => R (run ++ run') b y) :
    T.Spec (p >>= f) c R := by
  intro hc
  rcases hok : p c with e | ⟨x, c'⟩
  · have herror : (p >>= f) c = .error e := by
      show Except.bind (p c) _ = _
      rw [hok]
      rfl
    rw [herror]
    exact hp.of_error hc hok
  · obtain ⟨run, hmoves, hx⟩ := hp.of_ok hc hok
    have hnext := hf x c' run hok hmoves hx hmoves.finish
    rw [Parse.bind_of_ok hok]
    split
    · next hok' =>
      rw [hok'] at hnext
      obtain ⟨run', hmoves', hy⟩ := hnext
      exact ⟨run ++ run', hmoves.trans hmoves', hy⟩
    · next herror => rwa [herror] at hnext

theorem bind (hp : T.Spec p c Q) (hf : ∀ x c' run, T.Moves c run c' → Q run c'.made x →
    T.Spec (f x) c' fun run' b y => R (run ++ run') b y) : T.Spec (p >>= f) c R :=
  hp.bind_ok fun x c' run _ => hf x c' run

/-- The last step makes something of what was read. -/
theorem finish {g : α → β} (hp : T.Spec p c fun run b x => R run b (g x)) :
    T.Spec (p >>= fun x => Pure.pure (g x)) c R :=
  hp.bind fun _ _ _ _ hx => .pure (by simpa using hx)

theorem map {g : α → β} (hp : T.Spec p c fun run b x => R run b (g x)) : T.Spec (g <$> p) c R :=
  hp.finish

theorem look {g : Cursor → Parse α} (h : T.Spec (g c) c Q) : T.Spec (get >>= g) c Q := h

theorem expected {wanted : Wanted} : T.Spec (Parse.expected wanted) c Q := fun hc => hc.blames

theorem failHere {fault : ParseFault} : T.Spec (Parse.failHere fault) c Q := fun hc => hc.blames

theorem fail {fault : ParseFault} {s : Span} (h : T.Blames s) : T.Spec (Parse.fail fault s) c Q :=
  fun _ => h

theorem bump {t : Token} (hc : c.next? = some t) : T.Spec Parse.bump c fun run b s =>
    b = c.made ∧ s = c.here ∧ ∃ l, run = [l] ∧ l.token = t ∧ s = l.span := by
  intro hat
  rcases hrest : c.rest with _ | ⟨l, ls⟩
  · simp [Cursor.next?, hrest] at hc
  · obtain rfl : l.token = t := by simpa [Cursor.next?, hrest] using hc
    have hok : Parse.bump c = .ok (l.span, { c with rest := ls, last := l.span }) := by
      rw [Parse.bump, hrest]
    have hhere : l.span = c.here := by simp [Cursor.here, hrest]
    rw [hok]
    exact ⟨[l], ⟨hat, hrest, rfl, rfl⟩, rfl, hhere, l, rfl, rfl, rfl⟩

theorem expect (t : Token) : T.Spec (Parse.expect t) c fun run b s =>
    b = c.made ∧ s = c.here ∧ ∃ l, run = [l] ∧ l.token = t ∧ s = l.span := by
  refine look ?_
  split
  · next h => exact bump (eq_of_beq h)
  · exact expected

theorem eat (m : Mark) : T.Spec (Parse.eat m) c fun run b s => b = c.made ∧
    ((run = [] ∧ s = none) ∨ ∃ l, run = [l] ∧ s = some l.span) := by
  refine look ?_
  split
  · next h =>
    refine map ((bump (Cursor.isAt_iff.1 h)).mono ?_)
    rintro run b s - ⟨hb, -, l, hrun, -, rfl⟩
    exact ⟨hb, .inr ⟨l, hrun, rfl⟩⟩
  · exact .pure ⟨rfl, .inl ⟨rfl, rfl⟩⟩

theorem ident : T.Spec Parse.ident c fun run b x =>
    b = c.made ∧ ∃ l, run = [l] ∧ l.token = .ident x.name ∧ x.span = l.span := by
  refine look ?_
  split
  · next name h =>
    refine finish ((bump h).mono ?_)
    rintro run b s - ⟨hb, -, l, hrun, hl, hs⟩
    exact ⟨hb, l, hrun, hl, hs⟩
  · exact expected

/-- A reader that reads no lexeme. -/
theorem make {b : Counts} {x : α} (hok : p c = .ok (x, { c with made := b })) (h : Q [] b x) :
    T.Spec p c Q := by
  intro hc
  rw [hok]
  exact ⟨[], ⟨hc, rfl, rfl, rfl⟩, h⟩

theorem pass {stop : Token → Bool} {start : Span} {open? : Option Bracket}
    (hstart : T.Blames start) : T.Spec (Parse.pass stop start open?) c fun run b passed =>
      b = c.made ∧ passed = run := by
  intro hc
  rcases hpass : passOver stop open?.toList start c.rest with e | ⟨passed, rest⟩
  · have herror : Parse.pass stop start open? c = .error e := by rw [Parse.pass, hpass]
    rw [herror]
    show T.Blames e.span
    rcases span_of_passOver_error hpass with h | ⟨l, hl, h⟩ <;> rw [h]
    · exact hstart
    · exact hc.blames_of_mem hl
  · have hok : Parse.pass stop start open? c = .ok (passed,
        { c with rest, last := (passed.getLast?.map Lexeme.span).getD c.last }) := by
      rw [Parse.pass, hpass]
    rw [hok]
    exact ⟨passed, ⟨hc, (passOver_append hpass).symm, rfl, rfl⟩, rfl, rfl⟩

end Spec

/-! ## Sequences -/

/-- Each item has a stretch of the run to itself, and the counts go on from one to the next. -/
inductive Series (Q : Counts → List Lexeme → Counts → α → Prop) :
    Counts → List Lexeme → Counts → List α → Prop
  | nil {a : Counts} {run : List Lexeme} : Series Q a run a []
  | cons {a b c : Counts} {before run after : List Lexeme} {x : α} {xs : List α}
      (hx : Q a run b x) (hxs : Series Q b after c xs) :
      Series Q a (before ++ (run ++ after)) c (x :: xs)

namespace Series

variable {Q : Counts → List Lexeme → Counts → α → Prop} {a b : Counts} {run : List Lexeme}
  {xs : List α}

theorem next {c : Counts} {after : List Lexeme} {x : α} (hx : Q a run b x)
    (hxs : Series Q b after c xs) : Series Q a (run ++ after) c (x :: xs) := by
  rw [← List.nil_append (run ++ after)]
  exact .cons hx hxs

theorem drop (h : Series Q a run b xs) (before : List Lexeme) :
    Series Q a (before ++ run) b xs := by
  cases h with
  | nil => exact .nil
  | cons hx hxs =>
    rw [← List.append_assoc]
    exact .cons hx hxs

theorem mono {R : Counts → List Lexeme → Counts → α → Prop} (h : Series Q a run b xs)
    (hQ : ∀ a run b x, Q a run b x → R a run b x) : Series R a run b xs := by
  induction h with
  | nil => exact .nil
  | cons hx _ ih => exact .cons (hQ _ _ _ _ hx) ih

theorem inRow {P : List Lexeme → α → Prop} (h : Series Q a run b xs)
    (hQ : ∀ a run b x, Q a run b x → P run x) : InRow P run xs := by
  induction h with
  | nil => exact .nil
  | cons hx _ ih => exact .cons (hQ _ _ _ _ hx) ih

theorem holds {f : α → Content} (h : Series (fun a run b x => T.Holds run a b (f x)) a run b xs) :
    T.Holds run a b (.concat (xs.map f)) := by
  induction h with
  | nil => exact .none rfl
  | @cons a b c before run after x xs hx _ ih => exact (Holds.none rfl).append (hx.append ih)

end Series

namespace Spec

variable {c : Cursor} {item : Parse α} {Q : Counts → List Lexeme → Counts → α → Prop}

theorem semiBefore (close : Mark) : T.Spec (Parse.semiBefore close) c fun _ b _ => b = c.made := by
  refine look ((eat .semi).bind fun s c' run _ hs => ?_)
  split
  · exact .pure hs.1
  · exact expected

section

variable (hitem : ∀ c, T.Spec item c (Q c.made))

include hitem

theorem moreItems (separator : Mark) :
    ∀ (n : Nat) (c : Cursor), T.Spec (Parse.moreItems separator item n) c (Series Q c.made)
  | 0, _ => .pure .nil
  | n + 1, c => by
    refine (eat separator).bind fun s c₁ run _ ⟨hb, _⟩ => ?_
    rw [← hb]
    cases s with
    | none => exact .pure .nil
    | some s =>
      refine (hitem c₁).bind fun x c₂ run' _ hx => finish ?_
      exact (moreItems separator n c₂).mono fun _ _ _ _ hxs => .cons hx hxs

theorem separated (separator : Mark) (c : Cursor) :
    T.Spec (Parse.separated separator item) c (Series Q c.made) := by
  refine (hitem c).bind fun x c₁ run _ hx => look (finish ?_)
  exact (moreItems hitem separator _ c₁).mono fun _ _ _ _ hxs => .next hx hxs

theorem listedItems (stop : Cursor → Bool) :
    ∀ (n : Nat) (c : Cursor), T.Spec (Parse.listedItems stop item n) c (Series Q c.made)
  | 0, c => by
    refine look ?_
    split
    · exact .pure .nil
    · refine finish ((hitem c).mono fun run b x _ hx => ?_)
      rw [← List.append_nil run]
      exact .next hx .nil
  | n + 1, c => by
    refine look ?_
    split
    · exact .pure .nil
    · refine (hitem c).bind fun x c₁ run _ hx => (eat .comma).bind fun s c₂ run' _ ⟨hb, _⟩ => ?_
      cases s with
      | none => exact .pure (.next hx (hb ▸ .nil))
      | some s =>
        refine finish ((listedItems stop n c₂).mono fun rest b xs _ hxs => ?_)
        exact .next hx ((hb ▸ hxs).drop run')

theorem listed (stop : Cursor → Bool) (c : Cursor) :
    T.Spec (Parse.listed stop item) c (Series Q c.made) :=
  look (listedItems hitem stop _ c)

theorem blockItems (close : Mark) :
    ∀ (n : Nat) (c : Cursor), T.Spec (Parse.blockItems close item n) c (Series Q c.made)
  | 0, _ => .pure .nil
  | n + 1, c => by
    refine look ?_
    split
    · exact .pure .nil
    · refine (hitem c).bind fun x c₁ run _ hx => (semiBefore close).bind fun _ c₂ run' _ hb => ?_
      refine finish ((blockItems close n c₂).mono fun rest b xs _ hxs => ?_)
      exact .next hx ((hb ▸ hxs).drop run')

end

theorem declsWhile {more : Cursor → Bool}
    (hitem : ∀ c, more c = true → T.Spec item c (Q c.made)) :
    ∀ (n : Nat) (c : Cursor), T.Spec (Parse.declsWhile more item n) c (Series Q c.made)
  | 0, _ => .pure .nil
  | n + 1, c => by
    have hend (c : Cursor) : T.Spec Parse.declEnd c fun _ b _ => b = c.made := by
      refine look ((eat .semi).bind fun s c' run _ hs => ?_)
      split
      · exact .pure hs.1
      · exact expected
    refine look ?_
    split
    · next hmore =>
      refine (hitem c hmore).bind fun x c₁ run _ hx => (hend c₁).bind fun _ c₂ run' _ hb => ?_
      refine finish ((declsWhile hitem n c₂).mono fun rest b xs _ hxs => ?_)
      exact .next hx ((hb ▸ hxs).drop run')
    · exact .pure .nil

end Spec

/-! ## Contents -/

/-- What a reader makes has the content `f` gives of it. -/
def Yields (T : LexedText) (p : Parse α) (c : Cursor) (f : α → Content) : Prop :=
  T.Spec p c fun run b x => T.Holds run c.made b (f x)

/-- Where the run from `c₀` on has the content `y`, what a reader makes next has, with this, the
content `f`. -/
def GoesOn (T : LexedText) (c₀ : Cursor) (p : Parse α) (c : Cursor) (y : Content)
    (f : α → Content) : Prop :=
  ∀ run₀, T.Moves c₀ run₀ c → T.Holds run₀ c₀.made c.made y →
    T.Spec p c fun run b x => T.Holds (run₀ ++ run) c₀.made b (f x)

namespace GoesOn

variable {c₀ c : Cursor} {p : Parse α} {k : α → Parse β} {y : Content} {f : α → Content}
  {g : β → Content}

theorem bind (hp : T.Yields p c f)
    (hk : ∀ x c', p c = .ok (x, c') → T.GoesOn c₀ (k x) c' (y ++ f x) g) :
    T.GoesOn c₀ (p >>= k) c y g := by
  intro run₀ hmoves hy
  refine Spec.bind_ok hp fun x c' run hok hmoves' hx => ?_
  refine (hk x c' hok _ (hmoves.trans hmoves') (hy.append hx)).mono fun run' b z _ hz => ?_
  rwa [← List.append_assoc]

/-- The last step reads no lexeme. -/
theorem make {b : Counts} {x : α} (hok : p c = .ok (x, { c with made := b }))
    (h : ∀ run₀, T.Moves c₀ run₀ c → T.Holds run₀ c₀.made c.made y →
      T.Holds run₀ c₀.made b (f x)) : T.GoesOn c₀ p c y f := by
  intro run₀ hmoves hy
  refine .make hok ?_
  rw [List.append_nil]
  exact h run₀ hmoves hy

theorem pure {x : α} (h : (f x).Sub y) : T.GoesOn c₀ (pure x) c y f :=
  make rfl fun _ _ hy => hy.sub h

theorem look {k : Cursor → Parse α} (h : T.GoesOn c₀ (k c) c y f) :
    T.GoesOn c₀ (get >>= k) c y f :=
  h

theorem expected {wanted : Wanted} : T.GoesOn c₀ (Parse.expected wanted) c y f :=
  fun _ _ _ => .expected

theorem failHere {fault : ParseFault} : T.GoesOn c₀ (Parse.failHere fault) c y f :=
  fun _ _ _ => .failHere

/-- A fault may be reported at what was read. -/
theorem fail {fault : ParseFault} {s : Span} (hs : s ∈ y.places) :
    T.GoesOn c₀ (Parse.fail fault s) c y f :=
  fun _ hmoves hy => .fail (.inr ((hy.placed s hs).mono hmoves.isInfix))

end GoesOn

namespace Yields

variable {c : Cursor} {p : Parse α} {k : α → Parse β} {f : α → Content} {g : β → Content}

theorem bind (hp : T.Yields p c f)
    (hk : ∀ x c', p c = .ok (x, c') → T.GoesOn c (k x) c' (f x) g) : T.Yields (p >>= k) c g :=
  Spec.bind_ok hp fun x c' run hok hmoves hx => hk x c' hok run hmoves hx

/-- The last reader, after what was read before. -/
theorem goesOn {c₀ : Cursor} {y : Content} {h : α → β} (hp : T.Yields p c f)
    (hsub : ∀ x, (g (h x)).Sub (y ++ f x)) :
    T.GoesOn c₀ (p >>= fun x => Pure.pure (h x)) c y g :=
  GoesOn.bind hp fun x _ _ => .pure (hsub x)

theorem mono {g : α → Content} (hp : T.Yields p c f) (hsub : ∀ x, (g x).Sub (f x)) :
    T.Yields p c g :=
  Spec.mono hp fun _ _ x _ hx => hx.sub (hsub x)

theorem map {h : α → β} (hp : T.Yields p c fun x => g (h x)) : T.Yields (h <$> p) c g :=
  Spec.map hp

theorem pure {x : α} (h : f x = .none) : T.Yields (pure x) c f :=
  Spec.pure (h ▸ .none rfl)

theorem look {k : Cursor → Parse α} (h : T.Yields (k c) c f) : T.Yields (get >>= k) c f := h

theorem bump {t : Token} (hc : c.next? = some t) :
    T.Yields Parse.bump c fun s => .ofPlaces [s] := by
  refine (Spec.bump hc).mono ?_
  rintro run b s - ⟨hb, -, l, rfl, -, rfl⟩
  exact .places hb (by simpa using Span.Covers.singleton l |>.inside)

theorem expect (t : Token) : T.Yields (Parse.expect t) c fun s => .ofPlaces [s] := by
  refine look ?_
  split
  · next h => exact bump (eq_of_beq h)
  · exact Spec.expected

theorem eat (m : Mark) : T.Yields (Parse.eat m) c fun s => .ofPlaces s.toList := by
  refine (Spec.eat m).mono ?_
  rintro run b s - ⟨hb, ⟨rfl, rfl⟩ | ⟨l, rfl, rfl⟩⟩
  · exact .places hb (by simp)
  · exact .places hb (by simpa using Span.Covers.singleton l |>.inside)

theorem ident : T.Yields Parse.ident c fun x => .ofPlaces [x.span] := by
  refine Spec.ident.mono ?_
  rintro run b x - ⟨hb, l, rfl, -, hspan⟩
  exact .places hb (by simpa [hspan] using Span.Covers.singleton l |>.inside)

theorem stringLiteral? : T.Yields Parse.stringLiteral? c
    fun tag => .ofPlaces (tag.map StringLiteral.span).toList := by
  refine look ?_
  split
  · next h => exact (bump h).bind fun s c' _ => .pure ⟨fun _ h => h, rfl, rfl⟩
  · next h => exact (bump h).bind fun s c' _ => .pure ⟨fun _ h => h, rfl, rfl⟩
  · exact pure rfl

theorem through {wanted : Wanted} {stop : Token → Bool} :
    T.Yields (Parse.through wanted stop) c fun s => .ofPlaces [s] := by
  refine look (Spec.of_at fun hc => ?_)
  refine (Spec.pass hc.blames).bind fun passed c' run hmoves h => ?_
  obtain ⟨hb, rfl⟩ := h
  split
  · exact Spec.expected
  · next hne =>
    refine Spec.look (Spec.pure (.places hb ?_))
    have hcovers := hmoves.covers (by simpa using hne)
    simpa using hcovers.inside

theorem bracketed {t : Token} (hnext : c.next? = some t) :
    T.Yields Parse.bracketed c fun s => .ofPlaces [s] := by
  refine look (Spec.of_at fun hc => ?_)
  refine (Spec.bump hnext).bind fun start c₁ run₁ hmoves₁ h => ?_
  obtain ⟨hb₁, rfl, l, rfl, -, -⟩ := h
  refine (Spec.pass hc.blames).bind fun passed c₂ run₂ hmoves₂ h => ?_
  obtain ⟨hb₂, rfl⟩ := h
  refine Spec.look (Spec.pure (.places (hb₂.trans hb₁) ?_))
  have hcovers := (hmoves₁.trans hmoves₂).covers (by simp)
  simpa using hcovers.inside

/-! ## Contents of sequences -/

section

variable {item : Parse α} (hitem : ∀ c, T.Yields item c f)

include hitem

theorem separated (separator : Mark) : T.Yields (Parse.separated separator item) c
    fun xs => .concat (xs.map f) :=
  (Spec.separated (Q := fun a run b x => T.Holds run a b (f x)) hitem separator c).mono
    fun _ _ _ _ h => h.holds

theorem listed (stop : Cursor → Bool) : T.Yields (Parse.listed stop item) c
    fun xs => .concat (xs.map f) :=
  (Spec.listed (Q := fun a run b x => T.Holds run a b (f x)) hitem stop c).mono
    fun _ _ _ _ h => h.holds

theorem block (close : Mark) : T.Yields (Parse.block close item) c
    fun p => .concat (p.1.map f) ++ .ofPlaces [p.2] := by
  have hitems (n : Nat) (c : Cursor) :
      T.Yields (Parse.blockItems close item n) c fun xs => .concat (xs.map f) :=
    (Spec.blockItems (Q := fun a run b x => T.Holds run a b (f x)) hitem close n c).mono
      fun _ _ _ _ h => h.holds
  refine look ((hitems _ c).bind fun xs c' _ => ?_)
  exact (expect _).goesOn fun s => ⟨fun _ h => h, rfl, rfl⟩

end

theorem declsWhile {item : Parse α} {more : Cursor → Bool}
    (hitem : ∀ c, more c = true → T.Yields item c f) (n : Nat) :
    T.Yields (Parse.declsWhile more item n) c fun xs => .concat (xs.map f) :=
  (Spec.declsWhile (Q := fun a run b x => T.Holds run a b (f x)) hitem n c).mono
    fun _ _ _ _ h => h.holds

/-- What is read only on some condition. -/
theorem optional {c₀ : Cursor} {b : Bool} {y : Content} {h : Option α → Content}
    {k : Option α → Parse β} (hp : b = true → T.Yields p c fun x => h (some x))
    (hnone : h none = .none) (hk : ∀ x c', T.GoesOn c₀ (k x) c' (y ++ h x) g) :
    T.GoesOn c₀ (if b = true then some <$> p >>= k else Pure.pure none >>= k) c y g := by
  split
  · next hb => exact .bind (map (hp hb)) fun x c' _ => hk x c'
  · exact .bind (pure hnone) fun x c' _ => hk x c'

end Yields

end LexedText

end GoIface
