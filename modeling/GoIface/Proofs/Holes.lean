import GoIface.Proofs.FileModels
import GoIface.Proofs.Parallel

/-!
# What is read as a span only

Function bodies and initial values are passed over. They leave holes in what is read (`Hole`): any
other run may stand there that is closed where it has to be, and what comes after it is read as
before (`hole_of_body`, `hole_of_value`). What comes after may be at another distance, and there may
be one more semicolon before it where an item may do without its own (`Cursor.Resumes`).
-/

namespace GoIface

variable {α β : Type}

/-! ## Going on alike -/

namespace Cursor

/-- The second cursor goes on as the first does, perhaps after a semicolon that the first one does
without. -/
def Resumes (n m : Nat) (c d : Cursor) : Prop :=
  c.Parallel n m d ∨ c.next? ≠ some (.mark .semi) ∧ ∃ l ls, d.rest = l :: ls ∧
    l.token = .mark .semi ∧ c.Parallel n m { d with rest := ls, last := l.span }

theorem Parallel.tail {n m : Nat} {c d : Cursor} (h : c.Parallel n m d) {l : Lexeme}
    {ls : List Lexeme} (hc : c.rest = l :: ls) : ∃ k ks, d.rest = k :: ks ∧ k.token = l.token ∧
      Parallel n m { c with rest := ls, last := l.span } { d with rest := ks, last := k.span } := by
  obtain ⟨ms, e, hms, hd, hce, hde⟩ := h
  obtain ⟨x, xs, rfl, rfl, rfl⟩ := List.map_eq_cons_iff.1 (hms.symm.trans hc)
  exact ⟨_, _, hd, rfl, xs, e, rfl, rfl, hce, hde⟩

end Cursor

namespace Parse

/-- After what ends an item, the two go on in parallel. -/
theorem Loops.resume {more : Cursor → Bool} {ender : Parse Unit} (hloops : Loops more ender)
    {n m : Nat} {c c' d : Cursor} (hend : ender c = .ok ((), c')) (h : c.Resumes n m d) :
    ∃ d', ender d = .ok ((), d') ∧ c'.Parallel n m d' := by
  rcases hloops.ends hend with ⟨l, ls, hc, hl⟩ | ⟨rfl, -, hstays⟩
  · rcases h with h | ⟨hne, -⟩
    · obtain ⟨k, ks, hd, hk, h⟩ := h.tail hc
      rw [hloops.semi hc hl] at hend
      cases hend
      exact ⟨_, hloops.semi hd (hk.trans hl), h⟩
    · exact absurd (by simp [Cursor.next?, hc, hl]) hne
  · rcases h with h | ⟨-, l, ls, hd, hl, h⟩
    · exact ⟨d, hstays d h.next?, h⟩
    · exact ⟨_, hloops.semi hd hl, h⟩

/-! ## Holes -/

/-- Of what the reader takes, the run may be exchanged for any other one that fits. -/
structure Hole (p : Parse α) (fits : List Token → Prop) (c c' : Cursor)
    (before run after : List Lexeme) : Prop where
  rest : c.rest = before ++ (run ++ after)
  filled {run' r : List Lexeme} {e n m : Nat} (hrun : fits (run'.map Lexeme.token))
    (hr : (c.before after c.textEnd).Resumes n m (c.before r e)) :
    (c.before (before ++ (run' ++ r)) e).next? = c.next? ∧
      ∃ x d, p (c.before (before ++ (run' ++ r)) e) = .ok (x, d) ∧ c'.Resumes n m d

section

variable {p : Parse α} {f : α → Parse β} {fits : List Token → Prop} {c c₁ c' : Cursor} {x : α}
  {before run after : List Lexeme}

/-- What is read before a hole stays. -/
theorem Steady.hole (hp : Steady Same p c) (hx : p c = .ok (x, c₁))
    (h : Hole (f x) fits c₁ c' before run after) :
    ∃ ls, c.rest = ls ++ c₁.rest ∧ Hole (p >>= f) fits c c' (ls ++ before) run after := by
  have htextEnd := hp.textEnd_eq hx
  obtain ⟨ls, hls, hsteady⟩ := hp x c₁ hx
  refine ⟨ls, hls, by rw [hls, h.rest, List.append_assoc], fun {run' r e n m} hrun hr => ?_⟩
  rw [← htextEnd] at hr
  obtain ⟨hnext, y, d, hy, hd⟩ := h.filled hrun hr
  rw [List.append_assoc]
  refine ⟨Cursor.next?_before_of_eq hls hnext, y, d, ?_, hd⟩
  rw [bind_of_ok (hsteady _ e ⟨hnext, trivial⟩)]
  exact hy

/-- Nothing is read after it. -/
theorem Hole.finish (h : Hole p fits c c' before run after)
    (hf : ∀ x d, ∃ y a, f x d = .ok (y, { d with made := a })) (a : Counts) :
    Hole (p >>= f) fits c { c' with made := a } before run after := by
  refine ⟨h.rest, fun hrun hr => ?_⟩
  obtain ⟨hnext, x, d, hx, hd⟩ := h.filled hrun hr
  obtain ⟨y, a', hy⟩ := hf x d
  exact ⟨hnext, y, _, (bind_of_ok hx).trans hy, hd⟩

end

/-- The run is what a span covers, and `was` holds of it. It does not start with a semicolon, and
no slash is before it. -/
structure Spanned (was : List Token → Prop) (s : Span) (before run : List Lexeme) : Prop where
  span : s = runSpan run
  before : ∃ init l, before = init ++ [l] ∧ l.token ≠ .mark .slash
  first : ∀ l ∈ run.head?, l.token ≠ .mark .semi
  tokens : was (run.map Lexeme.token)

theorem Spanned.after {was : List Token → Prop} {s : Span} {before run : List Lexeme}
    (h : Spanned was s before run) (ls : List Lexeme) : Spanned was s (ls ++ before) run := by
  obtain ⟨init, l, rfl, hl⟩ := h.before
  exact { h with before := ⟨ls ++ init, l, (List.append_assoc ..).symm, hl⟩ }

section

variable {p : Parse α} {f : α → Parse β} {was fits : List Token → Prop} {s : Span}
  {c c₁ c' : Cursor}

/-- A hole in what a reader takes from one cursor to another, at the place of a span. -/
def HoleAt (p : Parse α) (was fits : List Token → Prop) (s : Span) (c c' : Cursor) : Prop :=
  ∃ before run after, Hole p fits c c' before run after ∧ Spanned was s before run

theorem Steady.holeAt {x : α} (hp : Steady Same p c) (hx : p c = .ok (x, c₁))
    (h : HoleAt (f x) was fits s c₁ c') : HoleAt (p >>= f) was fits s c c' := by
  obtain ⟨before, run, after, hhole, hspanned⟩ := h
  obtain ⟨ls, -, hhole⟩ := hp.hole hx hhole
  exact ⟨_, _, _, hhole, hspanned.after ls⟩

theorem HoleAt.finish (h : HoleAt p was fits s c c')
    (hf : ∀ x d, ∃ y a, f x d = .ok (y, { d with made := a })) (a : Counts) :
    HoleAt (p >>= f) was fits s c { c' with made := a } := by
  obtain ⟨before, run, after, hhole, hspanned⟩ := h
  exact ⟨_, _, _, hhole.finish hf a, hspanned⟩

end

/-! ## Initial values -/

theorem map_eq_ok_iff {p : Parse α} {g : α → β} {c c' : Cursor} {y : β} :
    (g <$> p) c = .ok (y, c') ↔ ∃ x, p c = .ok (x, c') ∧ y = g x := by
  show Except.map (fun r : α × Cursor => (g r.1, r.2)) (p c) = _ ↔ _
  rcases p c with e | ⟨x, d⟩
  · simp [Except.map]
  · simp [Except.map, eq_comm, and_comm]

/-- What initial values may be: something without a semicolon outside brackets. -/
def Expression (ts : List Token) : Prop := ts ≠ [] ∧ Unbroken (· == .mark .semi) ts

/-- The tokens at which initial values end. -/
def endsValues (t : Token) : Bool := t == .mark .semi || t == .mark .rparen

theorem Expression.unbroken {ts : List Token} (h : Expression ts) : Unbroken endsValues ts := by
  refine h.2.mono fun t hclose hsemi => ?_
  have hparen : t ≠ .mark .rparen := by
    rintro rfl
    simp [Token.closes?] at hclose
  simpa [endsValues, hparen] using hsemi

section

variable {c c' : Cursor} {s : Span}

/-- What is read up to a token may be exchanged for what is not broken by one. -/
theorem through_exchanged {wanted : Wanted} {stop : Token → Bool}
    (hsemi : stop (.mark .semi) = true) (hok : through wanted stop c = .ok (s, c')) :
    ∃ run, c.rest = run ++ c'.rest ∧ s = runSpan run ∧ (∀ l ∈ run.head?, stop l.token = false) ∧
      ∀ {run' r e n m}, run' ≠ [] → Unbroken stop (run'.map Lexeme.token) →
        (c.before c'.rest c.textEnd).Resumes n m (c.before r e) →
          ∃ s' d, through wanted stop (c.before (run' ++ r) e) = .ok (s', d) ∧
            c'.Resumes n m d := by
  obtain ⟨l, passed, after, hover, rfl, rfl⟩ := through_eq_ok_iff.1 hok
  have hrest := passOver_append hover
  refine ⟨l :: passed, hrest.symm, rfl, ?_, fun {run' r e n m} hne hrun hr => ?_⟩
  · rintro _ ⟨⟩
    refine Bool.eq_false_iff.2 fun hstop => ?_
    rw [← hrest, List.cons_append, passOver, if_pos hstop] at hover
    simp at hover
  · have hstop : ∀ t ∈ r.head?, stop t.token = true := by
      rcases hr with hr | ⟨-, t, ts, hr, ht, -⟩
      · intro t ht
        have hnext : r.head?.map Lexeme.token = after.head?.map Lexeme.token := hr.next?
        rw [Option.mem_def.1 ht] at hnext
        obtain ⟨u, hu, htoken⟩ := Option.map_eq_some_iff.1 hnext.symm
        exact htoken ▸ stop_of_passOver hover u hu
      · obtain rfl : r = t :: ts := hr
        rintro _ ⟨⟩
        rw [ht, hsemi]
    have hend (opener : Span) : passOver stop [] opener r = .ok ([], r) := by
      rcases r with _ | ⟨t, ts⟩
      · rfl
      · rw [passOver, if_pos (hstop t rfl)]
    obtain ⟨k, passed', rfl⟩ := List.exists_cons_of_ne_nil hne
    have hover' := passOver_outside hend hrun rfl k.span
    rw [List.append_nil] at hover'
    exact ⟨_, _, through_eq_ok_iff.2 ⟨k, passed', r, hover', rfl, rfl⟩, hr⟩

theorem hole_of_initialValues (hok : initialValues c = .ok (some s, c')) :
    HoleAt initialValues Complete Expression s c c' := by
  obtain ⟨assign, c₁, hassign, hok⟩ := ok_of_bind hok
  rcases eat_cases .assign c with ⟨l, ls, hc, hl⟩ | hne
  · rw [eat_some hc hl] at hassign
    cases hassign
    obtain ⟨s', hthrough, hs⟩ := map_eq_ok_iff.1 hok
    obtain rfl := Option.some.inj hs
    have hsemi : endsValues (.mark .semi) = true := rfl
    obtain ⟨run, hrest, hspan, hfirst, hfilled⟩ :=
      through_exchanged hsemi hthrough
    have hcomplete := (Consumes.through_complete hsemi).of_run hthrough hrest
    obtain rfl : ls = run ++ c'.rest := hrest
    refine ⟨[l], run, c'.rest, ⟨hc, fun {run' r e n m} hfits hr => ?_⟩, hspan,
      ⟨[], l, rfl, by simp [hl]⟩, fun k hk hsemi => ?_, hcomplete⟩
    · refine ⟨by simp [Cursor.next?, hc], ?_⟩
      have hne' : run' ≠ [] := mt (congrArg (List.map Lexeme.token)) hfits.1
      obtain ⟨s'', d, hread, hd⟩ := hfilled hne' hfits.unbroken hr
      refine ⟨some s'', d, ?_, hd⟩
      have hagain : (c.before ([l] ++ (run' ++ r)) e).rest = l :: (run' ++ r) := rfl
      exact (bind_of_ok (eat_some hagain hl)).trans (map_eq_ok_iff.2 ⟨s'', hread, rfl⟩)
    · simpa [hsemi, endsValues] using hfirst k hk
  · rw [eat_none hne] at hassign
    cases hassign
    cases hok

theorem hole_of_valueSpec {spec : ValueSpec} (hok : valueSpec c = .ok (spec, c'))
    (hs : spec.values = some s) : HoleAt valueSpec Complete Expression s c c' := by
  rw [valueSpec_eq] at hok ⊢
  obtain ⟨head, c₁, hhead, hok⟩ := ok_of_bind hok
  obtain ⟨values, c₂, hvalues, hok⟩ := ok_of_bind hok
  cases hok
  obtain rfl : values = some s := hs
  have hvalue := (hole_of_initialValues hvalues).finish
    (f := fun values => pure (⟨head.1, head.2, values⟩ : ValueSpec)) (fun _ d => ⟨_, d.made, rfl⟩)
    c'.made
  exact Steady.valueHead.holeAt hhead hvalue

end

/-! ## Items with a hole -/

section

variable {more : Cursor → Bool} {ender : Parse Unit} {item : Parse α} {f : Placement → α → α}
  (hloops : Loops more ender) (htakes : ∀ c, more c = true → Consumes item (· ≠ []) c)
  (hsteady : ∀ c, more c = true → Steady Same item c) (hitem : ∀ P, Natural P item item (f P))
  (hfresh : ∀ c, Fresh item c) (hender : ∀ P, Natural P ender ender id)

include hloops htakes hsteady hitem hfresh hender

/-- Where one of the items has a hole, those before it stay and those after it go on in parallel. -/
theorem Row.filled {c k₀ k₁ k₂ c' : Cursor} {xs ys : List α} {fits : List Token → Prop}
    {before run after : List Lexeme} (hrow : Row more item c xs k₀) (hmore : more k₀ = true)
    (hhole : Hole item fits k₀ k₁ before run after) (hend : ender k₁ = .ok ((), k₂))
    (hys : Items more ender item k₂ ys c') : ∃ ls, c.rest = ls ++ k₀.rest ∧
      ∀ {run' r e n m}, fits (run'.map Lexeme.token) →
        (c.before after c.textEnd).Resumes n m (c.before r e) →
        (c.before (ls ++ (before ++ (run' ++ r))) e).next? = c.next? ∧
        (k₀.before (before ++ (run' ++ r)) e).next? = k₀.next? ∧
        ∃ (y : α) (d : Cursor) (zs : List α) (a a' : Counts) (d' : Cursor),
          item (k₀.before (before ++ (run' ++ r)) e) = .ok (y, d) ∧ ys = zs.map (f (.shift n a)) ∧
          Items more ender item (c.before (ls ++ (before ++ (run' ++ r))) e)
            (xs ++ y :: zs.map (f (.shift m a'))) d' ∧ c'.Parallel n m d' := by
  have htextEnd := hrow.textEnd_eq hsteady
  obtain ⟨ls, hls, hrow⟩ := hrow.steady hloops htakes hsteady
  refine ⟨ls, hls, fun {run' r e n m} hfits hr => ?_⟩
  rw [← htextEnd] at hr
  obtain ⟨hnext, y, d, hy, hd⟩ := hhole.filled hfits hr
  obtain ⟨d₂, hend', hd₂⟩ := hloops.resume hend hd
  obtain ⟨zs, d', rfl, hzs, hd'⟩ := Items.parallel hitem hfresh hloops hender hd₂ hys
  have hitems := (hrow _ e).append hloops (.item ((hloops.congr hnext).trans hmore) hy hend' hzs)
  exact ⟨Cursor.next?_before_of_eq hls hnext, hnext, y, d, zs, _, _, d', hy, rfl, hitems, hd'⟩

end

section

variable {c c' : Cursor} {s : Span}

theorem valueSpec_takes (c : Cursor) : Consumes valueSpec (· ≠ []) c :=
  Consumes.valueSpec.mono fun _ h => h.2.ne_nil

theorem hole_of_block {specs : List ValueSpec} {spec : ValueSpec} {right : Span}
    (hok : block .rparen valueSpec c = .ok ((specs, right), c')) (hspec : spec ∈ specs)
    (hs : spec.values = some s) : HoleAt (block .rparen valueSpec) Complete Expression s c c' := by
  have hclose : Mark.rparen ≠ .semi := by decide
  have hblock {c c' : Cursor} {xs : List ValueSpec} {s : Span} :
      block .rparen valueSpec c = .ok ((xs, s), c') ↔ _ := block_eq_ok_iff hclose valueSpec_takes
  have hloops := loops_semiBefore hclose
  obtain ⟨c₁, hitems, hright⟩ := hblock.1 hok
  obtain ⟨xs, ys, rfl⟩ := List.append_of_mem hspec
  obtain ⟨k₀, k₁, k₂, hrow, hmore, hread, hend, hys⟩ := hitems.split hloops
  obtain ⟨before, run, after, hhole, hspanned⟩ := hole_of_valueSpec hread hs
  obtain ⟨ls, hls, hfilled⟩ := hrow.filled hloops (fun c _ => valueSpec_takes c)
    (fun _ _ => Steady.valueSpec) (fun _ => Natural.valueSpec) (fun _ => Fresh.valueSpec)
    (fun _ => Natural.semiBefore _) hmore hhole hend hys
  refine ⟨ls ++ before, run, after, ⟨by rw [hls, hhole.rest, List.append_assoc],
    fun {run' r e n m} hfits hr => ?_⟩, hspanned.after ls⟩
  obtain ⟨hnext, -, y, d, zs, a, a', d', hy, -, hitems', hd'⟩ := hfilled hfits hr
  rw [List.append_assoc]
  refine ⟨hnext, ?_⟩
  -- the parenthesis that closes the group comes next in both texts
  obtain ⟨l, rest, hc₁, hl, rfl, rfl⟩ := expect_eq_ok_iff.1 hright
  obtain ⟨k, ks, hks, hk, hparallel⟩ := hd'.tail hc₁
  have hright' := expect_eq_ok_iff.2 ⟨k, ks, hks, hk.trans hl, rfl, rfl⟩
  exact ⟨_, _, hblock.2 ⟨d', hitems', hright'⟩, .inl hparallel⟩

theorem hole_of_group {specs : List ValueSpec} {spec : ValueSpec} {parens : Option Parens}
    (hok : group valueSpec c = .ok ((specs, parens), c')) (hspec : spec ∈ specs)
    (hs : spec.values = some s) : HoleAt (group valueSpec) Complete Expression s c c' := by
  obtain ⟨left, c₁, hleft, hok⟩ := ok_of_bind hok
  refine Steady.holeAt (Steady.eat (by decide)).kept hleft ?_
  cases left with
  | some left =>
    obtain ⟨⟨xs, right⟩, c₂, hblock, hok⟩ := ok_of_bind hok
    cases hok
    exact (hole_of_block hblock hspec hs).finish (fun _ d => ⟨_, d.made, rfl⟩) c'.made
  | none =>
    obtain ⟨x, c₂, hx, hok⟩ := ok_of_bind hok
    cases hok
    obtain rfl := List.mem_singleton.1 hspec
    exact (hole_of_valueSpec hx hs).finish (fun _ d => ⟨_, d.made, rfl⟩) c'.made

end

end Parse

def Specs.values : Specs → List ValueSpec
  | .consts specs | .vars specs => specs
  | .types _ => []

namespace Parse

variable {c c' : Cursor} {s : Span}

theorem hole_of_specDecl {specs : List ValueSpec → Specs} (hspecs : ∀ xs, (specs xs).values = xs)
    {d : SpecDecl} (hok : specDecl valueSpec specs c = .ok (.specs d, c')) {t : Token}
    (hc : c.next? = some t) {spec : ValueSpec} (hspec : spec ∈ d.specs.values)
    (hs : spec.values = some s) : HoleAt (specDecl valueSpec specs) Complete Expression s c c' := by
  obtain ⟨keyword, c₁, hkeyword, hok⟩ := ok_of_bind hok
  obtain ⟨⟨xs, parens⟩, c₂, hgroup, hok⟩ := ok_of_bind hok
  cases hok
  rw [hspecs] at hspec
  exact Steady.holeAt (Steady.bump hc) hkeyword
    ((hole_of_group hgroup hspec hs).finish (fun _ _ => ⟨_, _, rfl⟩) _)

/-! ## Function bodies -/

/-- What a function body is: a brace, whatever is balanced, and the brace that closes the first. -/
def Braced (ts : List Token) : Prop :=
  ∃ inner, ts = .mark .lbrace :: (inner ++ [.mark .rbrace]) ∧ Balanced inner

theorem funcBody_of_brace (hc : c.isAt .lbrace = true) (h : bracketed c = .ok (s, c')) :
    funcBody c = .ok (some s, c') := by
  show (if c.isAt .lbrace then some <$> bracketed else pure none : Parse (Option Span)) c = _
  rw [if_pos hc]
  exact map_eq_ok_iff.2 ⟨s, h, rfl⟩

theorem hole_of_funcBody (hok : funcBody c = .ok (some s, c')) : ∃ run after,
    Hole funcBody Braced c c' [] run after ∧ s = runSpan run ∧
      run.head?.map Lexeme.token = some (.mark .lbrace) ∧ EndsLine (run.map Lexeme.token) := by
  replace hok : (if c.isAt .lbrace then some <$> bracketed else pure none : Parse (Option Span)) c
    = _ := hok
  split at hok
  · next hat =>
    obtain ⟨s', hread, hs⟩ := map_eq_ok_iff.1 hok
    obtain rfl := Option.some.inj hs
    have hopens := opens?_of_isAt (b := .curly) hat rfl
    have hends := Consumes.bracketed hopens
    obtain ⟨l, ls, hc, hl⟩ := lexeme_of_opens? hopens
    obtain ⟨inner, after, hover, rfl, rfl⟩ := (bracketed_eq_ok_iff hc hl).1 hread
    have hls : ls = inner ++ after := (passOver_append hover).symm
    have hrest : c.rest = l :: inner ++ after := by rw [hc, hls]; rfl
    have hbrace : l.token = .mark .lbrace := by
      simpa [Cursor.next?, hc] using Cursor.isAt_iff.1 hat
    refine ⟨l :: inner, after, ⟨hrest, fun {run' r e n m} hfits hr => ?_⟩, rfl,
      congrArg some hbrace, (hends.of_run hread hrest).2⟩
    obtain ⟨ts, hrun, hts⟩ := hfits
    obtain ⟨k, _, rfl, hk, h⟩ := List.map_eq_cons_iff.1 hrun
    obtain ⟨ks, _, rfl, hks, h⟩ := List.map_eq_append_iff.1 h
    obtain ⟨k', rfl, hk'⟩ := List.map_eq_singleton_iff.1 h
    have hend : passOver (fun _ => true) [] k.span r = .ok ([], r) := by
      cases r <;> rfl
    have hclose := passOver_cons_closer (b := .curly) (l := k') (by rw [hk']; rfl) hend
    have hinside := passOver_inside hts hks hclose
    have hnext : (c.before ([] ++ (k :: (ks ++ [k']) ++ r)) e).next? = c.next? := by
      simp [Cursor.next?, hc, hbrace, hk]
    have hrest' : (c.before ([] ++ (k :: (ks ++ [k']) ++ r)) e).rest
        = k :: (ks ++ ([k'] ++ r)) := by
      simp
    have hopens' : k.token.opens? = some .curly := by rw [hk]; rfl
    have hread' := (bracketed_eq_ok_iff hrest' hopens').2 ⟨_, _, hinside, rfl, rfl⟩
    have hbody' := funcBody_of_brace ((Cursor.isAt_congr hnext _).trans hat) hread'
    exact ⟨hnext, _, _, hbody', hr⟩
  · cases hok

theorem hole_of_funcDecl {d : FuncDecl} {t : Token} (hok : funcDecl c = .ok (.func d, c'))
    (hc : c.next? = some t) (hs : d.body = some s) : HoleAt funcDecl EndsLine Braced s c c' := by
  rw [funcDecl_eq] at hok ⊢
  obtain ⟨head, c₁, hhead, hok⟩ := ok_of_bind hok
  obtain ⟨body, c₂, hbody, hok⟩ := ok_of_bind hok
  cases hok
  obtain rfl : body = some s := hs
  obtain ⟨run, after, hhole, hspan, hfirst, hends⟩ := hole_of_funcBody hbody
  obtain ⟨ls, hls, hhole⟩ := Steady.hole (f := fun h =>
      funcBody >>= makeFunc h.1 h.2.1 h.2.2.1 h.2.2.2.1 h.2.2.2.2)
    (Steady.funcHead hc) hhead (hhole.finish (fun _ _ => ⟨_, _, rfl⟩) _)
  refine ⟨_, run, after, hhole, hspan, ?_, ?_, hends⟩
  · obtain ⟨_, t, hinit, ht⟩ := Consumes.funcHead.of_run hhead hls
    obtain ⟨init, _, rfl, -, h⟩ := List.map_eq_append_iff.1 hinit
    obtain ⟨l, rfl, rfl⟩ := List.map_eq_singleton_iff.1 h
    refine ⟨init, l, List.append_nil _, fun hslash => ?_⟩
    simp [hslash, Token.endsStatement] at ht
  · intro l hl hsemi
    simp [Option.mem_def.1 hl, hsemi] at hfirst

/-! ## Declarations -/

theorem HoleAt.see {g : Cursor → Parse α} {was fits : List Token → Prop}
    (h : HoleAt (g c) was fits s c c') (hsame : ∀ d : Cursor, d.next? = c.next? → g d = g c) :
    HoleAt (get >>= g) was fits s c c' := by
  obtain ⟨before, run, after, hhole, hspanned⟩ := h
  refine ⟨before, run, after, ⟨hhole.rest, fun {run' r e n m} hfits hr => ?_⟩, hspanned⟩
  obtain ⟨hnext, x, d, hx, hd⟩ := hhole.filled hfits hr
  refine ⟨hnext, x, d, ?_, hd⟩
  show g _ _ = _
  rw [hsame _ hnext, hx]

theorem decl_cases {d : Decl} (hok : decl c = .ok (d, c')) :
    (c.next? = some (.keyword .constKw) ∧ specDecl valueSpec .consts c = .ok (d, c')) ∨
      (c.next? = some (.keyword .typeKw) ∧ specDecl typeSpec .types c = .ok (d, c')) ∨
      (c.next? = some (.keyword .varKw) ∧ specDecl valueSpec .vars c = .ok (d, c')) ∨
      (c.next? = some (.keyword .funcKw) ∧ funcDecl c = .ok (d, c')) := by
  have hlook {g : Cursor → Parse Decl} (h : (get >>= g) c = .ok (d, c')) : g c c = .ok (d, c') := h
  have h := hlook hok
  generalize c.next? = o at h
  split at h
  · exact .inl ⟨rfl, h⟩
  · exact .inr (.inl ⟨rfl, h⟩)
  · exact .inr (.inr (.inl ⟨rfl, h⟩))
  · exact .inr (.inr (.inr ⟨rfl, h⟩))
  · cases h
  · cases h

theorem specs_of_specDecl {spec : Parse α} {specs : List α → Specs} {d : Decl}
    (hok : specDecl spec specs c = .ok (d, c')) : ∃ e xs, d = .specs e ∧ e.specs = specs xs := by
  obtain ⟨keyword, c₁, -, hok⟩ := ok_of_bind hok
  obtain ⟨⟨xs, parens⟩, c₂, -, hok⟩ := ok_of_bind hok
  cases hok
  exact ⟨_, xs, rfl, rfl⟩

theorem func_of_funcDecl {d : Decl} (hok : funcDecl c = .ok (d, c')) : ∃ e, d = .func e := by
  rw [funcDecl_eq] at hok
  obtain ⟨head, c₁, -, hok⟩ := ok_of_bind hok
  obtain ⟨body, c₂, -, hok⟩ := ok_of_bind hok
  cases hok
  exact ⟨_, rfl⟩

/-- The values that a declaration gives leave a hole in it. -/
theorem hole_of_value {d : SpecDecl} (hok : decl c = .ok (.specs d, c')) {spec : ValueSpec}
    (hspec : spec ∈ d.specs.values) (hs : spec.values = some s) :
    HoleAt decl Complete Expression s c c' ∧ c.next? ≠ some (.keyword .typeKw) := by
  rcases decl_cases hok with ⟨h, hok⟩ | ⟨h, hok⟩ | ⟨h, hok⟩ | ⟨h, hok⟩
  · refine ⟨HoleAt.see ?_ fun d hd => by rw [hd], by simp [h]⟩
    simp only [h]
    exact hole_of_specDecl (fun _ => rfl) hok h hspec hs
  · obtain ⟨e, xs, ⟨⟩, hxs⟩ := specs_of_specDecl hok
    simp [hxs, Specs.values] at hspec
  · refine ⟨HoleAt.see ?_ fun d hd => by rw [hd], by simp [h]⟩
    simp only [h]
    exact hole_of_specDecl (fun _ => rfl) hok h hspec hs
  · obtain ⟨e, ⟨⟩⟩ := func_of_funcDecl hok

/-- So does the body of a function. -/
theorem hole_of_body {d : FuncDecl} (hok : decl c = .ok (.func d, c')) (hs : d.body = some s) :
    HoleAt decl EndsLine Braced s c c' ∧ c.next? ≠ some (.keyword .typeKw) := by
  rcases decl_cases hok with ⟨h, hok⟩ | ⟨h, hok⟩ | ⟨h, hok⟩ | ⟨h, hok⟩
  · obtain ⟨e, xs, ⟨⟩, -⟩ := specs_of_specDecl hok
  · obtain ⟨e, xs, ⟨⟩, -⟩ := specs_of_specDecl hok
  · obtain ⟨e, xs, ⟨⟩, -⟩ := specs_of_specDecl hok
  · refine ⟨HoleAt.see ?_ fun d hd => by rw [hd], by simp [h]⟩
    simp only [h]
    exact hole_of_funcDecl hok h hs

/-- Only declarations of types declare types. -/
theorem typeSpecs_of_decl {d : Decl} (hok : decl c = .ok (d, c'))
    (hne : c.next? ≠ some (.keyword .typeKw)) : d.typeSpecs = [] := by
  have hvalues {xs : List ValueSpec} {e : SpecDecl}
      (he : e.specs = .consts xs ∨ e.specs = .vars xs) :
      (Decl.specs e).typeSpecs = [] := by
    obtain ⟨serial, span, keyword, parens, specs⟩ := e
    rcases he with rfl | rfl <;> rfl
  rcases decl_cases hok with ⟨h, hok⟩ | ⟨h, hok⟩ | ⟨h, hok⟩ | ⟨h, hok⟩
  · obtain ⟨e, xs, rfl, hxs⟩ := specs_of_specDecl hok
    exact hvalues (.inl hxs)
  · exact absurd h hne
  · obtain ⟨e, xs, rfl, hxs⟩ := specs_of_specDecl hok
    exact hvalues (.inr hxs)
  · obtain ⟨e, rfl⟩ := func_of_funcDecl hok
    rfl

theorem interfaces_of_decl {d : Decl} (hok : decl c = .ok (d, c'))
    (hne : c.next? ≠ some (.keyword .typeKw)) : d.interfaces = [] := by
  rw [Decl.interfaces, typeSpecs_of_decl hok hne, List.filterMap_nil]

end Parse

end GoIface
