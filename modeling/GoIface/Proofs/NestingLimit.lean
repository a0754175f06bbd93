import GoIface.Proofs.Insides
import GoIface.Proofs.Questions

/-!
# The limit on nesting

The limit can be kept as a count that goes up before a form is read and down after it. What is read
with such a count is what is read with the room that is left, and the count comes out as it was,
whether the reading fails or not (`count_restored`). Beside the reader with a limit there is one
without (`Unlimited`). The two agree as long as no type is nested too deep, and else the first such
type is refused (`nesting_limit_only_rejects`).
-/

namespace GoIface.Parse

variable {α : Type}

theorem typeWithin_succ (room : Nat) (c : Cursor) : typeWithin (room + 1) c
    = (typeForm (typeWithin room) c).bind fun (form, c') => makeType c.here form c' := rfl

/-! ## Keeping count -/

/-- A reader of types that is given a count and goes on with another, whether it fails or not. -/
abbrev CountingReader := Cursor → Nat → Except (Located ParseFault) (TypeNode × Cursor) × Nat

/-- What comes of the reading, and of the count, with the answers of such a reader. -/
def Reading.count (type : CountingReader) :
    Reading α → Nat → Except (Located ParseFault) (α × Cursor) × Nat
  | done result, depth => (result, depth)
  | ask c next, depth =>
    match type c depth with
    | (.error e, depth) => (.error e, depth)
    | (.ok (t, c'), depth) => (next t c').count type depth

/-- At the limit a type is refused. Below it the count goes up for its form and down again. -/
def CountingReader.Limits (type : CountingReader) (R : Cursor → Reading (TypeForm TypeNode)) :
    Prop :=
  ∀ c depth, type c depth = if nestingLimit ≤ depth then (failHere .tooDeep c, depth) else
    let (form, depth) := (R c).count type (depth + 1)
    (form.bind fun (form, c') => makeType c.here form c', depth - 1)

theorem Reading.count_eq {T : CountingReader} {p : Parse TypeNode} {depth : Nat}
    (h : ∀ c, T c depth = (p c, depth)) (R : Reading α) :
    R.count T depth = (R.run p, depth) := by
  induction R with
  | done result => rfl
  | ask c next ih =>
    rw [count, run, h]
    rcases p c with e | ⟨t, c'⟩
    · rfl
    · exact ih t c'

/-- The reader whose room is what is left up to the limit. The count comes out as it was. -/
def limited : CountingReader := fun c depth => (typeWithin (nestingLimit - depth) c, depth)

section Count

variable {R : Cursor → Reading (TypeForm TypeNode)}
  (hR : ∀ type c, typeForm type c = (R c).run type)

include hR

/-- The count is kept, and the room is what is left up to the limit. -/
theorem count_restored {T : CountingReader} (hT : T.Limits R) :
    ∀ (room depth : Nat), nestingLimit - depth = room →
      ∀ c, T c depth = (typeWithin room c, depth)
  | 0, depth, hroom, c => by
    rw [hT, if_pos (by omega)]
    rfl
  | room + 1, depth, hroom, c => by
    rw [hT, if_neg (by omega),
      Reading.count_eq (count_restored hT room (depth + 1) (by omega)) (R c),
      typeWithin_succ, hR]
    rfl

theorem limits_limited : CountingReader.Limits limited R := by
  intro c depth
  have hcount : (R c).count limited (depth + 1)
      = ((R c).run (typeWithin (nestingLimit - (depth + 1))), depth + 1) :=
    Reading.count_eq (T := limited) (fun _ => rfl) (R c)
  rcases hroom : nestingLimit - depth with _ | room
  · rw [limited, hroom, if_pos (by omega)]
    rfl
  · have hinner : nestingLimit - (depth + 1) = room := by omega
    rw [hcount, limited, hroom, if_neg (by omega), hinner, typeWithin_succ, hR]
    rfl

end Count

/-! ## Types that are asked for -/

/-- With the answers of `type` the reading asks for the type at the cursor. -/
inductive Reading.Asks (type : Parse TypeNode) : Reading α → Cursor → Prop
  | now {c : Cursor} {next : TypeNode → Cursor → Reading α} : Asks type (.ask c next) c
  | later {c c' c₁ : Cursor} {t : TypeNode} {next : TypeNode → Cursor → Reading α}
      (ht : type c = .ok (t, c')) (h : Asks type (next t c') c₁) : Asks type (.ask c next) c₁

/-- As far as the run goes, a type ends where it starts or later. -/
def GoesForward (type : Parse TypeNode) (ls : List Lexeme) : Prop :=
  ∀ c t c', c.rest <:+ ls → type c = .ok (t, c') → c'.rest <:+ c.rest

theorem GoesForward.mono {type : Parse TypeNode} {ls ms : List Lexeme} (h : GoesForward type ls)
    (hms : ms <:+ ls) : GoesForward type ms :=
  fun c t c' hc => h c t c' (hc.trans hms)

theorem goesForward_typeWithin {ls : List Lexeme} (room : Nat) :
    GoesForward (typeWithin room) ls := by
  rintro c t c' - hok
  obtain ⟨ls, hls, -⟩ := Consumes.typeWithin room c t c' hok
  exact ⟨ls, hls.symm⟩

namespace Reading

variable {type type' : Parse TypeNode} {ls : List Lexeme} {R : Reading α} {x : α} {c c' : Cursor}

theorem run_congr (h : ∀ c, R.Asks type c → type' c = type c) : R.run type' = R.run type := by
  induction R with
  | done result => rfl
  | ask c next ih =>
    rw [run, run, h c .now]
    rcases ht : type c with e | ⟨t, c'⟩
    · rfl
    · exact ih t c' fun c₁ hc₁ => h c₁ (.later ht hc₁)

/-- A reading that ends well has got what it asked for, and goes on behind it. -/
theorem Forward.answered (h : R.Forward ls) (htype : GoesForward type ls)
    (hok : R.run type = .ok (x, c')) : c'.rest <:+ ls ∧
      ∀ c, R.Asks type c → ∃ t c₁, type c = .ok (t, c₁) ∧ c'.rest <:+ c₁.rest := by
  induction h with
  | done h => exact ⟨h x c' hok, fun c hc => nomatch hc⟩
  | @ask ls c next hc _ ih =>
    rw [run] at hok
    rcases ht : type c with e | ⟨t, c₁⟩ <;> rw [ht] at hok
    · cases hok
    have hmove := htype c t c₁ hc ht
    obtain ⟨hend, hanswered⟩ := ih t c₁ hmove (htype.mono (hmove.trans hc)) hok
    refine ⟨hend.trans (hmove.trans hc), fun c₂ hc₂ => ?_⟩
    cases hc₂ with
    | now => exact ⟨t, c₁, ht, hend⟩
    | later ht' hc₂ =>
      cases ht.symm.trans ht'
      exact hanswered c₂ hc₂

theorem Forward.asks (h : R.Forward ls) (htype : GoesForward type ls) (hc : R.Asks type c) :
    c.rest <:+ ls := by
  induction hc generalizing ls with
  | now =>
    cases h with
    | ask hc _ => exact hc
  | @later c c' _ t next ht _ ih =>
    cases h with
    | ask hc hnext =>
      have hmove := htype c t c' hc ht
      exact (ih (hnext t c' hmove) (htype.mono (hmove.trans hc))).trans (hmove.trans hc)

end Reading

open Classical in
/-- With `type` for the types inside, the form of the type at `c` asks for the one at `c'`: whatever
that fails with, it fails with. -/
def AsksFor (type : Parse TypeNode) (c c' : Cursor) : Prop :=
  ∀ e, typeForm (fun c₁ => if c₁ = c' then .error e else type c₁) c = .error e

/-- Inside the type at `c` that at `c'` is nested, this many levels below. -/
def NestedAt (type : Parse TypeNode) : Nat → Cursor → Cursor → Prop
  | 0, c, c' => c' = c
  | n + 1, c, c' => ∃ c₁, AsksFor type c c₁ ∧ NestedAt type n c₁ c'

/-- Of the types nested at that level it is the first. -/
def FirstAt (type : Parse TypeNode) (n : Nat) (c c' : Cursor) : Prop :=
  NestedAt type n c c' ∧ ∀ c'', NestedAt type n c c'' → c''.rest <:+ c'.rest

/-- A reader of types for which nothing is nested too deep. -/
def Unlimited (type : Parse TypeNode) : Prop :=
  ∀ c, type c = (typeForm type c).bind fun (form, c') => makeType c.here form c'

/-- The reader that has more room than there are lexemes. -/
def unlimited : Parse TypeNode := fun c => typeWithin (c.rest.length + 1) c

theorem typeForm_nil {type : Parse TypeNode} {c : Cursor} (hrest : c.rest = []) :
    typeForm type c = .error ⟨.expected .type .textEnd, c.here⟩ := by
  obtain ⟨rest, last, textEnd, made⟩ := c
  obtain rfl : rest = [] := hrest
  rfl

open Classical in
theorem asksFor_iff {R : Cursor → Reading (TypeForm TypeNode)}
    (hR : ∀ type c, typeForm type c = (R c).run type) {type : Parse TypeNode} {c c' : Cursor} :
    AsksFor type c c' ↔ (R c).Asks type c' := by
  have hasks {R : Reading (TypeForm TypeNode)} (h : R.Asks type c') (e : Located ParseFault) :
      R.run (fun c₁ => if c₁ = c' then .error e else type c₁) = .error e := by
    induction h with
    | now => rw [Reading.run, if_pos rfl]; rfl
    | @later c _ _ t next ht _ ih =>
      rw [Reading.run]
      split
      · rfl
      · rw [ht]
        exact ih
  constructor
  · intro h
    by_contra hnot
    have hsame (e : Located ParseFault) : (R c).run type = .error e := by
      have hrun : (R c).run (fun c₁ => if c₁ = c' then .error e else type c₁) = (R c).run type :=
        Reading.run_congr fun c₁ hc₁ => if_neg (by rintro rfl; exact hnot hc₁)
      rw [← hrun, ← hR]
      exact h e
    cases (hsame ⟨.tooDeep, ⟨0, 0⟩⟩).symm.trans (hsame ⟨.tooDeep, ⟨0, 1⟩⟩)
  · intro h e
    rw [hR]
    exact hasks h e

/-- What is asked for lies further on. -/
theorem rest_of_asksFor {type : Parse TypeNode} (htype : ∀ ls, GoesForward type ls) {c c' : Cursor}
    (h : AsksFor type c c') : ∃ l ls, c.rest = l :: ls ∧ c'.rest <:+ ls := by
  obtain ⟨R, hR, hforward⟩ := exists_reading
  rcases hrest : c.rest with _ | ⟨l, ls⟩
  · have hfails (e : Located ParseFault) := (typeForm_nil hrest).symm.trans (h e)
    cases hfails ⟨.tooDeep, ⟨0, 0⟩⟩
  · have hlater := (hforward c).asks (htype _) ((asksFor_iff hR).1 h)
    rw [hrest] at hlater
    exact ⟨l, ls, rfl, hlater⟩

/-- A form is read alike with readers that agree on what is asked for. -/
theorem typeForm_congr {type type' : Parse TypeNode} {c : Cursor}
    (h : ∀ c', AsksFor type c c' → type' c' = type c') : typeForm type' c = typeForm type c := by
  obtain ⟨R, hR, -⟩ := exists_reading
  rw [hR, hR]
  exact Reading.run_congr fun c' hc' => h c' ((asksFor_iff hR).2 hc')

/-- More room than there are lexemes changes nothing. -/
theorem typeWithin_stable : ∀ {n m : Nat} {c : Cursor}, c.rest.length < n → c.rest.length < m →
    typeWithin n c = typeWithin m c
  | n + 1, m + 1, c, hn, hm => by
    rw [typeWithin_succ, typeWithin_succ, typeForm_congr fun c' hc' => ?_]
    obtain ⟨l, ls, hrest, hlater⟩ := rest_of_asksFor (fun _ => goesForward_typeWithin m) hc'
    have hle := hlater.length_le
    rw [hrest, List.length_cons] at hn hm
    exact typeWithin_stable (by omega) (by omega)

/-- The reader whose room is never used up. -/
theorem unlimited_unlimited : Unlimited unlimited := by
  intro c
  have hform : typeForm unlimited c = typeForm (typeWithin c.rest.length) c := by
    refine typeForm_congr fun c' hc' => ?_
    obtain ⟨l, ls, hrest, hlater⟩ := rest_of_asksFor (fun _ => goesForward_typeWithin _) hc'
    have hle := hlater.length_le
    rw [hrest, List.length_cons]
    exact typeWithin_stable (by omega) (by omega)
  rw [hform]
  rfl

namespace Unlimited

variable {U : Parse TypeNode} {n : Nat} {c c' c₂ : Cursor} {t : TypeNode}

/-- A type that is read has those that it asks for in it. -/
theorem answered (hU : Unlimited U) (htype : GoesForward U c.rest.tail) (hok : U c = .ok (t, c')) :
    c'.rest <:+ c.rest.tail ∧
      ∀ c₁, AsksFor U c c₁ → ∃ t₁ c₂, U c₁ = .ok (t₁, c₂) ∧ c'.rest <:+ c₂.rest := by
  obtain ⟨R, hR, hforward⟩ := exists_reading
  rw [hU, hR] at hok
  rcases hrun : (R c).run U with e | ⟨form, c₁⟩ <;> rw [hrun] at hok <;> cases hok
  obtain ⟨hend, hanswered⟩ := (hforward c).answered htype hrun
  exact ⟨hend, fun c₂ hc₂ => hanswered c₂ ((asksFor_iff hR).1 hc₂)⟩

theorem advances (hU : Unlimited U) : ∀ ls, GoesForward U ls
  | [] => by
    intro c t c' hc hok
    rw [hU, typeForm_nil (List.suffix_nil.1 hc)] at hok
    cases hok
  | l :: ls => by
    intro c t c' hc hok
    rcases List.suffix_cons_iff.1 hc with hrest | hc
    · have hadv : GoesForward U c.rest.tail := by
        rw [hrest]
        exact advances hU ls
      exact (hU.answered hadv hok).1.trans (List.tail_suffix _)
    · exact advances hU ls c t c' hc hok

theorem rest_of_nestedAt (hU : Unlimited U) (h : NestedAt U n c c') :
    c'.rest <:+ c.rest ∧ c'.rest.length + n ≤ c.rest.length := by
  induction n generalizing c with
  | zero =>
    obtain rfl : c' = c := h
    exact ⟨List.suffix_refl _, Nat.le_refl _⟩
  | succ n ih =>
    obtain ⟨c₁, hasks, h⟩ := h
    obtain ⟨hsuffix, hlength⟩ := ih h
    obtain ⟨l, ls, hrest, hlater⟩ := rest_of_asksFor hU.advances hasks
    have hle := hlater.length_le
    rw [hrest, List.length_cons]
    exact ⟨hsuffix.trans (hlater.trans (List.suffix_cons _ _)), by omega⟩

/-- A type ends behind those nested in it. -/
theorem end_of_nestedAt (hU : Unlimited U) (hok : U c = .ok (t, c₂)) (h : NestedAt U n c c') :
    c₂.rest <:+ c'.rest := by
  induction n generalizing c t c₂ with
  | zero =>
    obtain rfl : c' = c := h
    exact hU.advances _ _ _ _ (List.suffix_refl _) hok
  | succ n ih =>
    obtain ⟨c₁, hasks, h⟩ := h
    obtain ⟨t₁, c₃, hok₁, hlater⟩ := (hU.answered (hU.advances _) hok).2 c₁ hasks
    exact hlater.trans (ih hok₁ h)

/-- With some room a reader agrees with the one that has no limit, or it refuses the first type
there is no room for. -/
def Agrees (U : Parse TypeNode) (room : Nat) (c : Cursor) : Prop :=
  ((∀ c', ¬ NestedAt U room c c') → typeWithin room c = U c) ∧
    ((∃ c', NestedAt U room c c') →
      ∃ c', FirstAt U room c c' ∧ typeWithin room c = .error ⟨.tooDeep, c'.here⟩)

/-- The first question with a type too deep in it is where the reading fails. -/
theorem refused (hU : Unlimited U) (hagrees : ∀ c, Agrees U n c) {ls : List Lexeme}
    {R : Reading α} (hR : R.Forward ls) (h : ∃ c₁ c', R.Asks U c₁ ∧ NestedAt U n c₁ c') :
    ∃ c₁ c', R.Asks U c₁ ∧ NestedAt U n c₁ c' ∧
      (∀ c₂ c'', R.Asks U c₂ → NestedAt U n c₂ c'' → c''.rest <:+ c'.rest) ∧
        R.run (typeWithin n) = .error ⟨.tooDeep, c'.here⟩ := by
  induction hR with
  | done =>
    obtain ⟨_, _, hasks, -⟩ := h
    cases hasks
  | @ask ls c next hc hnext ih =>
    by_cases hhere : ∃ c', NestedAt U n c c'
    · obtain ⟨c', ⟨hc', hfirst⟩, hrun⟩ := (hagrees c).2 hhere
      refine ⟨c, c', .now, hc', fun c₂ c'' hasks hc'' => ?_, by rw [Reading.run, hrun]; rfl⟩
      cases hasks with
      | now => exact hfirst c'' hc''
      | @later _ c₃ _ t _ ht hasks =>
        -- what is asked for later starts behind this type, and all nested in it
        have hmove := hU.advances _ c t c₃ (List.suffix_refl _) ht
        have hlater := (hnext t c₃ hmove).asks (hU.advances _) hasks
        exact (hU.rest_of_nestedAt hc'').1.trans (hlater.trans (hU.end_of_nestedAt ht hc'))
    · have hsame := (hagrees c).1 (not_exists.1 hhere)
      obtain ⟨c₁, c', hasks, hc'⟩ := h
      cases hasks with
      | now => exact absurd ⟨c', hc'⟩ hhere
      | @later _ c₃ _ t _ ht hasks =>
        have hmove := hU.advances _ c t c₃ (List.suffix_refl _) ht
        obtain ⟨c₁, c', hasks, hc', hfirst, hrun⟩ := ih t c₃ hmove ⟨c₁, c', hasks, hc'⟩
        refine ⟨c₁, c', .later ht hasks, hc', fun c₂ c'' hasks hc'' => ?_, ?_⟩
        · cases hasks with
          | now => exact absurd ⟨c'', hc''⟩ hhere
          | later ht' hasks =>
            cases ht.symm.trans ht'
            exact hfirst c₂ c'' hasks hc''
        · rw [Reading.run, hsame, ht]
          exact hrun

theorem agrees (hU : Unlimited U) : ∀ (room : Nat) (c : Cursor), Agrees U room c
  | 0, c => by
    refine ⟨fun h => absurd rfl (h c), fun _ => ⟨c, ⟨rfl, ?_⟩, rfl⟩⟩
    rintro _ rfl
    exact List.suffix_refl _
  | room + 1, c => by
    refine ⟨fun h => ?_, fun ⟨c', c₁, hasks, hc'⟩ => ?_⟩
    · rw [typeWithin_succ, hU c, typeForm_congr fun c₁ hasks => (agrees hU room c₁).1 ?_]
      exact fun c' hc' => h c' ⟨c₁, hasks, hc'⟩
    · obtain ⟨R, hR, hforward⟩ := exists_reading
      obtain ⟨c₁, c', hasks, hc', hfirst, hrun⟩ := refused hU (agrees hU room) (hforward c)
        ⟨c₁, c', (asksFor_iff hR).1 hasks, hc'⟩
      refine ⟨c', ⟨⟨c₁, (asksFor_iff hR).2 hasks, hc'⟩, ?_⟩, ?_⟩
      · rintro c'' ⟨c₂, hasks, hc''⟩
        exact hfirst c₂ c'' ((asksFor_iff hR).1 hasks) hc''
      · rw [typeWithin_succ, hR, hrun]
        rfl

/-- There is one reader without a limit. -/
theorem eq_unlimited (hU : Unlimited U) : U = unlimited := by
  funext c
  refine ((hU.agrees (c.rest.length + 1) c).1 fun c' hc' => ?_).symm
  have := (hU.rest_of_nestedAt hc').2
  omega

end Unlimited

/-- A reader with the count gives it back as it was. What it reads is nested within the room that is
left, and it is what is read without a limit, unless that asks for a type there is no room for: then
the first of them is refused. -/
theorem nesting_limit_only_rejects {R : Cursor → Reading (TypeForm TypeNode)}
    (hR : ∀ type c, typeForm type c = (R c).run type) {T : CountingReader} (hT : T.Limits R)
    {U : Parse TypeNode} (hU : Unlimited U) (c : Cursor) (depth : Nat) :
    T c depth = (typeWithin (nestingLimit - depth) c, depth) ∧
    (∀ t c', (T c depth).1 = .ok (t, c') → t.NestsWithin (nestingLimit - depth)) ∧
    ((∀ c', ¬ NestedAt U (nestingLimit - depth) c c') → (T c depth).1 = U c) ∧
    ((∃ c', NestedAt U (nestingLimit - depth) c c') →
      ∃ c', FirstAt U (nestingLimit - depth) c c' ∧
        (T c depth).1 = .error ⟨.tooDeep, c'.here⟩) := by
  have hcount := count_restored hR hT _ depth rfl c
  obtain ⟨hsame, hrefused⟩ := hU.agrees (nestingLimit - depth) c
  refine ⟨hcount, fun t c' hok => ?_, fun h => ?_, fun h => ?_⟩ <;> rw [hcount] at *
  · exact nestsWithin_of_typeWithin _ c t c' hok
  · exact hsame h
  · exact hrefused h

open Classical in
theorem asksFor_pointer {type : Parse TypeNode} {c : Cursor} {l : Lexeme} {ls : List Lexeme}
    (hrest : c.rest = l :: ls) (hl : l.token = .mark .star) :
    AsksFor type c { c with rest := ls, last := l.span } := by
  obtain ⟨rest, last, textEnd, made⟩ := c
  obtain ⟨t, s⟩ := l
  obtain rfl : rest = ⟨t, s⟩ :: ls := hrest
  obtain rfl : t = .mark .star := hl
  intro e
  show Except.bind (ite _ _ _) _ = _
  rw [if_pos rfl]
  rfl

/-- Below 98 types there is room for both pointers of `**int`, but not for `int`. -/
theorem int_below_pointers_refused :
    let c : Cursor := ⟨[⟨.mark .star, ⟨0, 1⟩⟩, ⟨.mark .star, ⟨1, 2⟩⟩, ⟨.ident "int", ⟨2, 5⟩⟩],
      .point 0, 5, ⟨0, 0, 0, 0, 0⟩⟩
    (∃ R, (∀ type c, typeForm type c = Reading.run type (R c)) ∧ CountingReader.Limits limited R) ∧
      Unlimited unlimited ∧ (∃ c', NestedAt unlimited 2 c c') ∧
        limited c 98 = (.error ⟨.tooDeep, ⟨2, 5⟩⟩, 98) := by
  intro c
  obtain ⟨R, hR, -⟩ := exists_reading
  have hnested : NestedAt unlimited 2 c
      { c with rest := [⟨.ident "int", ⟨2, 5⟩⟩], last := ⟨1, 2⟩ } :=
    ⟨_, asksFor_pointer rfl rfl, _, asksFor_pointer rfl rfl, rfl⟩
  obtain ⟨hcount, -, -, hrefused⟩ :=
    nesting_limit_only_rejects hR (limits_limited hR) unlimited_unlimited c 98
  obtain ⟨c', ⟨hc', hfirst⟩, herror⟩ := hrefused ⟨_, hnested⟩
  -- no other place is left for the first type at this level
  have hlength : c'.rest.length + 2 ≤ 3 := (unlimited_unlimited.rest_of_nestedAt hc').2
  have hrest : [⟨.ident "int", ⟨2, 5⟩⟩] = c'.rest :=
    (hfirst _ hnested).eq_of_length_le (by simp; omega)
  have hhere : c'.here = ⟨2, 5⟩ := by
    rw [Cursor.here, ← hrest]
    rfl
  rw [hhere] at herror
  refine ⟨⟨R, hR, limits_limited hR⟩, unlimited_unlimited, ⟨_, hnested⟩, ?_⟩
  exact Prod.ext herror (congrArg Prod.snd hcount)

end GoIface.Parse
