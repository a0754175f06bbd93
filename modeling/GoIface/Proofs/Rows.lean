import GoIface.Proofs.DeclSteadiness
import GoIface.Proofs.PlacedTrees

/-!
# Items that end in semicolons

The declarations of a file and the items of a block are read in one way (`declsWhile_eq_ok_iff`,
`blockItems_eq_ok_iff`): an item, the semicolon after it, and so on for as long as there is more.
Only the last item may do without its semicolon. So items that all have theirs make a row, which is
read the same whatever the text goes on with (`Row.steady`), and more items may follow it
(`Row.append`).
-/

namespace GoIface.Parse

variable {α β : Type}

/-- Items for as long as there is more, with what is read after each. -/
inductive Items (more : Cursor → Bool) (ender : Parse Unit) (item : Parse α) :
    Cursor → List α → Cursor → Prop
  | stop {c : Cursor} (hstop : more c = false) : Items more ender item c [] c
  | item {c c₁ c₂ c' : Cursor} {x : α} {xs : List α} (hmore : more c = true)
      (hitem : item c = .ok (x, c₁)) (hend : ender c₁ = .ok ((), c₂))
      (h : Items more ender item c₂ xs c') : Items more ender item c (x :: xs) c'

/-- Items that each have a semicolon after them. -/
inductive Row (more : Cursor → Bool) (item : Parse α) : Cursor → List α → Cursor → Prop
  | nil {c : Cursor} : Row more item c [] c
  | cons {c c₁ c' : Cursor} {x : α} {xs : List α} {l : Lexeme} {ls : List Lexeme}
      (hmore : more c = true) (hitem : item c = .ok (x, c₁)) (hrest : c₁.rest = l :: ls)
      (hl : l.token = .mark .semi)
      (h : Row more item { c₁ with rest := ls, last := l.span } xs c') :
      Row more item c (x :: xs) c'

/-- What a loop over items looks at: whether there is more can be seen from the next token, and so
can whether the last item may do without its semicolon. -/
structure Loops (more : Cursor → Bool) (ender : Parse Unit) : Prop where
  congr {c d : Cursor} (h : d.next? = c.next?) : more d = more c
  atEnd {c : Cursor} (h : c.rest = []) : more c = false
  semi {c : Cursor} {l : Lexeme} {ls : List Lexeme} (hrest : c.rest = l :: ls)
    (hl : l.token = .mark .semi) : ender c = .ok ((), { c with rest := ls, last := l.span })
  ends {c c' : Cursor} (h : ender c = .ok ((), c')) :
    (∃ l ls, c.rest = l :: ls ∧ l.token = .mark .semi) ∨
      c' = c ∧ more c = false ∧ ∀ d : Cursor, d.next? = c.next? → ender d = .ok ((), d)

section

variable {more : Cursor → Bool} {ender : Parse Unit} {item : Parse α} {c c₁ c' : Cursor}
  {x : α} {xs ys : List α}

theorem Items.functional {zs : List α} {d : Cursor} (h : Items more ender item c xs c')
    (h' : Items more ender item c zs d) : zs = xs ∧ d = c' := by
  induction h generalizing zs d with
  | stop hstop =>
    cases h' with
    | stop => exact ⟨rfl, rfl⟩
    | item hmore => simp [hstop] at hmore
  | item hmore hitem hend _ ih =>
    cases h' with
    | stop hstop => simp [hmore] at hstop
    | item _ hitem' hend' h' =>
      cases hitem.symm.trans hitem'
      cases hend.symm.trans hend'
      obtain ⟨rfl, rfl⟩ := ih h'
      exact ⟨rfl, rfl⟩

theorem Items.of_stop (h : Items more ender item c xs c') (hstop : more c = false) :
    xs = [] ∧ c' = c := by
  cases h with
  | stop => exact ⟨rfl, rfl⟩
  | item hmore => simp [hstop] at hmore

variable (hloops : Loops more ender)

include hloops

/-- More items may follow a row. -/
theorem Row.append (h : Row more item c xs c₁) (h' : Items more ender item c₁ ys c') :
    Items more ender item c (xs ++ ys) c' := by
  induction h with
  | nil => exact h'
  | cons hmore hitem hrest hl _ ih => exact .item hmore hitem (hloops.semi hrest hl) (ih h')

/-- Items that are followed by another one make a row. -/
theorem Items.split (h : Items more ender item c (xs ++ x :: ys) c') : ∃ c₀ c₁ c₂,
    Row more item c xs c₀ ∧ more c₀ = true ∧ item c₀ = .ok (x, c₁) ∧ ender c₁ = .ok ((), c₂) ∧
      Items more ender item c₂ ys c' := by
  induction xs generalizing c with
  | nil =>
    cases h with
    | item hmore hitem hend h => exact ⟨c, _, _, .nil, hmore, hitem, hend, h⟩
  | cons y xs ih =>
    cases h with
    | item hmore hitem hend h =>
      obtain ⟨c₀, c₁, c₂, hrow, hrest⟩ := ih h
      refine ⟨c₀, c₁, c₂, ?_, hrest⟩
      rcases hloops.ends hend with ⟨l, ls, hc, hl⟩ | ⟨rfl, hstop, -⟩
      · rw [hloops.semi hc hl] at hend
        cases hend
        exact .cons hmore hitem hc hl hrow
      · exact absurd (h.of_stop hstop).1 (by simp)

/-- Where the text ends in a semicolon, so does the last item. -/
theorem Items.row (hitem : ∀ c, more c = true → Consumes item Complete c)
    (h : Items more ender item c xs c') (hc' : c'.rest = [])
    (hlast : ∀ l ∈ c.rest.getLast?, l.token = .mark .semi) : Row more item c xs c' := by
  induction h with
  | stop => exact .nil
  | @item c c₁ c₂ c' x xs hmore hx hend h ih =>
    obtain ⟨ms, hms, hcomplete⟩ := hitem c hmore x c₁ hx
    rcases hloops.ends hend with ⟨l, ls, hc, hl⟩ | ⟨rfl, hstop, -⟩
    · rw [hloops.semi hc hl] at hend
      cases hend
      refine .cons hmore hx hc hl (ih hc' fun k hk => hlast k ?_)
      have hk : ls.getLast? = some k := hk
      simp [hms, hc, List.getLast?_append, List.getLast?_cons, hk]
    · -- the item would have taken the semicolon
      obtain ⟨rfl, rfl⟩ := h.of_stop hstop
      obtain ⟨init, t, ht, hne⟩ := hcomplete
      obtain ⟨ms₁, ms₂, rfl, rfl, hms₂⟩ := List.map_eq_append_iff.1 ht
      obtain ⟨l, rfl, rfl⟩ := List.map_eq_singleton_iff.1 hms₂
      exact absurd (hlast l (by simp [hms, hc'])) hne

end

section

variable {more : Cursor → Bool} {ender : Parse Unit} {item : Parse α} {c c' : Cursor} {xs : List α}
  (hloops : Loops more ender) (htakes : ∀ c, more c = true → Consumes item (· ≠ []) c)

include hloops htakes

/-- A row is read the same however the text goes on after it. -/
theorem Row.steady (hitem : ∀ c, more c = true → Steady Same item c) (h : Row more item c xs c') :
    ∃ ls, c.rest = ls ++ c'.rest ∧
      ∀ r e, Row more item (c.before (ls ++ r) e) xs (c'.before r e) := by
  induction h with
  | nil => exact ⟨[], rfl, fun r e => .nil⟩
  | @cons c c₁ c' x xs l ls hmore hx hrest hl _ ih =>
    obtain ⟨ms, hms, hsteady⟩ := hitem c hmore x c₁ hx
    obtain ⟨ks, hks, hrow⟩ := ih
    obtain rfl : ls = ks ++ c'.rest := hks
    refine ⟨ms ++ l :: ks, by simp [hms, hrest], fun r e => ?_⟩
    have hsame : Same c₁.next? (c₁.before (l :: (ks ++ r)) e).next? := by
      simp [Same, Kept, anything, Cursor.next?, hrest]
    have hne : ms ≠ [] := by simpa using (htakes c hmore).of_run hx hms
    have hnext : (c.before (ms ++ l :: ks ++ r) e).next? = c.next? := by
      obtain ⟨m, ms, rfl⟩ := List.exists_cons_of_ne_nil hne
      simp [Cursor.next?, hms]
    have hread := hsteady _ e hsame
    rw [← List.cons_append, ← List.append_assoc] at hread
    exact .cons ((hloops.congr hnext).trans hmore) hread rfl hl (hrow r e)

omit hloops htakes in
theorem Row.textEnd_eq (hitem : ∀ c, more c = true → Steady Same item c)
    (h : Row more item c xs c') : c'.textEnd = c.textEnd := by
  induction h with
  | nil => rfl
  | @cons c c₁ _ _ _ _ _ hmore hx _ _ _ ih =>
    have hc₁ : c₁.textEnd = c.textEnd := Steady.textEnd_eq (hitem c hmore) hx
    exact ih.trans hc₁

omit hloops in
theorem length_lt_of_item {x : α} {c₁ : Cursor} (hmore : more c = true)
    (hx : item c = .ok (x, c₁)) : c₁.rest.length < c.rest.length := by
  obtain ⟨ls, hls, hne⟩ := htakes c hmore x c₁ hx
  have hpos : 0 < ls.length := by simpa [List.length_pos_iff] using hne
  rw [hls, List.length_append]
  omega

omit htakes in
theorem length_le_of_ender {c₁ c₂ : Cursor} (h : ender c₁ = .ok ((), c₂)) :
    c₂.rest.length ≤ c₁.rest.length := by
  rcases hloops.ends h with ⟨l, ls, hc, hl⟩ | ⟨rfl, -⟩
  · rw [hloops.semi hc hl] at h
    cases h
    simp [hc]
  · exact Nat.le_refl _

/-- A loop that turns at most as often as lexemes are left reads the items, and nothing else. -/
theorem items_iff {loop : Nat → Parse (List α)} (hzero : ∀ c, loop 0 c = .ok ([], c))
    (hstop : ∀ n c, more c = false → loop (n + 1) c = .ok ([], c))
    (hturn : ∀ n c, more c = true → loop (n + 1) c
      = (item >>= fun x => ender >>= fun _ => loop n >>= fun xs => pure (x :: xs)) c)
    {n : Nat} (hn : c.rest.length ≤ n) :
    loop n c = .ok (xs, c') ↔ Items more ender item c xs c' := by
  induction n generalizing c xs with
  | zero =>
    have hrest : more c = false :=
      hloops.atEnd (List.eq_nil_of_length_eq_zero (Nat.le_zero.1 hn))
    rw [hzero]
    constructor
    · rintro ⟨⟩
      exact .stop hrest
    · intro h
      obtain ⟨rfl, rfl⟩ := h.of_stop hrest
      rfl
  | succ n ih =>
    cases hmore : more c with
    | false =>
      rw [hstop n c hmore]
      constructor
      · rintro ⟨⟩
        exact .stop hmore
      · intro h
        obtain ⟨rfl, rfl⟩ := h.of_stop hmore
        rfl
    | true =>
      rw [hturn n c hmore]
      have hroom {x : α} {c₁ c₂ : Cursor} (hx : item c = .ok (x, c₁))
          (hend : ender c₁ = .ok ((), c₂)) : c₂.rest.length ≤ n := by
        have hlt := length_lt_of_item htakes hmore hx
        have hle := length_le_of_ender hloops hend
        omega
      constructor
      · intro h
        obtain ⟨x, c₁, hx, h⟩ := ok_of_bind h
        obtain ⟨_, c₂, hend, h⟩ := ok_of_bind h
        obtain ⟨ys, c₃, hys, h⟩ := ok_of_bind h
        cases h
        exact .item hmore hx hend ((ih (hroom hx hend)).1 hys)
      · rintro (hstop | ⟨-, hx, hend, h⟩)
        · simp [hmore] at hstop
        · rw [bind_of_ok hx, bind_of_ok hend, bind_of_ok ((ih (hroom hx hend)).2 h)]
          rfl

end

/-! ## The two loops -/

theorem declEnd_of_end {c : Cursor} (hc : c.next? = none) : declEnd c = .ok ((), c) := by
  show (eat .semi >>= fun s =>
    if c.atEnd || s.isSome then pure () else expected .declarationEnd) c = _
  rw [bind_of_ok (eat_none (by simp [hc])), if_pos (by simp [Cursor.atEnd_iff.2 hc])]
  rfl

/-- A declaration is followed by a semicolon, which is read, or by the end of the text. -/
theorem declEnd_cases {c c' : Cursor} (h : declEnd c = .ok ((), c')) :
    (∃ l ls, c.rest = l :: ls ∧ l.token = .mark .semi) ∨ c.next? = none := by
  rcases eat_cases .semi c with hsemi | hne
  · exact .inl hsemi
  · replace h : (eat .semi >>= fun s =>
      if c.atEnd || s.isSome then pure () else expected .declarationEnd) c = _ := h
    rw [bind_of_ok (eat_none hne)] at h
    split at h
    · next hat => exact .inr (Cursor.atEnd_iff.1 (by simpa using hat))
    · cases h

theorem loops_declEnd {more : Cursor → Bool} (hcongr : ∀ c d, d.next? = c.next? → more d = more c)
    (hend : ∀ c, c.rest = [] → more c = false) : Loops more declEnd where
  congr := hcongr _ _
  atEnd := hend _
  semi := by
    intro c l ls hrest hl
    show (eat .semi >>= fun s =>
      if c.atEnd || s.isSome then pure () else expected .declarationEnd) c = _
    rw [bind_of_ok (eat_some hrest hl), if_pos (by simp)]
    rfl
  ends := by
    intro c c' h
    rcases declEnd_cases h with hsemi | hc
    · exact .inl hsemi
    · rw [declEnd_of_end hc] at h
      cases h
      exact .inr ⟨rfl, hend c (by simpa [Cursor.next?] using hc),
        fun d hd => declEnd_of_end (hd.trans hc)⟩

theorem loops_semiBefore {close : Mark} (hclose : close ≠ .semi) :
    Loops (fun c => !(c.isAt close || c.atEnd)) (semiBefore close) where
  congr := by
    intro c d h
    have hatEnd : d.atEnd = c.atEnd := by
      rw [Bool.eq_iff_iff, Cursor.atEnd_iff, Cursor.atEnd_iff, h]
    rw [Cursor.isAt_congr h, hatEnd]
  atEnd := by
    intro c h
    simp [Cursor.atEnd, h]
  semi := semiBefore_of_semi
  ends := by
    intro c c' h
    rcases semiBefore_cases h with hsemi | hc
    · exact .inl hsemi
    · rw [semiBefore_of_close hclose hc] at h
      cases h
      exact .inr ⟨rfl, by simp [Cursor.isAt_iff.2 hc],
        fun d hd => semiBefore_of_close hclose (hd.trans hc)⟩

section

variable {item : Parse α} {c c' : Cursor} {xs : List α}

theorem declsWhile_eq_ok_iff {more : Cursor → Bool} (hloops : Loops more declEnd)
    (htakes : ∀ c, more c = true → Consumes item (· ≠ []) c) {n : Nat} (hn : c.rest.length ≤ n) :
    declsWhile more item n c = .ok (xs, c') ↔ Items more declEnd item c xs c' := by
  refine items_iff hloops htakes (fun _ => rfl) (fun n c hc => ?_) (fun n c hc => ?_) hn
  · show (if more c then _ else _ : Parse (List α)) c = _
    rw [if_neg (by simp [hc])]
    rfl
  · show (if more c then _ else _ : Parse (List α)) c = _
    rw [if_pos hc]

theorem blockItems_eq_ok_iff {close : Mark} (hclose : close ≠ .semi)
    (htakes : ∀ c, Consumes item (· ≠ []) c) {n : Nat} (hn : c.rest.length ≤ n) :
    blockItems close item n c = .ok (xs, c') ↔
      Items (fun c => !(c.isAt close || c.atEnd)) (semiBefore close) item c xs c' := by
  refine items_iff (loops_semiBefore hclose) (fun c _ => htakes c) (fun _ => rfl)
    (fun n c hc => ?_) (fun n c hc => ?_) hn
  · show (if c.isAt close || c.atEnd then _ else _ : Parse (List α)) c = _
    rw [if_pos (by simpa only [Bool.not_eq_false'] using hc)]
    rfl
  · show (if c.isAt close || c.atEnd then _ else _ : Parse (List α)) c = _
    rw [if_neg (by simpa using hc)]

end

/-- A block is its items and the mark that closes it. -/
theorem block_eq_ok_iff {item : Parse α} {close : Mark} (hclose : close ≠ .semi)
    (htakes : ∀ c, Consumes item (· ≠ []) c) {c c' : Cursor} {xs : List α} {s : Span} :
    block close item c = .ok ((xs, s), c') ↔ ∃ c₁,
      Items (fun c => !(c.isAt close || c.atEnd)) (semiBefore close) item c xs c₁ ∧
        expect (.mark close) c₁ = .ok (s, c') := by
  have hblock : block close item c = (blockItems close item c.rest.length >>= fun xs =>
      expect (.mark close) >>= fun s => pure (xs, s)) c := rfl
  rw [hblock]
  constructor
  · intro h
    obtain ⟨ys, c₁, hys, h⟩ := ok_of_bind h
    obtain ⟨s', c₂, hs, h⟩ := ok_of_bind h
    cases h
    exact ⟨c₁, (blockItems_eq_ok_iff hclose htakes (Nat.le_refl _)).1 hys, hs⟩
  · rintro ⟨c₁, hxs, hs⟩
    rw [bind_of_ok ((blockItems_eq_ok_iff hclose htakes (Nat.le_refl _)).2 hxs), bind_of_ok hs]
    rfl

/-! ## Files -/

/-- The package clause with the semicolon after it. -/
def clause : Parse (Span × Ident) := do
  let package ← expect (.keyword .packageKw)
  let name ← ident
  if (← eat .semi).isNone then expected .semicolon
  return (package, name)

theorem clause_eq_ok_iff {c c' : Cursor} {p : Span × Ident} :
    clause c = .ok (p, c') ↔ ∃ a b l rest name, c.rest = a :: b :: l :: rest ∧
      a.token = .keyword .packageKw ∧ b.token = .ident name ∧ l.token = .mark .semi ∧
      p = (a.span, ⟨name, b.span⟩) ∧ c' = { c with rest, last := l.span } := by
  constructor
  · intro h
    obtain ⟨package, c₁, hpackage, h⟩ := ok_of_bind h
    obtain ⟨x, c₂, hx, h⟩ := ok_of_bind h
    obtain ⟨semi, c₃, hsemi, h⟩ := ok_of_bind h
    obtain ⟨a, ls, hc, ha, rfl, rfl⟩ := expect_eq_ok_iff.1 hpackage
    obtain ⟨b, ms, name, hls, hb, rfl, rfl⟩ := ident_eq_ok_iff.1 hx
    obtain rfl : ls = b :: ms := hls
    rcases eat_cases .semi { c with rest := ms, last := b.span } with ⟨l, rest, hms, hl⟩ | hne
    · obtain rfl : ms = l :: rest := hms
      rw [eat_some rfl hl] at hsemi
      cases hsemi
      cases h
      exact ⟨a, b, l, rest, name, hc, ha, hb, hl, rfl, rfl⟩
    · rw [eat_none hne] at hsemi
      cases hsemi
      cases h
  · rintro ⟨a, b, l, rest, name, hc, ha, hb, hl, rfl, rfl⟩
    have hpackage := expect_eq_ok_iff.2 ⟨a, b :: l :: rest, hc, ha, rfl, rfl⟩
    rw [clause, bind_of_ok hpackage, bind_of_ok (ident_eq_ok_iff.2 ⟨b, _, name, rfl, hb, rfl, rfl⟩),
      bind_of_ok (eat_some rfl hl)]
    rfl

def startsImport (c : Cursor) : Bool := c.next? == some (.keyword .importKw)

theorem loops_imports : Loops startsImport declEnd :=
  loops_declEnd (fun c d h => by rw [startsImport, h, startsImport]) fun c h => by
    simp [startsImport, Cursor.next?, h]

theorem loops_decls : Loops (!·.atEnd) declEnd := by
  refine loops_declEnd (fun c d h => ?_) fun c h => by simp [Cursor.atEnd, h]
  rw [Bool.not_inj_iff, Bool.eq_iff_iff, Cursor.atEnd_iff, Cursor.atEnd_iff, h]

/-- A file is its package clause, its imports and its declarations. -/
theorem file_eq_ok_iff {c c' : Cursor} {f : File} :
    file c = .ok (f, c') ↔ ∃ c₁ is c₂, clause c = .ok ((f.package, f.name), c₁) ∧
      Items startsImport declEnd importDecl c₁ is c₂ ∧
      Items (!·.atEnd) declEnd decl c₂ f.decls c' ∧ f.imports = is.flatten := by
  have himports {n : Nat} {c₁ c₂ : Cursor} {is : List (List ImportSpec)}
      (hn : c₁.rest.length ≤ n) : declsWhile startsImport importDecl n c₁ = .ok (is, c₂) ↔ _ :=
    declsWhile_eq_ok_iff loops_imports
      (fun c _ => Consumes.importDecl.mono fun _ h => h.ne_nil) hn
  have hdecls {n : Nat} {c₂ : Cursor} {ds : List Decl}
      (hn : c₂.rest.length ≤ n) : declsWhile (!·.atEnd) decl n c₂ = .ok (ds, c') ↔ _ :=
    declsWhile_eq_ok_iff loops_decls (fun c _ => Consumes.decl.mono fun _ h => h.ne_nil) hn
  have hfile : file = clause >>= fun p => get >>= fun c₁ =>
      declsWhile startsImport importDecl c₁.rest.length >>= fun is => get >>= fun c₂ =>
        declsWhile (!·.atEnd) decl c₂.rest.length >>= fun ds =>
          pure ⟨p.1, p.2, is.flatten, ds⟩ := by
    simp only [file, clause, bind_assoc]
    congr
    funext package
    congr
    funext name
    congr
    funext semi
    split
    · rw [bind_assoc]
      rfl
    · rw [pure_bind]
      rfl
  rw [hfile]
  constructor
  · intro h
    obtain ⟨p, c₁, hclause, h⟩ := ok_of_bind h
    obtain ⟨_, _, ⟨⟩, h⟩ := ok_of_bind h
    obtain ⟨is, c₂, his, h⟩ := ok_of_bind h
    obtain ⟨_, _, ⟨⟩, h⟩ := ok_of_bind h
    obtain ⟨ds, c₃, hds, h⟩ := ok_of_bind h
    cases h
    exact ⟨c₁, is, c₂, hclause, (himports (Nat.le_refl _)).1 his, (hdecls (Nat.le_refl _)).1 hds,
      rfl⟩
  · obtain ⟨package, name, imports, decls⟩ := f
    rintro ⟨c₁, is, c₂, hclause, his, hds, rfl⟩
    have hget (c : Cursor) : (get : Parse Cursor) c = .ok (c, c) := rfl
    rw [bind_of_ok hclause, bind_of_ok (hget c₁), bind_of_ok ((himports (Nat.le_refl _)).2 his),
      bind_of_ok (hget c₂), bind_of_ok ((hdecls (Nat.le_refl _)).2 hds)]
    rfl

/-! ## Items at other places -/

section

variable {P : Placement} {more : Cursor → Bool} {ender : Parse Unit} {item : Parse α}
  {item' : Parse β} {f : α → β} (hmore : ∀ c, more (c.placed P) = more c)
  (hender : Natural P ender ender id) (hitem : Natural P item item' f)

include hmore hender hitem

theorem Items.placed {c c' : Cursor} {xs : List α} (h : Items more ender item c xs c')
    (hc : P.Keeps c.rest) :
    Items more ender item' (c.placed P) (xs.map f) (c'.placed P) := by
  induction h with
  | stop hstop => exact .stop ((hmore _).trans hstop)
  | item hgo hx hend _ ih =>
    obtain ⟨hx, hc₁⟩ := hitem.made hc hx
    obtain ⟨hend, hc₂⟩ := hender.made hc₁ hend
    exact .item ((hmore _).trans hgo) hx hend (ih hc₂)

theorem Items.of_placed {c d : Cursor} {ys : List β}
    (h : Items more ender item' (c.placed P) ys d) (hc : P.Keeps c.rest) :
    ∃ xs c', Items more ender item c xs c' ∧ ys = xs.map f ∧ d = c'.placed P := by
  generalize hd : c.placed P = c₀ at h
  induction h generalizing c with
  | stop hstop =>
    subst hd
    exact ⟨[], c, .stop ((hmore c).symm.trans hstop), rfl, rfl⟩
  | item hgo hx hend _ ih =>
    subst hd
    obtain ⟨x, c₁, hread, rfl, rfl⟩ := hitem.of_made hc hx
    obtain ⟨-, hc₁⟩ := hitem.made hc hread
    obtain ⟨_, c₂, hended, -, rfl⟩ := hender.of_made hc₁ hend
    obtain ⟨-, hc₂⟩ := hender.made hc₁ hended
    obtain ⟨xs, c', h, rfl, rfl⟩ := ih hc₂ rfl
    exact ⟨x :: xs, c', .item ((hmore c).symm.trans hgo) hread hended h, rfl, rfl⟩

end

end GoIface.Parse
