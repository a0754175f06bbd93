import GoIface.Tree.Types

/-!
# Readers that take what is there

A reader takes a run of tokens if it reads just these, wherever they stand and whatever their
spans, as long as what comes next is something that may follow them. Taking goes along with the
way readers are put together: what two readers take one after the other, the two in sequence take
(`Takes.bind`), and the three kinds of sequence take their items with the separators between them.

A tree keeps the spans of some runs. A legend spells out what is written at such a span, and says
what is known of the span that a run is read from.
-/

namespace GoIface

/-- From the first lexeme of a run to its last. -/
def runSpan : List Lexeme → Span
  | [] => .point 0
  | l :: ls => l.span.hull (ls.getLast?.getD l).span

structure Legend where
  spell : Span → List Token
  /-- What is known of the span of a run of tokens. -/
  known : List Token → Span → Prop

def Legend.Fits (L : Legend) (ls : List Lexeme) : Prop :=
  ∀ run, run <:+: ls → run ≠ [] → L.known (run.map Lexeme.token) (runSpan run)

/-- Of the span that was read it is known what would be for the one that is kept. -/
def Legend.same (L : Legend) (read kept : Span) : Prop := L.known (L.spell kept) read

@[simp] theorem runSpan_singleton (l : Lexeme) : runSpan [l] = l.span := by
  simp [runSpan, Span.hull]

theorem Legend.Fits.mono {L : Legend} {ls ms : List Lexeme} (h : L.Fits ls) (hm : ms <:+: ls) :
    L.Fits ms :=
  fun run hr => h run (hr.trans hm)

theorem Legend.Fits.of_append {L : Legend} {ls ms : List Lexeme} (h : L.Fits (ls ++ ms)) :
    L.Fits ls ∧ L.Fits ms :=
  ⟨h.mono (List.prefix_append ls ms).isInfix, h.mono (List.suffix_append ls ms).isInfix⟩

/-- The tokens of runs with a separator between them. -/
def joined (separator : Mark) : List (List Token) → List Token
  | [] => []
  | ts :: rest => ts ++ rest.flatMap (.mark separator :: ·)

@[simp] theorem joined_nil (separator : Mark) : joined separator [] = [] := rfl

@[simp] theorem joined_singleton (separator : Mark) (ts : List Token) :
    joined separator [ts] = ts :=
  List.append_nil ts

theorem joined_cons_cons (separator : Mark) (ts us : List Token) (rest : List (List Token)) :
    joined separator (ts :: us :: rest)
      = ts ++ .mark separator :: joined separator (us :: rest) := by
  simp [joined]

theorem joined_cons (separator : Mark) (ts : List Token) {rest : List (List Token)}
    (h : rest ≠ []) :
    joined separator (ts :: rest) = ts ++ .mark separator :: joined separator rest := by
  obtain ⟨us, rest, rfl⟩ := List.exists_cons_of_ne_nil h
  exact joined_cons_cons separator ts us rest

theorem joined_append (separator : Mark) {runs rest : List (List Token)} (hruns : runs ≠ [])
    (hrest : rest ≠ []) : joined separator (runs ++ rest)
      = joined separator runs ++ .mark separator :: joined separator rest := by
  obtain ⟨ts, runs, rfl⟩ := List.exists_cons_of_ne_nil hruns
  obtain ⟨us, rest, rfl⟩ := List.exists_cons_of_ne_nil hrest
  simp [joined]

/-- Runs of runs, joined as one. -/
theorem joined_flatMap {γ : Type} (separator : Mark) {f : γ → List (List Token)} :
    ∀ {xs : List γ}, (∀ x ∈ xs, f x ≠ []) →
      joined separator (xs.flatMap f) = joined separator (xs.map fun x => joined separator (f x))
  | [], _ => rfl
  | [x], _ => by simp
  | x :: y :: xs, h => by
    have ih : joined separator ((y :: xs).flatMap f) = _ :=
      joined_flatMap separator fun z hz => h z (List.mem_cons_of_mem _ hz)
    have hne : (y :: xs).flatMap f ≠ [] := by
      simp [h y (by simp)]
    rw [List.flatMap_cons, joined_append separator (h x (by simp)) hne, ih]
    simp [joined]

theorem length_le_flatMap (separator : Mark) :
    ∀ runs : List (List Token), runs.length ≤ (runs.flatMap (.mark separator :: ·)).length
  | [] => by simp
  | ts :: rest => by
    have ih := length_le_flatMap separator rest
    simp only [List.flatMap_cons, List.length_append, List.length_cons]
    omega

theorem length_le_joined (separator : Mark) {runs : List (List Token)}
    (h : ∀ ts ∈ runs, ts ≠ []) : runs.length ≤ (joined separator runs).length := by
  cases runs with
  | nil => simp
  | cons ts rest =>
    have hpos := List.length_pos_iff.2 (h ts (by simp))
    have hrest := length_le_flatMap separator rest
    simp only [joined, List.length_append, List.length_cons]
    omega

/-- Runs with commas between them and perhaps one after the last. -/
def listing (trailing : Bool) (runs : List (List Token)) : List Token :=
  joined .comma runs ++ if trailing && !runs.isEmpty then [Token.mark .comma] else []

@[simp] theorem listing_false (runs : List (List Token)) :
    listing false runs = joined .comma runs := by
  simp [listing]

theorem length_le_listing (trailing : Bool) {runs : List (List Token)} (h : ∀ ts ∈ runs, ts ≠ []) :
    runs.length ≤ (listing trailing runs).length := by
  have := length_le_joined .comma h
  simp only [listing, List.length_append]
  omega

theorem listing_cons (trailing : Bool) (ts : List Token) {rest : List (List Token)}
    (h : trailing = true ∨ rest ≠ []) :
    listing trailing (ts :: rest) = ts ++ .mark .comma :: listing trailing rest := by
  rcases rest with _ | ⟨us, rest⟩
  · obtain rfl : trailing = true := by simpa using h
    simp [listing]
  · simp [listing, joined]

/-- What a run is followed by: a token, or the end of the text. -/
abbrev Follow := Option Token → Prop

/-- Whatever follows. -/
def anything : Follow := fun _ => True

/-- The next token after a run with what follows it. -/
def nextOf (ts : List Token) (o : Option Token) : Option Token := ts.head?.or o

@[simp] theorem nextOf_nil (o : Option Token) : nextOf [] o = o := rfl

@[simp] theorem nextOf_cons (t : Token) (ts : List Token) (o : Option Token) :
    nextOf (t :: ts) o = some t := rfl

theorem head?_append_map (ls r : List Lexeme) :
    (ls ++ r).head?.map Lexeme.token
      = nextOf (ls.map Lexeme.token) (r.head?.map Lexeme.token) := by
  cases ls <;> rfl

theorem Cursor.next?_of_rest {μ : Type} {c : Cursor μ} {ls r : List Lexeme} (h : c.rest = ls ++ r) :
    c.next? = nextOf (ls.map Lexeme.token) (r.head?.map Lexeme.token) := by
  rw [Cursor.next?, h, head?_append_map]

theorem Cursor.isAt_iff {μ : Type} {c : Cursor μ} {m : Mark} :
    c.isAt m = true ↔ c.next? = some (.mark m) := by
  simp [Cursor.isAt]

theorem Cursor.atEnd_iff {μ : Type} {c : Cursor μ} : c.atEnd = true ↔ c.next? = none := by
  simp [Cursor.atEnd, Cursor.next?]

namespace Parse

variable {α β : Type}

section

variable {μ : Type} {p : ParseOf μ α} {f : α → ParseOf μ β} {c c' : Cursor μ}

theorem bind_of_ok {x : α} (h : p c = .ok (x, c')) : (p >>= f) c = f x c' := by
  show Except.bind (p c) _ = _
  rw [h]
  rfl

theorem bind_of_error {e : Located ParseFault} (h : p c = .error e) :
    (p >>= f) c = .error e := by
  show Except.bind (p c) _ = _
  rw [h]
  rfl

end

/-- The reader takes the tokens if something that `F` holds of follows, and `P` holds of what it
makes of them. -/
def Takes (L : Legend) (p : Parse α) (ts : List Token) (F : Follow) (P : α → Prop) : Prop :=
  ∀ (c : Cursor) (ls r : List Lexeme), ls.map Lexeme.token = ts → L.Fits ls →
    F (r.head?.map Lexeme.token) → c.rest = ls ++ r →
    ∃ x c', p c = .ok (x, c') ∧ c'.rest = r ∧ P x

namespace Takes

variable {L : Legend} {F F' : Follow} {ts us : List Token} {P : α → Prop} {Q : β → Prop}

theorem pure {x : α} (hx : P x) : Takes L (pure x) [] F P := by
  intro c ls r hls _ _ hc
  obtain rfl := List.map_eq_nil_iff.1 hls
  exact ⟨x, c, rfl, hc, hx⟩

/-- What is taken one after the other. The first run has to do with how the second one starts. -/
theorem bind {p : Parse α} {f : α → Parse β} (hp : Takes L p ts F' P)
    (hf : ∀ x, P x → Takes L (f x) us F Q) (hF : ∀ o, F o → F' (nextOf us o)) :
    Takes L (p >>= f) (ts ++ us) F Q := by
  intro c ls r hls hL ho hc
  obtain ⟨ls₁, ls₂, rfl, h₁, h₂⟩ := List.map_eq_append_iff.1 hls
  obtain ⟨hL₁, hL₂⟩ := hL.of_append
  have ho₁ : F' ((ls₂ ++ r).head?.map Lexeme.token) := by
    rw [head?_append_map, h₂]
    exact hF _ ho
  obtain ⟨x, c₁, hx, hc₁, hP⟩ := hp c ls₁ (ls₂ ++ r) h₁ hL₁ ho₁ (by rw [hc, List.append_assoc])
  obtain ⟨y, c₂, hy, hc₂, hQ⟩ := hf x hP c₁ ls₂ r h₂ hL₂ ho hc₁
  exact ⟨y, c₂, by rw [bind_of_ok hx, hy], hc₂, hQ⟩

theorem step {p : Parse α} {f : α → Parse β} {t : Token} (hp : Takes L p [t] F' P)
    (hf : ∀ x, P x → Takes L (f x) us F Q) (hF : ∀ o, F o → F' (nextOf us o)) :
    Takes L (p >>= f) (t :: us) F Q :=
  hp.bind hf hF

/-- The first of the two takes nothing. -/
theorem skip {p : Parse α} {f : α → Parse β} (hp : Takes L p [] F' P)
    (hf : ∀ x, P x → Takes L (f x) us F Q) (hF : ∀ o, F o → F' (nextOf us o)) :
    Takes L (p >>= f) us F Q :=
  hp.bind hf hF

/-- The second of the two takes nothing. -/
theorem finish {p : Parse α} {f : α → Parse β} (hp : Takes L p ts F P)
    (hf : ∀ x, P x → Takes L (f x) [] F Q) : Takes L (p >>= f) ts F Q := by
  have h : Takes L (p >>= f) (ts ++ []) F Q := hp.bind hf fun _ h => h
  rwa [List.append_nil] at h

theorem map {p : Parse α} {f : α → β} (hp : Takes L p ts F P) (hf : ∀ x, P x → Q (f x)) :
    Takes L (f <$> p) ts F Q :=
  hp.finish (f := fun x => Pure.pure (f x)) fun x hx => .pure (hf x hx)

theorem mono {p : Parse α} {P' : α → Prop} (hp : Takes L p ts F' P) (hF : ∀ o, F o → F' o)
    (hP : ∀ x, P x → P' x) : Takes L p ts F P' := by
  intro c ls r hls hL ho hc
  obtain ⟨x, c', hx, hc', hPx⟩ := hp c ls r hls hL (hF _ ho) hc
  exact ⟨x, c', hx, hc', hP x hPx⟩

/-- A reader that looks ahead may tell the tokens it is to take by what it sees. -/
theorem look {f : Cursor → Parse α}
    (hf : ∀ (c : Cursor) (ls r : List Lexeme), ls.map Lexeme.token = ts →
      F (r.head?.map Lexeme.token) → c.rest = ls ++ r → Takes L (f c) ts F P) :
    Takes L (get >>= f) ts F P :=
  fun c ls r hls hL ho hc => hf c ls r hls ho hc c ls r hls hL ho hc

/-- A reader that only looks at the next token. -/
theorem peek {f : Cursor → Parse α}
    (hf : ∀ (c : Cursor) (o : Option Token), F o → c.next? = nextOf ts o → Takes L (f c) ts F P) :
    Takes L (get >>= f) ts F P := by
  refine .look fun c ls r hls ho hc => hf c _ ho ?_
  rw [Cursor.next?_of_rest hc, hls]

theorem bump (t : Token) : Takes L bump [t] F (L.known [t]) := by
  intro c ls r hls hL _ hc
  obtain ⟨l, rfl, rfl⟩ := List.map_eq_singleton_iff.1 hls
  have hl := hL [l] List.infix_rfl (by simp)
  rw [runSpan_singleton] at hl
  exact ⟨l.span, _, by rw [Parse.bump, hc]; rfl, rfl, hl⟩

theorem eat_self (m : Mark) : Takes L (eat m) [.mark m] F fun s => s.isSome = true := by
  refine .peek fun c o _ hc => ?_
  rw [if_pos (Cursor.isAt_iff.2 (by simpa using hc))]
  exact (bump _).map fun _ _ => rfl

theorem eat_other {m : Mark} (hF : ∀ o, F o → o ≠ some (.mark m)) :
    Takes L (eat m) [] F fun s => s = none := by
  refine .peek fun c o ho hc => ?_
  rw [if_neg (mt Cursor.isAt_iff.1 (by simpa [hc] using hF o ho))]
  exact .pure rfl

/-- A mark that may be there or not. -/
theorem eat_if (m : Mark) (b : Bool) :
    Takes L (eat m) (if b then [.mark m] else []) (· ≠ some (.mark m)) fun s => s.isSome = b := by
  cases b with
  | true => exact eat_self m
  | false => exact (eat_other fun _ h => h).mono (fun _ h => h) fun s hs => by rw [hs]; rfl

theorem expect (t : Token) : Takes L (expect t) [t] F (L.known [t]) := by
  refine .peek fun c o _ hc => ?_
  rw [if_pos (by simpa using hc)]
  exact bump t

theorem ident (name : String) : Takes L ident [.ident name] F fun x => x.name = name := by
  refine .peek fun c o _ hc => ?_
  rw [hc, nextOf_cons]
  exact (bump _).map fun _ _ => rfl

/-! ## Sequences -/

section Sequence

variable {γ : Type} {item : Parse α} {tok : γ → List Token} {G : α → β} {H : γ → β}

theorem moreItems {separator : Mark} :
    ∀ (xs : List γ) (n : Nat), xs.length ≤ n →
      (∀ x ∈ xs, Takes L item (tok x) (fun o => F o ∨ o = some (.mark separator))
        fun y => G y = H x) →
      (∀ o, F o → o ≠ some (.mark separator)) →
      Takes L (moreItems separator item n) ((xs.map tok).flatMap (.mark separator :: ·)) F
        fun ys => ys.map G = xs.map H
  | [], 0, _, _, _ => .pure rfl
  | [], n + 1, _, _, hF => by
    refine (eat_other hF).skip ?_ fun _ h => h
    rintro _ rfl
    exact .pure rfl
  | x :: xs, n + 1, hn, hitem, hF => by
    refine (eat_self (F := anything) separator).step (fun s hs => ?_) fun _ _ => trivial
    obtain ⟨s, rfl⟩ := Option.isSome_iff_exists.1 hs
    have ih := moreItems xs n (by simpa using hn) (fun y hy => hitem y (by simp [hy])) hF
    refine (hitem x (by simp)).bind (fun y hy => ?_) fun o ho => ?_
    · exact ih.map fun ys hys => by simp [hy, hys]
    · cases xs with
      | nil => exact .inl ho
      | cons x xs => exact .inr rfl

theorem separated {separator : Mark} {xs : List γ} (hne : xs ≠ [])
    (hitem : ∀ x ∈ xs, Takes L item (tok x) (fun o => F o ∨ o = some (.mark separator))
      fun y => G y = H x)
    (hF : ∀ o, F o → o ≠ some (.mark separator)) :
    Takes L (separated separator item) (joined separator (xs.map tok)) F
      fun ys => ys.map G = xs.map H := by
  obtain ⟨x, xs, rfl⟩ := List.exists_cons_of_ne_nil hne
  refine (hitem x (by simp)).bind (fun y hy => ?_) fun o ho => ?_
  · refine .look fun c ls r hls _ hc => ?_
    have hn : xs.length ≤ c.rest.length := by
      have hlen := congrArg List.length hls
      have hle := length_le_flatMap separator (xs.map tok)
      rw [hc, List.length_append]
      simp only [List.length_map] at hlen hle
      omega
    exact (moreItems xs _ hn (fun z hz => hitem z (by simp [hz])) hF).map
      fun ys hys => by simp [hy, hys]
  · cases xs with
    | nil => exact .inl ho
    | cons x xs => exact .inr rfl

/-- A list stops where it is closed, and no item of it starts there. -/
structure Stops (stop : Cursor → Bool) (close : Mark) : Prop where
  at_close : ∀ c : Cursor, c.next? = some (.mark close) → stop c = true
  at_other : ∀ (c : Cursor) (t : Token), c.next? = some t → t ≠ .mark close → stop c = false

/-- What may follow an item of a list. -/
def afterItem (close : Mark) : Follow := fun o => o = some (.mark .comma) ∨ o = some (.mark close)

/-- An item of a block or list is something, and does not start with what closes it. -/
def StartsItem (close : Mark) (ts : List Token) : Prop := ∃ t us, ts = t :: us ∧ t ≠ .mark close

variable {stop : Cursor → Bool} {close : Mark}

theorem ne_nil_of_startsItem {xs : List γ} (h : ∀ x ∈ xs, StartsItem close (tok x)) :
    ∀ ts ∈ xs.map tok, ts ≠ [] := by
  intro ts hts
  obtain ⟨x, hx, rfl⟩ := List.mem_map.1 hts
  obtain ⟨t, us, ht, -⟩ := h x hx
  simp [ht]

theorem listedItems (hstop : Stops stop close) (hclose : close ≠ .comma) (trailing : Bool) :
    ∀ (xs : List γ) (n : Nat), xs.length ≤ n →
      (∀ x ∈ xs, Takes L item (tok x) (afterItem close) fun y => G y = H x) →
      (∀ x ∈ xs, StartsItem close (tok x)) →
      Takes L (Parse.listedItems stop item n) (listing trailing (xs.map tok))
        (· = some (.mark close)) fun ys => ys.map G = xs.map H
  | [], n, _, _, _ => by
    have hnil : listing trailing (([] : List γ).map tok) = [] := by simp [listing]
    rw [hnil]
    cases n <;>
    · refine .peek fun c o ho hc => ?_
      rw [if_pos (hstop.at_close c (by simpa [ho] using hc))]
      exact .pure rfl
  | x :: xs, n + 1, hn, hitem, hstart => by
    obtain ⟨t, us, ht, hne⟩ := hstart x (by simp)
    refine .peek fun c o _ hc => ?_
    have hc : c.next? = some t := by simpa [listing, joined, ht] using hc
    rw [if_neg (by simp [hstop.at_other c t hc hne])]
    by_cases h : trailing = true ∨ xs.map tok ≠ []
    · have ih := listedItems hstop hclose trailing xs n (by simpa using hn)
        (fun y hy => hitem y (by simp [hy])) fun y hy => hstart y (by simp [hy])
      rw [List.map_cons, listing_cons _ _ h]
      refine (hitem x (by simp)).bind (fun y hy => ?_) fun _ _ => .inl rfl
      refine (eat_self (F := anything) .comma).step (fun s hs => ?_) fun _ _ => trivial
      obtain ⟨s, rfl⟩ := Option.isSome_iff_exists.1 hs
      exact ih.map fun ys hys => by simp [hy, hys]
    · obtain ⟨rfl, rfl⟩ : trailing = false ∧ xs = [] := by simpa using h
      have hend : ∀ o, o = some (Token.mark close) → o ≠ some (.mark .comma) := by
        rintro _ rfl
        simpa using hclose
      rw [List.map_singleton, listing_false, joined_singleton]
      refine ((hitem x (by simp)).mono (fun _ => .inr) fun _ h => h).finish fun y hy => ?_
      refine (eat_other hend).skip ?_ fun _ h => h
      rintro _ rfl
      exact .pure (by simp [hy])

theorem listed (hstop : Stops stop close) (hclose : close ≠ .comma) (trailing : Bool)
    {xs : List γ} (hitem : ∀ x ∈ xs, Takes L item (tok x) (afterItem close) fun y => G y = H x)
    (hstart : ∀ x ∈ xs, StartsItem close (tok x)) :
    Takes L (Parse.listed stop item) (listing trailing (xs.map tok)) (· = some (.mark close))
      fun ys => ys.map G = xs.map H := by
  refine .look fun c ls r hls _ hc => ?_
  have hlen := congrArg List.length hls
  have hle := length_le_listing trailing (ne_nil_of_startsItem hstart)
  refine listedItems hstop hclose trailing xs _ ?_ hitem hstart
  rw [hc, List.length_append]
  simp only [List.length_map] at hlen hle
  omega

/-- What may follow an item of a block. -/
def endsItem (close : Mark) : Follow := fun o => o = some (.mark .semi) ∨ o = some (.mark close)

theorem semiBefore_close (hclose : close ≠ .semi) :
    Takes L (Parse.semiBefore close) [] (· = some (.mark close)) fun _ => True := by
  have hF : ∀ o, o = some (Token.mark close) → o ≠ some (.mark .semi) := by
    rintro _ rfl
    simpa using hclose
  refine .peek fun c o ho hc => ?_
  refine (eat_other hF).skip (fun s _ => ?_) fun _ h => h
  rw [if_pos (by simp [Cursor.isAt_iff, hc, ho])]
  exact .pure trivial

theorem semiBefore_semi :
    Takes L (Parse.semiBefore close) [.mark .semi] anything fun _ => True := by
  refine .peek fun c o _ _ => ?_
  refine (eat_self (F := anything) .semi).step (fun s hs => ?_) fun _ _ => trivial
  rw [if_pos (by simp [hs])]
  exact .pure trivial

theorem blockItems (hclose : close ≠ .semi) :
    ∀ (xs : List γ) (n : Nat), xs.length ≤ n →
      (∀ x ∈ xs, Takes L item (tok x) (endsItem close) fun y => G y = H x) →
      (∀ x ∈ xs, StartsItem close (tok x)) →
      Takes L (Parse.blockItems close item n) (joined .semi (xs.map tok))
        (· = some (.mark close)) fun ys => ys.map G = xs.map H
  | [], 0, _, _, _ => .pure rfl
  | [], n + 1, _, _, _ => by
    refine .peek fun c o ho hc => ?_
    rw [if_pos (by simp [Cursor.isAt_iff, hc, ho])]
    exact .pure rfl
  | x :: xs, n + 1, hn, hitem, hstart => by
    have ih := blockItems hclose xs n (by simpa using hn) (fun y hy => hitem y (by simp [hy]))
      fun y hy => hstart y (by simp [hy])
    obtain ⟨t, us, ht, hne⟩ := hstart x (by simp)
    refine .peek fun c o _ hc => ?_
    have hc : c.next? = some t := by simpa [joined, ht] using hc
    rw [if_neg (by simp [Cursor.isAt_iff, Cursor.atEnd_iff, hc, hne])]
    have hx := hitem x (by simp)
    rcases xs with _ | ⟨z, zs⟩
    · rw [List.map_singleton, joined_singleton]
      refine (hx.mono (fun _ => .inr) fun _ h => h).finish fun y hy => ?_
      refine (semiBefore_close hclose).skip (fun _ _ => ?_) fun _ h => h
      exact ih.map fun ys hys => by simp [hy, hys]
    · rw [List.map_cons, List.map_cons, joined_cons_cons]
      refine hx.bind (fun y hy => ?_) fun _ _ => .inl rfl
      refine semiBefore_semi.step (fun _ _ => ?_) fun _ _ => trivial
      exact ih.map fun ys hys => by simp [hy, hys]

theorem block (hclose : close ≠ .semi) {xs : List γ}
    (hitem : ∀ x ∈ xs, Takes L item (tok x) (endsItem close) fun y => G y = H x)
    (hstart : ∀ x ∈ xs, StartsItem close (tok x)) :
    Takes L (Parse.block close item) (joined .semi (xs.map tok) ++ [Token.mark close]) F
      fun p => p.1.map G = xs.map H := by
  refine .look fun c ls r hls _ hc => ?_
  have hlen := congrArg List.length hls
  have hle := length_le_joined .semi (ne_nil_of_startsItem hstart)
  have hn : xs.length ≤ c.rest.length := by
    rw [hc, List.length_append]
    simp only [List.length_map, List.length_append] at hlen hle
    omega
  refine (blockItems hclose xs _ hn hitem hstart).bind (fun ys hys => ?_) fun _ _ => rfl
  exact (expect (F := F) (.mark close)).map fun _ _ => hys

end Sequence

end Takes

end Parse

end GoIface
