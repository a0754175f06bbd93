import GoIface.Proofs.LexemeChanges
import GoIface.Proofs.Levels
import GoIface.Proofs.Renaming

/-!
# Reading under other names

What is read does not depend on the names of identifiers. Of the same lexemes under other names a
reader makes the same tree under these names (`Parse.Renames`), as no reader looks at a name but to
see whether it is blank. Readers put together of such readers are such readers, and reading a file
is one of them (`Renames.file`).
-/

namespace GoIface

variable {α β γ δ : Type}

/-! ## Cursors -/

def Cursor.renamed (ρ : Renaming) (c : Cursor) : Cursor :=
  { c with rest := c.rest.map (Lexeme.renamed ρ) }

section

variable (ρ : Renaming)

/-- What is no identifier is left as it is. -/
theorem Lexeme.renamed_cases (l : Lexeme) :
    (∃ x s, l = ⟨.ident x, s⟩ ∧ l.renamed ρ = ⟨.ident (ρ.name ⟨x, s⟩), s⟩) ∨
      (∀ x, l.token ≠ .ident x) ∧ l.renamed ρ = l := by
  obtain ⟨t, s⟩ := l
  cases t with
  | ident x => exact .inl ⟨x, s, rfl, rfl⟩
  | _ => exact .inr ⟨by simp, rfl⟩

/-- A property of tokens that all identifiers have or none. -/
theorem Lexeme.renamed_congr {τ : Type} {g : Token → τ} (hg : ∀ x y, g (.ident x) = g (.ident y))
    (l : Lexeme) : g (l.renamed ρ).token = g l.token := by
  rcases l.renamed_cases ρ with ⟨x, s, rfl, h⟩ | ⟨-, h⟩
  · rw [h]
    exact hg _ _
  · rw [h]

namespace Cursor

variable (c : Cursor)

theorem renamed_rest : (c.renamed ρ).rest = c.rest.map (Lexeme.renamed ρ) := rfl

/-- The next token is an identifier here and there, blank at both or at none, or the same. -/
theorem next?_renamed :
    (∃ x y, c.next? = some (.ident x) ∧ (c.renamed ρ).next? = some (.ident y) ∧
      (y = "_" ↔ x = "_")) ∨
    (∀ x, c.next? ≠ some (.ident x)) ∧ (c.renamed ρ).next? = c.next? := by
  obtain ⟨_ | ⟨l, ls⟩, last, e, made⟩ := c
  · exact .inr ⟨by simp [next?], rfl⟩
  · rcases l.renamed_cases ρ with ⟨x, s, rfl, h⟩ | ⟨hne, h⟩
    · exact .inl ⟨x, ρ.name ⟨x, s⟩, rfl, by simp [renamed, next?, h], ρ.blank _⟩
    · exact .inr ⟨by simpa [next?] using hne, by simp [renamed, next?, h]⟩

theorem next?_renamed_congr {τ : Type} {g : Option Token → τ}
    (hg : ∀ x y, g (some (.ident x)) = g (some (.ident y))) :
    g (c.renamed ρ).next? = g c.next? := by
  rcases c.next?_renamed ρ with ⟨x, y, h, h', -⟩ | ⟨-, h⟩
  · rw [h, h']
    exact hg _ _
  · rw [h]

theorem isAt_renamed (m : Mark) : (c.renamed ρ).isAt m = c.isAt m :=
  c.next?_renamed_congr ρ (g := (· == some (.mark m))) fun _ _ => rfl

theorem atEnd_renamed : (c.renamed ρ).atEnd = c.atEnd := List.isEmpty_map

theorem here_renamed : (c.renamed ρ).here = c.here := by
  obtain ⟨_ | ⟨l, ls⟩, last, e, made⟩ := c
  · rfl
  · simp [renamed, here]

theorem length_renamed : (c.renamed ρ).rest.length = c.rest.length := List.length_map _

end Cursor

/-! ## Looking ahead -/

def LexemeChange.renamed : LexemeChange :=
  ⟨Lexeme.renamed ρ, id, Lexeme.renamed_span ρ, fun l => by
    rcases l.renamed_cases ρ with ⟨x, s, rfl, h⟩ | ⟨-, h⟩
    · rw [h]
      exact .ident _ _
    · rw [h]
      exact .refl _⟩

namespace Parse

theorem entryStart_renamed (ls : List Lexeme) :
    entryStart (ls.map (Lexeme.renamed ρ)) = entryStart ls :=
  entryStart_change (.renamed ρ) ls

theorem embeds?_renamed (ls : List Lexeme) :
    embeds? (ls.map (Lexeme.renamed ρ)) = embeds? ls :=
  embeds?_change (.renamed ρ) ls

theorem declaresMethod_renamed (ls : List Lexeme) :
    declaresMethod (ls.map (Lexeme.renamed ρ)) = declaresMethod ls :=
  declaresMethod_change (.renamed ρ) ls

theorem holdsTypeParams_renamed (ls : List Lexeme) :
    holdsTypeParams (ls.map (Lexeme.renamed ρ)) = holdsTypeParams ls :=
  holdsTypeParams_change (.renamed ρ) ls

end Parse

/-- What is passed over is passed over under the other names, and what is not is not. -/
theorem passOver_renamed {stop : Token → Bool} (hstop : ∀ x y, stop (.ident x) = stop (.ident y))
    (bs : List Bracket) (opener : Span) (ls : List Lexeme) :
    passOver stop bs opener (ls.map (Lexeme.renamed ρ)) = (passOver stop bs opener ls).map
      (·.map (·.map (Lexeme.renamed ρ)) (·.map (Lexeme.renamed ρ))) := by
  refine (passOver_change (.renamed ρ) (fun l => l.renamed_congr ρ hstop) bs opener ls).trans ?_
  rcases passOver stop bs opener ls with e | ⟨before, after⟩ <;> rfl

end

namespace Parse

/-- Under the other names the second reader makes what the first one makes, seen by `f`, and goes
as far. -/
def Renames (ρ : Renaming) (p : Parse α) (p' : Parse β) (f : α → β) : Prop :=
  ∀ c c' x, p c = .ok (x, c') → p' (c.renamed ρ) = .ok (f x, c'.renamed ρ)

namespace Renames

variable {ρ : Renaming} {p : Parse α} {p' : Parse β} {f : α → β} {k : α → Parse γ}
  {k' : β → Parse δ} {g : γ → δ}

theorem pure {x : α} {y : β} (h : f x = y) : Renames ρ (pure x) (pure y) f := by
  subst h
  rintro c _ _ ⟨⟩
  rfl

theorem bind (hp : Renames ρ p p' f) (hk : ∀ x, Renames ρ (k x) (k' (f x)) g) :
    Renames ρ (p >>= k) (p' >>= k') g := by
  intro c c' z hok
  obtain ⟨x, c₁, hx, hz⟩ := ok_of_bind hok
  rw [bind_of_ok (hp c c₁ x hx)]
  exact hk x c₁ c' z hz

/-- The last step makes something of what was read. -/
theorem finish {h : α → γ} {h' : β → δ} (hp : Renames ρ p p' f) (hh : ∀ x, g (h x) = h' (f x)) :
    Renames ρ (p >>= fun x => Pure.pure (h x)) (p' >>= fun y => Pure.pure (h' y)) g :=
  hp.bind fun x => .pure (hh x)

theorem map {h : α → γ} {h' : β → δ} (hp : Renames ρ p p' f) (hh : ∀ x, g (h x) = h' (f x)) :
    Renames ρ (h <$> p) (h' <$> p') g :=
  hp.finish hh

theorem look {r : Cursor → Parse α} {r' : Cursor → Parse β}
    (h : ∀ c, Renames ρ (r c) (r' (c.renamed ρ)) f) :
    Renames ρ (get >>= r) (get >>= r') f :=
  fun c => h c c

theorem fail {fault : ParseFault} {s : Span} : Renames ρ (fail fault s) p' f := by
  rintro c _ _ ⟨⟩

theorem failHere {fault : ParseFault} : Renames ρ (failHere fault) p' f := by
  rintro c _ _ ⟨⟩

theorem expected {wanted : Wanted} : Renames ρ (expected wanted) p' f := by
  rintro c _ _ ⟨⟩

/-- Nothing is read after a fault. -/
theorem expected_bind {wanted : Wanted} {p' : Parse δ} :
    Renames ρ (Parse.expected wanted >>= k) p' g := by
  intro c c' x h
  obtain ⟨_, _, hexpected, -⟩ := ok_of_bind h
  cases hexpected

theorem bump : Renames ρ bump bump id := by
  rintro ⟨_ | ⟨l, ls⟩, last, e, made⟩ c' x h
  · cases h
    rfl
  · cases h
    simp [Parse.bump, Cursor.renamed]

theorem eat (m : Mark) : Renames ρ (eat m) (eat m) id := by
  refine look fun c => ?_
  rw [Cursor.isAt_renamed]
  split
  · exact bump.map fun _ => rfl
  · exact .pure rfl

theorem expect {t : Token} (ht : ∀ x, t ≠ .ident x) : Renames ρ (expect t) (expect t) id := by
  refine look fun c => ?_
  have hnext := c.next?_renamed_congr ρ (g := (· == some t)) fun x y => by
    have hne (z : String) : (some (Token.ident z) == some t) = false :=
      beq_false_of_ne fun h => ht z (Option.some.inj h).symm
    rw [hne, hne]
  rw [hnext]
  split
  · exact bump
  · exact expected

theorem ident : Renames ρ ident ident (Ident.renamed ρ) := by
  rintro ⟨_ | ⟨⟨t, s⟩, ls⟩, last, e, made⟩ c' x h
  · cases h
  · cases t with
    | ident name =>
      cases h
      rfl
    | _ => cases h

theorem spanFrom (s : Span) : Renames ρ (spanFrom s) (spanFrom s) id :=
  look fun _ => .pure rfl

/-- A part of a reader that is read on some condition. -/
theorem optional {b : Bool} {h : α → β} {k : Option α → Parse γ} {k' : Option β → Parse δ}
    (hp : Renames ρ p p' h) (hk : ∀ x, Renames ρ (k x) (k' (x.map h)) g) :
    Renames ρ (if b = true then some <$> p >>= k else Pure.pure none >>= k)
      (if b = true then some <$> p' >>= k' else Pure.pure none >>= k') g := by
  split
  · exact (hp.map (g := Option.map h) fun _ => rfl).bind hk
  · exact (Renames.pure (f := Option.map h) rfl).bind hk

/-! ## Sequences -/

section Sequence

variable {item : Parse α} {item' : Parse β} (hitem : Renames ρ item item' f)

include hitem

theorem moreItems (separator : Mark) : ∀ n : Nat,
    Renames ρ (moreItems separator item n) (moreItems separator item' n) (List.map f)
  | 0 => .pure rfl
  | n + 1 => by
    refine (eat separator).bind fun s => ?_
    cases s with
    | none => exact .pure rfl
    | some s => exact hitem.bind fun x => (moreItems separator n).finish fun _ => rfl

theorem separated (separator : Mark) :
    Renames ρ (separated separator item) (separated separator item') (List.map f) := by
  refine hitem.bind fun x => look fun c => ?_
  rw [Cursor.length_renamed]
  exact (moreItems hitem separator _).finish fun _ => rfl

section

variable {stop : Cursor → Bool} (hstop : ∀ c, stop (c.renamed ρ) = stop c)

include hstop

theorem listedItems : ∀ n : Nat,
    Renames ρ (listedItems stop item n) (listedItems stop item' n) (List.map f)
  | 0 => by
    refine look fun c => ?_
    rw [hstop]
    split
    · exact .pure rfl
    · exact hitem.finish fun _ => rfl
  | n + 1 => by
    refine look fun c => ?_
    rw [hstop]
    split
    · exact .pure rfl
    · refine hitem.bind fun x => (eat .comma).bind fun s => ?_
      cases s with
      | none => exact .pure rfl
      | some s => exact (listedItems n).finish fun _ => rfl

theorem listed : Renames ρ (listed stop item) (listed stop item') (List.map f) := by
  refine look fun c => ?_
  rw [Cursor.length_renamed]
  exact listedItems hitem hstop _

end

omit hitem in
theorem semiBefore (close : Mark) : Renames ρ (semiBefore close) (semiBefore close) id := by
  refine look fun c => (eat .semi).bind fun s => ?_
  rw [Cursor.isAt_renamed]
  dsimp only [id]
  split
  · exact .pure rfl
  · exact expected

theorem blockItems (close : Mark) : ∀ n : Nat,
    Renames ρ (blockItems close item n) (blockItems close item' n) (List.map f)
  | 0 => .pure rfl
  | n + 1 => by
    refine look fun c => ?_
    rw [Cursor.isAt_renamed, Cursor.atEnd_renamed]
    split
    · exact .pure rfl
    · exact hitem.bind fun x => (semiBefore close).bind fun _ =>
        (blockItems close n).finish fun _ => rfl

theorem block (close : Mark) : Renames ρ (block close item) (block close item')
    (Prod.map (List.map f) id) := by
  refine look fun c => ?_
  rw [Cursor.length_renamed]
  exact (blockItems hitem close _).bind fun xs => (expect (by simp)).finish fun _ => rfl

end Sequence

/-! ## Passing over -/

theorem pass {stop : Token → Bool} (hstop : ∀ x y, stop (.ident x) = stop (.ident y)) (s : Span)
    (open? : Option Bracket) :
    Renames ρ (pass stop s open?) (pass stop s open?) (List.map (Lexeme.renamed ρ)) := by
  intro c c' passed hok
  have hpass := passOver_renamed ρ hstop open?.toList s c.rest
  unfold Parse.pass at hok ⊢
  split at hok
  · cases hok
  · next rest hover =>
    cases hok
    rw [hover] at hpass
    simp only [Cursor.renamed, hpass, Except.map, Prod.map, List.getLast?_map]
    cases passed.getLast? <;> simp

theorem bracketed : Renames ρ bracketed bracketed id := by
  refine look fun c => ?_
  have hopens := c.next?_renamed_congr ρ (g := (·.bind Token.opens?)) fun _ _ => rfl
  rw [hopens]
  exact bump.bind fun s => (pass (fun _ _ => rfl) _ _).bind fun _ => spanFrom s

theorem through (wanted : Wanted) {stop : Token → Bool}
    (hstop : ∀ x y, stop (.ident x) = stop (.ident y)) :
    Renames ρ (through wanted stop) (through wanted stop) id := by
  refine look fun c => ?_
  rw [Cursor.here_renamed]
  refine (pass hstop c.here none).bind fun passed => ?_
  rw [List.isEmpty_map]
  split
  · exact expected
  · exact spanFrom c.here

end Renames

end Parse

end GoIface
