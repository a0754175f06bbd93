import GoIface.Proofs.LexemeChanges
import GoIface.Proofs.Levels
import GoIface.Proofs.Placing

/-!
# Reading at other places

What is read does not depend on where it is written or on what was made before it. From the same
lexemes at other places in the same order a reader makes the same, at these places and with the
numbers that come next there, and it fails where it failed (`Parse.Natural`). All that could be
told apart is a semicolon that was written from one that was inserted, so these are kept apart
(`Placement.Keeps`). Readers put together of such readers are such readers, and reading a file is
one of them (`Natural.file`).
-/

namespace GoIface

variable {α β γ δ : Type}

/-! ## Cursors -/

/-- Semicolons that were written still cover a byte, and the others still do not. -/
def Placement.Keeps (P : Placement) (ls : List Lexeme) : Prop :=
  ∀ l ∈ ls, (l.placed P).isInserted = l.isInserted

def Cursor.placed (P : Placement) (c : Cursor) : Cursor :=
  ⟨c.rest.map (Lexeme.placed P), c.last.placed P, P.place c.textEnd, P.made.after c.made⟩

section

variable (P : Placement)

theorem head?_placed (ls : List Lexeme) :
    (ls.map (Lexeme.placed P)).head?.map Lexeme.token = ls.head?.map Lexeme.token := by
  cases ls <;> rfl

namespace Cursor

variable (c : Cursor)

theorem placed_rest : (c.placed P).rest = c.rest.map (Lexeme.placed P) := rfl

theorem next?_placed : (c.placed P).next? = c.next? := head?_placed P c.rest

theorem isAt_placed (m : Mark) : (c.placed P).isAt m = c.isAt m := by
  rw [isAt, isAt, next?_placed]

theorem atEnd_placed : (c.placed P).atEnd = c.atEnd := List.isEmpty_map

theorem here_placed : (c.placed P).here = c.here.placed P := by
  obtain ⟨_ | ⟨l, ls⟩, last, e, made⟩ := c <;> rfl

theorem length_placed : (c.placed P).rest.length = c.rest.length := List.length_map _

end Cursor

theorem Found.ofNext_placed {P : Placement} {ls : List Lexeme} (h : P.Keeps ls) :
    Found.ofNext (ls.map (Lexeme.placed P)) = .ofNext ls := by
  cases ls with
  | nil => rfl
  | cons l ls => rw [List.map_cons, ofNext, ofNext, h l (.head _), Lexeme.placed_token]

/-! ## Looking ahead -/

def LexemeChange.placed : LexemeChange :=
  ⟨Lexeme.placed P, Span.placed P, fun _ => rfl, fun _ => .refl _⟩

namespace Parse

theorem entryStart_placed (ls : List Lexeme) :
    entryStart (ls.map (Lexeme.placed P)) = entryStart ls :=
  entryStart_change (.placed P) ls

theorem embeds?_placed (ls : List Lexeme) :
    embeds? (ls.map (Lexeme.placed P)) = embeds? ls :=
  embeds?_change (.placed P) ls

theorem declaresMethod_placed (ls : List Lexeme) :
    declaresMethod (ls.map (Lexeme.placed P)) = declaresMethod ls :=
  declaresMethod_change (.placed P) ls

theorem holdsTypeParams_placed (ls : List Lexeme) :
    holdsTypeParams (ls.map (Lexeme.placed P)) = holdsTypeParams ls :=
  holdsTypeParams_change (.placed P) ls

end Parse

/-- What is passed over is passed over at the other places, and what is not is not. -/
theorem passOver_placed (stop : Token → Bool) (bs : List Bracket) (opener : Span)
    (ls : List Lexeme) :
    passOver stop bs (opener.placed P) (ls.map (Lexeme.placed P))
      = ((passOver stop bs opener ls).map
          (·.map (·.map (Lexeme.placed P)) (·.map (Lexeme.placed P)))).mapError
        (Located.placed P) :=
  passOver_change (.placed P) (fun _ => rfl) bs opener ls

end

namespace Parse

/-- At the other places the second reader does what the first does here: it makes the same, seen
by `f`, and goes as far, or has the same fault. -/
structure Natural (P : Placement) (p : Parse α) (p' : Parse β) (f : α → β) : Prop where
  made {c c' : Cursor} {x : α} (hc : P.Keeps c.rest) (h : p c = .ok (x, c')) :
    p' (c.placed P) = .ok (f x, c'.placed P) ∧ P.Keeps c'.rest
  failed {c : Cursor} {e : Located ParseFault} (hc : P.Keeps c.rest) (h : p c = .error e) :
    p' (c.placed P) = .error (e.placed P)

namespace Natural

variable {P : Placement} {p : Parse α} {p' : Parse β} {f : α → β} {k : α → Parse γ}
  {k' : β → Parse δ} {g : γ → δ}

/-- What is made at the other places comes from what is made here. -/
theorem of_made (hp : Natural P p p' f) {c d : Cursor} {y : β} (hc : P.Keeps c.rest)
    (h : p' (c.placed P) = .ok (y, d)) :
    ∃ x c', p c = .ok (x, c') ∧ y = f x ∧ d = c'.placed P := by
  rcases hx : p c with e | ⟨x, c'⟩
  · simp [hp.failed hc hx] at h
  · rw [(hp.made hc hx).1] at h
    cases h
    exact ⟨x, c', rfl, rfl, rfl⟩

theorem pure {x : α} {y : β} (h : f x = y) : Natural P (pure x) (pure y) f := by
  subst h
  constructor
  · rintro c _ _ hc ⟨⟩
    exact ⟨rfl, hc⟩
  · rintro c e _ ⟨⟩

theorem bind (hp : Natural P p p' f) (hk : ∀ x, Natural P (k x) (k' (f x)) g) :
    Natural P (p >>= k) (p' >>= k') g := by
  constructor
  · intro c c' z hc hok
    obtain ⟨x, c₁, hx, hz⟩ := ok_of_bind hok
    obtain ⟨hx, hc₁⟩ := hp.made hc hx
    rw [bind_of_ok hx]
    exact (hk x).made hc₁ hz
  · intro c e hc herror
    rcases hx : p c with e' | ⟨x, c₁⟩
    · rw [bind_of_error hx] at herror
      cases herror
      exact bind_of_error (hp.failed hc hx)
    · rw [bind_of_ok hx] at herror
      obtain ⟨hx, hc₁⟩ := hp.made hc hx
      rw [bind_of_ok hx]
      exact (hk x).failed hc₁ herror

/-- The last step makes something of what was read. -/
theorem finish {h : α → γ} {h' : β → δ} (hp : Natural P p p' f) (hh : ∀ x, g (h x) = h' (f x)) :
    Natural P (p >>= fun x => Pure.pure (h x)) (p' >>= fun y => Pure.pure (h' y)) g :=
  hp.bind fun x => .pure (hh x)

theorem map {h : α → γ} {h' : β → δ} (hp : Natural P p p' f) (hh : ∀ x, g (h x) = h' (f x)) :
    Natural P (h <$> p) (h' <$> p') g :=
  hp.finish hh

theorem look {r : Cursor → Parse α} {r' : Cursor → Parse β}
    (h : ∀ c, P.Keeps c.rest → Natural P (r c) (r' (c.placed P)) f) :
    Natural P (get >>= r) (get >>= r') f :=
  ⟨fun {c _ _} hc => (h c hc).made hc, fun {c _} hc => (h c hc).failed hc⟩

theorem fail {fault : ParseFault} {s : Span} {s' : Span} (h : s.placed P = s') :
    Natural P (fail fault s : Parse α) (Parse.fail fault s' : Parse β) f := by
  subst h
  constructor
  · rintro c _ _ _ ⟨⟩
  · rintro c _ _ ⟨⟩
    rfl

theorem failHere {fault : ParseFault} :
    Natural P (failHere fault : Parse α) (Parse.failHere fault : Parse β) f := by
  constructor
  · rintro c _ _ _ ⟨⟩
  · rintro c _ _ ⟨⟩
    rw [Parse.failHere, Cursor.here_placed]
    rfl

theorem expected {wanted : Wanted} :
    Natural P (expected wanted : Parse α) (Parse.expected wanted : Parse β) f := by
  constructor
  · rintro c _ _ _ ⟨⟩
  · rintro c _ hc ⟨⟩
    rw [Parse.expected, Cursor.here_placed]
    simp only [Cursor.placed, Found.ofNext_placed hc]
    rfl

/-- Nothing is read after a fault. -/
theorem expected_bind {wanted : Wanted} {f : α → β} :
    Natural P (Parse.expected wanted >>= k) (Parse.expected wanted >>= k') g := by
  constructor
  · rintro c _ _ _ ⟨⟩
  · intro c e hc herror
    have hfault : Parse.expected (α := α) wanted c = .error e := by
      cases herror
      rfl
    exact bind_of_error ((expected (f := f)).failed hc hfault)

theorem bump : Natural P bump bump (Span.placed P) := by
  constructor
  · rintro ⟨_ | ⟨l, ls⟩, last, e, made⟩ c' x hc h
    · cases h
      exact ⟨rfl, hc⟩
    · cases h
      exact ⟨rfl, fun l hl => hc l (.tail _ hl)⟩
  · rintro ⟨_ | ⟨l, ls⟩, last, e, made⟩ _ hc h <;> cases h

theorem eat (m : Mark) : Natural P (eat m) (eat m) (Option.map (Span.placed P)) := by
  refine look fun c _ => ?_
  rw [Cursor.isAt_placed]
  split
  · exact bump.map fun _ => rfl
  · exact .pure rfl

theorem expect (t : Token) : Natural P (expect t) (expect t) (Span.placed P) := by
  refine look fun c _ => ?_
  rw [Cursor.next?_placed]
  split
  · exact bump
  · exact expected

theorem ident : Natural P ident ident (Ident.placed P) := by
  refine look fun c _ => ?_
  rw [Cursor.next?_placed]
  split
  · exact bump.finish fun _ => rfl
  · exact expected

theorem spanFrom {s s' : Span} (h : s.placed P = s') :
    Natural P (spanFrom s) (spanFrom s') (Span.placed P) := by
  subst h
  exact look fun c _ => .pure (Span.hull_placed P _ _).symm

/-- A part of a reader that is read on some condition. -/
theorem optional {b : Bool} {h : α → β} {k : Option α → Parse γ} {k' : Option β → Parse δ}
    (hp : Natural P p p' h) (hk : ∀ x, Natural P (k x) (k' (x.map h)) g) :
    Natural P (if b = true then some <$> p >>= k else Pure.pure none >>= k)
      (if b = true then some <$> p' >>= k' else Pure.pure none >>= k') g := by
  split
  · exact (hp.map (g := Option.map h) fun _ => rfl).bind hk
  · exact (Natural.pure (f := Option.map h) rfl).bind hk

/-! ## Sequences -/

section Sequence

variable {item : Parse α} {item' : Parse β} (hitem : Natural P item item' f)

include hitem

theorem moreItems (separator : Mark) : ∀ n : Nat,
    Natural P (moreItems separator item n) (moreItems separator item' n) (List.map f)
  | 0 => .pure rfl
  | n + 1 => by
    refine (eat separator).bind fun s => ?_
    cases s with
    | none => exact .pure rfl
    | some s => exact hitem.bind fun x => (moreItems separator n).finish fun _ => rfl

theorem separated (separator : Mark) :
    Natural P (separated separator item) (separated separator item') (List.map f) := by
  refine hitem.bind fun x => look fun c _ => ?_
  rw [Cursor.length_placed]
  exact (moreItems hitem separator _).finish fun _ => rfl

section

variable {stop : Cursor → Bool} (hstop : ∀ c, stop (c.placed P) = stop c)

include hstop

theorem listedItems : ∀ n : Nat,
    Natural P (listedItems stop item n) (listedItems stop item' n) (List.map f)
  | 0 => by
    refine look fun c _ => ?_
    rw [hstop]
    split
    · exact .pure rfl
    · exact hitem.finish fun _ => rfl
  | n + 1 => by
    refine look fun c _ => ?_
    rw [hstop]
    split
    · exact .pure rfl
    · refine hitem.bind fun x => (eat .comma).bind fun s => ?_
      cases s with
      | none => exact .pure rfl
      | some s => exact (listedItems n).finish fun _ => rfl

theorem listed : Natural P (listed stop item) (listed stop item') (List.map f) := by
  refine look fun c _ => ?_
  rw [Cursor.length_placed]
  exact listedItems hitem hstop _

end

omit hitem in
theorem semiBefore (close : Mark) :
    Natural P (semiBefore close) (semiBefore close) id := by
  refine look fun c _ => (eat .semi).bind fun s => ?_
  rw [Cursor.isAt_placed, Option.isSome_map]
  split
  · exact .pure rfl
  · exact expected

theorem blockItems (close : Mark) : ∀ n : Nat,
    Natural P (blockItems close item n) (blockItems close item' n) (List.map f)
  | 0 => .pure rfl
  | n + 1 => by
    refine look fun c _ => ?_
    rw [Cursor.isAt_placed, Cursor.atEnd_placed]
    split
    · exact .pure rfl
    · exact hitem.bind fun x => (semiBefore close).bind fun _ =>
        (blockItems close n).finish fun _ => rfl

theorem block (close : Mark) : Natural P (block close item) (block close item')
    (Prod.map (List.map f) (Span.placed P)) := by
  refine look fun c _ => ?_
  rw [Cursor.length_placed]
  exact (blockItems hitem close _).bind fun xs => (expect _).finish fun _ => rfl

end Sequence

/-! ## Passing over -/

theorem pass (stop : Token → Bool) {s s' : Span} (h : s.placed P = s') (open? : Option Bracket) :
    Natural P (pass stop s open?) (pass stop s' open?) (List.map (Lexeme.placed P)) := by
  subst h
  have hpass (c : Cursor) := passOver_placed P stop open?.toList s c.rest
  constructor
  · intro c c' passed hc hok
    have hpass := hpass c
    unfold Parse.pass at hok ⊢
    split at hok
    · cases hok
    · next rest hover =>
      cases hok
      rw [hover] at hpass
      simp only [Cursor.placed, hpass, Except.map, Except.mapError, Prod.map, List.getLast?_map]
      refine ⟨?_, fun l hl => hc l (passOver_append hover ▸ List.mem_append_right _ hl)⟩
      cases passed.getLast? <;> rfl
  · intro c e hc herror
    have hpass := hpass c
    unfold Parse.pass at herror ⊢
    split at herror
    · next hover =>
      cases herror
      rw [hover] at hpass
      simp only [Cursor.placed, hpass]
      rfl
    · cases herror

theorem bracketed : Natural P bracketed bracketed (Span.placed P) := by
  refine look fun c _ => ?_
  rw [Cursor.next?_placed]
  exact bump.bind fun s => (pass _ rfl _).bind fun _ => spanFrom rfl

theorem through (wanted : Wanted) (stop : Token → Bool) :
    Natural P (through wanted stop) (through wanted stop) (Span.placed P) := by
  refine look fun c _ => (pass stop (c.here_placed P).symm none).bind fun passed => ?_
  rw [List.isEmpty_map]
  split
  · exact expected
  · exact spanFrom (c.here_placed P).symm

end Natural

end Parse

end GoIface
