import GoIface.Flat.Declarations
import GoIface.Proofs.Levels
import GoIface.Proofs.StoredTrees
import Mathlib.Order.Monotone.Basic

/-!
# Reading into an arena

A reader that puts what it makes into an arena follows one that makes a tree: it goes as far and has
the same faults, it makes as many nodes, and what it makes is stored in the arena that it leaves
(`Build.Follows`). What is stored stays so while the arena grows, as long as this fits
(`Arena.Held`). Identifiers and spans are the same for both (`Equals`). Readers put together of
readers that follow one another do so as well.
-/

namespace GoIface

variable {α β γ δ τ υ : Type}

/-! ## Arenas along a reading -/

namespace Arena

variable {A B C : Arena}

/-- The second arena comes from the first by steps, unless it is too large. -/
structure Leads (A B : Arena) : Prop where
  le : A ≤ B
  steps (h : B.Fits) : Relation.ReflTransGen Step A B

theorem Leads.refl (A : Arena) : Leads A A := ⟨le_refl A, fun _ => .refl⟩

theorem Leads.trans (h : Leads A B) (h' : Leads B C) : Leads A C :=
  ⟨le_trans h.le h'.le, fun hC => (h.steps (hC.of_le h'.le)).trans (h'.steps hC)⟩

theorem Leads.of_step (hle : A ≤ B) (h : B.Fits → Step A B) : Leads A B :=
  ⟨hle, fun hB => .single (h hB)⟩

/-- The relation holds in every arena that grows from `A`, as long as it fits. -/
def Held (R : Arena → α → β → Prop) (A : Arena) (x : α) (y : β) : Prop :=
  ∀ F, A ≤ F → F.Fits → R F x y

theorem monotone_held (R : Arena → α → β → Prop) : Monotone (Held R) :=
  fun _ _ hle _ _ h F hF hfits => h F (le_trans hle hF) hfits

theorem monotone_forall₂ {R : Arena → α → β → Prop} (hR : Monotone R) :
    Monotone fun A => List.Forall₂ (R A) :=
  fun _ _ hle _ _ h => h.imp fun _ _ hxy => hR hle _ _ hxy

/-- The place leads to the items. -/
abbrev Lists {l : ListKind} (A : Arena) (r : ListRef l) (xs : List (Item l)) : Prop :=
  A.items? r = some xs

theorem items?_empty {l : ListKind} : A.items? (ListRef.empty : ListRef l) = some [] :=
  items?_eq_some_iff.2 ⟨Nat.le_refl 0, Nat.zero_le _, rfl⟩

@[simp]
theorem counts_push {l : ListKind} (xs : List (Item l)) : (A.push l xs).2.counts = A.counts := by
  simp [counts]

end Arena

theorem forall_of_forall₂ {R : α → β → Prop} {Q : β → Prop} {xs : List α} {ys : List β}
    (h : List.Forall₂ R xs ys) (hQ : ∀ {x y}, R x y → Q y) : ∀ y ∈ ys, Q y := by
  induction h with
  | nil => exact fun _ hy => absurd hy List.not_mem_nil
  | cons hxy _ ih => exact List.forall_mem_cons.2 ⟨hQ hxy, ih⟩

/-- The same in every arena. -/
abbrev Equals : Arena → α → α → Prop := fun _ x y => x = y

theorem monotone_equals : Monotone (Equals : Arena → α → α → Prop) := monotone_const

/-! ## Cursors -/

/-- The cursor of the reader that makes a tree. -/
def Cursor.counted (d : Cursor Arena) : Cursor := ⟨d.rest, d.last, d.textEnd, d.made.counts⟩

section

variable (d : Cursor Arena)

@[simp] theorem Cursor.counted_rest : d.counted.rest = d.rest := rfl

@[simp] theorem Cursor.next?_counted : d.counted.next? = d.next? := rfl

@[simp] theorem Cursor.isAt_counted (m : Mark) : d.counted.isAt m = d.isAt m := rfl

@[simp] theorem Cursor.atEnd_counted : d.counted.atEnd = d.atEnd := rfl

@[simp] theorem Cursor.here_counted : d.counted.here = d.here := rfl

end

namespace Build

open Arena Parse

/-- From the cursor `d` the second reader does what the first does, and what they make is related in
the arena that it leaves. -/
structure Follows (R : Arena → α → β → Prop) (p : Parse α) (q : Build β) (d : Cursor Arena) :
    Prop where
  made {x : α} {c : Cursor} (h : p d.counted = .ok (x, c)) :
    ∃ y d', q d = .ok (y, d') ∧ c = d'.counted ∧ d.made.Leads d'.made ∧ R d'.made x y
  failed {e : Located ParseFault} (h : p d.counted = .error e) : q d = .error e

namespace Follows

variable {R : Arena → α → β → Prop} {S : Arena → γ → δ → Prop} {p : Parse α} {q : Build β}
  {k : α → Parse γ} {k' : β → Build δ} {d : Cursor Arena}

/-- What the arena takes comes from what makes a tree. -/
theorem of_made (hp : Follows R p q d) {y : β} {d' : Cursor Arena} (h : q d = .ok (y, d')) :
    ∃ x, p d.counted = .ok (x, d'.counted) ∧ d.made.Leads d'.made ∧ R d'.made x y := by
  rcases hx : p d.counted with e | ⟨x, c⟩
  · rw [hp.failed hx] at h
    cases h
  · obtain ⟨y', d₁, hy, rfl, hleads, hxy⟩ := hp.made hx
    rw [hy] at h
    cases h
    exact ⟨x, rfl, hleads, hxy⟩

theorem pure {x : α} {y : β} (h : R d.made x y) : Follows R (pure x) (pure y) d := by
  constructor
  · rintro _ _ ⟨⟩
    exact ⟨y, d, rfl, rfl, .refl _, h⟩
  · rintro _ ⟨⟩

theorem bind (hp : Follows R p q d)
    (hk : ∀ {x y d'}, d.made ≤ d'.made → R d'.made x y → Follows S (k x) (k' y) d') :
    Follows S (p >>= k) (q >>= k') d := by
  constructor
  · intro z c hok
    obtain ⟨x, c₁, hx, hz⟩ := ok_of_bind hok
    obtain ⟨y, d₁, hy, rfl, hleads, hxy⟩ := hp.made hx
    obtain ⟨w, d₂, hw, hc, hleads', hzw⟩ := (hk hleads.le hxy).made hz
    exact ⟨w, d₂, (bind_of_ok hy).trans hw, hc, hleads.trans hleads', hzw⟩
  · intro e herror
    rcases hx : p d.counted with e' | ⟨x, c₁⟩
    · rw [bind_of_error hx] at herror
      cases herror
      exact bind_of_error (hp.failed hx)
    · obtain ⟨y, d₁, hy, rfl, hleads, hxy⟩ := hp.made hx
      rw [bind_of_ok hx] at herror
      rw [bind_of_ok hy]
      exact (hk hleads.le hxy).failed herror

/-- First something is read that is the same for both. -/
theorem step {p : Parse α} {q : Build α} {k : α → Parse γ} {k' : α → Build δ}
    (hp : Follows Equals p q d)
    (hk : ∀ {d' : Cursor Arena} (x : α), d.made ≤ d'.made → Follows S (k x) (k' x) d') :
    Follows S (p >>= k) (q >>= k') d :=
  hp.bind fun hle hxy => hxy ▸ hk _ hle

/-- The last step makes something of what was read. -/
theorem finish {f : α → γ} {g : β → δ} (hp : Follows R p q d)
    (h : ∀ {x y} {d' : Cursor Arena}, d.made ≤ d'.made → R d'.made x y → S d'.made (f x) (g y)) :
    Follows S (p >>= fun x => Pure.pure (f x)) (q >>= fun y => Pure.pure (g y)) d :=
  hp.bind fun hle hxy => .pure (h hle hxy)

theorem map {f : α → γ} {g : β → δ} (hp : Follows R p q d)
    (h : ∀ {x y} {d' : Cursor Arena}, d.made ≤ d'.made → R d'.made x y → S d'.made (f x) (g y)) :
    Follows S (f <$> p) (g <$> q) d :=
  hp.finish h

theorem look {r : Cursor → Parse α} {r' : Cursor Arena → Build β}
    (h : Follows R (r d.counted) (r' d) d) : Follows R (get >>= r) (get >>= r') d :=
  ⟨h.made, h.failed⟩

theorem fail {fault : ParseFault} {span : Span} :
    Follows R (fail fault span : Parse α) (Parse.fail fault span) d := by
  constructor
  · rintro _ _ ⟨⟩
  · rintro _ ⟨⟩
    rfl

theorem failHere {fault : ParseFault} :
    Follows R (failHere fault : Parse α) (Parse.failHere fault) d := by
  constructor
  · rintro _ _ ⟨⟩
  · rintro _ ⟨⟩
    rfl

theorem expected {wanted : Wanted} :
    Follows R (expected wanted : Parse α) (Parse.expected wanted) d := by
  constructor
  · rintro _ _ ⟨⟩
  · rintro _ ⟨⟩
    rfl

/-- Nothing is read after a fault. -/
theorem expected_bind {wanted : Wanted} {k : α → Parse γ} {k' : α → Build δ} :
    Follows S (Parse.expected wanted >>= k) (Parse.expected wanted >>= k') d :=
  (expected (R := fun _ _ _ => False)).bind fun _ h => h.elim

theorem bump : Follows Equals bump bump d := by
  obtain ⟨_ | ⟨l, ls⟩, last, e, made⟩ := d
  all_goals
    constructor
    · rintro _ _ ⟨⟩
      exact ⟨_, _, rfl, rfl, .refl _, rfl⟩
    · rintro _ ⟨⟩

theorem eat (m : Mark) : Follows Equals (eat m) (eat m) d := by
  refine look ?_
  rw [Cursor.isAt_counted]
  split
  · exact bump.map fun _ h => congrArg some h
  · exact .pure rfl

theorem expect (t : Token) : Follows Equals (expect t) (expect t) d := by
  refine look ?_
  rw [Cursor.next?_counted]
  split
  · exact bump
  · exact expected

theorem ident : Follows Equals ident ident d := by
  refine look ?_
  rw [Cursor.next?_counted]
  split
  · exact bump.finish fun _ h => congrArg _ h
  · exact expected

theorem spanFrom {s : Span} : Follows Equals (spanFrom s) (spanFrom s) d := look (.pure rfl)

theorem mono {S : Arena → α → β → Prop} (hp : Follows R p q d)
    (h : ∀ A x y, R A x y → S A x y) : Follows S p q d where
  made hok := by
    obtain ⟨y, d', hy, hc, hleads, hxy⟩ := hp.made hok
    exact ⟨y, d', hy, hc, hleads, h _ _ _ hxy⟩
  failed := hp.failed

/-- The last step makes something of what the arena took. -/
theorem wrap {S : Arena → α → δ → Prop} {g : β → δ}
    (hp : Follows (fun A x y => S A x (g y)) p q d) :
    Follows S p (q >>= fun y => Pure.pure (g y)) d where
  made hok := by
    obtain ⟨y, d', hy, h⟩ := hp.made hok
    exact ⟨g y, d', bind_of_ok hy, h⟩
  failed herror := bind_of_error (hp.failed herror)

/-- A part of a reader that is read on some condition. -/
theorem optional {b : Bool} {k : Option α → Parse γ} {k' : Option β → Build δ}
    (hp : Follows R p q d) (hk : ∀ {x y} {d' : Cursor Arena}, d.made ≤ d'.made →
      Option.Rel (R d'.made) x y → Follows S (k x) (k' y) d') :
    Follows S (if b = true then some <$> p >>= k else Pure.pure none >>= k)
      (if b = true then some <$> q >>= k' else Pure.pure none >>= k') d := by
  split
  · exact (hp.map (S := fun A => Option.Rel (R A)) fun _ h => .some h).bind hk
  · exact (Follows.pure (R := fun A => Option.Rel (R A)) .none).bind hk

theorem optionalStep {b : Bool} {p : Parse α} {q : Build α} {k : Option α → Parse γ}
    {k' : Option α → Build δ} (hp : Follows Equals p q d)
    (hk : ∀ {d' : Cursor Arena} (x : Option α), d.made ≤ d'.made → Follows S (k x) (k' x) d') :
    Follows S (if b = true then some <$> p >>= k else Pure.pure none >>= k)
      (if b = true then some <$> q >>= k' else Pure.pure none >>= k') d := by
  split
  · exact (hp.map (S := Equals) fun _ h => congrArg some h).step hk
  · exact hk none (le_refl _)

/-- A list that the arena takes and a tree does not need. -/
theorem push {l : ListKind} {xs : List (Item l)} {p : Parse γ} {k' : ListRef l → Build δ}
    (hxs : d.made.Fits → ∀ x ∈ xs, ∀ s ∈ Item.refs l x, d.made.Resolves s)
    (hk : ∀ {r} {d' : Cursor Arena}, d.made ≤ d'.made → Held Lists d'.made r xs →
      Follows S p (k' r) d') : Follows S p (Build.push l xs >>= k') d := by
  have hle := d.made.le_push xs
  have hleads : d.made.Leads (d.made.push l xs).2 :=
    .of_step hle fun hfits => .push (hxs (hfits.of_le hle))
  have hnext : Follows S p (k' (d.made.push l xs).1) { d with made := (d.made.push l xs).2 } :=
    hk hle fun F hF hfits => items?_push hF hfits
  have hcounted : d.counted = Cursor.counted { d with made := (d.made.push l xs).2 } := by
    simp [Cursor.counted]
  constructor
  · intro z c hok
    rw [hcounted] at hok
    obtain ⟨w, d', hw, hc, hleads', hzw⟩ := hnext.made hok
    exact ⟨w, d', hw, hc, hleads.trans hleads', hzw⟩
  · intro e herror
    rw [hcounted] at herror
    exact hnext.failed herror

/-- A list that the arena takes and whose items are stored. -/
theorem pushStored {l : ListKind} {R : Arena → α → Item l → Prop} {xs : List α}
    {ys : List (Item l)} {p : Parse γ} {k' : ListRef l → Build δ}
    (hxs : List.Forall₂ (Held R d.made) xs ys)
    (hrefs : ∀ {A x y}, R A x y → ∀ s ∈ Item.refs l y, A.Resolves s)
    (hk : ∀ {r} {d' : Cursor Arena}, d.made ≤ d'.made →
      (∀ F, d'.made ≤ F → F.Fits → F.items? r = some ys ∧ List.Forall₂ (R F) xs ys) →
      Follows S p (k' r) d') : Follows S p (Build.push l ys >>= k') d := by
  refine push (fun hfits => ?_) fun hle hr => hk hle fun F hF hfits =>
    ⟨hr F hF hfits, hxs.imp fun _ _ h => h F (le_trans hle hF) hfits⟩
  exact forall_of_forall₂ hxs fun h => hrefs (h _ (le_refl _) hfits)

/-- A node that both take. -/
theorem alloc {n : NodeKind} {R : Arena → α → NodeId n → Prop} {node : Node n} {span : Span}
    {x : α} (hp : p d.counted
      = .ok (x, Cursor.counted { d with made := (d.made.alloc n node span).2 }))
    (hnode : d.made.Fits → ∀ s ∈ Node.refs n node, d.made.Resolves s)
    (hx : ∀ F id, d.made ≤ F → F.Fits → id.raw.toNat = d.made.size n → F.node? id = some node →
      F.span? id = some span → R F x id) : Follows (Held R) p (Build.alloc n node span) d := by
  have hle := d.made.le_alloc node span
  constructor
  · intro z c hok
    rw [hp] at hok
    cases hok
    refine ⟨_, _, rfl, rfl, .of_step hle fun hfits => .alloc (hnode (hfits.of_le hle)), ?_⟩
    intro F hF hfits
    obtain ⟨hraw, hfound, hspan⟩ := holds_alloc hF hfits
    exact hx F _ (le_trans hle hF) hfits hraw hfound hspan
  · intro e herror
    rw [hp] at herror
    cases herror

/-! ## Passing over -/

theorem pass (stop : Token → Bool) (start : Span) (open? : Option Bracket) :
    Follows Equals (pass stop start open?) (pass stop start open?) d := by
  constructor
  · intro x c hok
    unfold Parse.pass at hok ⊢
    rw [Cursor.counted_rest] at hok
    split at hok
    · cases hok
    · cases hok
      exact ⟨_, _, rfl, rfl, .refl _, rfl⟩
  · intro e herror
    unfold Parse.pass at herror ⊢
    rw [Cursor.counted_rest] at herror
    split at herror
    · cases herror
      rfl
    · cases herror

theorem bracketed : Follows Equals bracketed bracketed d :=
  look <| bump.step fun _ _ => (pass _ _ _).step fun _ _ => spanFrom

theorem through (wanted : Wanted) (stop : Token → Bool) :
    Follows Equals (through wanted stop) (through wanted stop) d := by
  refine look <| (pass stop _ none).step fun passed _ => ?_
  rw [Cursor.here_counted]
  split
  · exact expected
  · exact spanFrom

/-! ## Sequences -/

section Sequence

variable {item : Parse α} {item' : Build β} (hitem : ∀ d, Follows R item item' d)
  (hR : Monotone R)

include hitem hR

theorem moreItems (separator : Mark) : ∀ (n : Nat) (d : Cursor Arena),
    Follows (fun A => List.Forall₂ (R A)) (moreItems separator item n)
      (moreItems separator item' n) d
  | 0, _ => .pure .nil
  | n + 1, d => by
    refine (eat separator).step fun s _ => ?_
    cases s with
    | none => exact .pure .nil
    | some s =>
      exact (hitem _).bind fun _ hx => (moreItems separator n _).finish
        fun hle hxs => .cons (hR hle _ _ hx) hxs

theorem separated (separator : Mark) :
    Follows (fun A => List.Forall₂ (R A)) (separated separator item)
      (separated separator item') d :=
  (hitem d).bind fun _ hx => look <| (moreItems hitem hR separator _ _).finish
    fun hle hxs => .cons (hR hle _ _ hx) hxs

section

variable {stop : Cursor → Bool} {stop' : Cursor Arena → Bool}
  (hstop : ∀ d : Cursor Arena, stop d.counted = stop' d)

include hstop

theorem listedItems : ∀ (n : Nat) (d : Cursor Arena),
    Follows (fun A => List.Forall₂ (R A)) (listedItems stop item n) (listedItems stop' item' n) d
  | 0, d => by
    refine look ?_
    rw [hstop]
    split
    · exact .pure .nil
    · exact (hitem d).finish fun _ hx => .cons hx .nil
  | n + 1, d => by
    refine look ?_
    rw [hstop]
    split
    · exact .pure .nil
    · refine (hitem d).bind fun _ hx => (eat .comma).step fun s hle => ?_
      cases s with
      | none => exact .pure (.cons (hR hle _ _ hx) .nil)
      | some s =>
        exact (listedItems n _).finish
          fun hle' hxs => .cons (hR (le_trans hle hle') _ _ hx) hxs

theorem listed :
    Follows (fun A => List.Forall₂ (R A)) (listed stop item) (listed stop' item') d :=
  look (listedItems hitem hR hstop _ d)

end

omit hitem hR in
theorem semiBefore (close : Mark) : Follows Equals (semiBefore close) (semiBefore close) d := by
  refine look ((eat .semi).step fun s _ => ?_)
  rw [Cursor.isAt_counted]
  split
  · exact .pure rfl
  · exact expected

theorem blockItems (close : Mark) : ∀ (n : Nat) (d : Cursor Arena),
    Follows (fun A => List.Forall₂ (R A)) (blockItems close item n) (blockItems close item' n) d
  | 0, _ => .pure .nil
  | n + 1, d => by
    refine look ?_
    rw [Cursor.isAt_counted, Cursor.atEnd_counted]
    split
    · exact .pure .nil
    · exact (hitem d).bind fun _ hx => (semiBefore close).step fun _ hle =>
        (blockItems close n _).finish
          fun hle' hxs => .cons (hR (le_trans hle hle') _ _ hx) hxs

theorem block (close : Mark) :
    Follows (fun A x y => List.Forall₂ (R A) x.1 y.1 ∧ x.2 = y.2) (block close item)
      (block close item') d :=
  look <| (blockItems hitem hR close _ d).bind fun _ hxs =>
    (expect _).finish fun hle hs => ⟨monotone_forall₂ hR hle _ _ hxs, hs⟩

end Sequence

/-- Readers one after another, each with what it is given. -/
theorem mapM {Q : Arena → τ → υ → Prop} {f : τ → Parse α} {g : υ → Build β} (hQ : Monotone Q)
    (hR : Monotone R) (h : ∀ {x y} {d : Cursor Arena}, Q d.made x y → Follows R (f x) (g y) d)
    {xs : List τ} {ys : List υ} (hxs : List.Forall₂ (Q d.made) xs ys) :
    Follows (fun A => List.Forall₂ (R A)) (xs.mapM f) (ys.mapM g) d := by
  induction xs generalizing ys d with
  | nil =>
    obtain rfl := List.forall₂_nil_left_iff.1 hxs
    exact .pure .nil
  | cons x xs ih =>
    obtain ⟨y, ys, hx, hrest, rfl⟩ := List.forall₂_cons_left_iff.1 hxs
    rw [List.mapM_cons, List.mapM_cons]
    exact (h hx).bind fun hle hz => (ih <| hrest.imp fun _ _ => hQ hle _ _).finish
      fun hle' hzs => .cons (hR hle' _ _ hz) hzs

/-- A list of what is read alike is read alike. -/
theorem same {p : Parse (List α)} {q : Build (List α)}
    (h : Follows (fun A => List.Forall₂ (Equals A)) p q d) : Follows Equals p q d :=
  h.mono fun _ xs ys hxs => by rwa [List.forall₂_eq_eq_eq] at hxs

end Follows

end Build

end GoIface
