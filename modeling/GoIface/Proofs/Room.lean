import GoIface.Flat.Declarations
import GoIface.Proofs.Arenas
import GoIface.Proofs.FileContents
import Mathlib.Data.List.Nodup

/-!
# Room in an arena

A reader gets one in hand for each written lexeme that it reads and pays one for each node or item
that goes to a given store (`Build.Affords`). No reader owes anything in the end: whatever is made
has lexemes of its own to pay for it, but for a type, which may be no more than an identifier that
pays for something else as well, though not in the same store (`Store.spare`). So no store of an
arena holds more than the text has bytes, and a text of less than four gigabytes, which is all that
positions are made for, loses no number and no place (`Ast.fits_ofSource`).
-/

namespace GoIface

variable {α β τ : Type}

/-- Where an arena keeps the nodes or the items of a kind. -/
inductive Store where
  | nodes (k : NodeKind)
  | items (k : ListKind)
deriving DecidableEq

namespace Store

variable (s : Store)

/-- What one thing that goes to `t` takes of the room in `s`. -/
def one (t : Store) : Nat := if s = t then 1 else 0

/-- What a type leaves of the room that its lexemes make. -/
def spare : Nat := 1 - s.one (.nodes .type)

/-- What goes to different places takes no more room in one of them than one thing. -/
theorem sum_one_le (ts : List Store) (h : ts.Nodup) : (ts.map s.one).sum ≤ 1 := by
  have hcount : (ts.map s.one).sum = ts.count s := by
    induction ts with
    | nil => rfl
    | cons t ts ih =>
      rw [List.map_cons, List.sum_cons, ih (List.nodup_cons.1 h).2, List.count_cons, Nat.add_comm,
        one]
      simp only [beq_iff_eq, eq_comm (a := s)]
  exact hcount ▸ List.nodup_iff_count_le_one.1 h s

theorem one_le_one (t : Store) : s.one t ≤ 1 := by
  simpa using s.sum_one_le [t] (List.nodup_singleton t)

theorem spare_add_one : s.spare + s.one (.nodes .type) = 1 := by
  have := s.one_le_one (.nodes .type)
  rw [spare]
  omega

theorem one_add_one_le {t u : Store} (h : [t, u].Nodup) : s.one t + s.one u ≤ 1 := by
  simpa using s.sum_one_le [t, u] h

theorem one_add_one_le_spare {t u : Store} (h : [.nodes .type, t, u].Nodup) :
    s.one t + s.one u ≤ s.spare := by
  have := s.sum_one_le _ h
  simp only [List.map_cons, List.map_nil, List.sum_cons, List.sum_nil] at this
  have := s.spare_add_one
  omega

theorem one_le_spare {t : Store} (h : [.nodes .type, t].Nodup) : s.one t ≤ s.spare := by
  have := s.one_add_one_le h
  have := s.spare_add_one
  omega

/-- One thing by itself and others in a row of at least one. -/
theorem add_mul_le {a b c : Nat} (n : Nat) (h : a + b ≤ c) : a + n * b ≤ max 1 n * c :=
  calc
    a + n * b ≤ max 1 n * a + max 1 n * b :=
      Nat.add_le_add (Nat.le_mul_of_pos_left a (by omega)) (Nat.mul_le_mul_right b (by omega))
    _ = max 1 n * (a + b) := (Nat.mul_add _ _ _).symm
    _ ≤ max 1 n * c := Nat.mul_le_mul_left _ h

end Store

namespace Arena

variable (A : Arena) (s : Store)

def filled : Store → Nat
  | .nodes k => A.size k
  | .items k => (A.items k).size

theorem filled_alloc {k : NodeKind} (node : Node k) (span : Span) :
    (A.alloc k node span).2.filled s = A.filled s + s.one (.nodes k) := by
  cases s with
  | nodes j =>
    by_cases h : j = k
    · subst h
      simp [filled, Store.one, size_alloc_self]
    · simp [filled, Store.one, size_alloc_of_ne A _ _ h, h]
  | items j => simp [filled, Store.one]

theorem filled_push {k : ListKind} (xs : List (Item k)) :
    (A.push k xs).2.filled s = A.filled s + xs.length * s.one (.items k) := by
  cases s with
  | nodes j => simp [filled, Store.one]
  | items j =>
    by_cases h : j = k
    · subst h
      simp [filled, Store.one, size_items_push_self]
    · simp [filled, Store.one, size_items_push_of_ne A _ h, h]

end Arena

/-- How many of the lexemes were written. -/
def countWritten (ls : List Lexeme) : Nat := ls.countP (!·.isInserted)

theorem countWritten_cons (l : Lexeme) (ls : List Lexeme) :
    countWritten (l :: ls) = countWritten ls + if l.isInserted then 0 else 1 := by
  cases h : l.isInserted <;> simp [countWritten, h]

namespace Build

open Parse

/-- A reader that has `n` in hand has `left` in hand afterwards, if it gets one for each written
lexeme that it reads and pays one for whatever goes to `s`. -/
def Affords (s : Store) (q : Build α) (n : Nat) (left : α → Nat) (d : Cursor Arena) : Prop :=
  ∀ x d', q d = .ok (x, d') →
    d'.made.filled s + countWritten d'.rest + left x ≤ d.made.filled s + countWritten d.rest + n

namespace Affords

variable {s : Store} {q : Build α} {k : α → Build β} {n m : Nat} {a a' : α → Nat} {b : β → Nat}
  {d : Cursor Arena}

theorem pure {x : α} (h : a x ≤ n) : Affords s (pure x) n a d := by
  rintro _ _ ⟨⟩
  omega

theorem bind (hq : Affords s q n a d) (hk : ∀ {x d'}, Affords s (k x) (a x) b d') :
    Affords s (q >>= k) n b d := by
  intro y d' hok
  obtain ⟨x, d₁, hx, hy⟩ := ok_of_bind hok
  have hx := hq x d₁ hx
  have hy := hk y d' hy
  omega

/-- What is in hand need not all be counted, be it before. -/
theorem more (hq : Affords s q n a d) (h : n ≤ m) : Affords s q m a d := by
  intro x d' hok
  have hx := hq x d' hok
  omega

/-- Or be it afterwards. -/
theorem less (hq : Affords s q n a d) (h : ∀ x, a' x ≤ a x) : Affords s q n a' d := by
  intro x d' hok
  have hx := hq x d' hok
  have ha := h x
  omega

theorem map {f : α → β} (hq : Affords s q n a d) (h : ∀ x, b (f x) ≤ a x) :
    Affords s (f <$> q) n b d :=
  hq.bind (.pure (h _))

theorem look {r : Cursor Arena → Build α} (h : Affords s (r d) n a d) :
    Affords s (get >>= r) n a d := h

theorem failHere {fault : ParseFault} : Affords s (failHere fault : Build α) n a d := by
  rintro _ _ ⟨⟩

theorem fail {fault : ParseFault} {span : Span} :
    Affords s (fail fault span : Build α) n a d := by
  rintro _ _ ⟨⟩

theorem expected {wanted : Wanted} : Affords s (expected wanted : Build α) n a d := by
  rintro _ _ ⟨⟩

theorem expected_bind {wanted : Wanted} : Affords s (Parse.expected wanted >>= k) n b d := by
  intro y d' hok
  obtain ⟨x, d₁, hx, -⟩ := ok_of_bind hok
  cases hx

theorem bump : Affords s bump n (fun _ => n) d := by
  obtain ⟨_ | ⟨l, ls⟩, last, e, made⟩ := d
  · rintro _ _ ⟨⟩
    exact le_rfl
  · rintro _ _ ⟨⟩
    simp only [countWritten_cons]
    omega

theorem bump_of_ne {t : Token} (h : d.next? = some t) (ht : t ≠ .mark .semi) :
    Affords s Parse.bump n (fun _ => n + 1) d := by
  obtain ⟨_ | ⟨l, ls⟩, last, e, made⟩ := d
  · cases h
  · obtain rfl : l.token = t := by simpa [Cursor.next?] using h
    rintro _ _ ⟨⟩
    simp only [countWritten_cons, Lexeme.isInserted_of_ne ht, Bool.false_eq_true, if_false]
    omega

theorem eat (m : Mark) : Affords s (eat m) n (fun _ => n) d := by
  refine look ?_
  split
  · exact bump.map fun _ => le_rfl
  · exact .pure le_rfl

theorem eat_of_ne {m : Mark} (hm : m ≠ .semi) :
    Affords s (Parse.eat m) n (fun o => n + o.toList.length) d := by
  refine look ?_
  split
  · next hat =>
    exact (bump_of_ne (Cursor.isAt_iff.1 hat) (by simpa using hm)).map fun _ => le_rfl
  · exact .pure (by simp)

theorem expect {t : Token} (ht : t ≠ .mark .semi) :
    Affords s (expect t) n (fun _ => n + 1) d := by
  refine look ?_
  split
  · next hnext => exact bump_of_ne (beq_iff_eq.1 hnext) ht
  · exact expected

theorem ident : Affords s ident n (fun _ => n + 1) d := by
  refine look ?_
  split
  · next hnext => exact (bump_of_ne hnext (by simp)).bind (.pure le_rfl)
  · exact expected

theorem spanFrom {start : Span} : Affords s (spanFrom start) n (fun _ => n) d :=
  look (.pure le_rfl)

theorem pass (stop : Token → Bool) (start : Span) (open? : Option Bracket) :
    Affords s (pass stop start open?) n (fun _ => n) d := by
  intro passed d' hok
  unfold Parse.pass at hok
  split at hok
  · cases hok
  · next hover =>
    cases hok
    have hle : countWritten d.rest = _ := congrArg countWritten (passOver_append hover).symm
    simp only [countWritten, List.countP_append] at hle ⊢
    omega

theorem bracketed : Affords s bracketed n (fun _ => n) d :=
  look <| bump.bind <| (pass _ _ _).bind spanFrom

theorem through (wanted : Wanted) (stop : Token → Bool) :
    Affords s (through wanted stop) n (fun _ => n) d := by
  refine look <| (pass stop _ none).bind fun {passed _} => ?_
  split
  · exact expected
  · exact spanFrom

theorem stringLiteral? : Affords s stringLiteral? n (fun o => n + o.toList.length) d := by
  refine look ?_
  split
  · next hnext => exact (bump_of_ne hnext (by simp)).bind (.pure le_rfl)
  · next hnext => exact (bump_of_ne hnext (by simp)).bind (.pure le_rfl)
  · exact .pure le_rfl

/-- A part of a reader that is read on some condition. -/
theorem optional {b : Bool} {k : Option α → Build β} {c : β → Nat}
    (hq : Affords s q n (fun _ => n) d) (hk : ∀ {o d'}, Affords s (k o) n c d') :
    Affords s (if b = true then some <$> q >>= k else Pure.pure none >>= k) n c d := by
  split
  · exact (hq.map fun _ => le_rfl).bind hk
  · exact hk

theorem alloc {k : NodeKind} {node : Node k} {span : Span} :
    Affords s (Build.alloc k node span) (n + s.one (.nodes k)) (fun _ => n) d := by
  rintro _ _ ⟨⟩
  show (d.made.alloc k node span).2.filled s + countWritten d.rest + n ≤ _
  rw [Arena.filled_alloc]
  omega

theorem make {k : NodeKind} {start : Span} {node : Node k} :
    Affords s (Build.make k start node) (n + s.one (.nodes k)) (fun _ => n) d :=
  alloc

theorem push {l : ListKind} {xs : List (Item l)} :
    Affords s (Build.push l xs) (n + xs.length * s.one (.items l)) (fun _ => n) d := by
  rintro _ _ ⟨⟩
  show (d.made.push l xs).2.filled s + countWritten d.rest + n ≤ _
  rw [Arena.filled_push]
  omega

/-! ## Sequences -/

section Sequence

variable {item : Build α} {c : α → Nat} (hitem : ∀ {n d}, Affords s item n (fun x => n + c x) d)

include hitem

theorem moreItems {separator : Mark} : ∀ {room : Nat} {n d}, Affords s
    (moreItems separator item room) n (fun xs => n + (xs.map c).sum) d
  | 0, _, _ => .pure le_rfl
  | room + 1, n, d => by
    refine (eat separator).bind fun {o _} => ?_
    cases o with
    | none => exact .pure le_rfl
    | some _ =>
      exact hitem.bind <| moreItems.bind <| .pure (by simp [Nat.add_assoc])

omit hitem in
theorem separated {gain : Nat} (hitem : ∀ {n d}, Affords s item n (fun _ => n + gain) d)
    {separator : Mark} :
    Affords s (separated separator item) n (fun xs => n + max 1 xs.length * gain) d :=
  hitem.bind <| look <| (moreItems hitem).bind <| .pure <| by
    simp [Nat.add_mul]
    omega

theorem listedItems {stop : Cursor Arena → Bool} : ∀ {room : Nat} {n d}, Affords s
    (listedItems stop item room) n (fun xs => n + (xs.map c).sum) d
  | 0, n, d => by
    refine look ?_
    split
    · exact .pure le_rfl
    · exact hitem.bind <| .pure (by simp)
  | room + 1, n, d => by
    refine look ?_
    split
    · exact .pure le_rfl
    · refine hitem.bind <| (eat .comma).bind fun {o _} => ?_
      cases o with
      | none => exact .pure (by simp)
      | some _ => exact listedItems.bind <| .pure (by simp [Nat.add_assoc])

theorem listed {stop : Cursor Arena → Bool} :
    Affords s (listed stop item) n (fun xs => n + (xs.map c).sum) d :=
  look (listedItems hitem)

omit hitem in
theorem semiBefore {close : Mark} : Affords s (semiBefore close) n (fun _ => n) d := by
  refine look <| (eat .semi).bind fun {o _} => ?_
  split
  · exact .pure le_rfl
  · exact expected

theorem blockItems {close : Mark} : ∀ {room : Nat} {n d}, Affords s
    (blockItems close item room) n (fun xs => n + (xs.map c).sum) d
  | 0, _, _ => .pure le_rfl
  | room + 1, n, d => by
    refine look ?_
    split
    · exact .pure le_rfl
    · exact hitem.bind <| semiBefore.bind <| blockItems.bind <| .pure (by simp [Nat.add_assoc])

theorem block {close : Mark} (hclose : close ≠ .semi) :
    Affords s (block close item) n (fun p => n + (p.1.map c).sum) d :=
  look <| (blockItems hitem).bind <| (expect (by simpa using hclose)).bind <|
    .pure (Nat.le_succ _)

end Sequence

/-- Readers one after another, each of which pays for itself. -/
theorem mapM {f : τ → Build β} {cost : τ → Nat} {gain : Nat}
    (hf : ∀ x n d, Affords s (f x) (n + cost x) (fun _ => n + gain) d) : ∀ {xs : List τ} {n d},
    Affords s (xs.mapM f) (n + (xs.map cost).sum) (fun ys => n + ys.length * gain) d
  | [], _, _ => .pure (by simp)
  | x :: xs, n, d => by
    rw [List.mapM_cons, List.map_cons, List.sum_cons, ← Nat.add_assoc, Nat.add_right_comm]
    refine (hf x _ _).bind <|
      (more (n := n + gain + (xs.map cost).sum) (mapM hf) (by omega)).bind <| .pure ?_
    rw [List.length_cons, Nat.add_mul]
    omega

/-! ## Parameters -/

/-- What an identifier takes that turns out to be a type. -/
def identCost (s : Store) : Nat :=
  s.one (.nodes .type) + s.one (.nodes .field) + s.one (.items .fields)

/-- What the fields of an entry take, by its names and its type. -/
def entryCost (s : Store) (e : ParamEntry τ) : Nat :=
  e.names.length * s.one (.items .names) + if e.type.isSome
    then s.one (.nodes .field) + s.one (.items .fields)
    else e.names.length * identCost s

def groupCost (s : Store) (g : ParamGroup τ) : Nat :=
  g.allNames.length * s.one (.items .names) + (s.one (.nodes .field) + s.one (.items .fields))

/-- A name that waits pays for itself and for the type that it may turn out to be. -/
theorem cost_groupEntries : ∀ (es : List (ParamEntry τ)) (waiting : List Ident)
    (start : Option Nat), ((groupEntries waiting start es).1.map (groupCost s)).sum
      + (groupEntries waiting start es).2.length * identCost s
      ≤ (es.map (entryCost s)).sum + waiting.length * (s.one (.items .names) + identCost s)
  | [], waiting, _ => by
    simp [groupEntries, Nat.mul_add]
  | e :: es, waiting, start => by
    rw [groupEntries]
    rcases htype : e.type with _ | t
    · have ih := cost_groupEntries es (waiting ++ e.names)
        (if waiting.isEmpty then some e.span.start else start)
      simp only [List.length_append, Nat.add_mul, Nat.mul_add, List.map_cons, List.sum_cons,
        entryCost, htype, Option.isSome_none, Bool.false_eq_true, if_false] at ih ⊢
      omega
    · have ih := cost_groupEntries es [] none
      simp only [List.length_append, Nat.add_mul, Nat.mul_add, List.map_cons, List.sum_cons,
        entryCost, htype, Option.isSome_some, if_true, Prod.map, id, groupCost,
        ParamGroup.allNames, List.length_nil, Nat.zero_mul] at ih ⊢
      omega

theorem groupField {g : ParamGroup (NodeId .type)} : Affords s (Build.groupField g)
    (n + groupCost s g) (fun _ => n + s.one (.items .fields)) d := by
  have hcost : n + groupCost s g = n + s.one (.items .fields) + s.one (.nodes .field)
      + g.allNames.length * s.one (.items .names) := by
    rw [groupCost]
    omega
  rw [Build.groupField, hcost]
  split
  · exact (pure (Nat.le_add_right _ _)).bind alloc
  · exact push.bind alloc

theorem identField {x : Ident} : Affords s (Build.identField x) (n + identCost s)
    (fun _ => n + s.one (.items .fields)) d := by
  have hcost : n + identCost s
      = n + s.one (.items .fields) + s.one (.nodes .field) + s.one (.nodes .type) := by
    rw [identCost]
    omega
  rw [hcost]
  exact alloc.bind alloc

theorem resolve {es : List (ParamEntry (NodeId .type))} : Affords s (Build.resolve es)
    (n + (es.map (entryCost s)).sum) (fun xs => n + xs.length * s.one (.items .fields)) d := by
  have hcost := cost_groupEntries (s := s) es [] none
  rw [List.length_nil, Nat.zero_mul, Nat.add_zero] at hcost
  refine more (n := n + (groupEntries [] none es).2.length * identCost s
    + ((groupEntries [] none es).1.map (groupCost s)).sum) ?_ (by omega)
  refine (mapM fun _ _ _ => groupField).bind fun {named _} => ?_
  rw [Nat.add_right_comm]
  refine (more (n := n + named.length * s.one (.items .fields)
    + ((groupEntries [] none es).2.map fun _ => identCost s).sum) (mapM fun _ _ _ => identField)
    (by simp)).bind fun {unnamed _} => ?_
  split
  · exact fail
  · refine pure ?_
    rw [List.length_append, Nat.add_mul]
    omega

/-! ## Types -/

section Types

variable {type : Build (NodeId .type)}
  (htype : ∀ {n d}, Affords s type n (fun _ => n + s.spare) d)

include htype

theorem typeArgs : Affords s (typeArgs type) n (fun xs => n + xs.length * s.spare) d := by
  refine (eat _).bind fun {o _} => ?_
  cases o with
  | none => exact .pure (by simp)
  | some _ =>
    refine (listed htype).bind <| (expect (by simp)).bind fun {rbrack _} => ?_
    split
    · exact fail
    · exact .pure (by simp)

theorem typeName : Affords s (Build.typeName type) n (fun _ => n + 1) d := by
  have hargs (q : Option Ident) (x : Ident) (n : Nat) (d : Cursor Arena) : Affords s (do
      let args ← Parse.typeArgs type
      return Flat.TypeForm.named q x (← Build.push .types args)) n (fun _ => n) d :=
    (typeArgs htype).bind <| (push.more <| Nat.add_le_add_left
      (Nat.mul_le_mul_left _ (s.one_le_spare (by decide))) _).bind <| .pure le_rfl
  refine ident.bind <| (eat _).bind fun {o _} => ?_
  cases o with
  | none => exact hargs _ _ _ _
  | some _ => exact ident.bind <| (hargs _ _ _ _).less fun _ => by omega

theorem paramEntry :
    Affords s (paramEntry type) n (fun e => n + entryCost s e) d := by
  have hrest (names : List Ident) (start : Span) (n : Nat) (d : Cursor Arena) : Affords s (do
      let ellipsis ← Parse.eat .ellipsis
      let type ← type
      return (⟨names, ellipsis, some type, ← Parse.spanFrom start⟩ : ParamEntry _))
      (n + names.length) (fun e => n + entryCost s e) d := by
    refine (eat _).bind <| htype.bind <| spanFrom.bind <| pure ?_
    have hspare : s.one (.nodes .field) + s.one (.items .fields) ≤ s.spare :=
      s.one_add_one_le_spare (by decide)
    have hnames := Nat.mul_le_mul_left names.length (s.one_le_one (.items .names))
    simp only [entryCost, Option.isSome_some, if_true]
    omega
  refine look ?_
  split
  · refine ident.bind <| pure ?_
    -- whatever becomes of the identifier goes to four different stores
    have hone := s.sum_one_le
      [.items .names, .nodes .type, .nodes .field, .items .fields] (by decide)
    simp [entryCost, identCost] at hone ⊢
    omega
  · split
    · exact (ident.map (b := fun names => n + names.length) fun _ => le_rfl).bind
        (hrest _ _ _ _)
    · exact hrest [] _ _ _

theorem params : Affords s (Build.params type) n (fun _ => n + 2) d :=
  (expect (by simp)).bind <| (listed (paramEntry htype)).bind <|
    ((expect (by simp)).less fun _ => by omega).bind <| resolve.bind <| push.bind <| pure le_rfl

theorem results : Affords s (Build.results type) n (fun _ => n) d := by
  refine look ?_
  split
  · exact (params htype).map fun _ => by omega
  · split
    · exact htype.map fun _ => by omega
    · exact pure le_rfl

theorem signature : Affords s (Build.signature type) n (fun _ => n + 1) d :=
  (params htype).bind <| (results htype).bind <|
    make.more (Nat.add_le_add_left (s.one_le_one _) (n + 1))

theorem arrayOrSlice : Affords s (Build.arrayOrSlice type) n (fun _ => n + 1) d := by
  refine bump.bind <| (eat_of_ne (by simp)).bind fun {o _} => ?_
  cases o with
  | some _ => exact htype.bind <| pure (by simp)
  | none =>
    refine look ?_
    split
    · exact failHere
    · exact (through _ _).bind <| (expect (by simp)).bind <| htype.bind <| pure (by simp)

theorem mapType : Affords s (Build.mapType type) n (fun _ => n + 1) d :=
  bump.bind <| (expect (by simp)).bind <| htype.bind <| (expect (by simp)).bind <|
    htype.bind <| pure (by omega)

theorem chanType (h : d.next? = some (.keyword .chanKw)) :
    Affords s (Build.chanType type) n (fun _ => n + 1) d :=
  (bump_of_ne h (by simp)).bind <| (eat _).bind <| htype.bind <| pure (by omega)

theorem receiveType : Affords s (Build.receiveType type) n (fun _ => n + 1) d :=
  bump.bind <| (expect (by simp)).bind <| htype.bind <| pure (by omega)

theorem term : Affords s (term type) n (fun _ => n + s.spare) d :=
  (eat _).bind <| htype.bind <| pure le_rfl

theorem element : Affords s (Build.element type) n
    (fun _ => n + s.one (.items .elements)) d := by
  have hone := s.one_le_one (.items .elements)
  refine look ?_
  split
  · exact ident.bind <| (signature htype).bind <| pure (by omega)
  · refine (separated (term htype)).bind fun {terms _} => ?_
    have hspare : s.one (.items .elements) + s.one (.items .terms) ≤ s.spare :=
      s.one_add_one_le_spare (by decide)
    have hterms := Store.add_mul_le terms.length hspare
    exact (push.more (n := n + s.one (.items .elements) + _) (by omega)).bind <| pure le_rfl

theorem interfaceType : Affords s (Build.interfaceType type) n (fun _ => n + 1) d :=
  bump.bind <| (expect (by simp)).bind <| (block (element htype) (by simp)).bind <|
    (push.more (by simp)).bind <| pure le_rfl

theorem structField : Affords s (Build.structField type) n
    (fun _ => n + s.one (.items .fields)) d := by
  have hrest (names : List Ident) (embedded : Bool) (start : Span) (n : Nat) (d : Cursor Arena) :
      Affords s (do
        let type ← type
        let tag ← Parse.stringLiteral?
        let names ← Build.push .names names
        Build.make .field start ⟨names, none, type, tag, embedded⟩)
        (n + names.length) (fun _ => n + s.one (.items .fields)) d := by
    refine htype.bind <| (stringLiteral?.less fun _ => Nat.le_add_right _ _).bind <|
      (push.more (n := n + s.one (.items .fields) + s.one (.nodes .field) + _) ?_).bind make
    have hspare : s.one (.nodes .field) + s.one (.items .fields) ≤ s.spare :=
      s.one_add_one_le_spare (by decide)
    have hnames := Nat.mul_le_mul_left names.length (s.one_le_one (.items .names))
    omega
  refine look ?_
  split
  · exact expected
  · next embedded _ =>
    split
    · exact hrest [] _ _ _ _
    · exact (separated ident).bind <| (hrest _ _ _ _ _).more (by omega)

theorem structType : Affords s (Build.structType type) n (fun _ => n + 1) d :=
  bump.bind <| (expect (by simp)).bind <| (block (structField htype) (by simp)).bind <|
    (push.more (by simp)).bind <| pure le_rfl

theorem parenType : Affords s (Build.parenType type) n (fun _ => n + 1) d :=
  bump.bind <| htype.bind <| (expect (by simp)).bind <| pure (by omega)

theorem typeForm : Affords s (Build.typeForm type) n (fun _ => n + 1) d := by
  refine look ?_
  split
  · exact typeName htype
  · next h => exact (bump_of_ne h (by simp)).bind <| htype.bind <| pure (by omega)
  · exact arrayOrSlice htype
  · exact mapType htype
  · next h => exact chanType htype h
  · exact receiveType htype
  · exact bump.bind <| (signature htype).bind <| pure le_rfl
  · exact interfaceType htype
  · exact structType htype
  · exact parenType htype
  · exact expected

end Types

theorem typeWithin : ∀ {room n : Nat} {d}, Affords s (Build.typeWithin room) n
    (fun _ => n + s.spare) d
  | 0, _, _ => failHere
  | room + 1, n, d => look <| (typeForm typeWithin).bind <|
      make.more (Nat.le_of_eq (by rw [Nat.add_assoc, s.spare_add_one]))

theorem type : Affords s Build.type n (fun _ => n + s.spare) d := typeWithin

/-! ## Declarations -/

theorem importName? : Affords s importName? n (fun _ => n) d := by
  refine look ?_
  split
  · exact bump.bind <| pure le_rfl
  · exact bump.bind <| pure le_rfl
  · exact ident.bind <| pure (by omega)
  · exact pure le_rfl

theorem importSpec : Affords s importSpec n (fun _ => n + 1) d := by
  refine importName?.bind <| stringLiteral?.bind fun {path _} => ?_
  cases path with
  | none => exact expected
  | some _ => exact pure le_rfl

theorem group {spec : Build α} {c : α → Nat}
    (hspec : ∀ {n d}, Affords s spec n (fun x => n + c x) d) :
    Affords s (group spec) n (fun p => n + (p.1.map c).sum) d := by
  refine (eat _).bind fun {left _} => ?_
  cases left with
  | none => exact hspec.bind <| pure (by simp)
  | some _ => exact (block hspec (by simp)).bind <| pure le_rfl

theorem importDecl : Affords s importDecl n (fun xs => n + xs.length) d :=
  bump.bind <| (group importSpec).bind <| pure (by simp)

theorem typeSpec : Affords s Build.typeSpec n (fun _ => n + s.one (.items .specs)) d := by
  have hone := s.one_le_one (.items .specs)
  refine ident.bind <| look <| optional bracketed <| (eat _).bind <| type.bind <| pure (by omega)

theorem valueSpec : Affords s Build.valueSpec n (fun _ => n + s.one (.items .specs)) d := by
  refine (separated ident).bind fun {names _} => look <|
    optional (type.less fun _ => Nat.le_add_right _ _) <|
    (eat _).bind fun {assign d} => ?_
  have hone : s.one (.items .specs) + s.one (.items .names) ≤ 1 := s.one_add_one_le (by decide)
  have hnames := Store.add_mul_le names.length hone
  have hpush (d : Cursor Arena) : Affords s (Build.push .names names)
      (n + max 1 names.length * 1) (fun _ => n + s.one (.items .specs)) d :=
    push.more (n := n + s.one (.items .specs) + _) (by omega)
  cases assign with
  | none => exact (hpush _).bind <| pure le_rfl
  | some _ => exact (through _ _).bind <| (hpush _).bind <| pure le_rfl

theorem specDecl {kind : Flat.SpecKind} {spec : Build Flat.Spec} {t : Token}
    (h : d.next? = some t) (ht : t ≠ .mark .semi)
    (hspec : ∀ {n d}, Affords s spec n (fun _ => n + s.one (.items .specs)) d) :
    Affords s (Build.specDecl kind spec) n (fun _ => n + s.one (.items .decls)) d := by
  have hone : s.one (.nodes .decl) + s.one (.items .decls) ≤ 1 := s.one_add_one_le (by decide)
  exact (bump_of_ne h ht).bind <| (group hspec).bind <|
    (push.more (n := n + 1 + _) (by simp)).bind <|
    (make.more (n := n + s.one (.items .decls) + _) (by omega)).bind <| pure le_rfl

theorem funcDecl : Affords s Build.funcDecl n (fun _ => n + s.one (.items .decls)) d := by
  have hone : s.one (.nodes .func) + s.one (.items .decls) ≤ 1 := s.one_add_one_le (by decide)
  exact bump.bind <| look <| optional ((params type).less fun _ => by omega) <|
    ident.bind <| look <| optional bracketed <| (signature type).bind <| look <|
    optional bracketed <| (make.more (n := n + s.one (.items .decls) + _) (by omega)).bind <|
    pure le_rfl

theorem decl : Affords s Build.decl n (fun _ => n + s.one (.items .decls)) d := by
  refine look ?_
  split
  · next h => exact specDecl h (by simp) (valueSpec.map fun _ => le_rfl)
  · next h => exact specDecl h (by simp) (typeSpec.map fun _ => le_rfl)
  · next h => exact specDecl h (by simp) (valueSpec.map fun _ => le_rfl)
  · exact funcDecl
  · exact failHere
  · exact expected

theorem declEnd : Affords s declEnd n (fun _ => n) d := by
  refine look <| (eat _).bind fun {o _} => ?_
  split
  · exact pure le_rfl
  · exact expected

theorem declsWhile {more : Cursor Arena → Bool} {item : Build α} {c : α → Nat}
    (hitem : ∀ {n d}, Affords s item n (fun x => n + c x) d) : ∀ {room n : Nat} {d},
    Affords s (declsWhile more item room) n (fun xs => n + (xs.map c).sum) d
  | 0, _, _ => pure le_rfl
  | room + 1, n, d => by
    refine look ?_
    split
    · exact hitem.bind <| declEnd.bind <| (declsWhile hitem).bind <| pure (by simp [Nat.add_assoc])
    · exact pure le_rfl

theorem file : Affords s Build.file n (fun _ => n) d := by
  refine (expect (by simp)).bind <| ident.bind <| (eat _).bind fun {semi _} => ?_
  split
  · exact expected_bind
  · refine look <| (declsWhile importDecl).bind fun {imports _} => look <|
      (declsWhile decl).bind fun {decls _} => ?_
    have hone := Nat.mul_le_mul_left imports.flatten.length (s.one_le_one (.items .imports))
    have hlength : imports.flatten.length = (imports.map List.length).sum := List.length_flatten
    have hdecls : (decls.map fun _ => s.one (.items .decls)).sum
        = decls.length * s.one (.items .decls) := by simp
    refine (push.more (n := n + decls.length * s.one (.items .decls) + _) ?_).bind <|
      push.bind <| pure le_rfl
    rw [hdecls]
    omega

end Affords

end Build

/-! ## The lexemes of a text -/

/-- A lexeme that was written covers at least a byte. -/
theorem Tiled.countWritten_le {offset : Nat} {afterToken : Bool} {cs : List Char} {ls : List Lexeme}
    (h : Tiled offset afterToken cs ls) : countWritten ls ≤ byteCount cs := by
  have hsemis {offset : Nat} {afterToken : Bool} {gap : List Char} {semis : List Lexeme}
      (h : InsertedIn offset afterToken gap semis) : countWritten semis = 0 := by
    rcases h with rfl | ⟨-, before, after, -, rfl⟩
    · rfl
    · rw [countWritten_cons, Lexeme.isInserted_insertedSemi]
      rfl
  induction h with
  | last _ h =>
    rw [hsemis h]
    exact Nat.zero_le _
  | token _ h _ hne _ _ ih =>
    have hpos := byteCount_pos hne
    rw [countWritten, List.countP_append, ← countWritten, ← countWritten, hsemis h,
      countWritten_cons]
    simp only [byteCount_append]
    split <;> omega

namespace Ast

variable {source : String} {ast : Ast}

theorem read_ofSource (h : Ast.ofSource source = .ok ast) :
    (∀ l ∈ lex source, l.fault? = none) ∧
      ∃ c, Build.file (.start .empty (lex source) (byteCount source.toList)) = .ok (ast.file, c) ∧
        c.made = ast.arena := by
  rw [ofSource] at h
  rcases hread : readSource Build.file .empty source with e | ⟨file, arena⟩
  · rw [hread] at h
    cases h
  · rw [hread] at h
    cases h
    exact readSource_eq_ok_iff.1 hread

/-- A text of less than four gigabytes does not make more nodes or items of a kind than there are
numbers. -/
theorem fits_ofSource (h : Ast.ofSource source = .ok ast)
    (hsize : byteCount source.toList < 2 ^ 32) : ast.arena.Fits := by
  obtain ⟨-, c, hok, hmade⟩ := read_ofSource h
  have hroom (s : Store) : ast.arena.filled s < 2 ^ 32 := by
    have hfile := Build.Affords.file (s := s) (n := 0) _ _ hok
    have hempty : Arena.empty.filled s = 0 := by rcases s with k | k <;> cases k <;> rfl
    have hwritten := (tiled_lex source).countWritten_le
    rw [hmade] at hfile
    simp only [Cursor.start, hempty] at hfile
    omega
  exact ⟨fun k => hroom (.nodes k), fun k => hroom (.items k)⟩

end Ast

end GoIface
