import GoIface.Proofs.Excerpts
import GoIface.Proofs.PlacedModels
import GoIface.Proofs.Rows
import Mathlib.Data.List.Basic

/-!
# The same text after two others

Where two texts go on alike, cursors stand before the same lexemes at a distance
(`Cursor.Parallel`). What the one reads there the other one reads too, but for its places and its
serial numbers (`Items.parallel`). That the spans of the lexemes read last are no longer at the same
distance makes no difference, as a reader of declarations looks at the next lexeme first
(`Fresh.decl`). Declarations that are parallel have the same models (`mute_modelAll_parallel`).
-/

namespace GoIface

variable {α β : Type}

/-! ## The same distance everywhere -/

/-- All places go `n` bytes on. -/
def Placement.shift (n : Nat) (made : Counts) : Placement :=
  ⟨(n + ·), fun _ _ h => Nat.add_le_add_left h n, made⟩

theorem Placement.keeps_shift (n : Nat) (made : Counts) (ls : List Lexeme) :
    (shift n made).Keeps ls := by
  intro l _
  simp [Lexeme.isInserted, Lexeme.placed, Span.placed, shift, Span.isEmpty, Span.size,
    Nat.add_sub_add_left]

/-- The cursors stand before the same lexemes, the one `n` bytes on and the other one `m`. -/
def Cursor.Parallel (n m : Nat) (c d : Cursor) : Prop :=
  ∃ (ls : List Lexeme) (e : Nat), c.rest = ls.map (Lexeme.shift n) ∧
    d.rest = ls.map (Lexeme.shift m) ∧ c.textEnd = n + e ∧ d.textEnd = m + e

namespace Cursor.Parallel

variable {n m : Nat} {c d : Cursor}

theorem next? (h : c.Parallel n m d) : d.next? = c.next? := by
  obtain ⟨ls, e, hc, hd, -⟩ := h
  rw [Cursor.next?, Cursor.next?, hc, hd]
  cases ls <;> rfl

/-- Both cursors are those of a third one, but for what was read last. -/
theorem exists_placed (h : c.Parallel n m d) : ∃ b : Cursor, ∃ s s',
    b.placed (.shift n c.made) = { c with last := s } ∧
      b.placed (.shift m d.made) = { d with last := s' } := by
  obtain ⟨ls, e, hc, hd, hce, hde⟩ := h
  refine ⟨⟨ls, ⟨0, 0⟩, e, ⟨0, 0, 0, 0, 0⟩⟩, ⟨n, n⟩, ⟨m, m⟩, ?_, ?_⟩
  · rw [hc, hce]
    rfl
  · rw [hd, hde]
    rfl

theorem of_placed {b : Cursor} {a a' : Counts} :
    (b.placed (.shift n a)).Parallel n m (b.placed (.shift m a')) :=
  ⟨b.rest, b.textEnd, rfl, rfl, rfl, rfl⟩

end Cursor.Parallel

namespace Parse

/-! ## What was read last -/

namespace Fresh

variable {c : Cursor}

theorem valueSpec : Fresh valueSpec c := ident.bind.bind

theorem decl : Fresh decl c := by
  refine look (fun _ => rfl) ?_
  split
  · next h => exact (bump h).bind
  · next h => exact (bump h).bind
  · next h => exact (bump h).bind
  · next h => exact (bump h).bind
  · exact error (fun _ => rfl) fun _ => rfl
  · exact error (fun _ => rfl) fun _ => rfl

end Fresh

/-! ## Parallel readings -/

section

variable {n m : Nat} {c c' d : Cursor} {item : Parse α} {f : Placement → α → α}
  {more : Cursor → Bool} {ender : Parse Unit} (hitem : ∀ P, Natural P item item (f P))
  (hfresh : ∀ c, Fresh item c) (hloops : Loops more ender)

include hitem hfresh hloops

omit hitem in
theorem Items.fresh {xs : List α} (h : Items more ender item c xs c') (hmore : more c = true)
    (s : Span) : Items more ender item { c with last := s } xs c' := by
  cases h with
  | stop hstop => simp [hmore] at hstop
  | item _ hx hend h =>
    have hgo : more { c with last := s } = more c := hloops.congr rfl
    exact .item (hgo.trans hmore) ((hfresh c s).trans hx) hend h

theorem Items.parallel (hender : ∀ P, Natural P ender ender id) {xs : List α}
    (h : c.Parallel n m d) (hxs : Items more ender item c xs c') : ∃ (ys : List α) (d' : Cursor),
      xs = ys.map (f (.shift n c.made)) ∧
        Items more ender item d (ys.map (f (.shift m d.made))) d' ∧ c'.Parallel n m d' := by
  have hplaced {P : Placement} (c : Cursor) : more (c.placed P) = more c :=
    hloops.congr (c.next?_placed P)
  cases hmore : more c with
  | false =>
    obtain ⟨rfl, rfl⟩ := hxs.of_stop hmore
    exact ⟨[], d, rfl, .stop ((hloops.congr h.next?).trans hmore), h⟩
  | true =>
    obtain ⟨b, s, s', hc, hd⟩ := h.exists_placed
    have hkeeps (n : Nat) (a : Counts) := Placement.keeps_shift n a b.rest
    obtain ⟨ys, b', hys, rfl, rfl⟩ := (hc ▸ hxs.fresh hfresh hloops hmore s).of_placed hplaced
      (hender _) (hitem _) (hkeeps _ _)
    have hread := hys.placed hplaced (hender _) (hitem _) (hkeeps m d.made)
    rw [hd] at hread
    have hgo : more { d with last := s' } = more d := hloops.congr rfl
    have hmore' := hgo.trans ((hloops.congr h.next?).trans hmore)
    exact ⟨ys, _, rfl, hread.fresh hfresh hloops hmore' d.last, .of_placed⟩

end

end Parse

/-! ## Parallel texts -/

/-- After another text, a span cuts out what it did before, if it is moved as far. -/
theorem slice_shift (t : List Char) (s : Span) : ∀ x : List Char,
    (s.shift (byteCount x)).slice (x ++ t) = s.slice t := by
  have hsize (n : Nat) : (s.shift n).size = s.size := Nat.add_sub_add_left _ _ _
  suffices hdrop : ∀ x : List Char, ∀ n, dropBytes (byteCount x + n) (x ++ t) = dropBytes n t by
    intro x
    rw [Span.slice, hsize]
    exact congrArg (takeBytes s.size) (hdrop x s.start)
  intro x n
  induction x with
  | nil => simp
  | cons c x ih =>
    obtain ⟨k, hk⟩ := Nat.exists_eq_succ_of_ne_zero (Nat.pos_iff_ne_zero.1 c.utf8Size_pos)
    have hcount : byteCount (c :: x) + n = k + byteCount x + n + 1 := by
      rw [byteCount_cons, hk]
      omega
    rw [hcount, List.cons_append, dropBytes, hk, ← ih]
    congr 1
    omega

section

variable {scope scope' : FileScope} (hscope : scope.Alike scope')

include hscope

/-- Declarations of a stretch that stands after two texts have the same models there. -/
theorem mute_modelAll_parallel {x y t : List Char} (hx : scope.source.toList = x ++ t)
    (hy : scope'.source.toList = y ++ t) (ds : List Decl) (made made' : Counts) :
    mute (modelAll scope (ds.map (Decl.placed (.shift (byteCount x) made))))
      = mute (modelAll scope' (ds.map (Decl.placed (.shift (byteCount y) made')))) := by
  refine mute_modelAll_placed hscope fun d _ root _ u _ n elem _ => mute_arrayLength_congr ?_
  rw [hx, hy]
  exact (slice_shift t n x).trans (slice_shift t n y).symm

/-- Declarations at the same places of two texts have the same models if the lengths in them are
written in the same way. -/
theorem mute_modelAll_congr {ds : List Decl}
    (h : ∀ d ∈ ds, ∀ root ∈ d.roots, ∀ u : TypeNode, u.Within root → ∀ n elem,
      u.form = .array n elem → n.slice scope.source.toList = n.slice scope'.source.toList) :
    mute (modelAll scope ds) = mute (modelAll scope' ds) := by
  have hmodel : mute (modelAll scope (ds.map (Decl.placed .stay)))
      = mute (modelAll scope' (ds.map (Decl.placed .stay))) :=
    mute_modelAll_placed hscope fun d hd root hroot u hu n elem hform =>
      mute_arrayLength_congr (h d hd root hroot u hu n elem hform)
  rwa [Decl.placed_stay, List.map_id] at hmodel

end

/-- Imports at the same places of two texts bind the same names if their paths are written in the
same way. -/
theorem bindImports_congr {resolve : Resolver} {source source' : String}
    {imports : List ImportSpec}
    (h : ∀ i ∈ imports, i.path.span.slice source.toList = i.path.span.slice source'.toList) :
    bindImports resolve source imports = bindImports resolve source' imports := by
  have hbindings : importBindings resolve source imports
      = importBindings resolve source' imports := by
    refine List.filterMap_congr fun i hi => ?_
    simp only [StringLiteral.value, h i hi]
  rw [bindImports, hbindings, bindImports]

end GoIface
