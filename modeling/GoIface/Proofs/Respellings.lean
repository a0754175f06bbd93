import GoIface.Proofs.Excerpts
import GoIface.Proofs.PlacedReading
import GoIface.Proofs.RenamedReading
import GoIface.Proofs.Respelling

/-!
# Texts with an identifier respelled

A text may have the pieces of another one but for an identifier that is spelled in another way at
some of the places where it stands (`Respelling.pieces`). Then its lexemes are those of the other
text under the new name, each of them moved by what the words before it have gained or lost
(`lexemesFrom_respelled`). A stretch without these words is written as it was
(`Respells.slice_placed`).
-/

namespace GoIface

open GoIface.Text

/-- Another spelling of an identifier at some of the places where it stands. -/
structure Respelling where
  old : String
  new : String
  /-- Holds of the bytes at which the identifier starts where it is respelled. -/
  places : Nat → Bool
  old_ne : old ≠ "_"
  new_ne : new ≠ "_"

namespace Respelling

variable (R : Respelling)

def rename : Renaming where
  name x := if R.places x.span.start && x.name == R.old then R.new else x.name
  blank x := by
    split
    · next h =>
      rw [Bool.and_eq_true, beq_iff_eq] at h
      exact iff_of_false R.new_ne (h.2 ▸ R.old_ne)
    · rfl

/-- The piece that starts at byte `n`, as it is spelled then. -/
def piece (n : Nat) (p : Piece) : Piece :=
  if R.places n && p.kind == .token (.ident R.old) then ⟨.token (.ident R.new), R.new.toList⟩ else p

/-- The pieces from byte `n` on. -/
def pieces : Nat → List Piece → List Piece
  | _, [] => []
  | n, p :: ps => R.piece n p :: pieces (n + p.size) ps

/-- Where byte `n` goes if the pieces start at byte `m` and go to byte `j`. -/
def place : List Piece → Nat → Nat → Nat → Nat
  | [], m, j, n => j + (n - m)
  | p :: ps, m, j, n =>
    if n < m + p.size then j + min (n - m) (R.piece m p).size
    else place ps (m + p.size) (j + (R.piece m p).size) n

@[simp] theorem rename_name (x : Ident) :
    R.rename.name x = if R.places x.span.start && x.name == R.old then R.new else x.name := rfl

variable {R}

/-! ## Places -/

theorem le_place (ps : List Piece) (m j n : Nat) : j ≤ R.place ps m j n := by
  induction ps generalizing m j with
  | nil => exact Nat.le_add_right _ _
  | cons p ps ih =>
    unfold place
    split
    · exact Nat.le_add_right _ _
    · exact Nat.le_trans (Nat.le_add_right _ _) (ih _ _)

theorem place_mono (ps : List Piece) (m j : Nat) : Monotone (R.place ps m j) := by
  intro n k hnk
  induction ps generalizing m j with
  | nil =>
    simp only [place]
    omega
  | cons p ps ih =>
    simp only [place]
    split
    · split
      · omega
      · have := le_place (R := R) ps (m + p.size) (j + (R.piece m p).size) k
        omega
    · rw [if_neg (by omega)]
      exact ih _ _

theorem place_self {ps : List Piece} (hps : ∀ p ∈ ps, 0 < p.size) (m j : Nat) :
    R.place ps m j m = j := by
  cases ps with
  | nil => simp [place]
  | cons p ps =>
    have hp := hps p (.head _)
    rw [place, if_pos (by omega)]
    simp

/-- The end of the text goes to the end. -/
theorem place_end (ps : List Piece) (m j : Nat) :
    R.place ps m j (m + byteCount (ps.flatMap (·.text)))
      = j + byteCount ((R.pieces m ps).flatMap (·.text)) := by
  induction ps generalizing m j with
  | nil => simp [place, pieces]
  | cons p ps ih =>
    have ih := ih (m + p.size) (j + (R.piece m p).size)
    rw [Nat.add_assoc, Nat.add_assoc] at ih
    rw [place, pieces, List.flatMap_cons, List.flatMap_cons, byteCount_append, byteCount_append,
      if_neg (by rw [Piece.size]; omega)]
    exact ih

/-! ## Stretches that are written as they were -/

variable (R) in
/-- No piece that is respelled lies between bytes `a` and `b`. -/
def Clear (a b : Nat) : Nat → List Piece → Prop
  | _, [] => True
  | n, p :: ps => (R.piece n p = p ∨ n + p.size ≤ a ∨ b ≤ n) ∧ Clear a b (n + p.size) ps

/-- Inside a piece that is kept the places stay at their distance. -/
theorem place_kept {p : Piece} {ps : List Piece} (hps : ∀ q ∈ ps, 0 < q.size) {m j k : Nat}
    (hp : R.piece m p = p) (hk : k ≤ p.size) : R.place (p :: ps) m j (m + k) = j + k := by
  rw [place, hp]
  rcases Nat.lt_or_eq_of_le hk with hlt | rfl
  · rw [if_pos (by omega), Nat.add_sub_cancel_left, Nat.min_eq_left hk]
  · rw [if_neg (by omega), place_self hps]

theorem place_after {p : Piece} {ps : List Piece} {m j n : Nat} (hn : m + p.size ≤ n) :
    R.place (p :: ps) m j n = R.place ps (m + p.size) (j + (R.piece m p).size) n := by
  rw [place, if_neg (by omega)]

/-- A stretch without respelled pieces that the text starts with. -/
theorem Clear.cutStart {ps : List Piece} (hps : ∀ p ∈ ps, 0 < p.size) {a m j : Nat}
    {t z : List Char} (ht : ps.flatMap (·.text) = t ++ z) (ha : a ≤ m)
    (h : R.Clear a (m + byteCount t) m ps) : ∃ z', (R.pieces m ps).flatMap (·.text) = t ++ z' ∧
      R.place ps m j (m + byteCount t) = j + byteCount t := by
  induction ps generalizing m j t with
  | nil =>
    obtain ⟨rfl, rfl⟩ := List.append_eq_nil_iff.1 ht.symm
    exact ⟨[], rfl, place_self (by simp) m j⟩
  | cons p ps ih =>
    rcases List.eq_nil_or_concat t with rfl | hne
    · exact ⟨_, rfl, place_self hps m j⟩
    have hpos : 0 < byteCount t := byteCount_pos (by
      obtain ⟨init, last, rfl⟩ := hne
      simp)
    obtain ⟨hp, hps⟩ := List.forall_mem_cons.1 hps
    obtain ⟨hpiece, hclear⟩ := h
    have hkept : R.piece m p = p := hpiece.resolve_right (by omega)
    rw [pieces, List.flatMap_cons, hkept]
    rw [List.flatMap_cons] at ht
    rcases List.append_eq_append_iff.1 ht with ⟨t', rfl, hrest⟩ | ⟨w, hw, rfl⟩
    · have hcount : m + byteCount (p.text ++ t') = m + p.size + byteCount t' := by
        rw [byteCount_append, Piece.size, Nat.add_assoc]
      rw [hcount] at hclear ⊢
      obtain ⟨z', hz', hplace⟩ := ih (j := j + p.size) hps hrest (by omega) hclear
      refine ⟨z', by rw [hz', List.append_assoc], ?_⟩
      rw [place_after (Nat.le_add_right _ _), hkept, hplace, byteCount_append, Piece.size,
        Nat.add_assoc]
    · refine ⟨w ++ (R.pieces (m + p.size) ps).flatMap (·.text), by rw [hw, List.append_assoc], ?_⟩
      exact place_kept hps hkept (by rw [Piece.size, hw, byteCount_append]; omega)

/-- A stretch without respelled pieces is found again where its places go. -/
theorem Clear.cut {ps : List Piece} (hps : ∀ p ∈ ps, 0 < p.size) {m j : Nat}
    {x t z : List Char} (ht : ps.flatMap (·.text) = x ++ (t ++ z)) (hne : t ≠ [])
    (h : R.Clear (m + byteCount x) (m + byteCount x + byteCount t) m ps) :
    ∃ x' z', (R.pieces m ps).flatMap (·.text) = x' ++ (t ++ z') ∧
      R.place ps m j (m + byteCount x) = j + byteCount x' ∧
        R.place ps m j (m + byteCount x + byteCount t) = j + byteCount x' + byteCount t := by
  induction ps generalizing m j x with
  | nil => simp_all
  | cons p ps ih =>
    have hpos := byteCount_pos hne
    obtain ⟨hp, hps⟩ := List.forall_mem_cons.1 hps
    obtain ⟨hpiece, hclear⟩ := h
    rw [pieces, List.flatMap_cons]
    rw [List.flatMap_cons] at ht
    rcases Nat.lt_or_ge (byteCount x) p.size with hlt | hle
    · -- the stretch starts inside the piece
      have hkept : R.piece m p = p := hpiece.resolve_right (by omega)
      obtain ⟨w, hw, hrest⟩ : ∃ w, p.text = x ++ w ∧ t ++ z = w ++ ps.flatMap (·.text) := by
        rcases List.append_eq_append_iff.1 ht with ⟨x', rfl, -⟩ | h
        · rw [byteCount_append, Piece.size] at hlt
          omega
        · exact h
      have hsize : p.size = byteCount x + byteCount w := by rw [Piece.size, hw, byteCount_append]
      have hstart := place_kept (j := j) hps hkept (Nat.le_of_lt hlt)
      rw [hkept]
      rcases List.append_eq_append_iff.1 hrest with ⟨w', rfl, rfl⟩ | ⟨t', rfl, hafter⟩
      · rw [byteCount_append] at hsize
        have hstop := place_kept (j := j) (k := byteCount x + byteCount t) hps hkept (by omega)
        rw [← Nat.add_assoc, ← Nat.add_assoc] at hstop
        exact ⟨x, w' ++ (R.pieces (m + p.size) ps).flatMap (·.text), by simp [hw], hstart, hstop⟩
      · have hb : m + byteCount x + byteCount (w ++ t') = m + p.size + byteCount t' := by
          rw [byteCount_append]
          omega
        rw [hb] at hclear ⊢
        obtain ⟨z', hz', hplace⟩ := hclear.cutStart (j := j + p.size) hps hafter (by omega)
        refine ⟨x, z', by simp [hw, hz'], hstart, ?_⟩
        rw [place_after (Nat.le_add_right _ _), hkept, hplace, byteCount_append]
        omega
    · obtain ⟨x, rfl, hrest⟩ : ∃ x', x = p.text ++ x' ∧ ps.flatMap (·.text) = x' ++ (t ++ z) := by
        rcases List.append_eq_append_iff.1 ht with h | ⟨w, hw, hrest⟩
        · exact h
        · have hnil : w = [] := Classical.byContradiction fun hne => by
            have := byteCount_pos hne
            rw [Piece.size, hw, byteCount_append] at hle
            omega
          rw [hnil] at hw hrest
          exact ⟨[], by rw [hw, List.append_nil, List.append_nil], hrest.symm⟩
      have hcount : m + byteCount (p.text ++ x) = m + p.size + byteCount x := by
        rw [byteCount_append, Piece.size, Nat.add_assoc]
      rw [hcount] at hclear ⊢
      obtain ⟨x', z', hx', hstart, hstop⟩ := ih (j := j + (R.piece m p).size) hps hrest hclear
      refine ⟨(R.piece m p).text ++ x', z', by rw [hx', List.append_assoc], ?_, ?_⟩
      · rw [place_after (Nat.le_add_right _ _), hstart, byteCount_append, Piece.size,
          Nat.add_assoc]
      · rw [place_after (by omega), hstop, byteCount_append, Piece.size, Nat.add_assoc j]

end Respelling

/-! ## Lexemes -/

/-- What the first piece makes from byte `m` on, the second one makes from byte `j` on, under the
new names and at the new places. -/
def MakesAlike (ρ : Renaming) (P : Placement) (ends : Bool) (m j : Nat) (p q : Piece) : Prop :=
  ∃ made e, (∀ ps, lexemesFrom m ends (p :: ps) = made ++ lexemesFrom (m + p.size) e ps) ∧
    (∀ ps, lexemesFrom j ends (q :: ps) = (made.map (Lexeme.renamed ρ)).map (Lexeme.placed P)
      ++ lexemesFrom (j + q.size) e ps) ∧
    P.Keeps (made.map (Lexeme.renamed ρ))

namespace MakesAlike

variable {ρ : Renaming} {P : Placement} {ends : Bool} {m j : Nat} {p q : Piece}

theorem nothing (h : ∀ ps, lexemesFrom m ends (p :: ps) = lexemesFrom (m + p.size) ends ps)
    (h' : ∀ ps, lexemesFrom j ends (q :: ps) = lexemesFrom (j + q.size) ends ps) :
    MakesAlike ρ P ends m j p q :=
  ⟨[], ends, h, h', by simp [Placement.Keeps]⟩

/-- A token under its new name. -/
theorem token {t u : Token} {e : Bool} (hp : 0 < p.size) (hq : 0 < q.size)
    (hstart : P.place m = j) (hstop : P.place (m + p.size) = j + q.size)
    (hname : (Lexeme.renamed ρ ⟨t, m, m + p.size⟩).token = u)
    (h : ∀ ps, lexemesFrom m ends (p :: ps)
      = ⟨t, m, m + p.size⟩ :: lexemesFrom (m + p.size) e ps)
    (h' : ∀ ps, lexemesFrom j ends (q :: ps)
      = ⟨u, j, j + q.size⟩ :: lexemesFrom (j + q.size) e ps) :
    MakesAlike ρ P ends m j p q := by
  refine ⟨[⟨t, m, m + p.size⟩], e, h, fun ps => ?_, fun l hl => ?_⟩
  · rw [h']
    simp [Lexeme.placed, Span.placed, hname, hstart, hstop]
  · obtain rfl := List.mem_singleton.1 hl
    have hne : (p.size == 0) = false ∧ (q.size == 0) = false :=
      ⟨beq_false_of_ne (Nat.ne_of_gt hp), beq_false_of_ne (Nat.ne_of_gt hq)⟩
    simp only [Lexeme.isInserted, Lexeme.placed_token, Lexeme.placed_span, Lexeme.renamed_span,
      Span.placed, Span.isEmpty, Span.size, hstart, hstop, Nat.add_sub_cancel_left, hne]

variable (hplace : ∀ k ≤ p.size, P.place (m + k) = j + k)

include hplace

/-- A line break makes its semicolon, if it makes one. -/
theorem lineBreak (hkind : p.kind = .newline ∨ p.kind = .blockComment) :
    MakesAlike ρ P ends m j p p := by
  by_cases h : ends = false ∨ p.breakAt? = none
  · exact nothing (fun _ => lexemesFrom_no_break hkind h) fun _ => lexemesFrom_no_break hkind h
  · obtain ⟨hends, hsome⟩ := not_or.1 h
    obtain rfl : ends = true := by simpa using hends
    obtain ⟨n, hn⟩ := Option.ne_none_iff_exists'.1 hsome
    obtain ⟨before, after, hcut, rfl⟩ := Piece.breakAt?_eq_some hn
    have hle : byteCount before ≤ p.size := by
      rw [Piece.size, hcut, byteCount_append]
      exact Nat.le_add_right _ _
    refine ⟨[.insertedSemi (m + byteCount before)], false,
      fun _ => lexemesFrom_break hkind hn, fun _ => ?_, ?_⟩
    · refine (lexemesFrom_break hkind hn).trans ?_
      simp [Lexeme.insertedSemi, Lexeme.renamed, Lexeme.placed, Span.placed, Span.point,
        hplace _ hle, Piece.size]
    · simp [Placement.Keeps, Lexeme.insertedSemi, Lexeme.renamed, Lexeme.placed, Span.placed,
        Span.point, Lexeme.isInserted, Span.isEmpty, Span.size]

/-- A piece that keeps its name makes the same at another place. -/
theorem kept (hp : 0 < p.size) (hm : m = 0 ↔ j = 0)
    (hname : ∀ x, p.kind = .token (.ident x) → ρ.name ⟨x, m, m + p.size⟩ = x) :
    MakesAlike ρ P ends m j p p := by
  have hstart : P.place m = j := hplace 0 (Nat.zero_le _)
  have hstop : P.place (m + p.size) = j + p.size := hplace _ (Nat.le_refl _)
  rcases hkind : p.kind with t | _ | _ | _ | _ | _
  · refine token hp hp hstart hstop (t := t) (u := t) (e := t.endsStatement) ?_ ?_ ?_
    · rcases Lexeme.renamed_cases ρ ⟨t, m, m + p.size⟩ with ⟨x, s, hl, h⟩ | ⟨-, h⟩
      · obtain ⟨rfl, rfl⟩ := Lexeme.mk.inj hl
        rw [h, hname x hkind]
      · rw [h]
    · exact fun _ => by simp only [lexemesFrom, hkind]
    · exact fun _ => by simp only [lexemesFrom, hkind]
  · exact nothing (fun _ => by simp only [lexemesFrom, hkind])
      fun _ => by simp only [lexemesFrom, hkind]
  · exact lineBreak hplace (.inl hkind)
  · exact nothing (fun _ => by simp only [lexemesFrom, hkind])
      fun _ => by simp only [lexemesFrom, hkind]
  · exact lineBreak hplace (.inr hkind)
  · by_cases hzero : m = 0
    · exact nothing (fun _ => by simp only [lexemesFrom, hkind, if_pos hzero])
        fun _ => by simp only [lexemesFrom, hkind, if_pos (hm.1 hzero)]
    · refine token hp hp hstart hstop (t := .faulty .invalidToken)
        (u := .faulty .invalidToken) (e := false) rfl ?_ ?_
      · exact fun _ => by simp only [lexemesFrom, hkind, if_neg hzero]
      · exact fun _ => by simp only [lexemesFrom, hkind, if_neg (mt hm.2 hzero)]

end MakesAlike

namespace Respelling

variable {R : Respelling} {P : Placement}

theorem makesAlike {p : Piece} {m j : Nat} (ends : Bool) (hp : 0 < p.size)
    (hq : 0 < (R.piece m p).size) (hm : m = 0 ↔ j = 0)
    (hplace : ∀ k < p.size, P.place (m + k) = j + min k (R.piece m p).size)
    (hstop : P.place (m + p.size) = j + (R.piece m p).size) :
    MakesAlike R.rename P ends m j p (R.piece m p) := by
  have hstart : P.place m = j := by simpa using hplace 0 hp
  by_cases h : R.places m = true ∧ p.kind = .token (.ident R.old)
  · have hpiece : (R.piece m p).kind = .token (.ident R.new) := by simp [piece, h]
    refine .token hp hq hstart hstop (t := .ident R.old) (u := .ident R.new) (e := true)
      ?_ ?_ ?_
    · simp [Lexeme.renamed, h]
    · intro ps
      simp only [lexemesFrom, h.2]
      rfl
    · intro ps
      simp only [lexemesFrom, hpiece]
      rfl
  · have hpiece : R.piece m p = p := by
      rw [piece, if_neg]
      simpa using h
    rw [hpiece] at hplace hstop ⊢
    refine .kept (fun k hk => ?_) hp hm fun x hx => ?_
    · rcases Nat.lt_or_eq_of_le hk with hlt | rfl
      · rw [hplace k hlt, Nat.min_eq_left hk]
      · exact hstop
    · rw [rename_name, if_neg]
      intro hmarked
      rw [Bool.and_eq_true, beq_iff_eq] at hmarked
      exact h ⟨hmarked.1, hmarked.2 ▸ hx⟩

/-- The lexemes of the pieces as they are spelled then. -/
theorem lexemesFrom_respelled {ps : List Piece} {m j : Nat} (ends : Bool)
    (hps : ∀ p ∈ ps, 0 < p.size) (hqs : ∀ q ∈ R.pieces m ps, 0 < q.size) (hm : m = 0 ↔ j = 0)
    (hP : ∀ n, m ≤ n → P.place n = R.place ps m j n) :
    lexemesFrom j ends (R.pieces m ps)
        = ((lexemesFrom m ends ps).map (Lexeme.renamed R.rename)).map (Lexeme.placed P) ∧
      P.Keeps ((lexemesFrom m ends ps).map (Lexeme.renamed R.rename)) := by
  induction ps generalizing m j ends with
  | nil =>
    have hstart : P.place m = j := by simpa [place] using hP m (Nat.le_refl m)
    cases ends with
    | false => exact ⟨rfl, by simp [lexemesFrom, Placement.Keeps]⟩
    | true =>
      simp [lexemesFrom, pieces, Placement.Keeps, Lexeme.insertedSemi, Lexeme.renamed,
        Lexeme.placed, Span.placed, Span.point, Lexeme.isInserted, Span.isEmpty, Span.size, hstart]
  | cons p ps ih =>
    obtain ⟨hp, hps⟩ := List.forall_mem_cons.1 hps
    obtain ⟨hq, hqs⟩ := List.forall_mem_cons.1 hqs
    have hplace (k : Nat) (hk : k < p.size) : P.place (m + k) = j + min k (R.piece m p).size := by
      rw [hP _ (Nat.le_add_right _ _), place, if_pos (by omega), Nat.add_sub_cancel_left]
    have hrest (n : Nat) (hn : m + p.size ≤ n) :
        P.place n = R.place ps (m + p.size) (j + (R.piece m p).size) n := by
      rw [hP n (by omega), place, if_neg (by omega)]
    have hstop : P.place (m + p.size) = j + (R.piece m p).size := by
      rw [hrest _ (Nat.le_refl _), place_self hps]
    obtain ⟨made, e, hmade, hmade', hkeeps⟩ := makesAlike ends hp hq hm hplace hstop
    obtain ⟨hmap, hkeeps'⟩ := ih e hps hqs (by omega) hrest
    rw [pieces, hmade, hmade', hmap, List.map_append, List.map_append]
    refine ⟨rfl, fun l hl => ?_⟩
    exact (List.mem_append.1 hl).elim (hkeeps l) (hkeeps' l)

end Respelling

/-! ## Whole texts -/

theorem Piece.size_pos {cs : List Char} {p : Piece} (h : p ∈ pieces cs) : 0 < p.size := by
  obtain ⟨c, ds, rfl⟩ := Piece.exists_scan h
  exact byteCount_pos (Piece.cuts_scan c ds).2

namespace Respelling

variable (R : Respelling)

/-- The second text is the first one, with the identifier spelled in the new way. -/
def Respells (source source' : String) : Prop :=
  GoIface.pieces source'.toList = R.pieces 0 (GoIface.pieces source.toList)

instance (source source' : String) : Decidable (R.Respells source source') :=
  inferInstanceAs (Decidable (_ = _))

/-- The lexeme is one of those that are respelled. -/
def Changes (l : Lexeme) : Prop := R.places l.span.start = true ∧ l.token = .ident R.old

/-- Where the bytes of the text go. -/
def placement (source : String) : Placement :=
  ⟨R.place (GoIface.pieces source.toList) 0 0, place_mono _ 0 0, ⟨0, 0, 0, 0, 0⟩⟩

variable {R}

theorem clear_of_lexemes {a b n : Nat} {ends : Bool} {ps : List Piece}
    (h : ∀ l ∈ lexemesFrom n ends ps, R.Changes l → l.span.stop ≤ a ∨ b ≤ l.span.start) :
    R.Clear a b n ps := by
  induction ps generalizing n ends with
  | nil => trivial
  | cons p ps ih =>
    obtain ⟨made, e, hmade, -⟩ := lexemesFrom_cons n ends p
    refine ⟨?_, ih fun l hl => h l (hmade ps ▸ List.mem_append_right _ hl)⟩
    by_cases hp : R.places n = true ∧ p.kind = .token (.ident R.old)
    · have hmem : ⟨.ident R.old, n, n + p.size⟩ ∈ lexemesFrom n ends (p :: ps) := by
        simp [lexemesFrom, hp.2]
      exact .inr (h _ hmem ⟨hp.1, rfl⟩)
    · refine .inl ?_
      rw [piece, if_neg]
      simpa using hp

variable {source source' : String} (h : R.Respells source source')

include h

theorem Respells.lex_eq :
    lex source' = ((lex source).map (Lexeme.renamed R.rename)).map
        (Lexeme.placed (R.placement source)) ∧
      (R.placement source).Keeps ((lex source).map (Lexeme.renamed R.rename)) := by
  rw [lex, lex, h]
  exact lexemesFrom_respelled false (fun p hp => Piece.size_pos hp)
    (fun q hq => Piece.size_pos (h ▸ hq)) .rfl fun n _ => rfl

theorem Respells.place_textEnd :
    (R.placement source).place (byteCount source.toList) = byteCount source'.toList := by
  have hend := place_end (R := R) (GoIface.pieces source.toList) 0 0
  rw [← h, flatMap_pieces, flatMap_pieces, Nat.zero_add, Nat.zero_add] at hend
  exact hend

/-- What is written between two places is written between those they go to, if none of the words
in it is respelled. -/
theorem Respells.slice_placed {s : Span} (hs : s.AtLexemes (lex source))
    (hclear : ∀ l ∈ lex source, R.Changes l → l.span.stop ≤ s.start ∨ s.stop ≤ l.span.start) :
    (s.placed (R.placement source)).slice source'.toList = s.slice source.toList := by
  obtain ⟨text, hcut⟩ := hs.cutsOut
  rw [hcut.slice_eq]
  obtain ⟨before, after, hsource, rfl⟩ := hcut
  by_cases hne : text = []
  · simp [hne, Span.slice, Span.placed, Span.size, takeBytes]
  · have hsplit := (flatMap_pieces source.toList).trans hsource
    have hclear : R.Clear (0 + byteCount before) (0 + byteCount before + byteCount text) 0
        (GoIface.pieces source.toList) := by
      rw [Nat.zero_add]
      exact clear_of_lexemes hclear
    obtain ⟨before', after', hsource', hstart, hstop⟩ :=
      hclear.cut (j := 0) (fun p hp => Piece.size_pos hp) hsplit hne
    rw [← h, flatMap_pieces] at hsource'
    rw [Nat.zero_add, Nat.zero_add] at hstart hstop
    have hcut : Span.CutsOut ((Span.mk (byteCount before)
        (byteCount before + byteCount text)).placed (R.placement source)) source' text :=
      ⟨before', after', hsource', Span.mk.injEq .. ▸ ⟨hstart, hstop⟩⟩
    exact hcut.slice_eq

end Respelling

end GoIface
