import GoIface.Proofs.Contents
import GoIface.Proofs.Tiling

/-!
# Nodes laid out in a text

A span covers a run of lexemes if it goes from the first of them to the last. Things stand in a row
in a run (`InRow`) if each has a stretch of the run to itself, from left to right. The nodes of a
tree are laid out (`Outline.Laid`) if each covers a run and those inside it stand in a row there.

The lexemes of a text are in order (`LexedText`), so what is laid out in them is nested and goes
from left to right (`Outline.Laid.orderly`).
-/

namespace GoIface

/-- The span goes from the first lexeme of the run to its last. -/
def Span.Covers (s : Span) (run : List Lexeme) : Prop :=
  ∃ first ∈ run.head?, ∃ last ∈ run.getLast?, s = ⟨first.span.start, last.span.stop⟩

theorem Span.Covers.singleton (l : Lexeme) : l.span.Covers [l] := ⟨l, rfl, l, rfl, rfl⟩

theorem Span.Covers.ne_nil {s : Span} {run : List Lexeme} (h : s.Covers run) : run ≠ [] := by
  rintro rfl
  obtain ⟨first, hfirst, -⟩ := h
  simp at hfirst

/-! ## Things in a row -/

variable {α β : Type}

/-- Each has a stretch of the lexemes to itself. -/
inductive InRow (P : List Lexeme → α → Prop) : List Lexeme → List α → Prop
  | nil {ls : List Lexeme} : InRow P ls []
  | cons {before run after : List Lexeme} {x : α} {xs : List α} (hx : P run x)
      (hxs : InRow P after xs) : InRow P (before ++ (run ++ after)) (x :: xs)

namespace InRow

variable {P Q : List Lexeme → α → Prop} {ls ms before after : List Lexeme} {x : α} {xs ys : List α}

theorem next (h : P ls x) (hxs : InRow P ms xs) : InRow P (ls ++ ms) (x :: xs) := by
  rw [← List.nil_append (ls ++ ms)]
  exact .cons h hxs

theorem single (h : P ls x) : InRow P ls [x] := by
  rw [← List.append_nil ls]
  exact next h .nil

theorem widen (h : InRow P ls xs) (before after : List Lexeme) :
    InRow P (before ++ (ls ++ after)) xs := by
  induction h generalizing before with
  | nil => exact .nil
  | @cons b run a x xs hx _ ih =>
    have h : InRow P (before ++ b ++ (run ++ ([] ++ (a ++ after)))) (x :: xs) := .cons hx (ih [])
    simpa using h

theorem append (h : InRow P ls xs) (h' : InRow P ms ys) : InRow P (ls ++ ms) (xs ++ ys) := by
  induction h with
  | @nil ls =>
    have h' := h'.widen ls []
    rwa [List.append_nil] at h'
  | cons hx _ ih =>
    rw [List.append_assoc, List.append_assoc]
    exact .cons hx ih

theorem mono (h : InRow P ls xs) (hPQ : ∀ run x, run <:+: ls → P run x → Q run x) :
    InRow Q ls xs := by
  induction h with
  | nil => exact .nil
  | @cons before run after x xs hx _ ih =>
    refine .cons (hPQ run x ⟨before, after, by simp⟩ hx) (ih fun run' x' hr => hPQ run' x' ?_)
    exact hr.trans ((List.suffix_append run after).trans (List.suffix_append _ _)).isInfix

theorem exists_of_mem (h : InRow P ls xs) (hx : x ∈ xs) : ∃ run, run <:+: ls ∧ P run x := by
  induction h with
  | nil => simp at hx
  | @cons before run after y xs hy _ ih =>
    rcases List.mem_cons.1 hx with rfl | hx
    · exact ⟨run, ⟨before, after, by simp⟩, hy⟩
    · obtain ⟨run', hrun', hP⟩ := ih hx
      exact ⟨run', hrun'.trans ⟨before ++ run, [], by simp⟩, hP⟩

theorem mapIdx {R : List Lexeme → β → Prop} {f : Nat → α → β} (h : InRow P ls xs)
    (hf : ∀ i run x, P run x → R run (f i x)) : InRow R ls (xs.mapIdx f) := by
  induction h generalizing f with
  | nil => exact .nil
  | cons hx _ ih =>
    rw [List.mapIdx_cons]
    exact .cons (hf 0 _ _ hx) (ih fun i => hf (i + 1))

/-- What holds of everything and what comes after it holds of them in pairs. -/
theorem pairwise {R : α → α → Prop} (h : InRow P ls xs)
    (hR : ∀ run after x y, run ++ after <:+: ls → P run x → (∃ part, part <:+: after ∧ P part y) →
      R x y) : xs.Pairwise R := by
  induction h with
  | nil => exact .nil
  | @cons before run after x xs hx hxs ih =>
    have hsuffix : run ++ after <:+: before ++ (run ++ after) := (List.suffix_append _ _).isInfix
    refine List.pairwise_cons.2 ⟨fun y hy => ?_, ih fun run' after' y z hstretch => ?_⟩
    · exact hR run after x y hsuffix hx (hxs.exists_of_mem hy)
    · exact hR run' after' y z (hstretch.trans ((List.suffix_append _ _).isInfix.trans hsuffix))

theorem flatMap {P : List Lexeme → β → Prop} {f : α → List β}
    (h : InRow (fun run x => InRow P run (f x)) ls xs) : InRow P ls (xs.flatMap f) := by
  induction h with
  | nil => exact .nil
  | @cons before run after x xs hx _ ih =>
    have h := (hx.append ih).widen before []
    rwa [List.append_nil] at h

end InRow

/-! ## Nodes -/

mutual

/-- A node covers the run, and the nodes inside stand in a row in it. -/
def Outline.Laid : Outline → List Lexeme → Prop
  | .node event inside, run => (∀ s ∈ event.span?, s.Covers run) ∧ LaidAll inside run

def LaidAll : List Outline → List Lexeme → Prop
  | [], _ => True
  | o :: os, ls => ∃ before run after, ls = before ++ (run ++ after) ∧ o.Laid run ∧ LaidAll os after

end

theorem laidAll_iff : ∀ {os : List Outline} {ls : List Lexeme},
    LaidAll os ls ↔ InRow (fun run o => o.Laid run) ls os
  | [], _ => ⟨fun _ => .nil, fun _ => trivial⟩
  | o :: os, ls => by
    constructor
    · rintro ⟨before, run, after, rfl, ho, hos⟩
      exact .cons ho (laidAll_iff.1 hos)
    · rintro (_ | ⟨ho, hos⟩)
      exact ⟨_, _, _, rfl, ho, laidAll_iff.2 hos⟩

theorem laidAll_flatMap {f : α → List Outline} {xs : List α} {ls : List Lexeme}
    (h : InRow (fun run x => LaidAll (f x) run) ls xs) : LaidAll (xs.flatMap f) ls := by
  refine laidAll_iff.2 ?_
  induction h with
  | nil => exact .nil
  | @cons before run after x xs hx _ ih =>
    have h := ((laidAll_iff.1 hx).append ih).widen before []
    rwa [List.append_nil] at h

/-! ## Lexemes in order -/

/-- The lexemes of a text, in order, and where it ends. -/
structure LexedText where
  lexemes : List Lexeme
  textEnd : Nat
  pairwise : lexemes.Pairwise fun l m => l.span.stop ≤ m.span.start
  bounded : ∀ l ∈ lexemes, l.span.start ≤ l.span.stop ∧ l.span.stop ≤ textEnd

def LexedText.ofSource (source : String) : LexedText where
  lexemes := lex source
  textEnd := byteCount source.toList
  pairwise := (tiled_lex source).pairwise
  bounded l hl := by
    have := ((tiled_lex source).standsIn l hl).bounds
    omega

namespace LexedText

variable (T : LexedText)

/-- The first of a run starts no later than the others, and the last stops no earlier. -/
theorem run_bounds {run : List Lexeme} (hrun : run <:+: T.lexemes) {first last l : Lexeme}
    (hfirst : first ∈ run.head?) (hlast : last ∈ run.getLast?) (hl : l ∈ run) :
    first.span.start ≤ l.span.start ∧ l.span.stop ≤ last.span.stop := by
  have hpairwise := T.pairwise.sublist hrun.sublist
  have hle : ∀ m ∈ run, m.span.start ≤ m.span.stop :=
    fun m hm => (T.bounded m (hrun.subset hm)).1
  constructor
  · obtain ⟨rest, rfl⟩ : ∃ rest, run = first :: rest := by
      rcases run with _ | ⟨k, rest⟩
      · simp at hfirst
      · obtain rfl : k = first := by simpa using hfirst
        exact ⟨rest, rfl⟩
    rcases List.mem_cons.1 hl with rfl | hl
    · exact Nat.le_refl _
    · have := (List.pairwise_cons.1 hpairwise).1 l hl
      have := hle first (by simp)
      omega
  · obtain ⟨init, rfl⟩ := List.getLast?_eq_some_iff.1 (Option.mem_def.1 hlast)
    rcases List.mem_append.1 hl with hl | hl
    · have := (List.pairwise_append.1 hpairwise).2.2 l hl last (by simp)
      have := hle last (by simp)
      omega
    · obtain rfl := List.mem_singleton.1 hl
      exact Nat.le_refl _

theorem covers_hull {run : List Lexeme} (hrun : run <:+: T.lexemes) {first last : Lexeme}
    (hfirst : first ∈ run.head?) (hlast : last ∈ run.getLast?) :
    (first.span.hull last.span).Covers run := by
  have hmem : last ∈ run := List.mem_of_getLast? hlast
  have hmem' : first ∈ run := List.mem_of_head? hfirst
  have hstart := (T.run_bounds hrun hfirst hlast hmem).1
  have hstop := (T.run_bounds hrun hfirst hlast hmem').2
  refine ⟨first, hfirst, last, hlast, ?_⟩
  rw [Span.hull, Nat.min_eq_left hstart, Nat.max_eq_right hstop]

end LexedText

/-! ## What is laid out is nested -/

/-- The span covers a stretch of the lexemes. -/
def Span.CoversIn (s : Span) (ls : List Lexeme) : Prop := ∃ run, run <:+: ls ∧ s.Covers run

theorem Span.Covers.inside {s : Span} {run : List Lexeme} (h : s.Covers run) : s.CoversIn run :=
  ⟨run, List.infix_rfl, h⟩

theorem Span.CoversIn.mono {s : Span} {ls ms : List Lexeme} (h : s.CoversIn ls) (hle : ls <:+: ms) :
    s.CoversIn ms := by
  obtain ⟨run, hrun, hs⟩ := h
  exact ⟨run, hrun.trans hle, hs⟩

mutual

/-- The span of a node holds the spans of all nodes inside it. -/
def Outline.Orderly : Outline → Prop
  | .node event inside => (∀ s ∈ event.span?, ∀ e ∈ allEvents inside, ∀ t ∈ e.span?,
      s.start ≤ t.start ∧ t.stop ≤ s.stop) ∧ OrderlyAll inside

/-- So it is in each of the nodes, which stand apart and go from left to right. -/
def OrderlyAll : List Outline → Prop
  | [] => True
  | o :: os => o.Orderly ∧ (∀ e ∈ allEvents [o], ∀ f ∈ allEvents os, ∀ s ∈ e.span?,
      ∀ t ∈ f.span?, s.stop ≤ t.start) ∧ OrderlyAll os

end

theorem infix_part {α : Type} (before run after : List α) : run <:+: before ++ (run ++ after) :=
  ⟨before, after, List.append_assoc _ _ _⟩

mutual

theorem Outline.Laid.coversIn : ∀ {o : Outline} {run : List Lexeme}, o.Laid run →
    ∀ e ∈ allEvents [o], ∀ s ∈ e.span?, s.CoversIn run
  | .node event inside, run, ⟨hspan, hinside⟩, e, he, s, hs => by
    rw [allEvents_node, allEvents_nil, List.append_nil] at he
    rcases List.mem_cons.1 he with rfl | he
    · exact (hspan s hs).inside
    · exact laidAll_coversIn hinside e he s hs

theorem laidAll_coversIn : ∀ {os : List Outline} {ls : List Lexeme}, LaidAll os ls →
    ∀ e ∈ allEvents os, ∀ s ∈ e.span?, s.CoversIn ls
  | [], _, _, _, he, _, _ => by simp at he
  | o :: os, _, ⟨before, run, after, hls, ho, hos⟩, e, he, s, hs => by
    subst hls
    have he : e ∈ allEvents [o] ++ allEvents os := by rwa [← allEvents_append]
    rcases List.mem_append.1 he with he | he
    · exact (ho.coversIn e he s hs).mono (infix_part _ _ _)
    · have hsuffix := (List.suffix_append run after).trans (List.suffix_append before _)
      exact (laidAll_coversIn hos e he s hs).mono hsuffix.isInfix

end

namespace LexedText

variable (T : LexedText)

theorem bounds_of_covers {s t : Span} {run : List Lexeme} (hrun : run <:+: T.lexemes)
    (hs : s.Covers run) (ht : t.CoversIn run) : s.start ≤ t.start ∧ t.stop ≤ s.stop := by
  obtain ⟨first, hfirst, last, hlast, rfl⟩ := hs
  obtain ⟨part, hpart, first', hfirst', last', hlast', rfl⟩ := ht
  have hmem := hpart.subset (List.mem_of_head? hfirst')
  have hmem' := hpart.subset (List.mem_of_getLast? hlast')
  exact ⟨(T.run_bounds hrun hfirst hlast hmem).1, (T.run_bounds hrun hfirst hlast hmem').2⟩

/-- What is covered in one run stops before what is covered in a later one starts. -/
theorem apart_of_coversIn {s t : Span} {ls ms : List Lexeme} (h : ls ++ ms <:+: T.lexemes)
    (hs : s.CoversIn ls) (ht : t.CoversIn ms) : s.stop ≤ t.start := by
  obtain ⟨run, hrun, first, -, last, hlast, rfl⟩ := hs
  obtain ⟨run', hrun', first', hfirst', last', -, rfl⟩ := ht
  have hmem := hrun.subset (List.mem_of_getLast? hlast)
  have hmem' := hrun'.subset (List.mem_of_head? hfirst')
  exact (List.pairwise_append.1 (T.pairwise.sublist h.sublist)).2.2 last hmem first' hmem'

theorem start_le_stop {s : Span} (hs : s.CoversIn T.lexemes) : s.start ≤ s.stop := by
  obtain ⟨run, hrun, first, hfirst, last, hlast, rfl⟩ := hs
  have hmem := List.mem_of_head? hfirst
  have := (T.bounded first (hrun.subset hmem)).1
  have := (T.run_bounds hrun hfirst hlast hmem).2
  exact Nat.le_trans ‹_› ‹_›

end LexedText

section Orderly

variable (T : LexedText)

mutual

theorem Outline.Laid.orderly : ∀ {o : Outline} {run : List Lexeme}, run <:+: T.lexemes →
    o.Laid run → o.Orderly
  | .node event inside, run, hrun, ⟨hspan, hinside⟩ => by
    refine ⟨fun s hs e he t ht => ?_, laidAll_orderly hrun hinside⟩
    exact T.bounds_of_covers hrun (hspan s hs) (laidAll_coversIn hinside e he t ht)

theorem laidAll_orderly : ∀ {os : List Outline} {ls : List Lexeme}, ls <:+: T.lexemes →
    LaidAll os ls → OrderlyAll os
  | [], _, _, _ => trivial
  | o :: os, _, hls, ⟨before, run, after, hcut, ho, hos⟩ => by
    subst hcut
    have hboth : run ++ after <:+: T.lexemes := (List.suffix_append _ _).isInfix.trans hls
    refine ⟨Outline.Laid.orderly ((infix_part _ _ _).trans hls) ho, ?_,
      laidAll_orderly ((List.suffix_append _ _).isInfix.trans hboth) hos⟩
    intro e he f hf s hs t ht
    exact T.apart_of_coversIn hboth (ho.coversIn e he s hs) (laidAll_coversIn hos f hf t ht)

end

/-- Events in the order their nodes start. -/
def StartsInOrder (es : List Event) : Prop :=
  es.Pairwise fun e f => ∀ s ∈ e.span?, ∀ t ∈ f.span?, s.start ≤ t.start

mutual

theorem Outline.Laid.startsInOrder : ∀ {o : Outline} {run : List Lexeme}, run <:+: T.lexemes →
    o.Laid run → StartsInOrder (allEvents [o])
  | .node event inside, run, hrun, ⟨hspan, hinside⟩ => by
    rw [allEvents_node, allEvents_nil, List.append_nil]
    refine List.pairwise_cons.2 ⟨fun e he s hs t ht => ?_, laidAll_startsInOrder hrun hinside⟩
    exact (T.bounds_of_covers hrun (hspan s hs) (laidAll_coversIn hinside e he t ht)).1

theorem laidAll_startsInOrder : ∀ {os : List Outline} {ls : List Lexeme}, ls <:+: T.lexemes →
    LaidAll os ls → StartsInOrder (allEvents os)
  | [], _, _, _ => .nil
  | o :: os, _, hls, ⟨before, run, after, hcut, ho, hos⟩ => by
    subst hcut
    have hboth : run ++ after <:+: T.lexemes := (List.suffix_append _ _).isInfix.trans hls
    have hrun : run <:+: T.lexemes := (infix_part _ _ _).trans hls
    have hafter : after <:+: T.lexemes := (List.suffix_append _ _).isInfix.trans hboth
    have happend : allEvents (o :: os) = allEvents [o] ++ allEvents os :=
      allEvents_append [o] os
    rw [happend]
    refine List.pairwise_append.2
      ⟨Outline.Laid.startsInOrder hrun ho, laidAll_startsInOrder hafter hos, ?_⟩
    intro e he f hf s hs t ht
    have hs := ho.coversIn e he s hs
    have hapart := T.apart_of_coversIn hboth hs (laidAll_coversIn hos f hf t ht)
    exact Nat.le_trans (T.start_le_stop (hs.mono hrun)) hapart

end

end Orderly

end GoIface
