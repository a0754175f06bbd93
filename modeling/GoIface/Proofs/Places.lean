import GoIface.Model.Conversion
import GoIface.Proofs.FileContents

/-!
# Where the spans of a tree lie

Every span that a tree keeps starts where some lexeme starts and stops where some lexeme stops, and
so do spans put together of such spans (`Span.AtLexemes.hull`). Lexemes stand between whole
characters, so the text of such a span can be cut out of the source (`Span.AtLexemes.cutsOut`). The
spans of nodes are nested and go from left to right.
-/

namespace GoIface

/-- The span starts with a lexeme and stops with one that is not before it. -/
structure Span.AtLexemes (s : Span) (ls : List Lexeme) : Prop where
  starts : ∃ l ∈ ls, s.start = l.span.start
  stops : ∃ l ∈ ls, s.stop = l.span.stop
  le : s.start ≤ s.stop

/-- The span is that of a stretch of the source, between whole characters. -/
def Span.CutsOut (s : Span) (source : String) (text : List Char) : Prop :=
  ∃ before after, source.toList = before ++ (text ++ after) ∧
    s = ⟨byteCount before, byteCount before + byteCount text⟩

theorem Span.CutsOut.slice_eq {s : Span} {source : String} {text : List Char}
    (h : s.CutsOut source text) : s.slice source.toList = text := by
  obtain ⟨before, after, hsource, rfl⟩ := h
  rw [hsource, slice_append]

theorem Span.AtLexemes.hull {s t : Span} {ls : List Lexeme} (hs : s.AtLexemes ls)
    (ht : t.AtLexemes ls) : (s.hull t).AtLexemes ls where
  starts := by
    rcases Nat.le_total s.start t.start with h | h
    · simpa [Span.hull, Nat.min_eq_left h] using hs.starts
    · simpa [Span.hull, Nat.min_eq_right h] using ht.starts
  stops := by
    rcases Nat.le_total s.stop t.stop with h | h
    · simpa [Span.hull, Nat.max_eq_right h] using ht.stops
    · simpa [Span.hull, Nat.max_eq_left h] using hs.stops
  le := by
    have := hs.le
    have := ht.le
    simp only [Span.hull]
    omega

theorem LexedText.atLexemes_of_coversIn {T : LexedText} {s : Span} {run : List Lexeme}
    (hrun : run <:+: T.lexemes) (h : s.CoversIn run) : s.AtLexemes run := by
  have hle := T.start_le_stop (h.mono hrun)
  obtain ⟨part, hpart, first, hfirst, last, hlast, rfl⟩ := h
  exact ⟨⟨first, hpart.subset (List.mem_of_head? hfirst), rfl⟩,
    ⟨last, hpart.subset (List.mem_of_getLast? hlast), rfl⟩, hle⟩

theorem LexedText.atLexemes (T : LexedText) {s : Span} (h : s.CoversIn T.lexemes) :
    s.AtLexemes T.lexemes :=
  atLexemes_of_coversIn List.infix_rfl h

/-- A place between whole characters. -/
def BetweenChars (source : String) (n : Nat) : Prop :=
  ∃ before after, source.toList = before ++ after ∧ n = byteCount before

theorem Lexeme.StandsIn.betweenChars {source : String} {l : Lexeme}
    (h : l.StandsIn 0 source.toList) :
    BetweenChars source l.span.start ∧ BetweenChars source l.span.stop := by
  obtain ⟨before, text, after, hsource, hspan, -⟩ := h
  refine ⟨⟨before, text ++ after, hsource, by rw [hspan, Nat.zero_add]⟩, before ++ text, after,
    ?_, ?_⟩
  · rw [hsource, List.append_assoc]
  · rw [hspan, byteCount_append, Nat.zero_add]

theorem cutsOut_of_betweenChars {source : String} {s : Span} (hstart : BetweenChars source s.start)
    (hstop : BetweenChars source s.stop) (hle : s.start ≤ s.stop) :
    ∃ text, s.CutsOut source text := by
  obtain ⟨before, after, hsource, hbefore⟩ := hstart
  obtain ⟨upto, rest, hsource', hupto⟩ := hstop
  have hprefix := List.prefix_append before after
  have hprefix' := List.prefix_append upto rest
  rw [← hsource] at hprefix
  rw [← hsource'] at hprefix'
  have hcut : before <+: upto := by
    rcases List.prefix_or_prefix_of_prefix hprefix hprefix' with h | ⟨gap, hgap⟩
    · exact h
    · -- what is cut off has no bytes, so it is nothing
      have hbytes := congrArg byteCount hgap
      rw [byteCount_append, ← hbefore, ← hupto] at hbytes
      have hnil : gap = [] := Classical.byContradiction fun hne => by
        have := byteCount_pos hne
        omega
      rw [hnil, List.append_nil] at hgap
      exact hgap ▸ List.prefix_refl _
  obtain ⟨text, rfl⟩ := hcut
  refine ⟨text, before, rest, by rw [hsource', List.append_assoc], ?_⟩
  rw [← byteCount_append, ← hbefore, ← hupto]

theorem Span.AtLexemes.cutsOut {s : Span} {source : String} (h : s.AtLexemes (lex source)) :
    ∃ text, s.CutsOut source text := by
  obtain ⟨⟨l, hl, hstart⟩, ⟨m, hm, hstop⟩, hle⟩ := h
  have hstands := (tiled_lex source).standsIn
  refine cutsOut_of_betweenChars ?_ ?_ hle
  · exact hstart ▸ (hstands l hl).betweenChars.1
  · exact hstop ▸ (hstands m hm).betweenChars.2

/-! ## What is cut out of a source -/

/-- The spans whose texts are looked at when the interfaces of a file are converted. -/
inductive File.Sliced (f : File) : Span → Prop
  | type {t : TypeNode} (h : f.HasType t) : Sliced f t.span
  | length {t elem : TypeNode} {length : Span} (h : f.HasType t)
      (hform : t.form = .array length elem) : Sliced f length
  | terms {t : TypeNode} {keyword : Span} {elements : List (Element TypeNode)}
      {terms : List (Term TypeNode)} (h : f.HasType t)
      (hform : t.form = .interface keyword elements) (hterms : .union terms ∈ elements) :
      Sliced f (termsSpan terms)
  | path {i : ImportSpec} (h : i ∈ f.imports) : Sliced f i.path.span

theorem TypeNode.places_of_form {t : TypeNode} {s : Span}
    (h : s ∈ (t.form.map TypeNode.places).places) : s ∈ t.places := by
  obtain ⟨serial, span, form⟩ := t
  rw [places, fold_mk]
  exact .tail _ h

theorem Term.span_atLexemes {ls : List Lexeme} {t : Term TypeNode}
    (h : ∀ s ∈ (t.map TypeNode.places).places, s.AtLexemes ls) : t.span.AtLexemes ls := by
  have htype := h t.type.span (List.mem_append_right _ t.type.span_mem_places)
  rcases ht : t.tilde with _ | tilde
  · simpa [Term.span, ht] using htype
  · have htilde := h tilde (List.mem_append_left _ (by simp [Term.map, ht]))
    simpa [Term.span, ht] using htilde.hull htype

theorem termsSpan_atLexemes {ls : List Lexeme} {t : Term TypeNode} {ts : List (Term TypeNode)}
    (ht : t.span.AtLexemes ls) (hts : ∀ u ∈ ts, u.span.AtLexemes ls) :
    (termsSpan (t :: ts)).AtLexemes ls := by
  show (ts.foldl (fun s u => s.hull u.span) t.span).AtLexemes ls
  generalize t.span = s at ht
  induction ts generalizing s with
  | nil => exact ht
  | cons u ts ih => exact ih (fun v hv => hts v (by simp [hv])) _ (ht.hull (hts u (by simp)))

theorem cutsOut_nil (source : String) : Span.CutsOut ⟨0, 0⟩ source [] :=
  ⟨[], source.toList, rfl, rfl⟩

theorem File.Sliced.cutsOut {f : File} {source : String} {s : Span} (hs : f.Sliced s)
    (htypes : ∀ t : TypeNode, f.HasType t → ∀ p ∈ t.places, p.AtLexemes (lex source))
    (hplaces : ∀ p ∈ f.places, p.AtLexemes (lex source)) : ∃ text, s.CutsOut source text := by
  cases hs with
  | @type t h => exact (htypes t h _ t.span_mem_places).cutsOut
  | @length t elem _ h hform =>
    have hmem : s ∈ t.places :=
      TypeNode.places_of_form (by simp [hform, TypeForm.map, TypeForm.places])
    exact (htypes t h _ hmem).cutsOut
  | @terms t keyword elements terms h hform hterms =>
    have hplace (u : Term TypeNode) (hu : u ∈ terms) : u.span.AtLexemes (lex source) := by
      refine Term.span_atLexemes fun p hp => htypes t h p (TypeNode.places_of_form ?_)
      rw [hform]
      refine .tail _ (List.mem_flatMap.2 ⟨_, List.mem_map_of_mem hterms, ?_⟩)
      exact List.mem_flatMap.2 ⟨_, List.mem_map_of_mem hu, hp⟩
    rcases terms with _ | ⟨u, us⟩
    · exact ⟨[], cutsOut_nil source⟩
    · have hus : ∀ v ∈ us, v.span.AtLexemes (lex source) := fun v hv => hplace v (.tail _ hv)
      exact (termsSpan_atLexemes (hplace u (.head _)) hus).cutsOut
  | @path i h =>
    refine (hplaces _ ?_).cutsOut
    have hi : i.path.span ∈ f.imports.flatMap ImportSpec.places :=
      List.mem_flatMap.2 ⟨i, h, by simp [ImportSpec.places]⟩
    exact .tail _ (.tail _ (List.mem_append_left _ hi))

end GoIface
