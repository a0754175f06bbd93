import GoIface.Proofs.ImportPaths

/-!
# Spans are safe to use

Whatever the source, the spans of its tree or of its diagnostics are spans of it
(`spans_are_safe`): they lie in the text, what is cut out by them is cut between characters, and
those of nodes are nested and in order.
-/

namespace GoIface

open GoIface.Parse

structure File.SpansSafe (source : String) (f : File) : Prop where
  /-- Spans go from a lexeme to a lexeme. -/
  places : ∀ s ∈ f.places, s.AtLexemes (lex source) ∧ s.stop ≤ byteCount source.toList
  /-- Texts are cut out between characters. -/
  slices : ∀ s, f.Sliced s → ∃ text, s.CutsOut source text
  /-- And so are the texts inside the quotes of import paths. -/
  paths : ∀ i ∈ f.imports, ∃ text inside, i.path.span.CutsOut source text ∧ Quoted text inside ∧
    i.path.value source = String.ofList inside
  /-- Nodes hold what is inside them, and stand side by side. -/
  nested : f.outline.Orderly
  /-- A reader meets the package clause first, and then the nodes in the order they start. -/
  inOrder : ∃ es, f.outline.events (fun _ => false) = .file f.package :: es ∧ StartsInOrder es ∧
    ∀ e ∈ es, ∀ s ∈ e.span?, f.package.start ≤ s.start

theorem package_of_file {c c' : Cursor} {f : File} (hok : Parse.file c = .ok (f, c')) :
    f.package = c.here := by
  obtain ⟨package, c₁, hpackage, hrest⟩ := ok_of_bind hok
  obtain ⟨name, c₂, -, hrest⟩ := ok_of_bind hrest
  obtain ⟨semi, c₃, -, hrest⟩ := ok_of_bind hrest
  split at hrest
  · obtain ⟨_, _, hexpected, -⟩ := ok_of_bind hrest
    simp [expected] at hexpected
  · obtain ⟨_, _, -, hrest⟩ := ok_of_bind hrest
    obtain ⟨imports, c₄, -, hrest⟩ := ok_of_bind hrest
    obtain ⟨_, _, -, hrest⟩ := ok_of_bind hrest
    obtain ⟨decls, c₅, -, hrest⟩ := ok_of_bind hrest
    cases hrest
    exact LexedText.here_of_expect hpackage

namespace LexedText

variable (T : LexedText)

theorem first_le {l : Lexeme} (hl : l ∈ T.lexemes.head?) {s : Span} (hs : s.CoversIn T.lexemes) :
    l.span.start ≤ s.start := by
  obtain ⟨run, hrun, first, hfirst, last, -, rfl⟩ := hs
  have hmem := hrun.subset (List.mem_of_head? hfirst)
  have hlast := List.getLast?_eq_some_getLast (List.ne_nil_of_mem hmem)
  exact (T.run_bounds List.infix_rfl hl hlast hmem).1

theorem bounded_of_coversIn {s : Span} (h : s.CoversIn T.lexemes) :
    s.start ≤ s.stop ∧ s.stop ≤ T.textEnd := by
  refine ⟨T.start_le_stop h, ?_⟩
  obtain ⟨run, hrun, first, -, last, hlast, rfl⟩ := h
  exact (T.bounded last (hrun.subset (List.mem_of_getLast? hlast))).2

end LexedText

theorem package_first {source : String} {file : File} {made : Counts}
    (h : File.ofSource source = .ok (file, made)) {s : Span} (hs : s.CoversIn (lex source)) :
    file.package.start ≤ s.start := by
  obtain ⟨-, c, hok, -⟩ := read_ofSource h
  rw [package_of_file hok]
  rcases hlexemes : lex source with _ | ⟨l, ls⟩
  · obtain ⟨run, hrun, hcovers⟩ := hs
    rw [hlexemes] at hrun
    exact absurd (List.infix_nil.1 hrun) hcovers.ne_nil
  · have hhere : (Cursor.ofSource source).here = l.span := by
      simp [Cursor.ofSource, Cursor.ofLexemes, Cursor.here, hlexemes]
    rw [hhere]
    exact (LexedText.ofSource source).first_le (by simp [LexedText.ofSource, hlexemes]) hs

/-- What a type of a source keeps goes from a lexeme to a lexeme. -/
theorem atLexemes_of_hasType {source : String} {file : File} {made : Counts}
    (h : File.ofSource source = .ok (file, made)) {t : TypeNode} (ht : file.HasType t) :
    ∀ s ∈ t.places, s.AtLexemes (lex source) := by
  obtain ⟨run, hrun, hholds⟩ := holds_ofSource h
  obtain ⟨d, hd, u, hu, ht⟩ := ht
  intro s hs
  have hmade := hholds.typed u (List.mem_flatMap.2 ⟨d, hd, hu⟩) t ht
  exact (LexedText.ofSource source).atLexemes ((hmade.placed s hs).mono hrun)

theorem spansSafe_ofSource {source : String} {file : File} {made : Counts}
    (h : File.ofSource source = .ok (file, made)) : file.SpansSafe source := by
  let T := LexedText.ofSource source
  obtain ⟨run, hrun, hholds⟩ := holds_ofSource h
  have hplaced : ∀ s ∈ file.places, s.CoversIn T.lexemes :=
    fun s hs => (hholds.placed s hs).mono hrun
  refine ⟨fun s hs => ?_, fun s hs => ?_, fun i hi => ?_, ?_, ?_⟩
  · exact ⟨T.atLexemes (hplaced s hs), (T.bounded_of_coversIn (hplaced s hs)).2⟩
  · exact hs.cutsOut (fun _ ht => atLexemes_of_hasType h ht) fun s hs => T.atLexemes (hplaced s hs)
  · exact value_of_import h hi
  · exact ⟨by simp [Event.span?], laidAll_orderly T hrun hholds.laid⟩
  · refine ⟨_, rfl, laidAll_startsInOrder T hrun hholds.laid, fun e he s hs => ?_⟩
    have hcovers := laidAll_coversIn hholds.laid e he s hs
    exact package_first h (hcovers.mono hrun)

/-- The spans of a tree and of diagnostics are spans of the source, to be cut out without harm. -/
theorem spans_are_safe (source : String) :
    match File.ofSource source with
    | .ok (file, _) => file.SpansSafe source
    | .error e => ∀ d ∈ e.diagnostics,
      (d.span.AtLexemes (lex source) ∨ d.span = .point (byteCount source.toList)) ∧
        d.span.start ≤ d.span.stop ∧ d.span.stop ≤ byteCount source.toList := by
  let T := LexedText.ofSource source
  have hsound {s : Span} (h : T.Blames s) :
      (s.AtLexemes (lex source) ∨ s = .point (byteCount source.toList)) ∧
        s.start ≤ s.stop ∧ s.stop ≤ byteCount source.toList := by
    rcases h with rfl | h
    · exact ⟨.inr rfl, Nat.le_refl _, Nat.le_refl _⟩
    · exact ⟨.inl (T.atLexemes h), T.bounded_of_coversIn h⟩
  split
  · next h => exact spansSafe_ofSource h
  · next e h => exact fun d hd => hsound (blames_ofSource h d hd)

end GoIface
