import GoIface.Proofs.FileContents
import GoIface.Proofs.Relocation
import GoIface.Proofs.Steadiness

/-!
# Types on their own

Every type of a file can be cut out of the source and read by itself (`type_reads_alone`). The
lexemes of the excerpt are those that the type was read from, up to a semicolon inserted at the
end, so a reader that started there in the file starts there again: it does not know what came
before (`Parse.Fresh`), it makes the same although the text is cut off (`Parse.Steady`), and it
makes the same at another place (`Parse.Mirrors`).
-/

namespace GoIface

/-! ## What is read of an excerpt -/

/-- The semicolon that is inserted where a text ends, or nothing. -/
def IsEnd (r : List Lexeme) : Prop := r.head?.map Lexeme.token = none ∨
  r.head?.map Lexeme.token = some (.mark .semi)

namespace LexedText

variable {T : LexedText}

/-- A type is read from a run that it covers, and so it is from the run alone. -/
theorem Reads.alone {t : TypeNode} (h : T.Reads t) : ∃ run, run <:+: T.lexemes ∧
    t.span.Covers run ∧ Parse.Consumes.IsType (run.map Lexeme.token) ∧
      EndsLine (run.map Lexeme.token) ∧
      ∃ room made, room ≤ Parse.nestingLimit ∧ ∀ r s e, IsEnd r →
        ∃ u c, Parse.typeWithin room ⟨run ++ r, s, e, made⟩ = .ok (u, c) ∧ c.rest = r ∧
          u.moved 0 = t.moved 0 := by
  rcases h with ⟨room, c, c', hroom, hc, hok⟩ | ⟨l, hl, serial, name, htoken, rfl⟩
  · obtain ⟨run, hmoves, hcovers, -⟩ := Spec.of_ok (typeWithin hroom c) hc hok
    have hrest := hmoves.rest
    refine ⟨run, hmoves.isInfix, hcovers, (Parse.Consumes.typeWithin room c).of_run hok hrest,
      (Parse.Consumes.typeWithin_endsLine room c).of_run hok hrest, room, c.made, hroom,
      fun r s e hr => ?_⟩
    obtain ⟨ls, hls, hsteady⟩ := Parse.Steady.typeWithin room c t c' hok
    obtain rfl := List.append_cancel_right (hrest.symm.trans hls)
    have hfresh := Parse.Fresh.typeWithin (c := c.before (run ++ r) e) room s
    exact ⟨t, c'.before r e, hfresh.trans (hsteady r e (.inr hr)), rfl, rfl⟩
  · obtain ⟨_, span⟩ := l
    obtain rfl : _ = Token.ident name := htoken
    obtain ⟨before, after, hlexemes⟩ := List.append_of_mem hl
    refine ⟨[⟨.ident name, span⟩], ⟨before, after, by simp [hlexemes]⟩, .singleton _,
      .of_name (.inl rfl) rfl, endsLine_singleton rfl, 1, ⟨0, 0, 0, 0, 0⟩, by decide,
      fun r s e hr => ?_⟩
    refine ⟨.mk 0 (span.hull span) (.named none ⟨name, span⟩ []),
      ⟨r, span, e, ⟨0, 0, 1, 0, 0⟩⟩, ?_, rfl, ?_⟩
    · rcases r with _ | ⟨⟨u, s'⟩, r⟩
      · rfl
      · obtain rfl : u = .mark .semi := by simpa [IsEnd] using hr
        rfl
    · rw [TypeNode.moved_mk, TypeNode.moved_mk, Span.hull, Nat.min_self, Nat.max_self]

end LexedText

/-! ## The excerpt itself -/

theorem Lexeme.shift_injective (n : Nat) : Function.Injective (Lexeme.shift n) := by
  rintro ⟨t, a, b⟩ ⟨u, c, d⟩ h
  simp only [shift, Span.shift, Lexeme.mk.injEq, Span.mk.injEq] at h
  obtain ⟨rfl, hstart, hstop⟩ := h
  rw [Nat.add_left_cancel hstart, Nat.add_left_cancel hstop]

theorem Lexeme.shift_insertedSemi (n offset : Nat) :
    (Lexeme.insertedSemi offset).shift n = .insertedSemi (n + offset) :=
  rfl

theorem EndsLine.of_getLast? {run : List Lexeme} (h : EndsLine (run.map Lexeme.token)) :
    ∃ l, run.getLast? = some l ∧ l.token.endsStatement = true := by
  obtain ⟨init, t, hrun, ht⟩ := h
  obtain ⟨ls, _, rfl, -, hlast⟩ := List.map_eq_append_iff.1 hrun
  obtain ⟨l, rfl, rfl⟩ := List.map_eq_singleton_iff.1 hlast
  exact ⟨l, by simp, ht⟩

/-- The lexemes of an excerpt that a type was read from. -/
theorem lex_typeExcerpt {source : String} (hfault : ∀ l ∈ lex source, l.fault? = none)
    {run : List Lexeme} (hrun : run <:+: lex source) {s : Span} (hs : s.Covers run)
    (hlike : Parse.Consumes.IsType (run.map Lexeme.token))
    (hends : EndsLine (run.map Lexeme.token)) :
    (lex (s.text source)).map (Lexeme.shift s.start) = run ++ [.insertedSemi s.stop] := by
  obtain ⟨last, hlast, hlastEnds⟩ := hends.of_getLast?
  have hsemi : semiAfter run s.stop = [.insertedSemi s.stop] := by
    simp [semiAfter, hlast, hlastEnds]
  rw [← hsemi]
  refine lex_excerpt hfault hrun hs (fun l hl => ?_) fun l hl => ?_
  · obtain ⟨t, us, hcons, ht⟩ := hlike.1.starts
    obtain ⟨l', ls, rfl, rfl, -⟩ := List.map_eq_cons_iff.1 hcons
    obtain rfl : l' = l := by simpa using hl
    refine Lexeme.isInserted_of_ne fun hl' => ?_
    simp [hl', Token.startsType] at ht
  · obtain rfl := Option.some.inj (hlast.symm.trans hl)
    refine Lexeme.isInserted_of_ne fun hl' => ?_
    simp [hl', Token.endsStatement] at hlastEnds

/-- Cut out of the source, every type of a file is read again, from all of the lexemes but the
semicolon that is inserted after them, and it is the same but for the numbers of the nodes and
the start of the excerpt. -/
theorem type_reads_alone {source : String} {file : File} {made : Counts} {t : TypeNode}
    (h : File.ofSource source = .ok (file, made)) (ht : file.HasType t) :
    (∀ l ∈ lex (t.span.text source), l.fault? = none) ∧
      ∃ u c, Parse.type (.ofSource (t.span.text source)) = .ok (u, c) ∧
        c.rest = [.insertedSemi (byteCount (t.span.text source).toList)] ∧
        u.moved t.span.start = t.moved 0 := by
  obtain ⟨hfault, -⟩ := read_ofSource h
  obtain ⟨whole, -, hholds⟩ := holds_ofSource h
  obtain ⟨d, hd, root, hroot, ht⟩ := ht
  have hmade := hholds.typed root (List.mem_flatMap.2 ⟨d, hd, hroot⟩) t ht
  obtain ⟨run, hrun, hcovers, hlike, hends, room, counts, hroom, hread⟩ := hmade.reads.alone
  have hlex := lex_typeExcerpt hfault hrun hcovers hlike hends
  obtain ⟨text, hcut⟩ := (LexedText.atLexemes _ ⟨run, hrun, hcovers⟩).cutsOut
  have hstop : t.span.stop = t.span.start + byteCount (t.span.text source).toList := by
    obtain ⟨before, after, -, hspan⟩ := id hcut
    rw [Span.text, String.toList_ofList, hcut.slice_eq, hspan]
  refine ⟨fun l hl => ?_, ?_⟩
  · have hmem : l.shift t.span.start ∈ run ++ [.insertedSemi t.span.stop] :=
      hlex ▸ List.mem_map_of_mem hl
    rw [← l.fault?_shift t.span.start]
    rcases List.mem_append.1 hmem with hmem | hmem
    · exact hfault _ (hrun.subset hmem)
    · rw [List.mem_singleton.1 hmem]
      rfl
  · obtain ⟨u, c, hok, hrest, hu⟩ := hread [.insertedSemi t.span.stop] ⟨t.span.start, t.span.start⟩
      t.span.stop (.inr rfl)
    have hmoved : Cursor.MovedFrom t.span.start ⟨run ++ [.insertedSemi t.span.stop],
        ⟨t.span.start, t.span.start⟩, t.span.stop, counts⟩ (.ofSource (t.span.text source)) :=
      ⟨hlex.symm, rfl, hstop⟩
    obtain ⟨u', c', hok', hmoved', hu'⟩ := Parse.Mirrors.typeWithin hroom _ _ hmoved u c hok
    refine ⟨u', c', hok', ?_, hu'.symm.trans hu⟩
    rw [hmoved'.rest, hstop, ← Lexeme.shift_insertedSemi] at hrest
    obtain ⟨l, hl, hshift⟩ := List.map_eq_singleton_iff.1 hrest
    rw [hl, Lexeme.shift_injective _ hshift]

/-- A type that takes the rest of its line. -/
theorem func_type_reads_alone : ∃ file made t,
    File.ofSource "package p\nvar f func(a, b []T) U // g" = .ok (file, made) ∧
      file.HasType t ∧ t.span = ⟨16, 32⟩ ∧
      (∀ l ∈ lex (t.span.text "package p\nvar f func(a, b []T) U // g"), l.fault? = none) ∧
      ∃ u c,
        Parse.type (.ofSource (t.span.text "package p\nvar f func(a, b []T) U // g")) = .ok (u, c) ∧
        c.rest = [.insertedSemi
          (byteCount (t.span.text "package p\nvar f func(a, b []T) U // g").toList)] ∧
        u.moved t.span.start = t.moved 0 := by
  have hspans : (File.ofSource "package p\nvar f func(a, b []T) U // g").toOption.map
      (fun p => (p.1.decls.flatMap Decl.roots).map TypeNode.span) = some [⟨16, 32⟩] := by
    decide +kernel
  rcases hfile : File.ofSource "package p\nvar f func(a, b []T) U // g" with e | ⟨file, made⟩
  · rw [hfile] at hspans
    cases hspans
  · rw [hfile] at hspans
    obtain ⟨t, hroots, hspan⟩ := List.map_eq_singleton_iff.1 (Option.some.inj hspans)
    obtain ⟨d, hd, hroot⟩ := List.mem_flatMap.1 (hroots ▸ List.mem_singleton_self t)
    have ht : file.HasType t := ⟨d, hd, t, hroot, .self⟩
    exact ⟨file, made, t, rfl, ht, hspan, type_reads_alone hfile ht⟩

end GoIface
