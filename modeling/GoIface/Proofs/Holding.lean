import GoIface.Proofs.Layout

/-!
# What readers make of a text

A reader that succeeds moves over a run of lexemes (`LexedText.Moves`), and what it makes of the
run has some content: the nodes in it are counted and laid out in the run, the spans in it cover
stretches of the run, and the types in it are read somewhere in the text (`LexedText.Holds`). What
is made of two runs, one after the other, has the contents of both (`Holds.append`), and a node
made of a run adds itself (`Holds.node`, `Holds.type`).
-/

namespace GoIface

namespace LexedText

variable (T : LexedText)

/-- The cursor stands somewhere in the text. -/
structure At (c : Cursor) : Prop where
  rest : c.rest <:+ T.lexemes
  textEnd : c.textEnd = T.textEnd

/-- From the one cursor a run is read to get to the other. -/
structure Moves (c : Cursor) (run : List Lexeme) (c' : Cursor) : Prop where
  start : T.At c
  rest : c.rest = run ++ c'.rest
  last : c'.last = (run.getLast?.map Lexeme.span).getD c.last
  textEnd : c'.textEnd = c.textEnd

/-- A fault may be reported at a stretch of the text, or at its end. -/
def Blames (s : Span) : Prop := s = .point T.textEnd ∨ s.CoversIn T.lexemes

/-- The type is what is read somewhere in the text, or an identifier that turned out to be a type
when the whole list was read. -/
def Reads (t : TypeNode) : Prop :=
  (∃ room c c', room ≤ Parse.nestingLimit ∧ T.At c ∧ Parse.typeWithin room c = .ok (t, c')) ∨
    ∃ l ∈ T.lexemes, ∃ serial name, l.token = .ident name ∧
      t = .mk serial l.span (.named none ⟨name, l.span⟩ [])

/-- A type made of some part of a run, with less than `bound` types before it. -/
structure MadeType (run : List Lexeme) (bound : Nat) (t : TypeNode) : Prop where
  serial : t.serial < bound
  descends : t.Descends
  reads : T.Reads t
  placed : ∀ s ∈ t.places, s.CoversIn run

/-- What is made of a run has this content, and the counts go from `a` to `b`. -/
structure Holds (run : List Lexeme) (a b : Counts) (y : Content) : Prop where
  counted : Counted a b (allEvents y.outlines)
  laid : LaidAll y.outlines run
  placed : ∀ s ∈ y.places, s.CoversIn run
  typed : ∀ t ∈ y.types, ∀ u : TypeNode, u.Within t → T.MadeType run b.types u

variable {T}

theorem MadeType.mono {run run' : List Lexeme} {m n : Nat} {t : TypeNode}
    (h : T.MadeType run m t) (hrun : run <:+: run') (hle : m ≤ n) : T.MadeType run' n t where
  serial := Nat.lt_of_lt_of_le h.serial hle
  descends := h.descends
  reads := h.reads
  placed s hs := (h.placed s hs).mono hrun

theorem At.blames_of_mem {c : Cursor} (h : T.At c) {l : Lexeme} (hl : l ∈ c.rest) :
    T.Blames l.span := by
  obtain ⟨before, after, hrest⟩ := List.append_of_mem hl
  have hinfix : [l] <:+: c.rest := ⟨before, after, by simp [hrest]⟩
  exact .inr ⟨[l], hinfix.trans h.rest.isInfix, .singleton l⟩

theorem At.blames {c : Cursor} (h : T.At c) : T.Blames c.here := by
  rcases hrest : c.rest with _ | ⟨l, ls⟩
  · exact .inl (by simp [Cursor.here, hrest, h.textEnd])
  · have hhere : c.here = l.span := by simp [Cursor.here, hrest]
    exact hhere ▸ h.blames_of_mem (by simp [hrest])

namespace Moves

variable {c c₁ c₂ : Cursor} {run run' : List Lexeme}

theorem stay (h : T.At c) : T.Moves c [] c := ⟨h, rfl, rfl, rfl⟩

theorem finish (h : T.Moves c run c₁) : T.At c₁ := by
  refine ⟨?_, h.textEnd.trans h.start.textEnd⟩
  have hsuffix := h.start.rest
  rw [h.rest] at hsuffix
  exact (List.suffix_append _ _).trans hsuffix

theorem trans (h : T.Moves c run c₁) (h' : T.Moves c₁ run' c₂) : T.Moves c (run ++ run') c₂ where
  start := h.start
  rest := by rw [h.rest, h'.rest, List.append_assoc]
  last := by
    rw [h'.last, h.last, List.getLast?_append]
    cases run'.getLast? <;> simp
  textEnd := h'.textEnd.trans h.textEnd

theorem isInfix (h : T.Moves c run c₁) : run <:+: T.lexemes := by
  have hsuffix := h.start.rest
  rw [h.rest] at hsuffix
  exact (List.prefix_append _ _).isInfix.trans hsuffix.isInfix

/-- From the next lexeme to the last one read. -/
theorem covers (h : T.Moves c run c₁) (hne : run ≠ []) : (c.here.hull c₁.last).Covers run := by
  obtain ⟨first, rest, rfl⟩ := List.exists_cons_of_ne_nil hne
  have hhere : c.here = first.span := by simp [Cursor.here, h.rest]
  have hlast : c₁.last = ((first :: rest).getLast (by simp)).span := by
    rw [h.last, List.getLast?_eq_some_getLast (by simp)]
    rfl
  rw [hhere, hlast]
  exact T.covers_hull h.isInfix rfl (List.getLast?_eq_some_getLast _)

end Moves

/-! ## Contents put together -/

namespace Holds

variable {run run' before after : List Lexeme} {a b c : Counts} {y z : Content}

theorem none (h : b = a) : T.Holds run a b .none := by
  subst h
  exact ⟨.nil b, trivial, by simp [Content.none], by simp [Content.none]⟩

theorem append (h : T.Holds run a b y) (h' : T.Holds run' b c z) :
    T.Holds (run ++ run') a c (y ++ z) where
  counted := by
    rw [Content.outlines_append, allEvents_append]
    exact h.counted.append h'.counted
  laid := laidAll_iff.2 ((laidAll_iff.1 h.laid).append (laidAll_iff.1 h'.laid))
  placed s hs := by
    rcases List.mem_append.1 hs with hs | hs
    · exact (h.placed s hs).mono (List.prefix_append _ _).isInfix
    · exact (h'.placed s hs).mono (List.suffix_append _ _).isInfix
  typed t ht u hu := by
    rcases List.mem_append.1 ht with ht | ht
    · exact (h.typed t ht u hu).mono (List.prefix_append _ _).isInfix (h'.counted.get_le .type)
    · exact (h'.typed t ht u hu).mono (List.suffix_append _ _).isInfix (Nat.le_refl _)

theorem sub (h : T.Holds run a b y) (hsub : z.Sub y) : T.Holds run a b z := by
  obtain ⟨hplaces, houtlines, htypes⟩ := hsub
  exact ⟨houtlines ▸ h.counted, houtlines ▸ h.laid, fun s hs => h.placed s (hplaces hs),
    htypes ▸ h.typed⟩

theorem ne_nil (h : T.Holds run a b y) {s : Span} (hs : s ∈ y.places) : run ≠ [] := by
  rintro rfl
  obtain ⟨part, hpart, hcovers⟩ := h.placed s hs
  exact hcovers.ne_nil (List.infix_nil.1 hpart)

theorem places {ss : List Span} (h : b = a) (hss : ∀ s ∈ ss, s.CoversIn run) :
    T.Holds run a b (.ofPlaces ss) := by
  subst h
  exact ⟨.nil b, trivial, hss, by simp [Content.ofPlaces]⟩

/-- A node made of what is inside it. -/
theorem node (h : T.Holds run a b y) (event : Event) {span : Span} (hspan : event.span? = some span)
    (hcovers : span.Covers run) (hserial : event.serial? = some (b.get event.kind))
    (hmade : ∀ k, c.get k = b.get k + if event.kind == k then 1 else 0)
    (hother : event.kind ≠ .type) :
    T.Holds run a c ⟨span :: y.places, [.node event y.outlines], y.types⟩ where
  counted := by
    have hone : Counted b c [event] := .one hserial hmade
    rw [allEvents_node, allEvents_nil, List.append_nil]
    exact (h.counted.append hone).perm (List.perm_append_singleton _ _)
  laid := by
    refine laidAll_iff.2 (.single ⟨fun s hs => ?_, h.laid⟩)
    obtain rfl : span = s := by simpa [hspan] using hs
    exact hcovers
  placed := by simpa using ⟨hcovers.inside, h.placed⟩
  typed t ht u hu := by
    have htypes := hmade .type
    rw [if_neg (by simpa using hother)] at htypes
    have hsame : c.types = b.types := htypes
    exact (h.typed t ht u hu).mono List.infix_rfl (Nat.le_of_eq hsame.symm)

end Holds

/-- What has neither a number nor a span goes around the nodes. -/
theorem Holds.around {run : List Lexeme} {a b : Counts} {y : Content} (h : T.Holds run a b y)
    (event : Event) (hspan : event.span? = .none) (hserial : event.serial? = .none) :
    T.Holds run a b ⟨y.places, [.node event y.outlines], y.types⟩ where
  counted := by
    rw [allEvents_node, allEvents_nil, List.append_nil]
    exact h.counted.cons hserial
  laid := laidAll_iff.2 (.single ⟨by simp [hspan], h.laid⟩)
  placed := h.placed
  typed := h.typed

/-- A type made of its form. -/
theorem Holds.type {run : List Lexeme} {a b : Counts} {form : TypeForm TypeNode} {span : Span}
    (h : T.Holds run a b form.content) (hspan : span.Covers run)
    (hreads : T.Reads (.mk b.types span form)) :
    T.Holds run a { b with types := b.types + 1 } (TypeNode.mk b.types span form).content := by
  have houtline : (TypeNode.mk b.types span form).outline
      = .node (.type b.types span) form.content.outlines := TypeNode.fold_mk _ _ _ _
  have hplaces : (TypeNode.mk b.types span form).places = span :: form.content.places :=
    TypeNode.fold_mk _ _ _ _
  have hone : Counted b { b with types := b.types + 1 } [.type b.types span] := by
    refine .one rfl fun k => ?_
    cases k <;> rfl
  have hplaced : ∀ s ∈ (TypeNode.mk b.types span form).places, s.CoversIn run := by
    rw [hplaces]
    simpa using ⟨hspan.inside, h.placed⟩
  refine ⟨?_, ?_, hplaced, ?_⟩
  · show Counted a _ (allEvents [(TypeNode.mk b.types span form).outline])
    rw [houtline, allEvents_node, allEvents_nil, List.append_nil]
    exact (h.counted.append hone).perm (List.perm_append_singleton _ _)
  · show LaidAll [(TypeNode.mk b.types span form).outline] run
    rw [houtline]
    refine laidAll_iff.2 (.single ⟨?_, h.laid⟩)
    rintro _ ⟨⟩
    exact hspan
  · intro t ht u hu
    obtain rfl := List.mem_singleton.1 ht
    cases hu with
    | self =>
      exact ⟨Nat.lt_succ_self _, fun v hv w hw => (h.typed v hv w hw).serial, hreads, hplaced⟩
    | child hv hw => exact (h.typed _ hv _ hw).mono List.infix_rfl (Nat.le_succ _)

end LexedText

end GoIface
