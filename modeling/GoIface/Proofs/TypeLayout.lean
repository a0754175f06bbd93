import GoIface.Proofs.FormParts
import GoIface.Proofs.Holes
import GoIface.Proofs.ImportPaths
import GoIface.Proofs.Places

/-!
# Where the parts of types and declarations lie

The outermost types in a form are its children (`TypeForm.outermost_outlines`), and nodes that are
laid out stand apart, so the parts of a type that is read lie in its span from left to right
(`LexedText.Reads.tidy`). In the same way the type declarations of a file stand in a row, each with
its type parameters before its type (`LexedText.file_parts`).
-/

namespace GoIface

/-! ## The outermost types -/

mutual

/-- The spans of the types that stand in no other. -/
def Outline.outermost : Outline → List Span
  | .node (.type _ span) _ => [span]
  | .node (.file _) inside | .node (.decl _ _) inside | .node (.func _ _) inside
  | .node (.typeSpec _) inside | .node (.field _ _) inside
  | .node (.signature _ _) inside => outermostAll inside

def outermostAll : List Outline → List Span
  | [] => []
  | o :: os => o.outermost ++ outermostAll os

end

@[simp] theorem outermostAll_append (os ps : List Outline) :
    outermostAll (os ++ ps) = outermostAll os ++ outermostAll ps := by
  induction os with
  | nil => rfl
  | cons o os ih => rw [List.cons_append, outermostAll, outermostAll, ih, List.append_assoc]

theorem outermostAll_eq_flatMap (os : List Outline) :
    outermostAll os = os.flatMap Outline.outermost := by
  induction os with
  | nil => rfl
  | cons o os ih => rw [outermostAll, ih, List.flatMap_cons]

mutual

theorem Outline.exists_event_of_outermost : ∀ {o : Outline} {s : Span}, s ∈ o.outermost →
    ∃ e ∈ allEvents [o], s ∈ e.span?
  | .node event inside, s, h => by
    rw [allEvents_node, allEvents_nil, List.append_nil]
    cases event with
    | type serial span =>
      obtain rfl := List.mem_singleton.1 h
      exact ⟨_, .head _, rfl⟩
    | _ =>
      obtain ⟨e, he, hs⟩ := exists_event_of_outermostAll h
      exact ⟨e, .tail _ he, hs⟩

theorem exists_event_of_outermostAll : ∀ {os : List Outline} {s : Span}, s ∈ outermostAll os →
    ∃ e ∈ allEvents os, s ∈ e.span?
  | [], _, h => by simp [outermostAll] at h
  | o :: os, s, h => by
    have hsplit : allEvents (o :: os) = allEvents [o] ++ allEvents os := allEvents_append [o] os
    rw [hsplit]
    rcases List.mem_append.1 h with h | h
    · obtain ⟨e, he, hs⟩ := Outline.exists_event_of_outermost h
      exact ⟨e, List.mem_append_left _ he, hs⟩
    · obtain ⟨e, he, hs⟩ := exists_event_of_outermostAll h
      exact ⟨e, List.mem_append_right _ he, hs⟩

end

mutual

theorem Outline.Orderly.pairwise_outermost : ∀ {o : Outline}, o.Orderly →
    o.outermost.Pairwise fun s t => s.stop ≤ t.start
  | .node event inside, ⟨_, hinside⟩ => by
    cases event with
    | type serial span => exact List.pairwise_singleton _ _
    | _ => exact pairwise_outermostAll hinside

theorem pairwise_outermostAll : ∀ {os : List Outline}, OrderlyAll os →
    (outermostAll os).Pairwise fun s t => s.stop ≤ t.start
  | [], _ => .nil
  | o :: os, ⟨ho, hapart, hos⟩ => by
    refine List.pairwise_append.2
      ⟨Outline.Orderly.pairwise_outermost ho, pairwise_outermostAll hos, fun s hs t ht => ?_⟩
    obtain ⟨e, he, hs⟩ := Outline.exists_event_of_outermost hs
    obtain ⟨f, hf, ht⟩ := exists_event_of_outermostAll ht
    exact hapart e he f hf s hs t ht

end

theorem TypeNode.outermost_outline (t : TypeNode) : t.outline.outermost = [t.span] := by
  obtain ⟨serial, span, form⟩ := t
  rw [outline, fold_mk]
  rfl

theorem outermostAll_types (ts : List TypeNode) :
    outermostAll (ts.map TypeNode.outline) = ts.map TypeNode.span := by
  rw [outermostAll_eq_flatMap, List.flatMap_map, List.map_eq_flatMap]
  exact List.flatMap_congr fun t _ => t.outermost_outline

theorem Field.outermost_outline (x : Field TypeNode) :
    (x.map TypeNode.outline).outline.outermost = [x.type.span] := by
  show outermostAll [x.type.outline] = _
  rw [outermostAll, outermostAll, x.type.outermost_outline, List.append_nil]

theorem outermostAll_fields (xs : List (Field TypeNode)) :
    outermostAll ((xs.map (·.map TypeNode.outline)).map Field.outline)
      = (xs.map (·.type)).map TypeNode.span := by
  rw [outermostAll_eq_flatMap, List.map_map, List.flatMap_map, List.map_map, List.map_eq_flatMap]
  exact List.flatMap_congr fun x _ => x.outermost_outline

theorem Signature.outermost_outline (s : Signature TypeNode) :
    (s.map TypeNode.outline).outline.outermost = s.children.map TypeNode.span := by
  show outermostAll _ = _
  rw [outermostAll_append, children, List.map_append]
  congr 1
  · exact outermostAll_fields s.params.fields
  · show outermostAll (s.results.map TypeNode.outline).outlines = _
    rcases s.results with _ | t | l
    · rfl
    · simp [Results.map, Results.outlines, Results.children, outermostAll, t.outermost_outline]
    · exact outermostAll_fields l.fields

theorem Element.outermost_outlines (e : Element TypeNode) :
    outermostAll (e.map TypeNode.outline).outlines = e.children.map TypeNode.span := by
  cases e with
  | method name s =>
    show outermostAll [_] = _
    rw [outermostAll, outermostAll, List.append_nil]
    exact s.outermost_outline
  | union terms =>
    have htypes := outermostAll_types (terms.map (·.type))
    rw [List.map_map] at htypes
    rw [map, outlines, List.map_map]
    exact htypes

/-- The outermost types in a form are its children. -/
theorem TypeForm.outermost_outlines (form : TypeForm TypeNode) :
    outermostAll (form.map TypeNode.outline).outlines = form.children.map TypeNode.span := by
  cases form with
  | named q name args => exact outermostAll_types args
  | struct keyword fields => exact outermostAll_fields fields
  | interface keyword elements =>
    simp only [map, outlines, children, outermostAll_eq_flatMap, List.flatMap_map,
      List.flatMap_assoc, List.map_flatMap]
    refine List.flatMap_congr fun e _ => ?_
    rw [← outermostAll_eq_flatMap]
    exact e.outermost_outlines
  | func keyword s =>
    show outermostAll [_] = _
    rw [outermostAll, outermostAll, List.append_nil]
    exact s.outermost_outline
  | _ => simp [map, outlines, children, outermostAll, TypeNode.outermost_outline]

/-! ## Where the parts of a type lie -/

/-- The parts of a type lie in its span, from left to right. -/
structure TypeNode.Tidy (t : TypeNode) : Prop where
  start_le_stop : t.span.start ≤ t.span.stop
  inside : ∀ u ∈ t.form.children, t.span.start ≤ u.span.start ∧ u.span.stop ≤ t.span.stop
  apart : t.form.children.Pairwise fun u v => u.span.stop ≤ v.span.start
  qualifier : ∀ q name args, t.form = .named (some q) name args →
    t.span.start ≤ q.span.start ∧ q.span.start ≤ t.span.stop
  length : ∀ n elem, t.form = .array n elem →
    t.span.start ≤ n.start ∧ n.start ≤ t.span.stop ∧ n.start ≤ elem.span.start

theorem LexedText.Reads.tidy {T : LexedText} {t : TypeNode} (h : T.Reads t) : t.Tidy := by
  obtain ⟨run, hstands⟩ := h.standsIn
  have hplace : ∀ s ∈ t.places, t.span.start ≤ s.start ∧ s.start ≤ t.span.stop := by
    intro s hs
    have hin := hstands.places s hs
    have hbounds := T.bounds_of_covers hstands.stretch hstands.covers hin
    have hle := T.start_le_stop (hin.mono hstands.stretch)
    omega
  have horderly : t.outline.Orderly := hstands.orderly
  obtain ⟨serial, span, form⟩ := t
  have houtline : (TypeNode.mk serial span form).outline
      = .node (.type serial span) (form.map TypeNode.outline).outlines := TypeNode.fold_mk _ _ _ _
  rw [houtline] at horderly
  obtain ⟨hinside, hall⟩ := horderly
  have hspans := form.outermost_outlines
  refine ⟨?_, fun u hu => ?_, ?_, ?_, ?_⟩
  · exact T.start_le_stop (hstands.covers.inside.mono hstands.stretch)
  · have hmem : u.span ∈ outermostAll (form.map TypeNode.outline).outlines :=
      hspans ▸ List.mem_map_of_mem hu
    obtain ⟨e, he, hs⟩ := exists_event_of_outermostAll hmem
    exact hinside span rfl e he u.span hs
  · have hpairs := pairwise_outermostAll hall
    rw [hspans] at hpairs
    exact List.pairwise_map.1 hpairs
  · rintro q name args hform
    exact hplace _ (TypeNode.places_of_form (by simp [hform, TypeForm.map, TypeForm.places]))
  · rintro n elem hform
    have hn := hplace n (TypeNode.places_of_form (by simp [hform, TypeForm.map, TypeForm.places]))
    have hparts := hstands.parts
    rw [hform] at hparts
    obtain ⟨before, after, rfl, hbefore, hafter⟩ := hparts
    have hapart := T.apart_of_coversIn hstands.stretch hbefore hafter
    have hle := T.start_le_stop ((hstands.places n
      (TypeNode.places_of_form (by simp [hform, TypeForm.map, TypeForm.places]))).mono
        hstands.stretch)
    omega

/-! ## Declarations in their runs -/

namespace LexedText

variable {T : LexedText} {c : Cursor}

/-- The type parameters stand in the run before the type. -/
def SpecIn (run : List Lexeme) (s : TypeSpec) : Prop :=
  ∃ before after, run = before ++ after ∧ (∀ p ∈ s.params, p.CoversIn before) ∧
    ∀ p ∈ s.type.places, p.CoversIn after

theorem typeSpec_parts : T.Spec Parse.typeSpec c fun run _ s => SpecIn run s := by
  have hrest (name : Ident) (params : Option Span) (run₁ run₂ : List Lexeme)
      (hparams : ∀ p ∈ params, p.CoversIn run₂) (c : Cursor) : T.Spec (do
        let assign ← Parse.eat .assign
        return (⟨name, params, assign, ← Parse.type⟩ : TypeSpec)) c
        fun run _ s => SpecIn (run₁ ++ (run₂ ++ run)) s := by
    refine (Spec.eat .assign).bind fun assign c₃ run₃ _ _ => .finish ?_
    refine (readsType c₃).mono fun run₄ b t _ ht => ?_
    refine ⟨run₁ ++ run₂, run₃ ++ run₄, by simp, fun p hp => ?_, fun p hp => ?_⟩
    · exact (hparams p hp).mono (List.suffix_append _ _).isInfix
    · exact (ht.2.placed p hp).mono (List.suffix_append _ _).isInfix
  refine Spec.ident.bind fun name c₁ run₁ _ _ => .look ?_
  split
  · next h =>
    refine Spec.bind (Q := fun run _ params => ∀ p ∈ params, p.CoversIn run) (.map ?_)
      fun params c₂ run₂ _ hparams => hrest name params run₁ run₂ hparams c₂
    refine Spec.mono (Yields.bracketed (next?_of_holdsTypeParams h)) ?_
    rintro run b p - hp _ ⟨⟩
    exact hp.placed p (by simp [Content.ofPlaces])
  · refine Spec.bind (Q := fun _ _ params => params = none) (.pure rfl) fun params c₂ run₂ _ h => ?_
    exact hrest name params run₁ run₂ (by simp [h]) c₂

theorem decl_parts : T.Spec Parse.decl c fun run _ d => InRow SpecIn run d.typeSpecs := by
  by_cases h : c.next? = some (.keyword .typeKw)
  · refine .look ?_
    simp only [h]
    refine (Spec.bump h).bind fun keyword c₁ run₁ _ _ => ?_
    refine (group_inRow fun c => typeSpec_parts).bind fun p c₂ run₂ _ hp => .make rfl ?_
    simpa [Decl.typeSpecs] using hp.widen run₁ []
  · have hnone : Parse.Ensures Parse.decl c (·.typeSpecs = []) :=
      fun d c' hok => Parse.typeSpecs_of_decl hok h
    exact (Spec.ensuring decl hnone).mono fun run b d _ hd => hd.2 ▸ .nil

/-- The type declarations of a file stand in the text in their order. -/
theorem file_parts : T.Spec Parse.file c fun run _ f =>
    InRow SpecIn run (f.decls.flatMap Decl.typeSpecs) :=
  (file_inRow importDecl_paths fun _ => decl_parts).mono fun _ _ _ _ h => h.2

end LexedText

end GoIface
