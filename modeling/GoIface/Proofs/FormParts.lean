import GoIface.Proofs.Discovery

/-!
# What stands in a form itself

Beside the types in it, a form keeps names, a length or the elements of an interface. Each of them
has its own place in the run that the form is read from (`FormParts`): names are identifiers of
the run, a length stands before the type of the elements, and the elements of an interface stand
one after the other. This is so of every type that is read (`LexedText.Reads.standsIn`).
-/

namespace GoIface

open GoIface.Parse

namespace LexedText

variable {T : LexedText} {c : Cursor} {type : Parse TypeNode}

/-- An identifier of the run. -/
def NamedIn (run : List Lexeme) (x : Ident) : Prop :=
  ∃ l ∈ run, l.token = .ident x.name ∧ x.span = l.span

/-- An element keeps something, all of it in the run. -/
def ElementIn (run : List Lexeme) (e : Element TypeNode) : Prop :=
  e.content.places ≠ [] ∧ ∀ s ∈ e.content.places, s.CoversIn run

/-- What a form keeps beside types stands in the run. -/
def FormParts (run : List Lexeme) : TypeForm TypeNode → Prop
  | .named qualifier name _ => NamedIn run name ∧ ∀ q ∈ qualifier, NamedIn run q
  | .array length elem =>
    ∃ before after, run = before ++ after ∧ length.CoversIn before ∧ elem.span.CoversIn after
  | .interface _ elements => InRow ElementIn run elements
  | _ => True

theorem NamedIn.mono {run run' : List Lexeme} {x : Ident} (h : NamedIn run x) (hsub : run ⊆ run') :
    NamedIn run' x := by
  obtain ⟨l, hl, htoken, hspan⟩ := h
  exact ⟨l, hsub hl, htoken, hspan⟩

theorem ident_named : T.Spec Parse.ident c fun run _ x => NamedIn run x := by
  refine Spec.ident.mono ?_
  rintro run b x - ⟨-, l, rfl, htoken, hspan⟩
  exact ⟨l, by simp, htoken, hspan⟩

theorem Spec.ensuring {α : Type} {p : Parse α} {Q : List Lexeme → Counts → α → Prop} {P : α → Prop}
    (h : T.Spec p c Q) (hP : Parse.Ensures p c P) :
    T.Spec p c fun run b x => Q run b x ∧ P x := by
  intro hc
  have h := h hc
  rcases hok : p c with e | ⟨x, c'⟩ <;> rw [hok] at h
  · exact h
  · obtain ⟨run, hmoves, hx⟩ := h
    exact ⟨run, hmoves, hx, hP x c' hok⟩

variable (htype : ∀ c, T.Spec type c (T.ReadsType c.made))

include htype

theorem typeName_parts : T.Spec (Parse.typeName type) c fun run _ form => FormParts run form := by
  refine ident_named.bind fun first c₁ run₁ _ hfirst => ?_
  refine (Spec.eat .dot).bind fun dot c₂ run₂ _ _ => ?_
  cases dot with
  | none =>
    refine .finish (Spec.mono (typeArgs htype) fun run _ args _ _ => ⟨?_, by simp⟩)
    exact hfirst.mono fun l hl => by simp [hl]
  | some dot =>
    refine ident_named.bind fun name c₃ run₃ _ hname => ?_
    refine .finish (Spec.mono (typeArgs htype) fun run _ args _ _ => ⟨?_, ?_⟩)
    · exact hname.mono fun l hl => by simp [hl]
    · rintro q ⟨⟩
      exact hfirst.mono fun l hl => by simp [hl]

theorem arrayOrSlice_parts {t : Token} (h : c.next? = some t) :
    T.Spec (Parse.arrayOrSlice type) c fun run _ form => FormParts run form := by
  refine (Spec.bump h).bind fun lbrack c₁ run₁ _ _ => ?_
  refine (Spec.eat .rbrack).bind fun rbrack c₂ run₂ _ _ => ?_
  cases rbrack with
  | some rbrack => exact .finish ((htype _).mono fun _ _ _ _ _ => trivial)
  | none =>
    refine .look ?_
    split
    · exact .failHere
    · refine Spec.bind Yields.through fun length c₃ run₃ _ hlength => ?_
      refine (Spec.expect _).bind fun _ c₄ run₄ _ _ => .finish ((htype _).mono ?_)
      rintro run₅ b elem - ⟨hcovers, -⟩
      refine ⟨run₁ ++ (run₂ ++ run₃), run₄ ++ run₅, by simp, ?_, ?_⟩
      · exact (hlength.placed _ (by simp [Content.ofPlaces])).mono ⟨run₁ ++ run₂, [], by simp⟩
      · exact hcovers.inside.mono (List.suffix_append _ _).isInfix

omit htype in
/-- A union has one term at least. -/
theorem element_keeps : Parse.Ensures (Parse.element type) c fun e => e.content.places ≠ [] := by
  refine .look ?_
  split
  · refine .bind fun name _ => .bind fun s _ => .pure ?_
    simp [Element.content, Element.map, Element.places]
  · have hterms : Parse.Ensures (separated .pipe (Parse.term type)) c (· ≠ []) :=
      .bind fun t _ => .bind fun _ _ => .bind fun ts _ => .pure (by simp)
    intro e c' hok
    have hok : (separated .pipe (Parse.term type) >>= fun ts => pure (Element.union ts)) c
        = .ok (e, c') := hok
    obtain ⟨ts, c₁, hts, ⟨⟩⟩ := ok_of_bind hok
    obtain ⟨t, ts, rfl⟩ := List.exists_cons_of_ne_nil (hterms _ _ hts)
    have hne : t.type.places ≠ [] := List.ne_nil_of_mem t.type.span_mem_places
    simp [Element.content, Element.map, Element.places, Term.map, Term.places, hne]

theorem interfaceType_parts {t : Token} (h : c.next? = some t) :
    T.Spec (Parse.interfaceType type) c fun run _ form => FormParts run form := by
  have helements (n : Nat) (c : Cursor) :=
    Spec.blockItems (T := T)
      (Q := fun a run b (e : Element TypeNode) =>
        T.Holds run a b e.content ∧ e.content.places ≠ [])
      (fun c => Spec.ensuring (element htype) element_keeps) .rbrace n c
  refine (Spec.bump h).bind fun keyword c₁ run₁ _ _ => ?_
  refine (Spec.expect _).bind fun _ c₂ run₂ _ _ => .finish (.look ?_)
  refine (helements _ _).bind fun es c₃ run₃ _ hes => ?_
  refine (Spec.expect _).bind fun rbrace c₄ run₄ _ _ => .pure ?_
  have hrow : InRow ElementIn run₃ es :=
    hes.inRow fun _ _ _ _ h => ⟨h.2, h.1.placed⟩
  simpa [FormParts] using hrow.widen (run₁ ++ run₂) run₄

/-- A form is read with what it keeps in the run. -/
theorem typeForm_parts : T.Spec (Parse.typeForm type) c fun run _ form => FormParts run form := by
  refine .look ?_
  split
  · exact typeName_parts htype
  · next h =>
    exact (Spec.bump h).bind fun _ _ _ _ _ => .finish ((htype _).mono fun _ _ _ _ _ => trivial)
  · next h => exact arrayOrSlice_parts htype h
  · next h =>
    refine (Spec.bump h).bind fun _ _ _ _ _ => (Spec.expect _).bind fun _ _ _ _ _ => ?_
    refine (htype _).bind fun _ _ _ _ _ => (Spec.expect _).bind fun _ _ _ _ _ => ?_
    exact .finish ((htype _).mono fun _ _ _ _ _ => trivial)
  · next h =>
    refine (Spec.bump h).bind fun _ _ _ _ _ => (Spec.eat .arrow).bind fun _ _ _ _ _ => ?_
    exact .finish ((htype _).mono fun _ _ _ _ _ => trivial)
  · next h =>
    refine (Spec.bump h).bind fun _ _ _ _ _ => (Spec.expect _).bind fun _ _ _ _ _ => ?_
    exact .finish ((htype _).mono fun _ _ _ _ _ => trivial)
  · next h =>
    refine (Spec.bump h).bind fun _ _ _ _ _ => ?_
    exact .finish (Spec.mono (signature htype) fun _ _ _ _ _ => trivial)
  · next h => exact interfaceType_parts htype h
  · next h =>
    refine (Spec.bump h).bind fun _ _ _ _ _ => (Spec.expect _).bind fun _ _ _ _ _ => ?_
    exact .finish (Spec.mono (Yields.block (fun c => structField htype) .rbrace)
      fun _ _ _ _ _ => trivial)
  · next h =>
    refine (Spec.bump h).bind fun _ _ _ _ _ => (htype _).bind fun _ _ _ _ _ => ?_
    exact (Spec.expect _).bind fun _ _ _ _ _ => .pure trivial
  · exact .expected

omit htype in
/-- The run that a type is read from, with all that it keeps. -/
structure StandsIn (T : LexedText) (run : List Lexeme) (t : TypeNode) : Prop where
  stretch : run <:+: T.lexemes
  covers : t.span.Covers run
  parts : FormParts run t.form
  places : ∀ s ∈ t.places, s.CoversIn run
  orderly : t.outline.Orderly

omit htype in
/-- Every type that is read stands in a run. -/
theorem Reads.standsIn {t : TypeNode} (h : T.Reads t) : ∃ run, T.StandsIn run t := by
  rcases h with ⟨room, c, c', hroom, hat, hok⟩ | ⟨l, hl, serial, name, htoken, rfl⟩
  · obtain ⟨run, hmoves, hcovers, hholds⟩ := (typeWithin hroom c).of_ok hat hok
    cases room with
    | zero => cases hok
    | succ room =>
      have hok' : (Parse.typeForm (Parse.typeWithin room) >>= Parse.makeType c.here) c
          = .ok (t, c') := hok
      obtain ⟨form, c₁, hform, hmade⟩ := ok_of_bind hok'
      obtain ⟨run', hmoves', hparts⟩ :=
        (typeForm_parts (typeWithin (Nat.le_of_succ_le hroom))).of_ok hat hform
      cases hmade
      obtain rfl : run = run' := List.append_cancel_right (hmoves.rest.symm.trans hmoves'.rest)
      exact ⟨run, hmoves.isInfix, hcovers, hparts, fun s hs => hholds.placed s hs,
        (laidAll_orderly T hmoves.isInfix hholds.laid).1⟩
  · have hcovers : l.span.Covers [l] := .singleton l
    obtain ⟨before, after, hlexemes⟩ := List.append_of_mem hl
    have hstretch : [l] <:+: T.lexemes := ⟨before, after, by simp [hlexemes]⟩
    refine ⟨[l], hstretch, hcovers, ⟨⟨l, by simp, htoken, rfl⟩, by simp⟩, ?_, ?_⟩
    · simpa [TypeNode.places, TypeNode.fold_mk, TypeForm.places, TypeForm.map] using hcovers.inside
    · rw [TypeNode.outline, TypeNode.fold_mk]
      exact ⟨by simp [TypeForm.map, TypeForm.outlines], trivial⟩

end LexedText

end GoIface
