import GoIface.Proofs.ImportTable
import GoIface.Proofs.PlacedModels
import GoIface.Proofs.TypeLayout

/-!
# What has no model

The offences of a type, of an element of an interface and of a declaration are what is wrong in
them, each with its place and the reason it is refused for (`TypeNode.Offends`, `Element.Offends`,
`TypeSpec.Offends`). Each is wrong where it stands, so in what is read of a text the offences of one
part come before those of the next (`TypeNode.pairwise_offences`, `LexedText.pairwise_precedes`).
-/

namespace GoIface

variable {α : Type}

/-- Offences, each with its place. -/
abbrev Offences := Located Refusal → Prop

/-- None of these starts after one of those. -/
def Offences.Precedes (O O' : Offences) : Prop :=
  ∀ e e', O e → O' e' → e.span.start ≤ e'.span.start

/-- One that none of the others starts before. -/
def Offences.IsFirst (O : Offences) (e : Located Refusal) : Prop :=
  O e ∧ ∀ e', O e' → e.span.start ≤ e'.span.start

/-! ## Types -/

/-- What a type has no model for, apart from the types in it: type arguments, a qualifier that is
not known, a length that is no number, and what a literal holds. -/
inductive TypeNode.Offends (source : String) (known : String → Prop) (t : TypeNode) : Offences
  | instantiation {qualifier : Option Ident} {name : Ident} {args : List TypeNode}
      (hform : t.form = .named qualifier name args) (hargs : args ≠ []) :
      Offends source known t ⟨.genericType (t.span.text source), t.span⟩
  | qualifier {q name : Ident} {args : List TypeNode} (hform : t.form = .named (some q) name args)
      (hq : ¬ known q.name) : Offends source known t ⟨.unknownPackage q.name, q.span⟩
  | length {n : Span} {elem : TypeNode} {fault : LengthFault} (hform : t.form = .array n elem)
      (hn : readLength (Text.trim (n.slice source.toList)) = .error fault) :
      Offends source known t
        ⟨.arrayLength (String.ofList (Text.trim (n.slice source.toList))) fault, n⟩
  | struct {keyword : Span} {fields : List (Field TypeNode)}
      (hform : t.form = .struct keyword fields) (hfields : fields ≠ []) :
      Offends source known t ⟨.structFields, t.span⟩
  | interface {keyword : Span} {elements : List (Element TypeNode)}
      (hform : t.form = .interface keyword elements) (helements : elements ≠ []) :
      Offends source known t ⟨.interfaceElements, t.span⟩

/-- The offences of a type, at any depth. -/
def TypeNode.offences (source : String) (known : String → Prop) (t : TypeNode) : Offences :=
  fun e => ∃ u : TypeNode, u.Within t ∧ u.Offends source known e

section

variable {source : String} {known : String → Prop} {t : TypeNode} {e : Located Refusal}

theorem TypeNode.offends_named_iff {qualifier : Option Ident} {name : Ident}
    (h : t.form = .named qualifier name []) : t.Offends source known e ↔
      ∃ q ∈ qualifier, ¬ known q.name ∧ e = ⟨.unknownPackage q.name, q.span⟩ := by
  constructor
  · rintro (⟨hform, hargs⟩ | ⟨hform, hq⟩ | ⟨hform, -⟩ | ⟨hform, -⟩ | ⟨hform, -⟩) <;>
      rw [h] at hform <;> cases hform
    · exact absurd rfl hargs
    · exact ⟨_, rfl, hq, rfl⟩
  · rintro ⟨q, ⟨⟩, hq, rfl⟩
    exact .qualifier h hq

theorem TypeNode.offends_array_iff {n : Span} {elem : TypeNode} (h : t.form = .array n elem) :
    t.Offends source known e ↔
      ∃ fault, readLength (Text.trim (n.slice source.toList)) = .error fault ∧
        e = ⟨.arrayLength (String.ofList (Text.trim (n.slice source.toList))) fault, n⟩ := by
  constructor
  · rintro (⟨hform, -⟩ | ⟨hform, -⟩ | ⟨hform, hn⟩ | ⟨hform, -⟩ | ⟨hform, -⟩) <;>
      rw [h] at hform <;> cases hform
    exact ⟨_, hn, rfl⟩
  · rintro ⟨fault, hn, rfl⟩
    exact .length h hn

theorem TypeNode.offends_struct_iff {keyword : Span} {fields : List (Field TypeNode)}
    (h : t.form = .struct keyword fields) :
    t.Offends source known e ↔ fields ≠ [] ∧ e = ⟨.structFields, t.span⟩ := by
  constructor
  · rintro (⟨hform, -⟩ | ⟨hform, -⟩ | ⟨hform, -⟩ | ⟨hform, hne⟩ | ⟨hform, -⟩) <;>
      rw [h] at hform <;> cases hform
    exact ⟨hne, rfl⟩
  · rintro ⟨hne, rfl⟩
    exact .struct h hne

theorem TypeNode.offends_interface_iff {keyword : Span} {elements : List (Element TypeNode)}
    (h : t.form = .interface keyword elements) :
    t.Offends source known e ↔ elements ≠ [] ∧ e = ⟨.interfaceElements, t.span⟩ := by
  constructor
  · rintro (⟨hform, -⟩ | ⟨hform, -⟩ | ⟨hform, -⟩ | ⟨hform, -⟩ | ⟨hform, hne⟩) <;>
      rw [h] at hform <;> cases hform
    exact ⟨hne, rfl⟩
  · rintro ⟨hne, rfl⟩
    exact .interface h hne

theorem TypeNode.offences_iff : t.offences source known e ↔
    t.Offends source known e ∨ ∃ u ∈ t.form.children, u.offences source known e := by
  constructor
  · rintro ⟨u, hu, he⟩
    cases hu with
    | self => exact .inl he
    | child hv hu => exact .inr ⟨_, hv, u, hu, he⟩
  · rintro (he | ⟨u, hu, v, hv, he⟩)
    · exact ⟨t, .self, he⟩
    · exact ⟨v, .child hu hv, he⟩

/-- Forms that are converted whatever they hold. -/
def TypeForm.IsPlain : TypeForm α → Prop
  | .pointer _ _ | .slice _ _ | .mapping _ _ _ | .chan _ _ _ | .func _ _ | .paren _ _ => True
  | _ => False

/-- What is wrong in a type of a plain form is wrong in the types in it. -/
theorem TypeNode.offences_of_isPlain (h : t.form.IsPlain) :
    t.offences source known e ↔ ∃ u ∈ t.form.children, u.offences source known e := by
  refine offences_iff.trans (or_iff_right ?_)
  rintro (⟨hform, -⟩ | ⟨hform, -⟩ | ⟨hform, -⟩ | ⟨hform, -⟩ | ⟨hform, -⟩) <;>
    (rw [hform] at h; exact h)

theorem TypeNode.Tidy.bounds_of_offends (h : t.Tidy) (he : t.Offends source known e) :
    t.span.start ≤ e.span.start ∧ e.span.start ≤ t.span.stop := by
  cases he with
  | qualifier hform _ => exact h.qualifier _ _ _ hform
  | length hform _ =>
    obtain ⟨hstart, hstop, -⟩ := h.length _ _ hform
    exact ⟨hstart, hstop⟩
  | _ => exact ⟨Nat.le_refl _, h.start_le_stop⟩

/-- What is wrong in a type is wrong in its span. -/
theorem TypeNode.bounds_of_offences (htidy : ∀ u : TypeNode, u.Within t → u.Tidy)
    (he : t.offences source known e) :
    t.span.start ≤ e.span.start ∧ e.span.start ≤ t.span.stop := by
  obtain ⟨u, hu, he⟩ := he
  induction hu with
  | self => exact (htidy _ .self).bounds_of_offends he
  | @child t u v hv hu ih =>
    have hinside := (htidy t .self).inside v hv
    have := ih (fun w hw => htidy w (.child hv hw)) he
    omega

theorem TypeNode.pairwise_offences (htidy : ∀ u : TypeNode, u.Within t → u.Tidy) :
    t.form.children.Pairwise fun u v =>
      (u.offences source known).Precedes (v.offences source known) := by
  refine ((htidy t .self).apart.imp_of_mem fun {u v} hu hv hapart e e' he he' => ?_)
  have := bounds_of_offences (fun w hw => htidy w (.child hu hw)) he
  have := bounds_of_offences (fun w hw => htidy w (.child hv hw)) he'
  omega

end

/-! ## Elements and declarations -/

/-- The offset is in a span that stands in the run. -/
def OffsetIn (run : List Lexeme) (n : Nat) : Prop :=
  ∃ s : Span, s.AtLexemes run ∧ s.start ≤ n ∧ n ≤ s.stop

theorem OffsetIn.mono {run run' : List Lexeme} {n : Nat} (h : OffsetIn run n) (hsub : run ⊆ run') :
    OffsetIn run' n := by
  obtain ⟨s, ⟨⟨l, hl, hstart⟩, ⟨m, hm, hstop⟩, hle⟩, hn⟩ := h
  exact ⟨s, ⟨⟨l, hsub hl, hstart⟩, ⟨m, hsub hm, hstop⟩, hle⟩, hn⟩

theorem Span.AtLexemes.offsetIn {s : Span} {run : List Lexeme} (h : s.AtLexemes run) :
    OffsetIn run s.start := ⟨s, h, Nat.le_refl _, h.le⟩

namespace LexedText

variable {T : LexedText}

/-- An offset in a run is not after one in a later run. -/
theorem le_of_offsetIn {ls ms : List Lexeme} {m n : Nat} (h : ls ++ ms <:+: T.lexemes)
    (hm : OffsetIn ls m) (hn : OffsetIn ms n) : m ≤ n := by
  obtain ⟨s, ⟨-, ⟨last, hlast, hstop⟩, -⟩, -, hm⟩ := hm
  obtain ⟨t, ⟨⟨first, hfirst, hstart⟩, -, -⟩, hn, -⟩ := hn
  have hapart := (List.pairwise_append.1 (T.pairwise.sublist h.sublist)).2.2 last hlast first hfirst
  omega

theorem bounds_of_offsetIn {span : Span} {run : List Lexeme} {n : Nat}
    (hrun : run <:+: T.lexemes) (hspan : span.Covers run) (hn : OffsetIn run n) :
    span.start ≤ n ∧ n ≤ span.stop := by
  obtain ⟨first, hfirst, last, hlast, rfl⟩ := hspan
  obtain ⟨t, ⟨⟨l, hl, hstart⟩, ⟨m, hm, hstop⟩, -⟩, hn⟩ := hn
  have hbefore := (T.run_bounds hrun hfirst hlast hl).1
  have hafter := (T.run_bounds hrun hfirst hlast hm).2
  dsimp only
  omega

/-- Where things stand in a row and the offences of each in its stretch, they come in order. -/
theorem pairwise_precedes {run : List Lexeme} {xs : List α} {P : List Lexeme → α → Prop}
    {O : α → Offences} (hrun : run <:+: T.lexemes) (h : InRow P run xs)
    (hin : ∀ x ∈ xs, ∀ part, part <:+: T.lexemes → P part x → ∀ e, O x e →
      OffsetIn part e.span.start) : xs.Pairwise fun x y => (O x).Precedes (O y) := by
  have hpairs : xs.Pairwise fun x y => x ∈ xs → y ∈ xs → (O x).Precedes (O y) := by
    refine h.pairwise ?_
    rintro part after x y hstretch hx ⟨part', hpart', hy⟩ hxs hys e e' he he'
    have hboth := hstretch.trans hrun
    have hleft := (List.prefix_append part after).isInfix.trans hboth
    have hright := hpart'.trans ((List.suffix_append part after).isInfix.trans hboth)
    have hoffset := hin y hys part' hright hy e' he'
    exact le_of_offsetIn hboth (hin x hxs part hleft hx e he) (hoffset.mono hpart'.subset)
  exact hpairs.imp_of_mem fun hx hy h => h hx hy

end LexedText

/-- What is wrong in an element: all of it if it is a union, and else what is wrong in the types of
its signature. -/
inductive Element.Offends (source : String) (known : String → Prop) : Element TypeNode → Offences
  | union {terms : List (Term TypeNode)} : Offends source known (.union terms)
      ⟨.typeElement ((termsSpan terms).text source), termsSpan terms⟩
  | method {name : Ident} {signature : Signature TypeNode} {t : TypeNode} {e : Located Refusal}
      (ht : t ∈ signature.children) (he : t.offences source known e) :
      Offends source known (.method name signature) e

/-- What is wrong in a declaration if it declares an interface: type parameters, and what is wrong
in its elements. -/
inductive TypeSpec.Offends (source : String) (known : String → Prop) (s : TypeSpec) : Offences
  | generic {elements : List (Element TypeNode)} {params : Span}
      (helements : s.elements? = some elements) (hparams : s.params = some params) :
      Offends source known s ⟨.genericInterface s.name.name, params⟩
  | element {elements : List (Element TypeNode)} {x : Element TypeNode} {e : Located Refusal}
      (helements : s.elements? = some elements) (hx : x ∈ elements)
      (he : x.Offends source known e) : Offends source known s e

theorem FieldList.subset_places {l : FieldList (List Span)} {ss : List Span} (h : ss ∈ l.children) :
    ss ⊆ l.places := by
  obtain ⟨x, hx, rfl⟩ := List.mem_map.1 h
  intro s hs
  refine .tail _ (List.mem_append_left _ (List.mem_flatMap.2 ⟨x, hx, ?_⟩))
  simp [Field.places, hs]

/-- What the types in a signature keep, the signature keeps. -/
theorem Signature.subset_places {x : Signature (List Span)} {ss : List Span} (h : ss ∈ x.children) :
    ss ⊆ x.places := by
  rcases List.mem_append.1 h with h | h
  · exact fun s hs => .tail _ (List.mem_append_left _ (FieldList.subset_places h hs))
  · refine fun s hs => .tail _ (List.mem_append_right _ ?_)
    rcases hr : x.results with _ | t | l <;> rw [hr] at h
    · simp [Results.children] at h
    · obtain rfl := List.mem_singleton.1 h
      exact hs
    · exact FieldList.subset_places h hs

section

variable {source : String} {known : String → Prop} {T : LexedText}

/-- What is wrong in an element is wrong in its run. -/
theorem Element.offsetIn_of_offends {run : List Lexeme} {x : Element TypeNode}
    {e : Located Refusal} (hrun : run <:+: T.lexemes) (h : LexedText.ElementIn run x)
    (htidy : ∀ t ∈ x.children, ∀ u : TypeNode, u.Within t → u.Tidy)
    (he : x.Offends source known e) : OffsetIn run e.span.start := by
  obtain ⟨hne, hplaced⟩ := h
  have hat : ∀ s ∈ x.content.places, s.AtLexemes run :=
    fun s hs => LexedText.atLexemes_of_coversIn hrun (hplaced s hs)
  cases he with
  | @union terms =>
    have hterms : ∀ t ∈ terms, t.span.AtLexemes run := fun t ht =>
      Term.span_atLexemes fun s hs => hat s
        (List.mem_flatMap.2 ⟨_, List.mem_map_of_mem ht, hs⟩)
    rcases terms with _ | ⟨t, ts⟩
    · exact absurd rfl hne
    · exact (termsSpan_atLexemes (hterms t (.head _)) fun u hu => hterms u (.tail _ hu)).offsetIn
  | @method name signature t e ht he =>
    refine ⟨t.span, hat t.span ?_, TypeNode.bounds_of_offences (htidy t ht) he⟩
    have hmem : t.places ∈ (signature.map TypeNode.places).children := by
      rw [Signature.children_map]
      exact List.mem_map_of_mem ht
    exact .tail _ (Signature.subset_places hmem t.span_mem_places)

variable {s : TypeSpec} {elements : List (Element TypeNode)}

/-- The elements of a declared interface stand in a row in its type. -/
theorem TypeSpec.elements_inRow (hreads : T.Reads s.type)
    (helements : s.elements? = some elements) : ∃ run, run <:+: T.lexemes ∧
      s.type.span.Covers run ∧ InRow LexedText.ElementIn run elements := by
  obtain ⟨run, hstands⟩ := hreads.standsIn
  obtain ⟨keyword, hform⟩ := form_of_elements? helements
  have hparts := hstands.parts
  rw [hform] at hparts
  exact ⟨run, hstands.stretch, hstands.covers, hparts⟩

variable (hreads : ∀ u : TypeNode, u.Within s.type → T.Reads u)

include hreads

theorem TypeSpec.tidy_of_element (helements : s.elements? = some elements) {x : Element TypeNode}
    (hx : x ∈ elements) {t : TypeNode} (ht : t ∈ x.children) {u : TypeNode} (hu : u.Within t) :
    u.Tidy :=
  (hreads u (hu.trans (.child (child_of_element helements hx ht) .self))).tidy

theorem TypeSpec.pairwise_element_offends (helements : s.elements? = some elements) :
    elements.Pairwise fun x y =>
      Offences.Precedes (x.Offends source known) (y.Offends source known) := by
  obtain ⟨run, hrun, -, hrow⟩ := elements_inRow (hreads _ .self) helements
  refine LexedText.pairwise_precedes hrun hrow fun x hx part hpart hin e he => ?_
  exact Element.offsetIn_of_offends hpart hin
    (fun t ht u hu => tidy_of_element hreads helements hx ht hu) he

/-- What is wrong in the elements is wrong in the type. -/
theorem TypeSpec.bounds_of_element (helements : s.elements? = some elements)
    {x : Element TypeNode} (hx : x ∈ elements) {e : Located Refusal}
    (he : x.Offends source known e) :
    s.type.span.start ≤ e.span.start ∧ e.span.start ≤ s.type.span.stop := by
  obtain ⟨run, hrun, hcovers, hrow⟩ := elements_inRow (hreads _ .self) helements
  obtain ⟨part, hpart, hin⟩ := hrow.exists_of_mem hx
  have hoffset := Element.offsetIn_of_offends (hpart.trans hrun) hin
    (fun t ht u hu => tidy_of_element hreads helements hx ht hu) he
  exact LexedText.bounds_of_offsetIn hrun hcovers (hoffset.mono hpart.subset)

theorem TypeSpec.offsetIn_of_element {run : List Lexeme} (hrun : run <:+: T.lexemes)
    (hplaces : ∀ p ∈ s.type.places, p.CoversIn run) (helements : s.elements? = some elements)
    {x : Element TypeNode} (hx : x ∈ elements) {e : Located Refusal}
    (he : x.Offends source known e) : OffsetIn run e.span.start :=
  ⟨s.type.span, LexedText.atLexemes_of_coversIn hrun (hplaces _ s.type.span_mem_places),
    bounds_of_element hreads helements hx he⟩

/-- What is wrong in a declaration is wrong in its run. -/
theorem TypeSpec.offsetIn_of_offends {run : List Lexeme} (hrun : run <:+: T.lexemes)
    (hin : LexedText.SpecIn run s) {e : Located Refusal} (he : s.Offends source known e) :
    OffsetIn run e.span.start := by
  obtain ⟨before, after, rfl, hparams, hplaces⟩ := hin
  have hleft := (List.prefix_append before after).isInfix
  have hright := (List.suffix_append before after).isInfix
  cases he with
  | generic helements hp =>
    have hat := LexedText.atLexemes_of_coversIn (hleft.trans hrun) (hparams _ hp)
    exact hat.offsetIn.mono hleft.subset
  | element helements hx he =>
    exact (offsetIn_of_element hreads (hright.trans hrun) hplaces helements hx he).mono
      hright.subset

theorem TypeSpec.params_le {run : List Lexeme} (hrun : run <:+: T.lexemes)
    (hin : LexedText.SpecIn run s) {params : Span} (hp : params ∈ s.params)
    (helements : s.elements? = some elements) {x : Element TypeNode} (hx : x ∈ elements)
    {e : Located Refusal} (he : x.Offends source known e) : params.start ≤ e.span.start := by
  obtain ⟨before, after, rfl, hparams, hplaces⟩ := hin
  have hleft := (List.prefix_append before after).isInfix
  have hright := (List.suffix_append before after).isInfix
  have hat := LexedText.atLexemes_of_coversIn (hleft.trans hrun) (hparams _ hp)
  exact LexedText.le_of_offsetIn hrun hat.offsetIn
    (offsetIn_of_element hreads (hright.trans hrun) hplaces helements hx he)

end

/-! ## Files -/

/-- What is wrong in the interfaces that a file declares, with the qualifiers known that its imports
bind. -/
def File.Offends (resolve : Resolver) (source : String) (f : File) : Offences := fun e =>
  ∃ d ∈ f.decls, ∃ s ∈ d.typeSpecs,
    s.Offends source (fun x => ∃ i ∈ f.imports, i.Binds resolve source x) e

theorem reads_of_typeSpec {source : String} {file : File} {made : Counts}
    (hfile : File.ofSource source = .ok (file, made)) {s : TypeSpec}
    (hs : s ∈ file.decls.flatMap Decl.typeSpecs) (u : TypeNode) (hu : u.Within s.type) :
    (LexedText.ofSource source).Reads u := by
  obtain ⟨run, hrun, hholds⟩ := holds_ofSource hfile
  obtain ⟨d, hd, hs⟩ := List.mem_flatMap.1 hs
  have hroot : s.type ∈ file.decls.flatMap Decl.roots :=
    List.mem_flatMap.2 ⟨d, hd, Decl.type_mem_roots hs⟩
  exact (hholds.typed s.type hroot u hu).reads

theorem TypeSpec.eq_of_interface {s : TypeSpec} {p : TypeSpec × List (Element TypeNode)}
    (h : s.elements?.map (s, ·) = some p) : s = p.1 ∧ s.elements? = some p.2 := by
  obtain ⟨elements, helements, rfl⟩ := Option.map_eq_some_iff.1 h
  exact ⟨rfl, helements⟩

theorem File.mem_interfaces {f : File} {p : TypeSpec × List (Element TypeNode)} :
    p ∈ f.interfaces ↔ ∃ d ∈ f.decls, p.1 ∈ d.typeSpecs ∧ p.1.elements? = some p.2 := by
  rw [interfaces_eq_filterMap, List.mem_filterMap]
  constructor
  · rintro ⟨s, hs, hp⟩
    obtain ⟨rfl, helements⟩ := TypeSpec.eq_of_interface hp
    obtain ⟨d, hd, hs⟩ := List.mem_flatMap.1 hs
    exact ⟨d, hd, hs, helements⟩
  · rintro ⟨d, hd, hs, helements⟩
    exact ⟨p.1, List.mem_flatMap.2 ⟨d, hd, hs⟩, by simp [helements]⟩

theorem TypeSpec.Offends.isSome_elements {source : String} {known : String → Prop} {s : TypeSpec}
    {e : Located Refusal} (h : s.Offends source known e) :
    ∃ elements, s.elements? = some elements := by
  cases h with
  | generic helements _ => exact ⟨_, helements⟩
  | element helements _ _ => exact ⟨_, helements⟩

theorem File.offends_iff {resolve : Resolver} {source : String} {f : File} {e : Located Refusal} :
    f.Offends resolve source e ↔ ∃ p ∈ f.interfaces,
      p.1.Offends source (fun x => ∃ i ∈ f.imports, i.Binds resolve source x) e := by
  constructor
  · rintro ⟨d, hd, s, hs, he⟩
    obtain ⟨elements, helements⟩ := he.isSome_elements
    exact ⟨(s, elements), mem_interfaces.2 ⟨d, hd, hs, helements⟩, he⟩
  · rintro ⟨p, hp, he⟩
    obtain ⟨d, hd, hs, -⟩ := mem_interfaces.1 hp
    exact ⟨d, hd, p.1, hs, he⟩

/-- What is wrong in a declaration comes before what is wrong in those after it. -/
theorem pairwise_interface_offends {source : String} {file : File} {made : Counts}
    (hfile : File.ofSource source = .ok (file, made)) (known : String → Prop) :
    file.interfaces.Pairwise fun p q =>
      Offences.Precedes (p.1.Offends source known) (q.1.Offends source known) := by
  obtain ⟨run, hrun, hspecs⟩ := spec_ofSource hfile LexedText.file_parts
  have hpairs : (file.decls.flatMap Decl.typeSpecs).Pairwise fun s t =>
      Offences.Precedes (s.Offends source known) (t.Offends source known) := by
    refine LexedText.pairwise_precedes (T := .ofSource source) hrun hspecs ?_
    intro s hs part hpart hin e he
    exact TypeSpec.offsetIn_of_offends (reads_of_typeSpec hfile hs) hpart hin he
  rw [File.interfaces_eq_filterMap, List.pairwise_filterMap]
  refine hpairs.imp fun {s t} h p hp q hq => ?_
  obtain ⟨rfl, -⟩ := TypeSpec.eq_of_interface hp
  obtain ⟨rfl, -⟩ := TypeSpec.eq_of_interface hq
  exact h

end GoIface
