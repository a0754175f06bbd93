import GoIface.Proofs.ParamContents

/-!
# What types hold

Every reader of a part of a type, given one for the types inside it, makes something whose content
is that of its parts in order. A type makes one more node of its form (`LexedText.typeWithin`), and
so do fields and signatures.
-/

namespace GoIface

open GoIface.Parse

namespace LexedText

variable {T : LexedText} {c : Cursor} {type : Parse TypeNode}

@[simp] theorem places_fieldsContent (xs : List (Field TypeNode)) :
    (fieldsContent xs).places = (xs.map (·.map TypeNode.places)).flatMap Field.places := by
  rw [fieldsContent, Content.places_concat, List.flatMap_map]
  rfl

@[simp] theorem outlines_fieldsContent (xs : List (Field TypeNode)) :
    (fieldsContent xs).outlines = (xs.map (·.map TypeNode.outline)).map Field.outline := by
  rw [fieldsContent, Content.outlines_concat, List.map_map, List.map_eq_flatMap]
  rfl

@[simp] theorem types_fieldsContent (xs : List (Field TypeNode)) :
    (fieldsContent xs).types = xs.map (·.type) := by
  rw [fieldsContent, Content.types_concat, List.map_eq_flatMap]
  rfl

/-- The content of a node is put together of the contents of its parts. -/
theorem Content.sub_iff {y z : Content} : z.Sub y ↔
    (∀ s ∈ z.places, s ∈ y.places) ∧ z.outlines = y.outlines ∧ z.types = y.types :=
  .rfl

attribute [local simp] Content.sub_iff Content.ofPlaces TypeForm.content TypeForm.map
  TypeForm.places TypeForm.outlines TypeForm.children FieldList.content FieldList.map
  FieldList.places FieldList.outlines FieldList.children Field.content Field.map Field.places

/-! ## Signatures -/

theorem resolve {a : Counts} {run : List Lexeme} {entries : List (ParamEntry TypeNode)}
    (h : Series T.ReadsEntry a run c.made entries) (hrun : run <:+: T.lexemes) :
    T.Spec (resolve entries) c fun _ b fields => T.Holds run a b (fieldsContent fields) := by
  rcases resolveEntries_spec h hrun with ⟨e, hresolve, hblames⟩ | ⟨fields, made, hresolve, hholds⟩
  · intro _
    have herror : Parse.resolve entries c = .error e := by rw [Parse.resolve, hresolve]
    rw [herror]
    exact hblames
  · exact .make (by rw [Parse.resolve, hresolve]) hholds

theorem here_of_bump {s : Span} {c' : Cursor} (hok : bump c = .ok (s, c')) : s = c.here := by
  unfold bump at hok
  split at hok
  · cases hok
    rfl
  · next hrest =>
    cases hok
    simp [Cursor.here, hrest]

theorem here_of_expect {t : Token} {s : Span} {c' : Cursor}
    (hok : expect t c = .ok (s, c')) : s = c.here := by
  obtain ⟨_, _, ⟨⟩, hok⟩ := ok_of_bind hok
  split at hok
  · exact here_of_bump hok
  · simp [expected] at hok

section Types

variable (htype : ∀ c, T.Spec type c (T.ReadsType c.made))

include htype

theorem readsContent (c : Cursor) : T.Yields type c TypeNode.content :=
  (htype c).mono fun _ _ _ _ h => h.2

theorem params : T.Yields (params type) c FieldList.content := by
  refine (Spec.expect _).bind fun lparen c₁ run₁ hmoves₁ h₁ => ?_
  obtain ⟨hb₁, -, l, rfl, -, rfl⟩ := h₁
  refine (Spec.listed (paramEntry htype) _ c₁).bind fun entries c₂ run₂ hmoves₂ h₂ => ?_
  refine (Spec.expect _).bind fun rparen c₃ run₃ hmoves₃ h₃ => ?_
  obtain ⟨hb₃, -, r, rfl, -, rfl⟩ := h₃
  rw [← hb₃] at h₂
  refine Spec.finish ((resolve h₂ hmoves₂.isInfix).mono fun run b fields _ h => ?_)
  have hl : T.Holds [l] c.made c₁.made (.ofPlaces [l.span]) :=
    .places hb₁ (by simpa using (Span.Covers.singleton l).inside)
  have hr : T.Holds ([r] ++ run) b b (.ofPlaces [r.span]) :=
    .places rfl (by
      simpa using (Span.Covers.singleton r).inside.mono (List.prefix_append _ _).isInfix)
  exact (hl.append (h.append hr)).sub (by simp)

theorem results : T.Yields (results type) c Results.content := by
  refine .look ?_
  split
  · exact .map (params htype)
  · split
    · exact .map (readsContent htype c)
    · exact .pure rfl

omit htype in
theorem lparen_of_params {ps : FieldList TypeNode} {c' : Cursor}
    (hok : Parse.params type c = .ok (ps, c')) : ps.lparen = c.here := by
  obtain ⟨lparen, c₁, hlparen, hrest⟩ := ok_of_bind hok
  obtain ⟨entries, c₂, -, hrest⟩ := ok_of_bind hrest
  obtain ⟨rparen, c₃, -, hrest⟩ := ok_of_bind hrest
  obtain ⟨fields, c₄, -, hrest⟩ := ok_of_bind hrest
  cases hrest
  exact here_of_expect hlparen

theorem signature : T.Yields (signature type) c Signature.content := by
  refine (params htype).bind fun ps c₁ hps => .bind (results htype) fun rs c₂ _ => ?_
  refine .make (b := { c₂.made with signatures := c₂.made.signatures + 1 }) rfl
    fun run hmoves hy => ?_
  have hcovers := hmoves.covers (hy.ne_nil (s := ps.lparen) (by simp))
  rw [← lparen_of_params hps] at hcovers
  exact hy.node (.signature c₂.made.signatures _) rfl hcovers rfl
    (fun k => by cases k <;> rfl) (by simp [Event.kind])

/-! ## Forms of types -/

def typesContent (ts : List TypeNode) : Content := .concat (ts.map TypeNode.content)

omit htype in
@[simp] theorem places_typesContent (ts : List TypeNode) :
    (typesContent ts).places = (ts.map TypeNode.places).flatten := by
  rw [typesContent, Content.places_concat, ← List.flatMap_def]
  rfl

omit htype in
@[simp] theorem outlines_typesContent (ts : List TypeNode) :
    (typesContent ts).outlines = ts.map TypeNode.outline := by
  rw [typesContent, Content.outlines_concat, List.map_eq_flatMap]
  rfl

omit htype in
@[simp] theorem types_typesContent (ts : List TypeNode) : (typesContent ts).types = ts := by
  rw [typesContent, Content.types_concat]
  exact List.flatMap_singleton' ts

theorem typeArgs : T.Yields (typeArgs type) c typesContent := by
  refine (Yields.eat .lbrack).bind fun s c₁ _ => ?_
  cases s with
  | none => exact .pure (by simp)
  | some s =>
    refine .bind (f := typesContent) (Yields.listed (readsContent htype) _) fun args c₂ _ => ?_
    refine .bind (Yields.expect _) fun rbrack c₃ _ => ?_
    split
    · exact .fail (by simp)
    · exact .pure (by simp +contextual)

theorem typeName : T.Yields (typeName type) c TypeForm.content := by
  refine Yields.ident.bind fun first c₁ _ => .bind (Yields.eat .dot) fun s c₂ _ => ?_
  cases s with
  | none => exact (typeArgs htype).goesOn fun args => by simp
  | some s =>
    refine .bind Yields.ident fun name c₃ _ => (typeArgs htype).goesOn fun args => ?_
    simp +contextual

theorem arrayOrSlice {t : Token} (h : c.next? = some t) :
    T.Yields (arrayOrSlice type) c TypeForm.content := by
  refine (Yields.bump h).bind fun lbrack c₁ _ => .bind (Yields.eat .rbrack) fun s c₂ _ => ?_
  cases s with
  | some s => exact (readsContent htype _).goesOn fun t => by simp +contextual [TypeNode.content]
  | none =>
    refine .look ?_
    split
    · exact .failHere
    · refine .bind Yields.through fun length c₃ _ => .bind (Yields.expect _) fun _ c₄ _ => ?_
      exact (readsContent htype _).goesOn fun t => by simp +contextual [TypeNode.content]

theorem mapType {t : Token} (h : c.next? = some t) :
    T.Yields (mapType type) c TypeForm.content := by
  refine (Yields.bump h).bind fun keyword c₁ _ => .bind (Yields.expect _) fun _ c₂ _ => ?_
  refine .bind (readsContent htype _) fun key c₃ _ => .bind (Yields.expect _) fun _ c₄ _ => ?_
  exact (readsContent htype _).goesOn fun value => by
    simp +contextual [TypeNode.content, or_imp]

theorem chanType {t : Token} (h : c.next? = some t) :
    T.Yields (chanType type) c TypeForm.content := by
  refine (Yields.bump h).bind fun keyword c₁ _ => .bind (Yields.eat .arrow) fun _ c₂ _ => ?_
  exact (readsContent htype _).goesOn fun elem => by simp +contextual [TypeNode.content]

theorem receiveType {t : Token} (h : c.next? = some t) :
    T.Yields (receiveType type) c TypeForm.content := by
  refine (Yields.bump h).bind fun _ c₁ _ => .bind (Yields.expect _) fun keyword c₂ _ => ?_
  exact (readsContent htype _).goesOn fun elem => by simp +contextual [TypeNode.content]

theorem term : T.Yields (term type) c Term.content :=
  (Yields.eat .tilde).bind fun _ _ _ => (readsContent htype _).goesOn fun t => by
    simp [Term.content, Term.map, Term.places, TypeNode.content]

omit htype in
theorem concat_terms (ts : List (Term TypeNode)) :
    Content.concat (ts.map Term.content) = (Element.union ts).content := by
  have houtlines := List.map_eq_flatMap (f := fun t : Term TypeNode => t.type.outline) (l := ts)
  have htypes := List.map_eq_flatMap (f := fun t : Term TypeNode => t.type) (l := ts)
  apply Content.ext
  · simp [Content.places_concat, Element.content, Element.map, Element.places, List.flatMap_map,
      Term.content]
  · simp [Content.outlines_concat, Element.content, Element.map, Element.outlines, Term.map,
      Term.content, houtlines, Function.comp_def]
  · simp [Content.types_concat, Element.content, Element.children, Term.content, htypes]

theorem element : T.Yields (element type) c Element.content := by
  refine .look ?_
  split
  · refine Yields.ident.bind fun name c₁ _ => (signature htype).goesOn fun s => ?_
    simp [Element.content, Element.map, Element.places, Element.outlines, Element.children,
      Signature.content]
  · refine .map ((Yields.separated (fun c => term htype) .pipe).mono fun terms => ?_)
    rw [concat_terms]
    exact ⟨List.Subset.refl _, rfl, rfl⟩

omit htype in
theorem concat_elements (es : List (Element TypeNode)) (p : Span) :
    .ofPlaces [p] ++ Content.concat (es.map Element.content)
      = (TypeForm.interface p es).content := by
  apply Content.ext <;>
  simp [Content.places_concat, Content.outlines_concat, Content.types_concat, Element.content,
    List.flatMap_map]

theorem interfaceType {t : Token} (h : c.next? = some t) :
    T.Yields (interfaceType type) c TypeForm.content := by
  refine (Yields.bump h).bind fun keyword c₁ _ => .bind (Yields.expect _) fun _ c₂ _ => ?_
  refine (Yields.block (fun c => element htype) .rbrace).goesOn fun p => ?_
  rw [← concat_elements]
  simp +contextual

omit htype in
theorem names (c : Cursor) :
    T.Yields (Parse.separated .comma Parse.ident) c fun xs => .ofPlaces (xs.map Ident.span) := by
  refine (Yields.separated (fun c => Yields.ident) .comma).mono fun xs => ?_
  simp [Content.places_concat, Content.outlines_concat, Content.types_concat, ← List.map_eq_flatMap]

theorem structField : T.Yields (structField type) c Field.content := by
  have hrest (names : Parse (List Ident)) (embedded : Bool)
      (hnames : T.Yields names c fun xs => .ofPlaces (xs.map Ident.span)) :
      T.Yields (do
        let names ← names
        let type ← type
        let tag ← stringLiteral?
        makeField c.here names type tag embedded) c Field.content := by
    refine hnames.bind fun names c₁ _ => .bind (readsContent htype _) fun t c₂ _ => ?_
    refine .bind Yields.stringLiteral? fun tag c₃ _ => ?_
    refine .make (b := { c₃.made with fields := c₃.made.fields + 1 }) rfl fun run hmoves hy => ?_
    have hcovers := hmoves.covers (hy.ne_nil (s := t.span)
      (by simp [TypeNode.content, t.span_mem_places]))
    refine (hy.node (.field c₃.made.fields _) rfl hcovers rfl
      (fun k => by cases k <;> rfl) (by simp [Event.kind])).sub ?_
    simp [TypeNode.content, Field.outline]
  refine .look ?_
  split
  · exact Spec.expected
  · next embedded _ =>
    split
    · exact hrest _ embedded (.pure rfl)
    · exact hrest _ embedded (names c)

theorem structType {t : Token} (h : c.next? = some t) :
    T.Yields (structType type) c TypeForm.content := by
  refine (Yields.bump h).bind fun keyword c₁ _ => .bind (Yields.expect _) fun _ c₂ _ => ?_
  refine (Yields.block (fun c => structField htype) .rbrace).goesOn fun p => ?_
  rw [← fieldsContent]
  simp +contextual

theorem parenType {t : Token} (h : c.next? = some t) :
    T.Yields (parenType type) c TypeForm.content := by
  refine (Yields.bump h).bind fun lparen c₁ _ => .bind (readsContent htype _) fun inner c₂ _ => ?_
  exact (Yields.expect _).goesOn fun _ => by simp +contextual [TypeNode.content]

theorem typeForm : T.Yields (typeForm type) c TypeForm.content := by
  refine .look ?_
  split
  · exact typeName htype
  · next h =>
    refine (Yields.bump h).bind fun star c₁ _ => (readsContent htype _).goesOn fun elem => ?_
    simp [TypeNode.content]
  · next h => exact arrayOrSlice htype h
  · next h => exact mapType htype h
  · next h => exact chanType htype h
  · next h => exact receiveType htype h
  · next h =>
    refine (Yields.bump h).bind fun keyword c₁ _ => (signature htype).goesOn fun s => ?_
    simp [Signature.content]
  · next h => exact interfaceType htype h
  · next h => exact structType htype h
  · next h => exact parenType htype h
  · exact Spec.expected

end Types

/-- A type has the content of its form, covers the run and makes one node more. -/
theorem typeWithin : ∀ {room : Nat}, room ≤ nestingLimit → ∀ c : Cursor,
    T.Spec (typeWithin room) c (T.ReadsType c.made)
  | 0, _, _ => .failHere
  | room + 1, hroom, c => by
    refine Spec.of_at fun hc => Spec.look ?_
    refine Spec.bind_ok (typeForm (typeWithin (by omega))) fun form c₁ run hok hmoves h => ?_
    have hread : Parse.typeWithin (room + 1) c = Parse.makeType c.here form c₁ := bind_of_ok hok
    have hne : run ≠ [] := by
      rintro rfl
      obtain ⟨ls, hls, ⟨⟨t, us, hts, -⟩, -⟩, -⟩ :=
        Consumes.typeForm (Consumes.typeWithin room) form c₁ hok
      rw [hmoves.rest, List.nil_append] at hls
      simp [List.self_eq_append_left.1 hls] at hts
    have hcovers := hmoves.covers hne
    refine .make (b := { c₁.made with types := c₁.made.types + 1 }) rfl ?_
    rw [List.append_nil]
    exact ⟨hcovers, h.type hcovers (.inl ⟨room + 1, c, _, hroom, hc, hread⟩)⟩

theorem readsType (c : Cursor) : T.Spec Parse.type c (T.ReadsType c.made) :=
  typeWithin (Nat.le_refl _) c

end LexedText

end GoIface
