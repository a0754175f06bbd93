import GoIface.Proofs.PlacedReading

/-!
# Trees read at other places

Each reader of a part of a file makes at other places what it makes here, at these places
(`Natural.typeWithin`, `Natural.decl`, `Natural.file`).
-/

namespace GoIface.Parse.Natural

variable {α : Type} {P : Placement}

theorem stringLiteral? :
    Natural P stringLiteral? stringLiteral? (Option.map (StringLiteral.placed P)) := by
  refine look fun c _ => ?_
  rw [Cursor.next?_placed]
  split
  · exact bump.finish fun _ => rfl
  · exact bump.finish fun _ => rfl
  · exact .pure rfl

theorem resolve (es : List (ParamEntry TypeNode)) :
    Natural P (resolve es) (resolve (es.map (ParamEntry.placed P)))
      (List.map (Field.placed P (TypeNode.placed P))) := by
  have hresolve (c : Cursor) := resolveEntries_placed P es c.made
  constructor
  · intro c c' fields hc hok
    have hresolve := hresolve c
    unfold Parse.resolve at hok ⊢
    split at hok
    · next hfields =>
      cases hok
      rw [hfields] at hresolve
      simp only [Cursor.placed, hresolve]
      exact ⟨rfl, hc⟩
    · cases hok
  · intro c e hc herror
    have hresolve := hresolve c
    unfold Parse.resolve at herror ⊢
    split at herror
    · cases herror
    · next hfault =>
      cases herror
      rw [hfault] at hresolve
      simp only [Cursor.placed, hresolve]
      rfl

theorem makeType {s s' : Span} (h : s.placed P = s') (form : TypeForm TypeNode) :
    Natural P (makeType s form) (makeType s' (form.placed P (TypeNode.placed P)))
      (TypeNode.placed P) := by
  subst h
  constructor
  · rintro c _ _ hc ⟨⟩
    refine ⟨?_, hc⟩
    rw [Parse.makeType, TypeNode.placed_mk, ← Span.hull_placed]
    rfl
  · rintro c _ _ ⟨⟩

theorem makeField {s s' : Span} (h : s.placed P = s') (names : List Ident) (type : TypeNode)
    (tag : Option StringLiteral) (embedded : Bool) :
    Natural P (makeField s names type tag embedded)
      (makeField s' (names.map (Ident.placed P)) (type.placed P)
        (tag.map (StringLiteral.placed P)) embedded)
      (Field.placed P (TypeNode.placed P)) := by
  subst h
  constructor
  · rintro c _ _ hc ⟨⟩
    refine ⟨?_, hc⟩
    rw [Parse.makeField, Field.placed, ← Span.hull_placed]
    rfl
  · rintro c _ _ ⟨⟩

theorem makeSignature (params : FieldList TypeNode) (results : Results TypeNode) :
    Natural P (makeSignature params results)
      (makeSignature (params.placed P (TypeNode.placed P)) (results.placed P (TypeNode.placed P)))
      (Signature.placed P (TypeNode.placed P)) := by
  constructor
  · rintro c _ _ hc ⟨⟩
    refine ⟨?_, hc⟩
    rw [Parse.makeSignature, Signature.placed, ← Span.hull_placed]
    rfl
  · rintro c _ _ ⟨⟩

theorem makeSpecDecl (keyword : Span) (parens : Option Parens) (specs : Specs) :
    Natural P (makeSpecDecl keyword parens specs)
      (makeSpecDecl (keyword.placed P) (parens.map (Parens.placed P)) (specs.placed P))
      (Decl.placed P) := by
  constructor
  · rintro c _ _ hc ⟨⟩
    refine ⟨?_, hc⟩
    rw [Parse.makeSpecDecl, Decl.placed, ← Span.hull_placed]
    rfl
  · rintro c _ _ ⟨⟩

theorem makeFunc (keyword : Span) (receiver : Option (FieldList TypeNode)) (name : Ident)
    (typeParams : Option Span) (signature : Signature TypeNode) (body : Option Span) :
    Natural P (makeFunc keyword receiver name typeParams signature body)
      (makeFunc (keyword.placed P) (receiver.map (FieldList.placed P (TypeNode.placed P)))
        (name.placed P) (typeParams.map (Span.placed P))
        (signature.placed P (TypeNode.placed P)) (body.map (Span.placed P)))
      (Decl.placed P) := by
  constructor
  · rintro c _ _ hc ⟨⟩
    refine ⟨?_, hc⟩
    rw [Parse.makeFunc, Decl.placed, ← Span.hull_placed]
    rfl
  · rintro c _ _ ⟨⟩

/-! ## Types -/

section Types

variable {type type' : Parse TypeNode} (htype : Natural P type type' (TypeNode.placed P))

include htype

theorem paramEntry : Natural P (paramEntry type) (paramEntry type') (ParamEntry.placed P) := by
  have hrest (names : List Ident) (c : Cursor) :
      Natural P (do
          let ellipsis ← Parse.eat .ellipsis
          let type ← type
          return (⟨names, ellipsis, some type, ← Parse.spanFrom c.here⟩ : ParamEntry TypeNode))
        (do
          let ellipsis ← Parse.eat .ellipsis
          let type ← type'
          return (⟨names.map (Ident.placed P), ellipsis, some type,
            ← Parse.spanFrom (c.placed P).here⟩ : ParamEntry TypeNode))
        (ParamEntry.placed P) :=
    (eat .ellipsis).bind fun _ => htype.bind fun _ =>
      (spanFrom (c.here_placed P).symm).finish fun _ => rfl
  refine look fun c _ => ?_
  rw [Cursor.placed_rest, entryStart_placed]
  split
  · exact ident.finish fun _ => rfl
  · split
    · exact (ident.map (g := List.map (Ident.placed P)) fun _ => rfl).bind
        fun names => hrest names c
    · exact hrest [] c

theorem params :
    Natural P (params type) (params type') (FieldList.placed P (TypeNode.placed P)) := by
  refine (expect _).bind fun l => ?_
  refine (listed (paramEntry htype) fun c => ?_).bind fun es => ?_
  · rw [Cursor.isAt_placed, Cursor.atEnd_placed]
  · exact (expect _).bind fun r => (resolve es).finish fun _ => rfl

theorem results :
    Natural P (results type) (results type') (Results.placed P (TypeNode.placed P)) := by
  refine look fun c _ => ?_
  rw [Cursor.isAt_placed, Cursor.next?_placed]
  split
  · exact (params htype).map fun _ => rfl
  · split
    · exact htype.map fun _ => rfl
    · exact .pure rfl

theorem signature :
    Natural P (signature type) (signature type') (Signature.placed P (TypeNode.placed P)) :=
  (params htype).bind fun ps => (results htype).bind fun rs => makeSignature ps rs

theorem typeArgs :
    Natural P (typeArgs type) (typeArgs type') (List.map (TypeNode.placed P)) := by
  refine (eat _).bind fun s => ?_
  cases s with
  | none => exact .pure rfl
  | some s =>
    refine (listed htype fun c => c.isAt_placed P _).bind fun ts => (expect _).bind fun r => ?_
    rw [List.isEmpty_map]
    split
    · exact fail rfl
    · exact .pure rfl

theorem typeName :
    Natural P (typeName type) (typeName type') (TypeForm.placed P (TypeNode.placed P)) := by
  refine ident.bind fun x => (eat _).bind fun s => ?_
  cases s with
  | none => exact (typeArgs htype).finish fun _ => rfl
  | some s => exact ident.bind fun y => (typeArgs htype).finish fun _ => rfl

theorem arrayOrSlice :
    Natural P (arrayOrSlice type) (arrayOrSlice type')
      (TypeForm.placed P (TypeNode.placed P)) := by
  refine bump.bind fun lbrack => (eat _).bind fun s => ?_
  cases s with
  | some s => exact htype.finish fun _ => rfl
  | none =>
    refine look fun c _ => ?_
    rw [Cursor.isAt_placed]
    split
    · exact failHere
    · exact (through _ _).bind fun _ => (expect _).bind fun _ => htype.finish fun _ => rfl

theorem mapType :
    Natural P (mapType type) (mapType type') (TypeForm.placed P (TypeNode.placed P)) :=
  bump.bind fun _ => (expect _).bind fun _ => htype.bind fun _ => (expect _).bind fun _ =>
    htype.finish fun _ => rfl

theorem chanType :
    Natural P (chanType type) (chanType type') (TypeForm.placed P (TypeNode.placed P)) := by
  refine bump.bind fun _ => (eat _).bind fun s => ?_
  rw [Option.isSome_map]
  exact htype.finish fun _ => rfl

theorem receiveType :
    Natural P (receiveType type) (receiveType type') (TypeForm.placed P (TypeNode.placed P)) :=
  bump.bind fun _ => (expect _).bind fun _ => htype.finish fun _ => rfl

theorem term : Natural P (term type) (term type') (Term.placed P (TypeNode.placed P)) :=
  (eat _).bind fun _ => htype.finish fun _ => rfl

theorem element :
    Natural P (element type) (element type') (Element.placed P (TypeNode.placed P)) := by
  refine look fun c _ => ?_
  rw [Cursor.placed_rest, declaresMethod_placed]
  split
  · exact ident.bind fun x => (signature htype).finish fun _ => rfl
  · exact (separated (term htype) _).map fun _ => rfl

theorem interfaceType :
    Natural P (interfaceType type) (interfaceType type')
      (TypeForm.placed P (TypeNode.placed P)) :=
  bump.bind fun _ => (expect _).bind fun _ => (block (element htype) _).finish fun _ => rfl

theorem structField :
    Natural P (structField type) (structField type') (Field.placed P (TypeNode.placed P)) := by
  have hrest (names : List Ident) (embedded : Bool) (c : Cursor) :
      Natural P (do
          let type ← type
          let tag ← Parse.stringLiteral?
          Parse.makeField c.here names type tag embedded)
        (do
          let type ← type'
          let tag ← Parse.stringLiteral?
          Parse.makeField (c.placed P).here (names.map (Ident.placed P)) type tag embedded)
        (Field.placed P (TypeNode.placed P)) :=
    htype.bind fun t => stringLiteral?.bind fun tag =>
      makeField (c.here_placed P).symm names t tag embedded
  refine look fun c _ => ?_
  rw [Cursor.placed_rest, embeds?_placed]
  split
  · exact expected
  · next embedded _ =>
    split
    · exact hrest [] embedded c
    · exact (separated ident _).bind fun names => hrest names embedded c

theorem structType :
    Natural P (structType type) (structType type') (TypeForm.placed P (TypeNode.placed P)) :=
  bump.bind fun _ => (expect _).bind fun _ => (block (structField htype) _).finish fun _ => rfl

theorem parenType :
    Natural P (parenType type) (parenType type') (TypeForm.placed P (TypeNode.placed P)) :=
  bump.bind fun _ => htype.bind fun _ => (expect _).finish fun _ => rfl

theorem typeForm :
    Natural P (typeForm type) (typeForm type') (TypeForm.placed P (TypeNode.placed P)) := by
  refine look fun c _ => ?_
  rw [Cursor.next?_placed]
  split
  · exact typeName htype
  · exact bump.bind fun _ => htype.finish fun _ => rfl
  · exact arrayOrSlice htype
  · exact mapType htype
  · exact chanType htype
  · exact receiveType htype
  · exact bump.bind fun _ => (signature htype).finish fun _ => rfl
  · exact interfaceType htype
  · exact structType htype
  · exact parenType htype
  · exact expected

end Types

theorem typeWithin : ∀ room : Nat,
    Natural P (typeWithin room) (typeWithin room) (TypeNode.placed P)
  | 0 => failHere
  | room + 1 =>
    look fun c _ => (typeForm (typeWithin room)).bind (makeType (c.here_placed P).symm)

theorem type : Natural P type type (TypeNode.placed P) := typeWithin nestingLimit

/-! ## Declarations -/

theorem importName? :
    Natural P importName? importName? (Option.map (ImportName.placed P)) := by
  refine look fun c _ => ?_
  rw [Cursor.next?_placed]
  split
  · exact bump.finish fun _ => rfl
  · exact bump.finish fun _ => rfl
  · exact ident.finish fun _ => rfl
  · exact .pure rfl

theorem importSpec : Natural P importSpec importSpec (ImportSpec.placed P) := by
  refine importName?.bind fun name => stringLiteral?.bind fun path => ?_
  cases path with
  | none => exact expected
  | some path => exact .pure rfl

theorem group {β : Type} {spec : Parse α} {spec' : Parse β} {f : α → β}
    (hspec : Natural P spec spec' f) : Natural P (group spec) (group spec')
      (Prod.map (List.map f) (Option.map (Parens.placed P))) := by
  refine (eat _).bind fun left => ?_
  cases left with
  | none => exact hspec.finish fun _ => rfl
  | some left => exact (block hspec _).finish fun _ => rfl

theorem importDecl : Natural P importDecl importDecl (List.map (ImportSpec.placed P)) :=
  bump.bind fun _ => (group importSpec).finish fun _ => rfl

theorem typeSpec : Natural P typeSpec typeSpec (TypeSpec.placed P) := by
  refine ident.bind fun name => look fun c _ => ?_
  rw [Cursor.placed_rest, holdsTypeParams_placed]
  exact optional bracketed fun params => (eat _).bind fun assign => type.finish fun _ => rfl

theorem valueSpec : Natural P valueSpec valueSpec (ValueSpec.placed P) := by
  refine (separated ident _).bind fun names => look fun c _ => ?_
  rw [Cursor.next?_placed]
  refine optional type fun type => (eat _).bind fun assign => ?_
  cases assign with
  | none => exact .pure rfl
  | some s => exact (through _ _).finish fun _ => rfl

theorem specDecl {spec : Parse α} {f : α → α} {specs : List α → Specs}
    (hspec : Natural P spec spec f) (hspecs : ∀ xs, (specs xs).placed P = specs (xs.map f)) :
    Natural P (specDecl spec specs) (specDecl spec specs) (Decl.placed P) := by
  refine bump.bind fun keyword => (group hspec).bind fun p => ?_
  have hmake := makeSpecDecl (P := P) keyword p.2 (specs p.1)
  rwa [hspecs] at hmake

theorem funcDecl : Natural P funcDecl funcDecl (Decl.placed P) := by
  refine bump.bind fun keyword => look fun c _ => ?_
  rw [Cursor.isAt_placed]
  refine optional (params type) fun receiver => ident.bind fun name => look fun c _ => ?_
  rw [Cursor.isAt_placed, Option.isNone_map]
  refine optional bracketed fun typeParams => (signature type).bind fun s => look fun c _ => ?_
  rw [Cursor.isAt_placed]
  exact optional bracketed fun body => makeFunc keyword receiver name typeParams s body

theorem decl : Natural P decl decl (Decl.placed P) := by
  refine look fun c _ => ?_
  rw [Cursor.next?_placed]
  split
  · exact specDecl valueSpec fun _ => rfl
  · exact specDecl typeSpec fun _ => rfl
  · exact specDecl valueSpec fun _ => rfl
  · exact funcDecl
  · exact failHere
  · exact expected

theorem declEnd : Natural P declEnd declEnd id := by
  refine look fun c _ => (eat _).bind fun s => ?_
  rw [Cursor.atEnd_placed, Option.isSome_map]
  split
  · exact .pure rfl
  · exact expected

theorem declsWhile {β : Type} {more : Cursor → Bool} (hmore : ∀ c, more (c.placed P) = more c)
    {item : Parse α} {item' : Parse β} {f : α → β} (hitem : Natural P item item' f) :
    ∀ n : Nat, Natural P (declsWhile more item n) (declsWhile more item' n) (List.map f)
  | 0 => .pure rfl
  | n + 1 => by
    refine look fun c _ => ?_
    rw [hmore]
    split
    · exact hitem.bind fun x => declEnd.bind fun _ => (declsWhile hmore hitem n).finish fun _ => rfl
    · exact .pure rfl

theorem file : Natural P file file (File.placed P) := by
  have himports (c : Cursor) : ((c.placed P).next? == some (.keyword .importKw))
      = (c.next? == some (.keyword .importKw)) := by
    rw [Cursor.next?_placed]
  have hdecls (c : Cursor) : (!(c.placed P).atEnd) = !c.atEnd := by
    rw [Cursor.atEnd_placed]
  refine (expect _).bind fun package => ident.bind fun name => (eat _).bind fun semi => ?_
  rw [Option.isNone_map]
  split
  · exact expected_bind (f := id)
  · refine look fun c _ => ?_
    rw [Cursor.length_placed]
    refine (declsWhile himports importDecl _).bind fun imports => look fun c _ => ?_
    rw [Cursor.length_placed]
    refine (declsWhile hdecls decl _).finish fun decls => ?_
    rw [File.placed, List.map_flatten]

end GoIface.Parse.Natural
