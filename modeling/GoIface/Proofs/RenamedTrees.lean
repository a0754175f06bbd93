import GoIface.Proofs.RenamedReading

/-!
# Trees read under other names

Each reader of a part of a file makes under other names what it makes here, with these names in it
(`Renames.typeWithin`, `Renames.decl`, `Renames.file`).
-/

namespace GoIface.Parse.Renames

variable {α : Type} {ρ : Renaming}

theorem stringLiteral? : Renames ρ stringLiteral? stringLiteral? id := by
  refine look fun c => ?_
  rcases c.next?_renamed ρ with ⟨x, y, hx, hy, -⟩ | ⟨-, hnext⟩
  · rw [hx, hy]
    exact .pure rfl
  · rw [hnext]
    split
    · exact bump.finish fun _ => rfl
    · exact bump.finish fun _ => rfl
    · exact .pure rfl

theorem resolve (es : List (ParamEntry TypeNode)) :
    Renames ρ (resolve es) (resolve (es.map (ParamEntry.renamed ρ)))
      (List.map (Field.renamed ρ (TypeNode.renamed ρ))) := by
  intro c c' fields hok
  have hresolve := resolveEntries_renamed ρ es c.made
  unfold Parse.resolve at hok ⊢
  split at hok
  · next hfields =>
    cases hok
    rw [hfields] at hresolve
    simp only [Cursor.renamed, hresolve]
    rfl
  · cases hok

theorem makeType (s : Span) (form : TypeForm TypeNode) :
    Renames ρ (makeType s form) (makeType s (form.renamed ρ (TypeNode.renamed ρ)))
      (TypeNode.renamed ρ) := by
  rintro c _ _ ⟨⟩
  rw [Parse.makeType, TypeNode.renamed_mk]
  rfl

theorem makeField (s : Span) (names : List Ident) (type : TypeNode) (tag : Option StringLiteral)
    (embedded : Bool) :
    Renames ρ (makeField s names type tag embedded)
      (makeField s (names.map (Ident.renamed ρ)) (type.renamed ρ) tag embedded)
      (Field.renamed ρ (TypeNode.renamed ρ)) := by
  rintro c _ _ ⟨⟩
  rfl

theorem makeSignature (params : FieldList TypeNode) (results : Results TypeNode) :
    Renames ρ (makeSignature params results)
      (makeSignature (params.renamed ρ (TypeNode.renamed ρ))
        (results.renamed ρ (TypeNode.renamed ρ)))
      (Signature.renamed ρ (TypeNode.renamed ρ)) := by
  rintro c _ _ ⟨⟩
  rfl

theorem makeSpecDecl (keyword : Span) (parens : Option Parens) (specs : Specs) :
    Renames ρ (makeSpecDecl keyword parens specs)
      (makeSpecDecl keyword parens (specs.renamed ρ)) (Decl.renamed ρ) := by
  rintro c _ _ ⟨⟩
  rfl

theorem makeFunc (keyword : Span) (receiver : Option (FieldList TypeNode)) (name : Ident)
    (typeParams : Option Span) (signature : Signature TypeNode) (body : Option Span) :
    Renames ρ (makeFunc keyword receiver name typeParams signature body)
      (makeFunc keyword (receiver.map (FieldList.renamed ρ (TypeNode.renamed ρ)))
        (name.renamed ρ) typeParams (signature.renamed ρ (TypeNode.renamed ρ)) body)
      (Decl.renamed ρ) := by
  rintro c _ _ ⟨⟩
  rfl

/-! ## Types -/

section Types

variable {type type' : Parse TypeNode} (htype : Renames ρ type type' (TypeNode.renamed ρ))

include htype

theorem paramEntry : Renames ρ (paramEntry type) (paramEntry type') (ParamEntry.renamed ρ) := by
  have hrest (names : List Ident) (c : Cursor) :
      Renames ρ (do
          let ellipsis ← Parse.eat .ellipsis
          let type ← type
          return (⟨names, ellipsis, some type, ← Parse.spanFrom c.here⟩ : ParamEntry TypeNode))
        (do
          let ellipsis ← Parse.eat .ellipsis
          let type ← type'
          return (⟨names.map (Ident.renamed ρ), ellipsis, some type,
            ← Parse.spanFrom c.here⟩ : ParamEntry TypeNode))
        (ParamEntry.renamed ρ) :=
    (eat .ellipsis).bind fun _ => htype.bind fun _ => (spanFrom c.here).finish fun _ => rfl
  refine look fun c => ?_
  rw [Cursor.renamed_rest, entryStart_renamed, Cursor.here_renamed]
  split
  · exact ident.finish fun _ => rfl
  · split
    · exact (ident.map (g := List.map (Ident.renamed ρ)) fun _ => rfl).bind
        fun names => hrest names c
    · exact hrest [] c

theorem params :
    Renames ρ (params type) (params type') (FieldList.renamed ρ (TypeNode.renamed ρ)) := by
  refine (expect (by simp)).bind fun l => ?_
  refine (listed (paramEntry htype) fun c => ?_).bind fun es => ?_
  · rw [Cursor.isAt_renamed, Cursor.atEnd_renamed]
  · exact (expect (by simp)).bind fun r => (resolve es).finish fun _ => rfl

theorem results :
    Renames ρ (results type) (results type') (Results.renamed ρ (TypeNode.renamed ρ)) := by
  refine look fun c => ?_
  have hstarts := c.next?_renamed_congr ρ (g := (·.any Token.startsType)) fun _ _ => rfl
  rw [Cursor.isAt_renamed, hstarts]
  split
  · exact (params htype).map fun _ => rfl
  · split
    · exact htype.map fun _ => rfl
    · exact .pure rfl

theorem signature :
    Renames ρ (signature type) (signature type') (Signature.renamed ρ (TypeNode.renamed ρ)) :=
  (params htype).bind fun ps => (results htype).bind fun rs => makeSignature ps rs

theorem typeArgs : Renames ρ (typeArgs type) (typeArgs type') (List.map (TypeNode.renamed ρ)) := by
  refine (eat _).bind fun s => ?_
  cases s with
  | none => exact .pure rfl
  | some s =>
    refine (listed htype fun c => c.isAt_renamed ρ _).bind fun ts => ?_
    refine (expect (by simp)).bind fun r => ?_
    rw [List.isEmpty_map]
    split
    · exact fail
    · exact .pure rfl

theorem typeName :
    Renames ρ (typeName type) (typeName type') (TypeForm.renamed ρ (TypeNode.renamed ρ)) := by
  refine ident.bind fun x => (eat _).bind fun s => ?_
  cases s with
  | none => exact (typeArgs htype).finish fun _ => rfl
  | some s => exact ident.bind fun y => (typeArgs htype).finish fun _ => rfl

theorem arrayOrSlice :
    Renames ρ (arrayOrSlice type) (arrayOrSlice type')
      (TypeForm.renamed ρ (TypeNode.renamed ρ)) := by
  refine bump.bind fun lbrack => (eat _).bind fun s => ?_
  cases s with
  | some s => exact htype.finish fun _ => rfl
  | none =>
    refine look fun c => ?_
    rw [Cursor.isAt_renamed]
    split
    · exact failHere
    · exact (through _ fun _ _ => rfl).bind fun _ => (expect (by simp)).bind fun _ =>
        htype.finish fun _ => rfl

theorem mapType :
    Renames ρ (mapType type) (mapType type') (TypeForm.renamed ρ (TypeNode.renamed ρ)) :=
  bump.bind fun _ => (expect (by simp)).bind fun _ => htype.bind fun _ =>
    (expect (by simp)).bind fun _ => htype.finish fun _ => rfl

theorem chanType :
    Renames ρ (chanType type) (chanType type') (TypeForm.renamed ρ (TypeNode.renamed ρ)) :=
  bump.bind fun _ => (eat _).bind fun _ => htype.finish fun _ => rfl

theorem receiveType :
    Renames ρ (receiveType type) (receiveType type')
      (TypeForm.renamed ρ (TypeNode.renamed ρ)) :=
  bump.bind fun _ => (expect (by simp)).bind fun _ => htype.finish fun _ => rfl

theorem term : Renames ρ (term type) (term type') (Term.map (TypeNode.renamed ρ)) :=
  (eat _).bind fun _ => htype.finish fun _ => rfl

theorem element :
    Renames ρ (element type) (element type') (Element.renamed ρ (TypeNode.renamed ρ)) := by
  refine look fun c => ?_
  rw [Cursor.renamed_rest, declaresMethod_renamed]
  split
  · exact ident.bind fun x => (signature htype).finish fun _ => rfl
  · exact (separated (term htype) _).map fun _ => rfl

theorem interfaceType :
    Renames ρ (interfaceType type) (interfaceType type')
      (TypeForm.renamed ρ (TypeNode.renamed ρ)) :=
  bump.bind fun _ => (expect (by simp)).bind fun _ =>
    (block (element htype) _).finish fun _ => rfl

theorem structField :
    Renames ρ (structField type) (structField type') (Field.renamed ρ (TypeNode.renamed ρ)) := by
  have hrest (names : List Ident) (embedded : Bool) (c : Cursor) :
      Renames ρ (do
          let type ← type
          let tag ← Parse.stringLiteral?
          Parse.makeField c.here names type tag embedded)
        (do
          let type ← type'
          let tag ← Parse.stringLiteral?
          Parse.makeField c.here (names.map (Ident.renamed ρ)) type tag embedded)
        (Field.renamed ρ (TypeNode.renamed ρ)) :=
    htype.bind fun t => stringLiteral?.bind fun tag => makeField c.here names t tag embedded
  refine look fun c => ?_
  rw [Cursor.renamed_rest, embeds?_renamed, Cursor.here_renamed]
  split
  · exact expected
  · next embedded _ =>
    split
    · exact hrest [] embedded c
    · exact (separated ident _).bind fun names => hrest names embedded c

theorem structType :
    Renames ρ (structType type) (structType type')
      (TypeForm.renamed ρ (TypeNode.renamed ρ)) :=
  bump.bind fun _ => (expect (by simp)).bind fun _ =>
    (block (structField htype) _).finish fun _ => rfl

theorem parenType :
    Renames ρ (parenType type) (parenType type') (TypeForm.renamed ρ (TypeNode.renamed ρ)) :=
  bump.bind fun _ => htype.bind fun _ => (expect (by simp)).finish fun _ => rfl

theorem typeForm :
    Renames ρ (typeForm type) (typeForm type') (TypeForm.renamed ρ (TypeNode.renamed ρ)) := by
  refine look fun c => ?_
  rcases c.next?_renamed ρ with ⟨x, y, hx, hy, -⟩ | ⟨hne, hnext⟩
  · rw [hx, hy]
    exact typeName htype
  · rw [hnext]
    split
    · next h => exact absurd h (hne _)
    · exact bump.bind fun _ => htype.finish fun _ => rfl
    · exact arrayOrSlice htype
    · exact mapType htype
    · exact chanType htype
    · exact receiveType htype
    · exact bump.bind fun _ => (signature htype).finish fun _ => rfl
    · exact interfaceType htype
    · exact structType htype
    · exact parenType htype
    · exact expected

end Types

theorem typeWithin : ∀ room : Nat,
    Renames ρ (typeWithin room) (typeWithin room) (TypeNode.renamed ρ)
  | 0 => failHere
  | room + 1 => by
    refine look fun c => ?_
    rw [Cursor.here_renamed]
    exact (typeForm (typeWithin room)).bind (makeType c.here)

theorem type : Renames ρ type type (TypeNode.renamed ρ) := typeWithin nestingLimit

/-! ## Declarations -/

theorem importName? :
    Renames ρ importName? importName? (Option.map (ImportName.renamed ρ)) := by
  refine look fun c => ?_
  rcases c.next?_renamed ρ with ⟨x, y, hx, hy, hblank⟩ | ⟨hne, hnext⟩
  · rw [hx, hy]
    by_cases h : x = "_"
    · obtain rfl := h
      obtain rfl := hblank.2 rfl
      exact bump.finish fun _ => rfl
    · have h' : y ≠ "_" := fun hy => h (hblank.1 hy)
      split
      · next heq => cases heq
      · next heq => exact absurd (Token.ident.inj (Option.some.inj heq)) h
      · exact ident.finish fun _ => rfl
      · next hne => exact absurd rfl (hne x)
  · rw [hnext]
    split
    · exact bump.finish fun _ => rfl
    · next h => exact absurd h (hne _)
    · next h => exact absurd h (hne _)
    · exact .pure rfl

theorem importSpec : Renames ρ importSpec importSpec (ImportSpec.renamed ρ) := by
  refine importName?.bind fun name => stringLiteral?.bind fun path => ?_
  cases path with
  | none => exact expected
  | some path => exact .pure rfl

theorem group {β : Type} {spec : Parse α} {spec' : Parse β} {f : α → β}
    (hspec : Renames ρ spec spec' f) :
    Renames ρ (group spec) (group spec') (Prod.map (List.map f) id) := by
  refine (eat _).bind fun left => ?_
  cases left with
  | none => exact hspec.finish fun _ => rfl
  | some left => exact (block hspec _).finish fun _ => rfl

theorem importDecl : Renames ρ importDecl importDecl (List.map (ImportSpec.renamed ρ)) :=
  bump.bind fun _ => (group importSpec).finish fun _ => rfl

theorem typeSpec : Renames ρ typeSpec typeSpec (TypeSpec.renamed ρ) := by
  refine ident.bind fun name => look fun c => ?_
  rw [Cursor.renamed_rest, holdsTypeParams_renamed]
  exact optional bracketed fun params => (eat _).bind fun assign => type.finish fun _ => by
    rw [Option.map_id]
    rfl

theorem valueSpec : Renames ρ valueSpec valueSpec (ValueSpec.renamed ρ) := by
  refine (separated ident _).bind fun names => look fun c => ?_
  have hstarts := c.next?_renamed_congr ρ (g := (·.any Token.startsType)) fun _ _ => rfl
  rw [hstarts]
  refine optional type fun type => (eat _).bind fun assign => ?_
  cases assign with
  | none => exact .pure rfl
  | some s => exact (through _ fun _ _ => rfl).finish fun _ => rfl

theorem specDecl {spec : Parse α} {f : α → α} {specs : List α → Specs}
    (hspec : Renames ρ spec spec f) (hspecs : ∀ xs, (specs xs).renamed ρ = specs (xs.map f)) :
    Renames ρ (specDecl spec specs) (specDecl spec specs) (Decl.renamed ρ) := by
  refine bump.bind fun keyword => (group hspec).bind fun p => ?_
  have hmake := makeSpecDecl (ρ := ρ) keyword p.2 (specs p.1)
  rwa [hspecs] at hmake

theorem funcDecl : Renames ρ funcDecl funcDecl (Decl.renamed ρ) := by
  refine bump.bind fun keyword => look fun c => ?_
  rw [Cursor.isAt_renamed]
  refine optional (params type) fun receiver => ident.bind fun name => look fun c => ?_
  rw [Cursor.isAt_renamed, Option.isNone_map]
  refine optional bracketed fun typeParams => (signature type).bind fun s => look fun c => ?_
  rw [Cursor.isAt_renamed, Option.map_id]
  refine optional bracketed fun body => ?_
  rw [Option.map_id]
  exact makeFunc keyword receiver name typeParams s body

theorem decl : Renames ρ decl decl (Decl.renamed ρ) := by
  refine look fun c => ?_
  rcases c.next?_renamed ρ with ⟨x, y, hx, hy, -⟩ | ⟨-, hnext⟩
  · rw [hx, hy]
    exact expected
  · rw [hnext]
    split
    · exact specDecl valueSpec fun _ => rfl
    · exact specDecl typeSpec fun _ => rfl
    · exact specDecl valueSpec fun _ => rfl
    · exact funcDecl
    · exact failHere
    · exact expected

theorem declEnd : Renames ρ declEnd declEnd id := by
  refine look fun c => (eat _).bind fun s => ?_
  rw [Cursor.atEnd_renamed]
  dsimp only [id]
  split
  · exact .pure rfl
  · exact expected

theorem declsWhile {β : Type} {more : Cursor → Bool} (hmore : ∀ c, more (c.renamed ρ) = more c)
    {item : Parse α} {item' : Parse β} {f : α → β} (hitem : Renames ρ item item' f) :
    ∀ n : Nat, Renames ρ (declsWhile more item n) (declsWhile more item' n) (List.map f)
  | 0 => .pure rfl
  | n + 1 => by
    refine look fun c => ?_
    rw [hmore]
    split
    · exact hitem.bind fun x => declEnd.bind fun _ => (declsWhile hmore hitem n).finish fun _ => rfl
    · exact .pure rfl

theorem file : Renames ρ file file (File.renamed ρ) := by
  have himports (c : Cursor) : ((c.renamed ρ).next? == some (.keyword .importKw))
      = (c.next? == some (.keyword .importKw)) :=
    c.next?_renamed_congr ρ (g := (· == some (.keyword .importKw))) fun _ _ => rfl
  have hdecls (c : Cursor) : (!(c.renamed ρ).atEnd) = !c.atEnd := by
    rw [Cursor.atEnd_renamed]
  refine (expect (by simp)).bind fun package => ident.bind fun name => (eat _).bind fun semi => ?_
  dsimp only [id]
  split
  · exact expected_bind
  · refine look fun c => ?_
    rw [Cursor.length_renamed]
    refine (declsWhile himports importDecl _).bind fun imports => look fun c => ?_
    rw [Cursor.length_renamed]
    refine (declsWhile hdecls decl _).finish fun decls => ?_
    rw [File.renamed, List.map_flatten]

end GoIface.Parse.Renames
