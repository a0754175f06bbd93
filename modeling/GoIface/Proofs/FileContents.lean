import GoIface.Proofs.TypeContents

/-!
# What files hold

Declarations are nodes of their own around the types in them, and a file is its declarations in a
row after the imports (`LexedText.file`). So the counts that go with the tree of a source count the
nodes in it, and the nodes are laid out in its lexemes (`holds_ofSource`).
-/

namespace GoIface

open GoIface.Parse GoIface.Content

/-- What a file holds besides itself. -/
def File.content (f : File) : Content :=
  ⟨f.places, f.decls.map Decl.outline, f.decls.flatMap Decl.roots⟩

namespace LexedText

variable {T : LexedText} {c : Cursor}

attribute [local simp] Content.sub_iff Content.ofPlaces

/-! ## Imports -/

theorem importName? : T.Yields importName? c
    fun name => .ofPlaces (name.map ImportName.place).toList := by
  refine .look ?_
  split
  · next h => exact (Yields.bump h).bind fun s c' _ => .pure (by simp [ImportName.place])
  · next h => exact (Yields.bump h).bind fun s c' _ => .pure (by simp [ImportName.place])
  · exact Yields.ident.bind fun x c' _ => .pure (by simp [ImportName.place])
  · exact .pure rfl

theorem importSpec : T.Yields importSpec c fun i => .ofPlaces i.places := by
  refine importName?.bind fun name c₁ _ => .bind Yields.stringLiteral? fun path c₂ _ => ?_
  cases path with
  | none => exact .expected
  | some path => exact .pure (by simp [ImportSpec.places])

theorem group {α : Type} {spec : Parse α} {f : α → Content}
    (hspec : ∀ c, T.Yields spec c f) : T.Yields (group spec) c
      fun p => .concat (p.1.map f) ++ .ofPlaces (p.2.toList.flatMap Parens.places) := by
  refine (Yields.eat .lparen).bind fun left c₁ _ => ?_
  cases left with
  | none =>
    refine (hspec c₁).goesOn fun x => ?_
    have hsingle : Content.concat [f x] = f x ++ .none := rfl
    simp [hsingle, Content.none]
  | some left =>
    refine .bind (Yields.block hspec .rparen) fun p c₂ _ => .pure ?_
    simp +contextual [Parens.places, or_imp]

theorem group_inRow {α : Type} {spec : Parse α} {P : List Lexeme → α → Prop}
    (hspec : ∀ c, T.Spec spec c fun run _ x => P run x) :
    T.Spec (Parse.group spec) c fun run _ p => InRow P run p.1 := by
  have hblock (c : Cursor) : T.Spec (Parse.block .rparen spec) c
      fun run _ p => InRow P run p.1 := by
    have hitems (n : Nat) :=
      Spec.blockItems (T := T) (Q := fun _ run _ x => P run x) hspec .rparen n c
    refine .look ((hitems _).bind fun xs c₁ run _ hxs => ?_)
    refine (Spec.expect _).bind fun right c₂ run' _ _ => .pure ?_
    simpa using (hxs.inRow fun _ _ _ _ hx => hx).widen [] run'
  refine (Spec.eat .lparen).bind fun left c₁ run _ _ => ?_
  cases left with
  | none =>
    refine .finish ((hspec c₁).mono fun run' _ x _ hx => ?_)
    simpa using (InRow.single hx).widen run []
  | some left =>
    refine (hblock c₁).bind fun p c₂ run' _ hp => .pure ?_
    simpa using hp.widen run []

theorem importDecl {t : Token} (h : c.next? = some t) :
    T.Yields importDecl c fun is => .ofPlaces (is.flatMap ImportSpec.places) := by
  refine (Yields.bump h).bind fun _ c₁ _ => ?_
  refine (group fun c => importSpec).goesOn fun p => ?_
  simp +contextual [Content.places_concat, Content.outlines_concat, Content.types_concat]

/-! ## Declarations -/

theorem next?_of_holdsTypeParams (h : holdsTypeParams c.rest = true) :
    c.next? = some (.mark .lbrack) := by
  unfold holdsTypeParams at h
  split at h
  · next hrest => simp [Cursor.next?, hrest]
  · simp at h

theorem typeSpec : T.Yields typeSpec c TypeSpec.content := by
  refine Yields.ident.bind fun name c₁ _ => .look ?_
  refine Yields.optional (h := fun s => .ofPlaces s.toList)
    (fun h => .bracketed (next?_of_holdsTypeParams h)) rfl fun ps c₂ => ?_
  refine .bind (Yields.eat .assign) fun assign c₃ _ => ?_
  refine .bind (readsContent readsType _) fun t c₄ _ => .make (b := c₄.made) rfl fun run _ hy => ?_
  have haround := hy.around (.typeSpec name.name) rfl rfl
  exact haround.sub
    (by simp [TypeSpec.content, TypeSpec.places, TypeSpec.outline, TypeNode.content])

theorem valueSpec : T.Yields valueSpec c ValueSpec.content := by
  refine (names c).bind fun xs c₁ _ => .look ?_
  refine Yields.optional (h := fun t =>
      ⟨t.toList.flatMap TypeNode.places, t.toList.map TypeNode.outline, t.toList⟩)
    (fun _ => (readsContent readsType _).mono fun t => ?_) rfl fun type c₂ => ?_
  · simp [TypeNode.content]
  refine .bind (Yields.eat .assign) fun assign c₃ _ => ?_
  cases assign with
  | none => exact .pure (by simp [ValueSpec.content, ValueSpec.places, ValueSpec.outlines])
  | some s =>
    refine Yields.through.goesOn fun values => ?_
    simp +contextual [ValueSpec.content, ValueSpec.places, ValueSpec.outlines, or_imp]

theorem specDecl {α : Type} {spec : Parse α} {specs : List α → Specs} {f : α → Content} {t : Token}
    (hspec : ∀ c, T.Yields spec c f) (hspecs : ∀ xs, .concat (xs.map f) = (specs xs).content)
    (h : c.next? = some t) : T.Yields (specDecl spec specs) c Decl.content := by
  refine (Yields.bump h).bind fun keyword c₁ hkeyword => .bind (group hspec) fun p c₂ _ => ?_
  refine .make (b := { c₂.made with decls := c₂.made.decls + 1 }) rfl fun run hmoves hy => ?_
  have hcovers := hmoves.covers (hy.ne_nil (s := keyword) (by simp))
  rw [← here_of_bump hkeyword] at hcovers
  rw [hspecs] at hy
  refine (hy.node (.decl c₂.made.decls _) rfl hcovers rfl
    (fun k => by cases k <;> rfl) (by simp [Event.kind])).sub ?_
  simp +contextual [Decl.content, Decl.places, Decl.outline, Decl.roots, Specs.content, or_imp]

def receiverContent (l : Option (FieldList TypeNode)) : Content :=
  ⟨l.toList.flatMap fun l => (l.map TypeNode.places).places,
    l.toList.flatMap fun l => (l.map TypeNode.outline).outlines,
    l.toList.flatMap FieldList.children⟩

theorem funcDecl {t : Token} (h : c.next? = some t) : T.Yields funcDecl c Decl.content := by
  refine (Yields.bump h).bind fun keyword c₁ hkeyword => .look ?_
  refine Yields.optional (h := receiverContent)
    (fun _ => (params readsType).mono fun l => ?_) rfl fun receiver c₂ => ?_
  · simp [receiverContent, FieldList.content]
  refine .bind Yields.ident fun name c₃ _ => .look ?_
  refine Yields.optional (h := fun s => .ofPlaces s.toList)
    (fun h => .bracketed (t := .mark .lbrack) ?_) rfl fun typeParams c₄ => ?_
  · simp only [Bool.and_eq_true] at h
    exact Cursor.isAt_iff.1 h.2
  refine .bind (signature readsType) fun s c₅ _ => .look ?_
  refine Yields.optional (h := fun s => .ofPlaces s.toList)
    (fun h => .bracketed (Cursor.isAt_iff.1 h)) rfl fun body c₆ => ?_
  refine .make (b := { c₆.made with funcs := c₆.made.funcs + 1 }) rfl fun run hmoves hy => ?_
  have hcovers := hmoves.covers (hy.ne_nil (s := keyword) (by simp))
  rw [← here_of_bump hkeyword] at hcovers
  refine (hy.node (.func c₆.made.funcs _) rfl hcovers rfl
    (fun k => by cases k <;> rfl) (by simp [Event.kind])).sub ?_
  simp +contextual [Decl.content, Decl.places, Decl.outline, Decl.roots, FuncDecl.outline,
    Signature.content, receiverContent]

theorem concat_values (xs : List ValueSpec) :
    Content.concat (xs.map ValueSpec.content) = (Specs.consts xs).content := by
  apply Content.ext <;>
  simp [Content.places_concat, Content.outlines_concat, Content.types_concat, Specs.content,
    ValueSpec.content, Specs.places, Specs.outlines, Specs.roots]

theorem concat_types (xs : List TypeSpec) :
    Content.concat (xs.map TypeSpec.content) = (Specs.types xs).content := by
  have houtlines := List.map_eq_flatMap (f := TypeSpec.outline) (l := xs)
  have htypes := List.map_eq_flatMap (f := TypeSpec.type) (l := xs)
  apply Content.ext <;>
  simp [Content.places_concat, Content.outlines_concat, Content.types_concat, Specs.content,
    TypeSpec.content, Specs.places, Specs.outlines, Specs.roots, houtlines, htypes]

theorem decl : T.Yields decl c Decl.content := by
  refine .look ?_
  split
  · next h => exact specDecl (fun c => valueSpec) concat_values h
  · next h => exact specDecl (fun c => typeSpec) concat_types h
  · next h => exact specDecl (fun c => valueSpec) concat_values h
  · next h => exact funcDecl h
  · exact Spec.failHere
  · exact Spec.expected

theorem file : T.Yields file c File.content := by
  refine (Yields.expect _).bind fun package c₁ _ => .bind Yields.ident fun name c₂ _ => ?_
  refine .bind (Yields.eat .semi) fun semi c₃ _ => ?_
  split
  · refine .bind (f := fun _ => .none) Spec.expected fun _ _ hok => ?_
    simp [expected] at hok
  · refine .look (.bind (Yields.declsWhile (fun c h => importDecl (eq_of_beq h)) _)
      fun imports c₄ _ => .look ?_)
    refine (Yields.declsWhile (fun c _ => decl) _).goesOn fun decls => ?_
    have houtlines := List.map_eq_flatMap (f := Decl.outline) (l := decls)
    have himports : imports.flatten.flatMap ImportSpec.places
        = imports.flatMap fun is => is.flatMap ImportSpec.places := by
      rw [← List.flatMap_id, List.flatMap_assoc]
      rfl
    simp +contextual [places_concat, outlines_concat, types_concat, File.content, File.places,
      Decl.content, houtlines, himports, or_imp, -List.mem_flatMap, -List.mem_flatten]

/-- The imports of a file stand in a row before what its declarations declare. -/
theorem file_inRow {α : Type} {g : Decl → List α} {P : List Lexeme → ImportSpec → Prop}
    {Q : List Lexeme → α → Prop}
    (himport : ∀ {c t}, c.next? = some t →
      T.Spec Parse.importDecl c fun run _ is => InRow P run is)
    (hdecl : ∀ c, T.Spec Parse.decl c fun run _ d => InRow Q run (g d)) :
    T.Spec Parse.file c fun run _ f =>
      InRow P run f.imports ∧ InRow Q run (f.decls.flatMap g) := by
  have himports (n : Nat) (c : Cursor) : T.Spec (Parse.declsWhile
      (fun c => c.next? == some (.keyword .importKw)) Parse.importDecl n) c
      fun run _ imports => InRow P run imports.flatten := by
    refine (Spec.declsWhile (Q := fun _ run _ is => InRow P run is)
      (fun c h => himport (eq_of_beq h)) n c).mono fun run b iss _ his => ?_
    rw [← List.flatMap_id]
    exact (his.inRow fun _ _ _ _ h => h).flatMap
  have hdecls (n : Nat) (c : Cursor) : T.Spec (Parse.declsWhile (!·.atEnd) Parse.decl n) c
      fun run _ decls => InRow Q run (decls.flatMap g) :=
    (Spec.declsWhile (Q := fun _ run _ d => InRow Q run (g d)) (fun c _ => hdecl c) n c).mono
      fun run b ds _ hds => (hds.inRow fun _ _ _ _ h => h).flatMap
  refine (Spec.expect _).bind fun package c₁ run₁ _ _ => Spec.ident.bind fun name c₂ run₂ _ _ => ?_
  refine (Spec.eat .semi).bind fun semi c₃ run₃ _ _ => ?_
  split
  · refine .bind_ok (Q := fun _ _ _ => True) .expected fun _ _ _ hok => ?_
    simp [Parse.expected] at hok
  · refine .look ((himports _ _).bind fun imports c₄ run₄ _ his => .look (.finish ?_))
    refine (hdecls _ _).mono fun run₅ _ decls _ hds => ⟨?_, ?_⟩
    · simpa using his.widen (run₁ ++ (run₂ ++ run₃)) run₅
    · simpa using hds.widen (run₁ ++ (run₂ ++ (run₃ ++ run₄))) []

end LexedText

/-- The cursor before the whole of a source. -/
def Cursor.ofSource (source : String) : Cursor :=
  .ofLexemes (lex source) (byteCount source.toList)

theorem LexedText.at_ofSource (source : String) :
    (LexedText.ofSource source).At (.ofSource source) :=
  ⟨List.suffix_refl _, rfl⟩

section

variable {μ γ : Type} {read : ParseOf μ γ} {made : μ} {source : String}

theorem readSource_eq_ok_iff {x : γ} {made' : μ} :
    readSource read made source = .ok (x, made') ↔ (∀ l ∈ lex source, l.fault? = .none) ∧
      ∃ c, read (.start made (lex source) (byteCount source.toList)) = .ok (x, c) ∧
        c.made = made' := by
  have hsound : (∀ l ∈ lex source, l.fault? = .none)
      ↔ (lex source).filterMap Lexeme.diagnostic? = [] := by
    simp [Lexeme.diagnostic?]
  rw [hsound]
  constructor
  · intro h
    rcases hnone : (lex source).filterMap Lexeme.diagnostic? with _ | ⟨first, others⟩
    · rw [readSource_of_sound hnone] at h
      split at h
      · next hok =>
        cases h
        exact ⟨rfl, _, hok, rfl⟩
      · cases h
    · simp only [readSource, hnone] at h
      cases h
  · rintro ⟨hnone, c, hok, rfl⟩
    rw [readSource_of_sound hnone, hok]

end

theorem ofSource_eq_ok_iff {source : String} {file : File} {made : Counts} :
    File.ofSource source = .ok (file, made) ↔ (∀ l ∈ lex source, l.fault? = .none) ∧
      ∃ c, Parse.file (.ofSource source) = .ok (file, c) ∧ c.made = made :=
  readSource_eq_ok_iff

theorem read_ofSource {source : String} {file : File} {made : Counts}
    (h : File.ofSource source = .ok (file, made)) :
    (∀ l ∈ lex source, l.fault? = .none) ∧
      ∃ c, Parse.file (.ofSource source) = .ok (file, c) ∧ c.made = made :=
  ofSource_eq_ok_iff.1 h

/-- What is read of every text is so of the file of a source. -/
theorem spec_ofSource {source : String} {file : File} {made : Counts}
    {R : List Lexeme → Counts → File → Prop} (h : File.ofSource source = .ok (file, made))
    (hspec : (LexedText.ofSource source).Spec Parse.file (.ofSource source) R) :
    ∃ run, run <:+: lex source ∧ R run made file := by
  obtain ⟨-, c, hok, rfl⟩ := read_ofSource h
  obtain ⟨run, hmoves, hfile⟩ := hspec.of_ok (LexedText.at_ofSource source) hok
  exact ⟨run, hmoves.isInfix, hfile⟩

/-- The tree of a source has its nodes laid out in the lexemes and counted. -/
theorem holds_ofSource {source : String} {file : File} {made : Counts}
    (h : File.ofSource source = .ok (file, made)) : ∃ run, run <:+: lex source ∧
      (LexedText.ofSource source).Holds run ⟨0, 0, 0, 0, 0⟩ made file.content :=
  spec_ofSource h LexedText.file

/-- A source is rejected at faulty lexemes, or where its grammar fails. -/
theorem blames_ofSource {source : String} {e : Rejection} (h : File.ofSource source = .error e) :
    ∀ d ∈ e.diagnostics, (LexedText.ofSource source).Blames d.span := by
  simp only [File.ofSource, readSource] at h
  split at h
  · next first others hfaults =>
    cases h
    intro d hd
    have hd : d ∈ (lex source).filterMap Lexeme.diagnostic? := hfaults ▸ hd
    obtain ⟨l, hl, hdiag⟩ := List.mem_filterMap.1 hd
    obtain ⟨fault, -, rfl⟩ := Option.map_eq_some_iff.1 hdiag
    exact (LexedText.at_ofSource source).blames_of_mem hl
  · split at h
    · simp at h
    · next herror =>
      cases h
      intro d hd
      obtain rfl := List.mem_singleton.1 hd
      exact LexedText.Spec.of_error LexedText.file (LexedText.at_ofSource source) herror

end GoIface
