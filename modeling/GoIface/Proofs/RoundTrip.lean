import GoIface.Proofs.FileModels
import GoIface.Proofs.FileReading
import GoIface.Proofs.WrittenTypes

/-!
# Rendering and reading back

A rendered type that stands as a parameter in a file which imports its packages is lexed, read and
converted to the type that was rendered.
-/

namespace GoIface

open Piece

/-! ## The file -/

/-- An import of a package under the name that it goes by. -/
def importLine (table : AliasTable) (path : String) : String :=
  "import " ++ table.qualifier path ++ " " ++ quotedText path ++ "\n"

/-- A file with imports and an interface whose method takes one parameter of a type, which is given
as it is written. -/
def interfaceFile (table : AliasTable) (paths : List String) (type : String) : String :=
  "package p\n" ++ String.join (paths.map (importLine table))
    ++ "type I interface \x7b M(x " ++ type ++ ") \x7d\n"

/-- The table has a name of its own for each path, and the paths can be quoted as they are. -/
structure AliasTable.Names (table : AliasTable) (paths : List String) : Prop where
  distinct : (paths.map table.qualifier).Nodup
  identifier : ∀ p ∈ paths, isIdentifier (table.qualifier p) = true
  not_blank : ∀ p ∈ paths, table.qualifier p ≠ "_"
  quotable : ∀ p ∈ paths, isQuotable p = true

/-- The signature of the method. -/
def paramSignature {τ : Type} (type : τ) : Signature τ :=
  ⟨0, .nowhere, ⟨.nowhere, [⟨0, .nowhere, [⟨"x", .nowhere⟩], none, type, none, false⟩], .nowhere⟩,
    .absent⟩

/-- The interface literal of the file. -/
def interfaceForm (t : TypeNode) : TypeForm TypeNode :=
  .interface .nowhere [.method ⟨"M", .nowhere⟩ (paramSignature t)]

def importsOf (table : AliasTable) (paths : List String) : List (List Token) :=
  paths.map fun p => Parse.Takes.importTokens (table.qualifier p) (quotedText p)

/-- The tokens of the declaration of the file. -/
def interfaceTokens (t : TypeNode) : List Token :=
  Parse.Takes.typeTokens "I"
    (((interfaceForm t).map (TypeNode.tokens spellLength)).tokens spellLength)

theorem tokens_interfaceForm (t : TypeNode) :
    ((interfaceForm t).map (TypeNode.tokens spellLength)).tokens spellLength
      = .keyword .interfaceKw :: .mark .lbrace :: .ident "M" :: .mark .lparen :: .ident "x"
        :: (t.tokens spellLength ++ [Token.mark .rparen, .mark .rbrace]) := by
  simp [interfaceForm, paramSignature, TypeForm.map, TypeForm.tokens, inBraces, Element.map,
    Element.tokens, Signature.map, Signature.tokens, FieldList.map, FieldList.tokens, Field.map,
    Field.paramTokens, namesTokens, Results.map, Results.tokens]

section Text

variable {table : AliasTable}

theorem lexes_word (s : String) (h : isIdentifier s = true) (ends : Bool) :
    Lexes ends (s.toList ++ [' ']) [.ident s] true (noneAhead isSpace) :=
  (Lexes.ident h).append Lexes.space fun _ _ => rfl

theorem lexes_keyword (k : Keyword) :
    Lexes false (k.text.toList ++ [' ']) [.keyword k] (Token.keyword k).endsStatement
      (noneAhead isSpace) :=
  (Lexes.keyword k).append Lexes.space fun _ _ => rfl

theorem lexes_packageClause :
    Lexes false "package p\n".toList [.keyword .packageKw, .ident "p", .mark .semi] false
      anyAhead := by
  have hname : Lexes false "p".toList [.ident "p"] true _ := .ident (by decide)
  exact (lexes_keyword .packageKw).append (hname.append .newline fun _ _ => rfl) fun _ _ => rfl

theorem lexes_importLine {p : String} (hidentifier : isIdentifier (table.qualifier p) = true)
    (hquotable : isQuotable p = true) :
    Lexes false (importLine table p).toList
      (Parse.Takes.importTokens (table.qualifier p) (quotedText p) ++ [Token.mark .semi]) false
      anyAhead := by
  have hpath := (Lexes.quoted (a := true) hquotable).append .newline fun _ _ => trivial
  have hword := (lexes_word _ hidentifier false).append hpath fun o _ => by
    simp [quotedText, noneAhead, isSpace]
  have hphrase := Phrase.of_isIdentifier hidentifier
  have hline := (lexes_keyword .importKw).append hword fun o _ => by
    rw [List.append_assoc, List.head?_append, Option.or_assoc]
    exact hphrase.noSpace _
  have htext : (importLine table p).toList
      = (Keyword.importKw.text.toList ++ [' ']) ++ (((table.qualifier p).toList ++ [' '])
        ++ ((quotedText p).toList ++ ['\n'])) := by
    simp [importLine, Keyword.text]
  rw [htext]
  exact hline

theorem lexes_imports : ∀ {paths : List String},
    (∀ p ∈ paths, isIdentifier (table.qualifier p) = true) → (∀ p ∈ paths, isQuotable p = true) →
      Lexes false (String.join (paths.map (importLine table))).toList
        ((importsOf table paths).flatMap fun ts => ts ++ [Token.mark .semi]) false anyAhead
  | [], _, _ => .nil
  | p :: paths, hidentifier, hquotable => by
    have ih : Lexes false (String.join (paths.map (importLine table))).toList _ false anyAhead :=
      lexes_imports (fun q hq => hidentifier q (by simp [hq]))
        fun q hq => hquotable q (by simp [hq])
    have hline := lexes_importLine (hidentifier p (by simp)) (hquotable p (by simp))
    rw [List.map_cons, String.join_cons, String.toList_append]
    exact hline.append ih fun _ _ => trivial

/-- The parameter and what closes the interface. -/
theorem lexes_param {cs : List Char} {ts : List Token} (h : Phrase cs ts) :
    Lexes false
      ("x".toList ++ ([' '] ++ (cs ++ (")".toList ++ ([' '] ++ ("\x7d".toList ++ ['\n']))))))
      (.ident "x" :: (ts ++ [Token.mark .rparen, .mark .rbrace, .mark .semi])) false anyAhead := by
  have hbrace : Lexes true "\x7d".toList [.mark .rbrace] true anyAhead := .mark (m := .rbrace) rfl
  have hparen : Lexes true ")".toList [.mark .rparen] true anyAhead := .mark (m := .rparen) rfl
  have hname : Lexes false "x".toList [.ident "x"] true _ := .ident (by decide)
  have hend := Lexes.space.append (hbrace.append .newline fun _ _ => trivial) fun _ _ => rfl
  have htype := (h.lexes true).append (hparen.append hend fun _ _ => trivial) fun _ _ => rfl
  have hafter := Lexes.space.append htype fun o _ => by
    rw [List.head?_append, Option.or_assoc]
    exact h.noSpace _
  exact hname.append hafter fun _ _ => rfl

theorem lexes_typeLine {text : String} {t : TypeNode}
    (h : Phrase text.toList (t.tokens spellLength)) :
    Lexes false ("type I interface \x7b M(x " ++ text ++ ") \x7d\n").toList
      (interfaceTokens t ++ [Token.mark .semi]) false anyAhead := by
  have hbrace : Lexes false "\x7b".toList [.mark .lbrace] false anyAhead := .mark (m := .lbrace) rfl
  have hparen : Lexes true "(".toList [.mark .lparen] false anyAhead := .mark (m := .lparen) rfl
  have hname : Lexes false "I".toList [.ident "I"] true _ := .ident (by decide)
  have hmethod : Lexes false "M".toList [.ident "M"] true _ := .ident (by decide)
  have hparam := lexes_param h
  have hinside := hmethod.append (hparen.append hparam fun _ _ => trivial) fun _ _ => rfl
  have hopen := hbrace.append (Lexes.space.append hinside fun _ _ => rfl) fun _ _ => trivial
  have hkeyword := (Lexes.keyword (a := true) .interfaceKw).append
    (Lexes.space.append hopen fun _ _ => rfl) fun _ _ => rfl
  have hdecl := hname.append (Lexes.space.append hkeyword fun _ _ => rfl) fun _ _ => rfl
  have hline := (lexes_keyword .typeKw).append hdecl fun _ _ => rfl
  have htext : ("type I interface \x7b M(x " ++ text ++ ") \x7d\n").toList
      = (Keyword.typeKw.text.toList ++ [' ']) ++ ("I".toList ++ ([' ']
        ++ (Keyword.interfaceKw.text.toList ++ ([' '] ++ ("\x7b".toList ++ ([' '] ++ ("M".toList
        ++ ("(".toList ++ ("x".toList ++ ([' '] ++ (text.toList ++ (")".toList
        ++ ([' '] ++ ("\x7d".toList ++ ['\n'])))))))))))))) := by
    simp [Keyword.text]
  have htokens : interfaceTokens t ++ [Token.mark .semi]
      = .keyword .typeKw :: .ident "I" :: .keyword .interfaceKw :: .mark .lbrace :: .ident "M"
        :: .mark .lparen :: .ident "x"
        :: (t.tokens spellLength ++ [Token.mark .rparen, .mark .rbrace, .mark .semi]) := by
    simp [interfaceTokens, tokens_interfaceForm, Parse.Takes.typeTokens]
  rw [htext, htokens]
  exact hline

/-- The file lexes to its clauses, imports and declaration. -/
theorem lexes_interfaceFile {paths : List String} (hnames : table.Names paths) {text : String}
    {t : TypeNode} (h : Phrase text.toList (t.tokens spellLength)) :
    Lexes false (interfaceFile table paths text).toList
      (Parse.Takes.fileTokens "p" (importsOf table paths) [interfaceTokens t]) false anyAhead := by
  have himports := lexes_imports hnames.identifier hnames.quotable
  have hrest := himports.append (lexes_typeLine h) fun _ _ => trivial
  have hfile := lexes_packageClause.append hrest fun _ _ => trivial
  have htext : (interfaceFile table paths text).toList = "package p\n".toList
      ++ ((String.join (paths.map (importLine table))).toList
        ++ ("type I interface \x7b M(x " ++ text ++ ") \x7d\n").toList) := by
    unfold interfaceFile
    simp
  rw [htext, Parse.Takes.fileTokens, List.flatMap_singleton]
  exact hfile

end Text

/-! ## What the file binds -/

theorem value_quoted {span : Span} {source path : String}
    (h : span.slice source.toList = (quotedText path).toList) :
    (StringLiteral.mk span).value source = path := by
  have htext : (quotedText path).toList = '"' :: (path.toList ++ ['"']) := by simp [quotedText]
  have hlong : ¬ byteCount ('"' :: (path.toList ++ ['"'])) < 2 := by
    rw [byteCount_cons, byteCount_append, byteCount_cons, show '"'.utf8Size = 1 from rfl]
    omega
  rw [StringLiteral.value, h, htext]
  simp only [if_neg hlong, List.tail_cons, List.dropLast_concat, String.ofList_toList]

theorem collision?_eq_none : ∀ {bindings : Bindings} {bound : List String},
    (bindings.map Prod.fst).Nodup → (∀ b ∈ bindings, b.1 ∉ bound) →
      collision? bound bindings = none
  | [], _, _, _ => rfl
  | (name, path) :: bindings, bound, hnodup, hbound => by
    obtain ⟨hname, hnodup⟩ := List.nodup_cons.1 hnodup
    have hfree : bound.contains name = false := by simpa using hbound (name, path) (by simp)
    rw [collision?, hfree]
    refine collision?_eq_none hnodup fun b hb hmem => ?_
    rcases List.mem_cons.1 hmem with heq | hmem
    · exact hname (List.mem_map.2 ⟨b, hb, heq⟩)
    · exact hbound b (by simp [hb]) hmem

theorem lookup_of_nodup {name : String → String} {p : String} :
    ∀ {paths : List String}, (paths.map name).Nodup → p ∈ paths →
      (paths.map fun p => (name p, p)).lookup (name p) = some p
  | [], _, hp => by simp at hp
  | q :: paths, hnodup, hp => by
    obtain ⟨hq, hnodup⟩ := List.nodup_cons.1 hnodup
    rw [List.map_cons, List.lookup_cons]
    rcases List.mem_cons.1 hp with rfl | hp
    · simp
    · have hne : name p ≠ name q := fun heq => hq (heq ▸ List.mem_map_of_mem hp)
      rw [beq_eq_false_iff_ne.2 hne]
      exact lookup_of_nodup hnodup hp

/-- What the file binds its packages to. -/
def bindingsOf (table : AliasTable) (paths : List String) : Bindings :=
  paths.map fun p => (table.qualifier p, p)

theorem bindImports_of_map {table : AliasTable} {paths : List String} (hnames : table.Names paths)
    {resolve : Resolver} {source : String} {imports : List ImportSpec}
    (h : imports.map (fun i => (boundName resolve (i.path.value source) i.name).map
        (·, i.path.value source))
      = paths.map fun p => some (table.qualifier p, p)) :
    bindImports resolve source imports = .ok (bindingsOf table paths) := by
  have hbindings : importBindings resolve source imports = bindingsOf table paths := by
    have hsome := congrArg (List.filterMap id) h
    rw [List.filterMap_map, List.filterMap_map] at hsome
    rw [importBindings, bindingsOf, ← List.filterMap_eq_map']
    exact hsome
  have hfree : collision? [] (bindingsOf table paths) = none := by
    refine collision?_eq_none ?_ (by simp)
    rw [bindingsOf, List.map_map]
    exact hnames.distinct
  simp only [bindImports, hbindings, hfree]

theorem knows_bindingsOf {table : AliasTable} {paths : List String} (hnames : table.Names paths)
    (source : String) {packages : List String} (h : ∀ p ∈ packages, p ∈ paths) :
    FileScope.Knows ⟨source, bindingsOf table paths, ""⟩ table packages := by
  refine ⟨fun p hp => lookup_of_nodup hnames.distinct (h p hp), ?_⟩
  have hlookup : (bindingsOf table paths).lookup "" = none := by
    rw [List.lookup_eq_none_iff]
    intro b hb
    obtain ⟨p, hp, rfl⟩ := List.mem_map.1 hb
    have hne : table.qualifier p ≠ "" := by
      intro heq
      have := hnames.identifier p hp
      rw [heq] at this
      exact absurd this (by decide)
    simpa using Ne.symm hne
  rw [FileScope.ownPackage, hlookup]
  rfl

/-! ## What the file declares -/

theorem mute_eq_ok {α : Type} {x : Convert α} {a : α} (h : mute x = .ok a) : x = .ok a := by
  cases x with
  | ok b => exact h
  | error e => simp at h

/-- The interface of the file. -/
def interfaceOf (t : TypeExpr) : Interface := ⟨"I", [⟨"M", [⟨"x", false, t⟩], []⟩]⟩

section Declared

variable {scope : FileScope} {table : AliasTable}

/-- A method is converted as what was written, if it is that but for places. -/
theorem model_method {name : Ident} {s : Signature TypeNode} {s' : Signature (Convert TypeExpr)}
    {args results : List Param}
    (h : (s.map (TypeNode.readModel scope)).bare = s'.bare) (hs' : s'.model = .ok (args, results)) :
    Element.model scope (.method name s) = .ok ⟨name.name, args, results⟩ := by
  have hmodel : mute (s.map (TypeNode.model scope)).model = .ok (args, results) := by
    have hmap : (s.map (TypeNode.model scope)).map mute = s.map (TypeNode.readModel scope) := by
      rw [Signature.map_map]
      exact congrArg (s.map ·) (funext fun t => t.mute_model scope)
    rw [Signature.mute_model, hmap, ← Signature.model_bare, h, Signature.model_bare, hs']
    rfl
  rw [Element.model, mute_eq_ok hmodel]
  rfl

/-- What is read for the interface literal is converted to the method with the type. -/
theorem elements_of_alike {same : Span → Span → Prop} {t : TypeExpr}
    {form : TypeForm TypeNode}
    (h : (form.map (TypeNode.readModel scope)).Alike same
      ((interfaceForm (t.tree table)).map (TypeNode.writtenModel scope)))
    (ht : (t.tree table).writtenModel scope = .ok t.unnamed) :
    ∃ k elements, form = .interface k elements ∧
      elements.mapM (Element.model scope) = .ok (interfaceOf t.unnamed).methods := by
  obtain ⟨hbare, -⟩ := h
  cases form with
  | interface k elements =>
    refine ⟨k, elements, rfl, ?_⟩
    have helements := (TypeForm.interface.inj hbare).2
    rcases elements with _ | ⟨e, _ | ⟨e', elements⟩⟩
    · simp at helements
    · obtain ⟨he, -⟩ := List.cons.inj helements
      cases e with
      | union terms => simp [Element.map, Element.bare] at he
      | method name s =>
        obtain ⟨hname, hs⟩ := Element.method.inj he
        have hname : name.name = "M" := Ident.bare_eq_iff.1 hname
        have hwritten : ((paramSignature (t.tree table)).map (TypeNode.writtenModel scope)).model
            = .ok ([⟨"x", false, t.unnamed⟩], []) := by
          show (paramSignature ((t.tree table).writtenModel scope)).model = _
          rw [ht]
          rfl
        rw [List.mapM_cons, model_method hs hwritten, hname]
        rfl
    · simp at helements
  | _ => simp [TypeForm.map, TypeForm.bare, interfaceForm] at hbare

theorem endsType_semi : ∀ o, o = some (.mark .semi) → endsType o := by
  rintro _ rfl
  exact endsType_mark rfl (by decide)

/-- The declaration of the file is read and declares the interface. -/
theorem takes_interface {source : String} (hsource : scope.source = source) {t : TypeExpr}
    (h : t.Writable table) (hroom : (t.tree table).NestsWithin (Parse.nestingLimit - 1))
    (hscope : scope.Knows table t.packages) :
    Parse.Takes (.ofText source.toList) Parse.decl (interfaceTokens (t.tree table))
      (· = some (.mark .semi)) fun d => modelAll scope [d] = .ok [interfaceOf t.unnamed] := by
  have hlength (s s' : Span) (hs : (Legend.ofText source.toList).same s s') :
      mute (scope.arrayLength s) = mute (writtenLength s') :=
    mute_arrayLength (hsource ▸ hs)
  have hfree := @placeFree_model scope _ _ _ hlength
  have hparts : ∀ u ∈ (interfaceForm (t.tree table)).children, u.Printable spellLength := by
    intro u hu
    obtain rfl : u = t.tree table := List.mem_singleton.1 hu
    exact h.printable
  have hform : (interfaceForm (t.tree table)).Printable spellLength := by
    intro e he
    rw [List.mem_singleton.1 he]
    exact ⟨⟨by simp [paramSignature], .inl (by simp [paramSignature])⟩, trivial⟩
  have hinside : ∀ u ∈ (interfaceForm (t.tree table)).inside,
      hfree.meaning.Takes (.ofText source.toList) (Parse.typeWithin (Parse.nestingLimit - 1)) u
        endsType := by
    intro u hu
    obtain rfl : u = t.tree table := List.mem_singleton.1 hu
    exact hfree.takes_typeWithin hroom h.printable
  have htype := hfree.takes_form hform hparts hinside 0 .nowhere
  have htokens := (TypeForm.tokens_unplaced spellLength (interfaceForm (t.tree table))).trans
    (tokens_interfaceForm (t.tree table))
  rw [interfaceTokens, tokens_interfaceForm]
  have htype : Parse.Takes (.ofText source.toList) Parse.type _ (· = some (.mark .semi)) _ :=
    (htokens ▸ htype).mono endsType_semi fun x hx => elements_of_alike hx (h.model_tree hscope)
  refine (Parse.Takes.typeDecl htype (by simp) (by simp)).mono (fun _ h => h) fun d hd => ?_
  obtain ⟨s, hs, hname, hparams, k, elements, hform, helements⟩ := hd
  have hfound : s.elements? = some elements := by rw [TypeSpec.elements?, hform]
  have hmodel : s.model scope elements = .ok (interfaceOf t.unnamed) := by
    rw [TypeSpec.model, hparams, helements, hname]
    rfl
  rw [modelAll, List.flatMap_singleton, Decl.interfaces, hs, List.filterMap_cons, hfound]
  simp only [Option.map_some, List.filterMap_nil, List.mapM_cons, hmodel]
  rfl

end Declared

/-! ## Reading the file -/

/-- A text that lexes to the tokens of a file is read as the file. -/
theorem ofSource_of_takes {source : String} {ts : List Token} {P : File → Prop}
    (hlexes : Lexes false source.toList ts false anyAhead)
    (h : Parse.Takes (.ofText source.toList) Parse.file ts (· = none) P) :
    ∃ file made, File.ofSource source = .ok (file, made) ∧ P file := by
  obtain ⟨hts, hstands⟩ := lex_of_lexes hlexes trivial
  have hfaultless : (lex source).filterMap Lexeme.diagnostic? = [] := by
    rw [List.filterMap_eq_nil_iff]
    intro l hl
    rw [Lexeme.diagnostic?, (hstands l hl).faultless]
    rfl
  obtain ⟨file, c, hok, -, hP⟩ := h (.ofLexemes (lex source) (byteCount source.toList)) (lex source)
    [] hts (Legend.ofText_fits hstands) rfl (List.append_nil _).symm
  have hread : Parse.file (.start ⟨0, 0, 0, 0, 0⟩ (lex source) (byteCount source.toList))
      = .ok (file, c) := hok
  exact ⟨file, c.made, by rw [File.ofSource, readSource_of_sound hfaultless, hread], hP⟩

section Reading

variable {table : AliasTable} {t : TypeExpr} {paths : List String}
  (hroom : (t.tree table).NestsWithin (Parse.nestingLimit - 1))
  (hpaths : ∀ p ∈ t.packages, p ∈ paths) (hnames : table.Names paths)

include hroom hpaths hnames

/-- Text with the tokens of a type is read as that type, whatever a resolver knows. -/
theorem ofSource_of_phrase (h : t.Writable table) {text : String}
    (htext : Phrase text.toList ((t.tree table).tokens spellLength)) (resolve : Resolver)
    (name : String) :
    FileModel.ofSource resolve name (interfaceFile table paths text) ""
      = .ok ⟨"p", [interfaceOf t.unnamed]⟩ := by
  have hsource : ∃ source, source = interfaceFile table paths text := ⟨_, rfl⟩
  obtain ⟨source, hsource⟩ := hsource
  let scope : FileScope := ⟨source, bindingsOf table paths, ""⟩
  have hlexes := lexes_interfaceFile hnames htext
  rw [← hsource] at hlexes ⊢
  have hscope : scope.Knows table t.packages := knows_bindingsOf hnames source hpaths
  have himport : ∀ p ∈ paths, ∀ spec, Parse.Takes.IsImport (.ofText source.toList)
      (table.qualifier p) (quotedText p) spec →
        (boundName resolve (spec.path.value source) spec.name).map (·, spec.path.value source)
          = some (table.qualifier p, p) := by
    rintro p - ⟨_, path⟩ ⟨x, rfl, hx, hpath⟩
    have htext : path.span.slice source.toList = (quotedText p).toList :=
      hpath (.literal .string (quotedText p)) rfl (by simp)
    have hvalue : path.value source = p := value_quoted htext
    rw [hvalue, ← hx]
    rfl
  have hdecl : ∀ u ∈ [t], Parse.Takes (.ofText source.toList) Parse.decl
      (interfaceTokens (u.tree table)) (· = some (.mark .semi))
      fun d => modelAll scope [d] = .ok [interfaceOf u.unnamed] := by
    intro u hu
    have hsame : scope.source = source := rfl
    rw [List.mem_singleton.1 hu]
    exact takes_interface hsame h hroom hscope
  have hstart : ∀ u ∈ [t], ∃ k us, interfaceTokens (u.tree table) = k :: us ∧
      k ≠ .keyword .importKw := by
    intro u _
    exact ⟨.keyword .typeKw, _, rfl, by simp⟩
  obtain ⟨file, made, hfile, hname, himports, hdecls⟩ := ofSource_of_takes hlexes
    (Parse.Takes.file hnames.not_blank himport hdecl hstart)
  have hread : readFile name source = .ok file := by
    rw [readFile, hfile]
  have hbind : bindImports resolve source file.imports = .ok scope.imports :=
    bindImports_of_map hnames himports
  have hmodel : file.model scope = .ok ⟨"p", [interfaceOf t.unnamed]⟩ := by
    obtain ⟨d, hd, hinterfaces⟩ := List.map_eq_singleton_iff.1 hdecls
    rw [File.model_eq, hd, hinterfaces, hname]
    rfl
  show (readFile name source >>= _) = _
  rw [hread]
  show FileModel.ofFile resolve name source "" file = _
  rw [FileModel.ofFile, hbind]
  simp only [show FileScope.mk source scope.imports "" = scope from rfl, hmodel]

/-- A rendered type is read back from a file that imports its packages. -/
theorem rendered_type_reads_back (h : t.Writable table) (resolve : Resolver) (name : String) :
    FileModel.ofSource resolve name (interfaceFile table paths (t.render table)) "" =
      .ok ⟨"p", [interfaceOf t.unnamed]⟩ :=
  ofSource_of_phrase hroom hpaths hnames h h.phrase resolve name

end Reading

/-- A map to channels of functions, with a package that goes by another name. -/
theorem map_of_chans_reads_back :
    let table : AliasTable := [("net/http", "web")]
    let request : TypeExpr := .pointer (.named "net/http" "Request")
    let rest : TypeExpr := .slice (.array 3 (.named "" "Key"))
    let handler : TypeExpr :=
      .func [⟨"r", false, request⟩, ⟨"rest", true, rest⟩] [⟨"", false, .predeclared "error"⟩]
    let t : TypeExpr := .mapping (.predeclared "string") (.chan .send handler)
    t.render table = "map[string]chan<- func(*web.Request, ...[3]Key) error" ∧
      (t.tree table).NestsWithin (Parse.nestingLimit - 1) ∧ (∀ p ∈ t.packages, p ∈ ["net/http"]) ∧
      table.Names ["net/http"] ∧ t.Writable table ∧
      FileModel.ofSource (fun _ => none) "a.go"
          (interfaceFile table ["net/http"] (t.render table)) ""
        = .ok ⟨"p", [interfaceOf t.unnamed]⟩ := by
  intro table request rest handler t
  have hnames : table.Names ["net/http"] :=
    ⟨by decide, by decide, by decide, by decide⟩
  have hstring (name : String) (h : isIdentifier name = true) (hcase : isExported name = false) :
      TypeExpr.Writable table (.predeclared name) := .predeclared h hcase
  have hrequest : request.Writable table :=
    .pointer (.imported (by decide) (by decide) (by decide))
  have hkeys : (TypeExpr.array 3 (.named "" "Key")).Writable table :=
    .array (by decide) (.exported (by decide) (by decide))
  have hhandler : handler.Writable table := by
    refine .func ?_ ?_ ?_ ?_ ?_ ?_
    · simpa [Parameter.shown] using ⟨hrequest, hkeys⟩
    · simpa [Parameter.shown] using hstring "error" (by decide) (by decide)
    · simp [Parameter.isSpread, rest]
    · simp
    · simp [BareLast, Parameter.isBare, Parameter.shown, TypeExpr.isName]
    · simp
  have ht : t.Writable table :=
    .mapping (hstring "string" (by decide) (by decide)) (.chan hhandler (by simp))
  have hpackages : ∀ p ∈ t.packages, p ∈ ["net/http"] := by decide
  have hroom : (t.tree table).NestsWithin (Parse.nestingLimit - 1) :=
    ht.nestsWithin.mono (by decide)
  exact ⟨by decide, hroom, hpackages, hnames, ht,
    rendered_type_reads_back hroom hpackages hnames ht _ _⟩

end GoIface
