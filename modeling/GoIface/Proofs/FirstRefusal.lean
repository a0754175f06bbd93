import GoIface.Proofs.Offences

/-!
# What is reported first

A conversion reports a set of offences (`Convert.Reports`) if it fails just when there are some,
with one that none of the others starts before. Conversions in sequence report the offences of all
of them where those of each precede those of the next (`Convert.Reports.bind`), so the order of the
conversion has to be that of the text, and for what is read it is. So a source is refused for what
is wrong first in its interfaces (`first_offence_is_reported`).
-/

namespace GoIface

variable {α β : Type}

/-- Without offences the conversion succeeds, and else it reports one that is first. -/
def Convert.Reports (x : Convert α) (O : Offences) : Prop :=
  match x with
  | .ok _ => ∀ e, ¬ O e
  | .error e => O.IsFirst e

namespace Convert.Reports

variable {x : Convert α} {O O' : Offences}

theorem ok {a : α} (h : ∀ e, ¬ O e) : Reports (.ok a : Convert α) O := h

theorem refuse {refusal : Refusal} {span : Span} (h : O ⟨refusal, span⟩)
    (hfirst : ∀ e, O e → span.start ≤ e.span.start) :
    Reports (GoIface.refuse refusal span : Convert α) O :=
  ⟨h, hfirst⟩

theorem congr (h : Reports x O) (hO : ∀ e, O' e ↔ O e) : Reports x O' := by
  rwa [show O' = O from funext fun e => propext (hO e)]

theorem bind {f : α → Convert β} (hx : Reports x O) (hf : ∀ a, Reports (f a) O')
    (hbefore : O.Precedes O') : Reports (x >>= f) fun e => O e ∨ O' e := by
  rcases x with e | a
  · exact ⟨.inl hx.1, fun e' he' => he'.elim (hx.2 e') (hbefore e e' hx.1)⟩
  · have hnext := hf a
    show Reports (f a) _
    exact hnext.congr fun e => or_iff_right (hx e)

theorem finish {f : α → β} (hx : Reports x O) : Reports (x >>= fun a => pure (f a)) O := by
  rcases x with e | a <;> exact hx

theorem map {f : α → β} (hx : Reports x O) : Reports (f <$> x) O := by
  rcases x with e | a <;> exact hx

theorem mapM {f : α → Convert β} {O : α → Offences} :
    ∀ {xs : List α}, (∀ x ∈ xs, Reports (f x) (O x)) →
      xs.Pairwise (fun x y => (O x).Precedes (O y)) →
        Reports (xs.mapM f) fun e => ∃ x ∈ xs, O x e
  | [], _, _ => ok (by simp)
  | x :: xs, h, hbefore => by
    obtain ⟨hx, hxs⟩ := List.forall_mem_cons.1 h
    obtain ⟨hfirst, hbefore⟩ := List.pairwise_cons.1 hbefore
    rw [List.mapM_cons]
    refine (hx.bind (fun y => (mapM hxs hbefore).finish) ?_).congr fun e => by simp
    rintro e e' he ⟨y, hy, he'⟩
    exact hfirst y hy e e' he he'

end Convert.Reports

/-! ## Parameters -/

section

variable {g : α → Convert TypeExpr} {O : α → Offences}

theorem Field.reports_params {x : Field α} (h : Convert.Reports (g x.type) (O x.type)) :
    Convert.Reports (x.map g).params (O x.type) := h.finish

theorem FieldList.reports_params {l : FieldList α}
    (h : ∀ x ∈ l.children, Convert.Reports (g x) (O x))
    (hbefore : l.children.Pairwise fun x y => (O x).Precedes (O y)) :
    Convert.Reports (l.map g).params fun e => ∃ x ∈ l.children, O x e := by
  have hfields : Convert.Reports (l.fields.mapM fun x => (x.map g).params)
      fun e => ∃ x ∈ l.fields, O x.type e :=
    .mapM (fun x hx => Field.reports_params (h _ (List.mem_map_of_mem hx)))
      (List.pairwise_map (R := fun x y => (O x).Precedes (O y)) |>.1 hbefore)
  have hparams : (l.map g).params
      = (l.fields.mapM fun x => (x.map g).params) >>= fun pss => pure pss.flatten := by
    rw [params, map, List.mapM_map]
    rfl
  rw [hparams]
  exact hfields.finish.congr fun e => by simp [children]

theorem Results.reports_params {r : Results α}
    (h : ∀ x ∈ r.children, Convert.Reports (g x) (O x))
    (hbefore : r.children.Pairwise fun x y => (O x).Precedes (O y)) :
    Convert.Reports (r.map g).params fun e => ∃ x ∈ r.children, O x e := by
  cases r with
  | absent => exact .ok (by simp [children])
  | single t => exact (h t (by simp [children])).finish.congr fun e => by simp [children]
  | list l => exact FieldList.reports_params h hbefore

theorem Signature.reports_model {s : Signature α}
    (h : ∀ x ∈ s.children, Convert.Reports (g x) (O x))
    (hbefore : s.children.Pairwise fun x y => (O x).Precedes (O y)) :
    Convert.Reports (s.map g).model fun e => ∃ x ∈ s.children, O x e := by
  obtain ⟨hparams, hresults⟩ := List.forall_mem_append.1 h
  obtain ⟨hp, hr, hacross⟩ := List.pairwise_append.1 hbefore
  refine ((FieldList.reports_params hparams hp).bind
    (fun args => (Results.reports_params hresults hr).finish) ?_).congr fun e => ?_
  · rintro e e' ⟨x, hx, he⟩ ⟨y, hy, he'⟩
    exact hacross x hx y hy e e' he he'
  · simp [children, or_and_right, exists_or]

end

/-! ## Types -/

section

variable {scope : FileScope} {known : String → Prop}
  (hknown : ∀ x, known x ↔ ∃ path, scope.imports.lookup x = some path)

include hknown

theorem FileScope.reports_named {t : TypeNode} {qualifier : Option Ident} {name : Ident}
    (hform : t.form = .named qualifier name []) :
    Convert.Reports (scope.named qualifier name) (t.Offends scope.source known) := by
  unfold FileScope.named
  split
  · next q =>
    split
    · next path hlookup =>
      have hq : known q.name := (hknown _).2 ⟨path, hlookup⟩
      exact .ok fun e => by simp [TypeNode.offends_named_iff hform, hq]
    · next hlookup =>
      refine .refuse (.qualifier hform fun hq => ?_) fun e he => ?_
      · obtain ⟨path, hpath⟩ := (hknown _).1 hq
        simp [hlookup] at hpath
      · obtain ⟨_, ⟨⟩, -, rfl⟩ := (TypeNode.offends_named_iff hform).1 he
        exact Nat.le_refl _
  · have hnone : ∀ e, ¬ t.Offends scope.source known e := by
      simp [TypeNode.offends_named_iff hform]
    split <;> exact .ok hnone

omit hknown in
theorem FileScope.reports_arrayLength {t elem : TypeNode} {n : Span}
    (hform : t.form = .array n elem) :
    Convert.Reports (scope.arrayLength n) (t.Offends scope.source known) := by
  unfold FileScope.arrayLength
  dsimp only
  split
  · next k hk => exact .ok fun e => by simp [TypeNode.offends_array_iff hform, hk]
  · next fault hfault =>
    refine .refuse (.length hform hfault) fun e he => ?_
    obtain ⟨-, -, rfl⟩ := (TypeNode.offends_array_iff hform).1 he
    exact Nat.le_refl _

omit hknown in
/-- What stands for a type without a model of its own is refused before what is in it. -/
theorem TypeNode.reports_refuse {t : TypeNode} (htidy : ∀ u : TypeNode, u.Within t → u.Tidy)
    {refusal : Refusal} (h : t.Offends scope.source known ⟨refusal, t.span⟩) :
    Convert.Reports (refuse refusal t.span : Convert α) (t.offences scope.source known) :=
  .refuse ⟨t, .self, h⟩ fun _ he => (bounds_of_offences htidy he).1

omit hknown in
/-- An empty struct or interface is the model of what holds no type and offends in nothing. -/
theorem TypeNode.reports_pure {t : TypeNode} {a : α} (hchildren : t.form.children = [])
    (h : ∀ e, ¬ t.Offends scope.source known e) :
    Convert.Reports (pure a : Convert α) (t.offences scope.source known) :=
  .ok fun e => offences_iff.not.2 (by simp [hchildren, h])

omit hknown in
/-- What is wrong with the length of an array stands before what is wrong with its elements. -/
theorem TypeNode.reports_array {t elem : TypeNode} {n : Span} {f : Nat → TypeExpr → TypeExpr}
    (hform : t.form = .array n elem) (htidy : ∀ u : TypeNode, u.Within t → u.Tidy)
    (helem : Convert.Reports (elem.model scope) (elem.offences scope.source known)) :
    Convert.Reports (scope.arrayLength n >>= fun k => elem.model scope >>= fun u => pure (f k u))
      (t.offences scope.source known) := by
  have hlength : Convert.Reports (scope.arrayLength n) (t.Offends scope.source known) :=
    scope.reports_arrayLength hform
  refine (hlength.bind (fun k => helem.finish) fun e e' he he' => ?_).congr fun e =>
    offences_iff.trans (by simp [hform, TypeForm.children])
  obtain ⟨-, -, hbefore⟩ := (htidy _ .self).length n elem hform
  have hinside := bounds_of_offences
    (fun v hv => htidy v (.child (by simp [hform, TypeForm.children]) hv)) he'
  obtain ⟨fault, -, rfl⟩ := (offends_array_iff hform).1 he
  exact Nat.le_trans hbefore hinside.1

/-- The model of a type reports the offences in the type. -/
theorem TypeNode.reports_model (t : TypeNode) (htidy : ∀ u : TypeNode, u.Within t → u.Tidy) :
    Convert.Reports (t.model scope) (t.offences scope.source known) := by
  induction t using TypeNode.induct with
  | h serial span form ih =>
    have hchild : ∀ u ∈ form.children,
        Convert.Reports (u.model scope) (u.offences scope.source known) :=
      fun u hu => ih u hu fun v hv => htidy v (.child hu hv)
    have hpairs : form.children.Pairwise fun u v =>
        (u.offences scope.source known).Precedes (v.offences scope.source known) :=
      pairwise_offences htidy
    have hplain (h : form.IsPlain) (e : Located Refusal) :
        (mk serial span form).offences scope.source known e ↔
          ∃ u ∈ form.children, u.offences scope.source known e := offences_of_isPlain h
    have hone {u : TypeNode} (h : form.IsPlain) (hu : form.children = [u]) {x : Convert TypeExpr}
        (hx : Convert.Reports (u.model scope) (u.offences scope.source known) →
          Convert.Reports x (u.offences scope.source known)) :
        Convert.Reports x ((mk serial span form).offences scope.source known) :=
      (hx (hchild u (by simp [hu]))).congr fun e => by simp [hplain h, hu]
    rw [model, fold_mk]
    cases form with
    | named qualifier name args =>
      rcases args with _ | ⟨arg, args⟩
      · have hnamed :=
          scope.reports_named hknown (t := mk serial span (.named qualifier name [])) rfl
        exact hnamed.congr fun e => offences_iff.trans (by simp [form, TypeForm.children])
      · exact reports_refuse htidy (.instantiation rfl (List.cons_ne_nil _ _))
    | struct keyword fields =>
      rcases fields with _ | ⟨x, xs⟩
      · exact reports_pure rfl fun e he => ((offends_struct_iff rfl).1 he).1 rfl
      · exact reports_refuse htidy (.struct rfl (List.cons_ne_nil _ _))
    | interface keyword elements =>
      rcases elements with _ | ⟨x, xs⟩
      · exact reports_pure rfl fun e he => ((offends_interface_iff rfl).1 he).1 rfl
      · exact reports_refuse htidy (.interface rfl (List.cons_ne_nil _ _))
    | array n elem => exact reports_array rfl htidy (hchild elem (by simp [TypeForm.children]))
    | mapping keyword key value =>
      have hkey := hchild key (by simp [TypeForm.children])
      have hvalue := hchild value (by simp [TypeForm.children])
      refine (hkey.bind (fun k => hvalue.finish) ?_).congr fun e => ?_
      · simpa [TypeForm.children] using hpairs
      · simp [hplain trivial, TypeForm.children]
    | func keyword s =>
      exact (Signature.reports_model hchild hpairs).finish.congr (hplain trivial)
    | pointer star elem => exact hone trivial rfl fun h => h.map
    | slice lbrack elem => exact hone trivial rfl fun h => h.map
    | chan direction keyword elem => exact hone trivial rfl fun h => h.map
    | paren lparen elem => exact hone trivial rfl fun h => h

end

/-! ## Declared interfaces -/

section

variable {scope : FileScope} {known : String → Prop}
  (hknown : ∀ x, known x ↔ ∃ path, scope.imports.lookup x = some path)

include hknown

theorem Element.reports_model {x : Element TypeNode}
    (htidy : ∀ t ∈ x.children, ∀ u : TypeNode, u.Within t → u.Tidy)
    (hpairs : x.children.Pairwise fun t u =>
      (t.offences scope.source known).Precedes (u.offences scope.source known)) :
    Convert.Reports (x.model scope) (x.Offends scope.source known) := by
  cases x with
  | union terms =>
    refine .refuse .union fun e he => ?_
    cases he
    exact Nat.le_refl _
  | method name s =>
    have hsignature := Signature.reports_model
      (fun t ht => t.reports_model hknown (htidy t ht)) hpairs
    refine hsignature.finish.congr fun e => ⟨fun he => ?_, ?_⟩
    · cases he with
      | method ht he => exact ⟨_, ht, he⟩
    · rintro ⟨t, ht, he⟩
      exact .method ht he

omit hknown in
theorem TypeSpec.reports_model {s : TypeSpec} {elements : List (Element TypeNode)}
    (helements : s.elements? = some elements)
    (hx : ∀ x ∈ elements, Convert.Reports (x.model scope) (x.Offends scope.source known))
    (hpairs : elements.Pairwise fun x y =>
      Offences.Precedes (x.Offends scope.source known) (y.Offends scope.source known))
    (hparams : ∀ params ∈ s.params, ∀ x ∈ elements, ∀ e, x.Offends scope.source known e →
      params.start ≤ e.span.start) :
    Convert.Reports (s.model scope elements) (s.Offends scope.source known) := by
  unfold TypeSpec.model
  split
  · next params hsome =>
    refine .refuse (.generic helements hsome) fun e he => ?_
    cases he with
    | generic helements' hparams' =>
      obtain rfl : params = _ := Option.some.inj (hsome.symm.trans hparams')
      exact Nat.le_refl _
    | element helements' hx he =>
      obtain rfl := Option.some.inj (helements.symm.trans helements')
      exact hparams params hsome _ hx _ he
  · next hnone =>
    refine (Convert.Reports.mapM hx hpairs).finish.congr fun e => ⟨?_, ?_⟩
    · rintro (⟨-, hparams⟩ | ⟨helements', hx, he⟩)
      · simp [hnone] at hparams
      · obtain rfl := Option.some.inj (helements.symm.trans helements')
        exact ⟨_, hx, he⟩
    · rintro ⟨x, hx, he⟩
      exact .element helements hx he

end

section

variable {T : LexedText} {s : TypeSpec} {elements : List (Element TypeNode)} {scope : FileScope}
  {known : String → Prop} (hreads : ∀ u : TypeNode, u.Within s.type → T.Reads u)
  (hknown : ∀ x, known x ↔ ∃ path, scope.imports.lookup x = some path)

include hreads hknown

theorem TypeSpec.reports_declared {run : List Lexeme} (hrun : run <:+: T.lexemes)
    (hin : LexedText.SpecIn run s) (helements : s.elements? = some elements) :
    Convert.Reports (s.model scope elements) (s.Offends scope.source known) := by
  refine reports_model helements (fun x hx => ?_) (pairwise_element_offends hreads helements)
    fun params hp x hx e he => params_le hreads hrun hin hp helements hx he
  obtain ⟨keyword, hform⟩ := form_of_elements? helements
  have hpairs : s.type.form.children.Pairwise fun t u =>
      (t.offences scope.source known).Precedes (u.offences scope.source known) :=
    TypeNode.pairwise_offences fun u hu => (hreads u hu).tidy
  rw [hform] at hpairs
  refine Element.reports_model hknown (fun t ht u hu => ?_)
    ((List.pairwise_flatMap.1 hpairs).1 x hx)
  exact tidy_of_element hreads helements hx ht hu

end

/-! ## Sources -/

theorem reports_modelAll {resolve : Resolver} {source importPath : String} {file : File}
    {made : Counts} {table : Bindings} (hfile : File.ofSource source = .ok (file, made))
    (hbind : bindImports resolve source file.imports = .ok table) :
    Convert.Reports (modelAll ⟨source, table, importPath⟩ file.decls)
      (file.Offends resolve source) := by
  have hknown (x : String) : (∃ i ∈ file.imports, i.Binds resolve source x) ↔
      ∃ path, table.lookup x = some path := by
    simp only [lookup_of_bindImports hbind]
    constructor
    · rintro ⟨i, hi, hx⟩
      exact ⟨_, i, hi, hx, rfl⟩
    · rintro ⟨-, i, hi, hx, -⟩
      exact ⟨i, hi, hx⟩
  obtain ⟨run, hrun, hspecs⟩ := spec_ofSource hfile LexedText.file_parts
  rw [modelAll, ← File.interfaces_eq_flatMap]
  refine Convert.Reports.congr (.mapM (O := fun p => p.1.Offends source
    fun x => ∃ i ∈ file.imports, i.Binds resolve source x) ?_
    (pairwise_interface_offends hfile _)) fun e => File.offends_iff
  rintro ⟨s, elements⟩ hp
  obtain ⟨d, hd, hs, helements⟩ := File.mem_interfaces.1 hp
  have hmem : s ∈ file.decls.flatMap Decl.typeSpecs := List.mem_flatMap.2 ⟨d, hd, hs⟩
  obtain ⟨part, hpart, hin⟩ := hspecs.exists_of_mem hmem
  exact TypeSpec.reports_declared (reads_of_typeSpec hfile hmem) hknown (hpart.trans hrun) hin
    helements

/-- A file whose imports bind identifiers once is refused just when something is wrong in the
interfaces that it declares, and the place and the reason are those of what is wrong first. -/
theorem first_offence_is_reported {resolve : Resolver} {name source importPath : String}
    {file : File} {made : Counts} (hfile : File.ofSource source = .ok (file, made))
    (honce : BoundOnce resolve source file.imports) :
    ((∃ place refusal, FileModel.ofSource resolve name source importPath
        = .error (.refused place refusal)) ↔ ∃ e, file.Offends resolve source e) ∧
    ((∃ m, FileModel.ofSource resolve name source importPath = .ok m) ↔
      ¬ ∃ e, file.Offends resolve source e) ∧
    ∀ place refusal, FileModel.ofSource resolve name source importPath
        = .error (.refused place refusal) →
      ∃ e, (file.Offends resolve source).IsFirst e ∧ place = placeIn name source e.span ∧
        refusal = e.fault := by
  have hbind := bindImports_eq_ok_iff.2 ⟨honce, rfl⟩
  have hreports : Convert.Reports (modelAll ⟨source, _, importPath⟩ file.decls)
      (file.Offends resolve source) := reports_modelAll hfile hbind
  have hsource : FileModel.ofSource resolve name source importPath
      = FileModel.ofFile resolve name source importPath file := by
    simp [FileModel.ofSource, readFile, hfile, bind, Except.bind]
  rw [hsource, FileModel.ofFile_of_bound hbind]
  rcases hmodel : modelAll ⟨source, importBindings resolve source file.imports, importPath⟩
    file.decls with e | interfaces
  all_goals rw [hmodel] at hreports
  · have hfirst : (file.Offends resolve source).IsFirst e := hreports
    refine ⟨by simpa using ⟨e, hfirst.1⟩, by simpa using ⟨e, hfirst.1⟩, ?_⟩
    rintro place refusal ⟨⟩
    exact ⟨e, hfirst, rfl, rfl⟩
  · have hnone : ∀ e, ¬ file.Offends resolve source e := hreports
    exact ⟨by simpa using hnone, by simpa using hnone, by simp⟩

/-- A length is the first of several things here that have no model. -/
def offendingSource : String :=
  "package p\nimport q \"a/b\"\n"
    ++ "type I interface { M(x q.T, f func([n]r.V[int])) (s struct { t T }) }\n"

theorem length_is_reported_first : ∃ file made e,
    File.ofSource offendingSource = .ok (file, made) ∧
      BoundOnce (fun _ => none) offendingSource file.imports ∧
      (file.Offends (fun _ => none) offendingSource).IsFirst e ∧
      placeIn "p.go" offendingSource e.span = ⟨"p.go", ⟨3, 37⟩⟩ ∧
      e.fault = .arrayLength "n" .invalidDigit := by
  have hread : (File.ofSource offendingSource).toOption.map
      (fun p => collision? [] (importBindings (fun _ => none) offendingSource p.1.imports))
        = some none := by decide +kernel
  have hrefuse : (FileModel.ofSource (fun _ => none) "p.go" offendingSource "p").map (fun _ => ())
      = .error (.refused ⟨"p.go", ⟨3, 37⟩⟩ (.arrayLength "n" .invalidDigit)) := by decide +kernel
  rcases hfile : File.ofSource offendingSource with e | ⟨file, made⟩
  · rw [hfile] at hread
    cases hread
  have honce : BoundOnce (fun _ => none) offendingSource file.imports := by
    rw [hfile] at hread
    exact collision?_importBindings_eq_none_iff.1 (Option.some.inj hread)
  rcases hmodel : FileModel.ofSource (fun _ => none) "p.go" offendingSource "p" with e | m <;>
    rw [hmodel] at hrefuse
  · obtain rfl := Except.error.inj hrefuse
    obtain ⟨e, he, hplace, hfault⟩ := (first_offence_is_reported hfile honce).2.2 _ _ hmodel
    exact ⟨file, made, e, rfl, honce, he, hplace.symm, hfault.symm⟩
  · cases hrefuse

end GoIface
