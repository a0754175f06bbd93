import GoIface.Proofs.Discovery
import GoIface.Proofs.FormParts
import GoIface.Proofs.ImportTable
import GoIface.Proofs.PlacedModels

/-!
# Models are well formed

In the model of a source a variadic parameter has a slice for its type, what is predeclared is an
empty literal or a name that is not exported, and what is named stands in the package of the source
or in one that the source imports (`models_are_well_formed`). Each step of the conversion keeps
this, so it holds at every depth.
-/

namespace GoIface

variable {α β : Type}

/-! ## Types that are well formed -/

/-- A name that stands for itself: that of an empty literal, or one that is not exported. -/
def IsPredeclared (name : String) : Prop :=
  name = "struct\x7b\x7d" ∨ name = "interface\x7b\x7d" ∨
    Piece.isIdentifier name = true ∧ isExported name = false

/-- Only what is collected in a slice is variadic. -/
def Parameter.Collects (p : Param) : Prop := p.variadic = true → ∃ elem, p.type = .slice elem

/-- The packages are among the paths, and names and parameters are what they should be, at any
depth. -/
inductive TypeExpr.WellFormed (paths : List String) : TypeExpr → Prop
  | array {length : Nat} {elem : TypeExpr} (h : WellFormed paths elem) :
      WellFormed paths (.array length elem)
  | slice {elem : TypeExpr} (h : WellFormed paths elem) : WellFormed paths (.slice elem)
  | pointer {elem : TypeExpr} (h : WellFormed paths elem) : WellFormed paths (.pointer elem)
  | mapping {key value : TypeExpr} (hkey : WellFormed paths key)
      (hvalue : WellFormed paths value) : WellFormed paths (.mapping key value)
  | chan {direction : Direction} {elem : TypeExpr} (h : WellFormed paths elem) :
      WellFormed paths (.chan direction elem)
  | func {args results : List Param} (hcollects : ∀ p ∈ args ++ results, p.Collects)
      (h : ∀ p ∈ args ++ results, WellFormed paths p.type) : WellFormed paths (.func args results)
  | named {package name : String} (h : package ∈ paths) : WellFormed paths (.named package name)
  | predeclared {name : String} (h : IsPredeclared name) : WellFormed paths (.predeclared name)

/-- Every parameter is well formed. -/
def ParamsWellFormed (paths : List String) (ps : List Param) : Prop :=
  ∀ p ∈ ps, p.Collects ∧ p.type.WellFormed paths

def Method.WellFormed (paths : List String) (m : Method) : Prop :=
  ParamsWellFormed paths (m.args ++ m.results)

def Interface.WellFormed (paths : List String) (i : Interface) : Prop :=
  ∀ m ∈ i.methods, m.WellFormed paths

section

variable {paths : List String}

theorem TypeExpr.WellFormed.packages_subset {t : TypeExpr} (h : t.WellFormed paths) :
    t.packages ⊆ paths := by
  induction h with
  | array _ ih | slice _ ih | pointer _ ih | chan _ ih => simpa [packages] using ih
  | mapping _ _ ihkey ihvalue => simpa [packages] using ⟨ihkey, ihvalue⟩
  | @func args results _ _ ih =>
    rw [packages, packagesOfAll_eq_flatMap, packagesOfAll_eq_flatMap, ← List.flatMap_append]
    intro p hp
    obtain ⟨q, hq, hp⟩ := List.mem_flatMap.1 hp
    exact ih q hq (packagesOfParam_eq q ▸ hp)
  | named h =>
    unfold packages
    split
    · simp
    · simpa using h
  | predeclared _ => simp [packages]

theorem ParamsWellFormed.packages_subset {ps : List Param} (h : ParamsWellFormed paths ps) :
    ps.flatMap packagesOfParam ⊆ paths := by
  intro p hp
  obtain ⟨q, hq, hp⟩ := List.mem_flatMap.1 hp
  exact (h q hq).2.packages_subset (packagesOfParam_eq q ▸ hp)

theorem Method.WellFormed.packages_subset {m : Method} (h : m.WellFormed paths) :
    m.packages ⊆ paths := by
  rw [packages, ← List.flatMap_append]
  exact ParamsWellFormed.packages_subset h

theorem Interface.WellFormed.packages_subset {i : Interface} (h : i.WellFormed paths) :
    ∀ p ∈ i.packages, p ∈ paths := by
  intro p hp
  rw [Interface.packages, PathSet.mem_addAll] at hp
  obtain ⟨m, hm, hp⟩ := List.mem_flatMap.1 (hp.resolve_left (by simp))
  exact (h m hm).packages_subset hp

/-! ## Conversions and what they make -/

/-- What is converted has the property, if it is converted. -/
def Convert.Ensures (x : Convert α) (P : α → Prop) : Prop := ∀ a, x = .ok a → P a

namespace Convert.Ensures

variable {x : Convert α} {P : α → Prop} {Q : β → Prop}

theorem pure {a : α} (h : P a) : Ensures (Pure.pure a) P := by
  rintro _ ⟨⟩
  exact h

theorem refuse {refusal : Refusal} {span : Span} : Ensures (GoIface.refuse refusal span) P := by
  rintro _ ⟨⟩

theorem bind {f : α → Convert β} (hx : Ensures x P) (hf : ∀ a, P a → Ensures (f a) Q) :
    Ensures (x >>= f) Q := by
  intro b hb
  obtain ⟨a, ha, hb⟩ := ok_of_bind hb
  exact hf a (hx a ha) b hb

theorem map {f : α → β} (hx : Ensures x P) (hf : ∀ a, P a → Q (f a)) : Ensures (f <$> x) Q := by
  rcases x with e | a
  · rintro _ ⟨⟩
  · rintro _ ⟨⟩
    exact hf a (hx a rfl)

theorem mapM {f : α → Convert β} {xs : List α} (h : ∀ x ∈ xs, Ensures (f x) Q) :
    Ensures (xs.mapM f) fun ys => ∀ y ∈ ys, Q y := by
  intro ys hys
  have hpairs := forall₂_of_mapM hys
  clear hys
  induction hpairs with
  | nil => simp
  | cons hy _ ih =>
    obtain ⟨hx, hxs⟩ := List.forall_mem_cons.1 h
    exact List.forall_mem_cons.2 ⟨hx _ hy, ih hxs⟩

end Convert.Ensures

/-! ## Each step of the conversion -/

section

variable {scope : FileScope} {span : Span}

/-- The paths that a file may name are among the given ones. -/
structure FileScope.Within (scope : FileScope) (paths : List String) : Prop where
  own : scope.importPath ∈ paths
  bound : ∀ x path, scope.imports.lookup x = some path → path ∈ paths

/-- The unqualified names of a form are identifiers. -/
def TypeForm.NamesAreIdentifiers (form : TypeForm α) : Prop :=
  ∀ name args, form = .named none name args → Piece.isIdentifier name.name = true

theorem FileScope.Within.ownPackage (h : scope.Within paths) : scope.ownPackage ∈ paths := by
  rw [FileScope.ownPackage]
  rcases hlookup : scope.imports.lookup scope.importPath with _ | path
  · exact h.own
  · exact h.bound _ _ hlookup

theorem FileScope.wellFormed_named (h : scope.Within paths) {qualifier : Option Ident}
    {name : Ident} (hname : qualifier = none → Piece.isIdentifier name.name = true) :
    Convert.Ensures (scope.named qualifier name) (TypeExpr.WellFormed paths) := by
  unfold FileScope.named
  split
  · split
    · next hlookup => exact .pure (.named (h.bound _ _ hlookup))
    · exact .refuse
  · split
    · exact .pure (.named h.ownPackage)
    · next hlower => exact .pure (.predeclared (.inr (.inr ⟨hname rfl, by simpa using hlower⟩)))

theorem ParamsWellFormed.append {ps qs : List Param} (hps : ParamsWellFormed paths ps)
    (hqs : ParamsWellFormed paths qs) : ParamsWellFormed paths (ps ++ qs) :=
  List.forall_mem_append.2 ⟨hps, hqs⟩

theorem Field.wellFormed_params {x : Field (Convert TypeExpr)}
    (h : Convert.Ensures x.type (TypeExpr.WellFormed paths)) :
    Convert.Ensures x.params (ParamsWellFormed paths) := by
  refine h.bind fun elem helem => .pure ?_
  intro p hp
  obtain ⟨name, -, rfl⟩ := List.mem_map.1 hp
  cases x.ellipsis with
  | none => exact ⟨fun hvariadic => absurd hvariadic Bool.false_ne_true, helem⟩
  | some span => exact ⟨fun _ => ⟨elem, rfl⟩, .slice helem⟩

theorem FieldList.wellFormed_params {l : FieldList (Convert TypeExpr)}
    (h : ∀ x ∈ l.children, Convert.Ensures x (TypeExpr.WellFormed paths)) :
    Convert.Ensures l.params (ParamsWellFormed paths) := by
  have hfields : ∀ x ∈ l.fields, Convert.Ensures x.params (ParamsWellFormed paths) :=
    fun x hx => Field.wellFormed_params (h _ (List.mem_map_of_mem hx))
  refine (Convert.Ensures.mapM hfields).bind fun pss hpss => .pure ?_
  intro p hp
  obtain ⟨ps, hps, hp⟩ := List.mem_flatten.1 hp
  exact hpss ps hps p hp

theorem Signature.wellFormed_model {s : Signature (Convert TypeExpr)}
    (h : ∀ x ∈ s.children, Convert.Ensures x (TypeExpr.WellFormed paths)) :
    Convert.Ensures s.model fun p => ParamsWellFormed paths (p.1 ++ p.2) := by
  obtain ⟨hparams, hresults⟩ := List.forall_mem_append.1 h
  refine (FieldList.wellFormed_params hparams).bind fun args hargs => ?_
  have hres : Convert.Ensures s.results.params (ParamsWellFormed paths) := by
    rcases hr : s.results with _ | t | l <;> rw [hr] at hresults
    · exact .pure (by simp [ParamsWellFormed])
    · refine (hresults t (by simp [Results.children])).bind fun type htype => .pure ?_
      simpa [ParamsWellFormed, Parameter.Collects] using htype
    · exact FieldList.wellFormed_params hresults
  exact hres.bind fun results hresults => .pure (hargs.append hresults)

theorem TypeForm.wellFormed_model (hscope : scope.Within paths)
    {form : TypeForm (Convert TypeExpr)} (hnames : form.NamesAreIdentifiers)
    (h : ∀ x ∈ form.children, Convert.Ensures x (TypeExpr.WellFormed paths)) :
    Convert.Ensures (form.model scope span) (TypeExpr.WellFormed paths) := by
  cases form with
  | named qualifier name args =>
    rw [TypeForm.model]
    split
    · exact FileScope.wellFormed_named hscope fun hnone => hnames name args (hnone ▸ rfl)
    · exact .refuse
  | pointer star elem => exact (h elem (by simp [children])).map fun _ helem => .pointer helem
  | array length elem =>
    have hlength : Convert.Ensures (scope.arrayLength length) fun _ => True := fun _ _ => trivial
    exact hlength.bind fun n _ => (h elem (by simp [children])).bind fun _ helem =>
      .pure (.array helem)
  | slice lbrack elem => exact (h elem (by simp [children])).map fun _ helem => .slice helem
  | mapping keyword key value =>
    exact (h key (by simp [children])).bind fun _ hkey =>
      (h value (by simp [children])).bind fun _ hvalue => .pure (.mapping hkey hvalue)
  | chan direction keyword elem =>
    exact (h elem (by simp [children])).map fun _ helem => .chan helem
  | struct keyword fields =>
    rw [TypeForm.model]
    split
    · exact .pure (.predeclared (.inl rfl))
    · exact .refuse
  | interface keyword elements =>
    rw [TypeForm.model]
    split
    · exact .pure (.predeclared (.inr (.inl rfl)))
    · exact .refuse
  | func keyword signature =>
    refine (Signature.wellFormed_model h).bind fun p hp => .pure ?_
    exact .func (fun q hq => (hp q hq).1) fun q hq => (hp q hq).2
  | paren lparen type => exact h type (by simp [children])

theorem TypeForm.NamesAreIdentifiers.map {form : TypeForm α} (h : form.NamesAreIdentifiers)
    (f : α → β) : (form.map f).NamesAreIdentifiers := by
  intro name args hform
  cases form with
  | named qualifier x xs =>
    cases hform
    exact h _ xs rfl
  | _ => cases hform

theorem TypeNode.wellFormed_model (hscope : scope.Within paths) (t : TypeNode)
    (hnames : ∀ u : TypeNode, u.Within t → u.form.NamesAreIdentifiers) :
    Convert.Ensures (t.model scope) (TypeExpr.WellFormed paths) := by
  induction t using TypeNode.induct with
  | h serial span form ih =>
    rw [model, fold_mk]
    refine TypeForm.wellFormed_model hscope ((hnames _ .self).map _) fun x hx => ?_
    rw [TypeForm.children_map] at hx
    obtain ⟨u, hu, rfl⟩ := List.mem_map.1 hx
    exact ih u hu fun v hv => hnames v (.child hu hv)

theorem Element.wellFormed_model (hscope : scope.Within paths) {e : Element TypeNode}
    (hnames : ∀ t ∈ e.children, ∀ u : TypeNode, u.Within t → u.form.NamesAreIdentifiers) :
    Convert.Ensures (e.model scope) (Method.WellFormed paths) := by
  cases e with
  | method name s =>
    refine (Signature.wellFormed_model fun x hx => ?_).bind fun p hp => .pure hp
    rw [Signature.children_map] at hx
    obtain ⟨t, ht, rfl⟩ := List.mem_map.1 hx
    exact TypeNode.wellFormed_model hscope t (hnames t ht)
  | union terms => exact .refuse

theorem TypeSpec.wellFormed_model (hscope : scope.Within paths) {s : TypeSpec}
    {elements : List (Element TypeNode)} (hnames : ∀ e ∈ elements, ∀ t ∈ e.children,
      ∀ u : TypeNode, u.Within t → u.form.NamesAreIdentifiers) :
    Convert.Ensures (s.model scope elements) (Interface.WellFormed paths) := by
  unfold TypeSpec.model
  split
  · exact .refuse
  · refine (Convert.Ensures.mapM fun e he => ?_).bind fun methods hmethods => .pure hmethods
    exact Element.wellFormed_model hscope (hnames e he)

theorem wellFormed_modelAll (hscope : scope.Within paths) {ds : List Decl}
    (hnames : ∀ d ∈ ds, ∀ root ∈ d.roots, ∀ u : TypeNode, u.Within root →
      u.form.NamesAreIdentifiers) :
    Convert.Ensures (modelAll scope ds) fun is => ∀ i ∈ is, i.WellFormed paths := by
  refine .mapM ?_
  rintro ⟨s, elements⟩ hp
  obtain ⟨d, hd, hp⟩ := List.mem_flatMap.1 hp
  refine TypeSpec.wellFormed_model hscope fun e he t ht u hu => ?_
  obtain ⟨root, hroot, hwithin⟩ := Decl.within_of_interfaces hp he ht
  exact hnames d hd root hroot u (hu.trans hwithin)

end

/-! ## The model of a source -/

def ImportSpec.isBlank (i : ImportSpec) : Bool := i.name matches some (.blank _)

/-- The import path of a file and the paths of its imports, blank ones left out. -/
def File.packagePaths (source importPath : String) (f : File) : List String :=
  importPath :: (f.imports.filter (!·.isBlank)).map (·.path.value source)

theorem ImportSpec.Binds.not_blank {resolve : Resolver} {source x : String} {i : ImportSpec}
    (h : i.Binds resolve source x) : i.isBlank = false := by
  cases h <;> simp [isBlank, *]

theorem FileScope.within_packagePaths {resolve : Resolver} {source importPath : String} {f : File}
    {table : Bindings} (h : bindImports resolve source f.imports = .ok table) :
    FileScope.Within ⟨source, table, importPath⟩ (f.packagePaths source importPath) where
  own := .head _
  bound x path hlookup := by
    obtain ⟨i, hi, hbinds, rfl⟩ := (lookup_of_bindImports h).1 hlookup
    have hmem : i ∈ f.imports.filter (!·.isBlank) := by simp [hi, hbinds.not_blank]
    exact List.mem_cons_of_mem _ (List.mem_map.2 ⟨i, hmem, rfl⟩)

/-- The unqualified names in the types of a source are identifiers. -/
theorem namesAreIdentifiers_ofSource {source : String} {file : File} {made : Counts}
    (h : File.ofSource source = .ok (file, made)) : ∀ d ∈ file.decls, ∀ root ∈ d.roots,
      ∀ u : TypeNode, u.Within root → u.form.NamesAreIdentifiers := by
  intro d hd root hroot u hu name args hform
  obtain ⟨run, hrun, hholds⟩ := holds_ofSource h
  have hmade := hholds.typed root (List.mem_flatMap.2 ⟨d, hd, hroot⟩) u hu
  obtain ⟨part, hstands⟩ := hmade.reads.standsIn
  have hparts := hstands.parts
  rw [hform] at hparts
  obtain ⟨⟨l, hl, htoken, -⟩, -⟩ := hparts
  have hspelled := wellSpelled_lex source l (hstands.stretch.subset hl)
  rwa [htoken] at hspelled

/-- The model of a source is well formed at every depth, with no packages but its own and those it
imports. -/
theorem models_are_well_formed {resolve : Resolver} {name source importPath : String}
    {m : FileModel} (h : FileModel.ofSource resolve name source importPath = .ok m) :
    ∃ file made, File.ofSource source = .ok (file, made) ∧ ∀ i ∈ m.interfaces,
      i.WellFormed (file.packagePaths source importPath) ∧
        ∀ p ∈ i.packages, p ∈ file.packagePaths source importPath := by
  obtain ⟨file, made, hfile, hmodel⟩ := FileModel.ofSource_eq_ok_iff.1 h
  obtain ⟨table, hbind, hinterfaces, -⟩ := FileModel.ofFile_eq_ok_iff.1 hmodel
  refine ⟨file, made, hfile, fun i hi => ?_⟩
  have hwell := wellFormed_modelAll (FileScope.within_packagePaths hbind)
    (namesAreIdentifiers_ofSource hfile) _ hinterfaces i hi
  exact ⟨hwell, hwell.packages_subset⟩

end

/-- A blank import beside one that is used, and a name of the package itself. -/
def mixedPackages : String :=
  "package p\nimport q \"a/b\"\nimport _ \"c\"\n"
    ++ "type I interface { M(xs ...q.T, f func(struct {}) error) (own Own) }\n"

theorem mixedPackages_wellFormed : ∃ m,
    FileModel.ofSource (fun _ => none) "p.go" mixedPackages "me/p" = .ok m ∧
      m.interfaces.map Interface.packages = [["a/b", "me/p"]] ∧
      ∃ file made, File.ofSource mixedPackages = .ok (file, made) ∧ ∀ i ∈ m.interfaces,
        i.WellFormed (file.packagePaths mixedPackages "me/p") ∧
          ∀ p ∈ i.packages, p ∈ file.packagePaths mixedPackages "me/p" := by
  have hmodel : (FileModel.ofSource (fun _ => none) "p.go" mixedPackages "me/p").toOption.map
      (·.interfaces.map Interface.packages) = some [["a/b", "me/p"]] := by
    decide +kernel
  rcases h : FileModel.ofSource (fun _ => none) "p.go" mixedPackages "me/p" with e | m
  · rw [h] at hmodel
    cases hmodel
  · rw [h] at hmodel
    exact ⟨m, rfl, Option.some_inj.1 hmodel, models_are_well_formed h⟩

end GoIface
