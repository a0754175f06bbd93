import GoIface.Proofs.Discovery
import GoIface.Proofs.PlacedModels
import GoIface.Proofs.Renaming

/-!
# Models of trees under other names

A qualifier means the path that it is bound to, and the model of a type holds the path and not the
qualifier. So where qualifiers are bound under their new names to the paths that they were bound to
before, and all other identifiers keep their names, what has a model keeps it
(`carries_modelAll_renamed`).
-/

namespace GoIface

variable {α β : Type}

/-- What the first conversion makes the second one makes too. -/
def Convert.Carries (x y : Convert α) : Prop := ∀ a, x = .ok a → y = .ok a

namespace Convert.Carries

variable {x y : Convert α}

theorem refl (x : Convert α) : Carries x x := fun _ h => h

theorem error {e : Located Refusal} : Carries (.error e) y := by
  rintro _ ⟨⟩

theorem bind {f g : α → Convert β} (h : Carries x y) (hfg : ∀ a, Carries (f a) (g a)) :
    Carries (x >>= f) (y >>= g) := by
  intro b hb
  obtain ⟨a, ha, hb⟩ := ok_of_bind hb
  rw [h a ha]
  exact hfg a b hb

theorem mapM {f g : α → Convert β} :
    ∀ {xs : List α}, (∀ x ∈ xs, Carries (f x) (g x)) → Carries (xs.mapM f) (xs.mapM g)
  | [], _ => refl _
  | x :: xs, h => by
    obtain ⟨hx, hxs⟩ := List.forall_mem_cons.1 h
    rw [List.mapM_cons, List.mapM_cons]
    exact hx.bind fun _ => (mapM hxs).bind fun _ => refl _

end Convert.Carries

/-! ## Names that are kept -/

def FieldList.names (l : FieldList α) : List Ident := l.fields.flatMap (·.names)

def Results.names : Results α → List Ident
  | .absent => []
  | .single _ => []
  | .list l => l.names

def Signature.names (s : Signature α) : List Ident := s.params.names ++ s.results.names

def Element.names : Element α → List Ident
  | .method name s => name :: s.names
  | .union _ => []

/-- The identifiers of a form, apart from its qualifier and from those in the types inside it. -/
def TypeForm.names : TypeForm α → List Ident
  | .named _ name _ => [name]
  | .struct _ fields => fields.flatMap (·.names)
  | .interface _ elements => elements.flatMap (·.names)
  | .func _ s => s.names
  | _ => []

/-- The qualifier of a type that has one. -/
def TypeForm.qualifier? : TypeForm α → Option Ident
  | .named q _ _ => q
  | _ => none

/-- The identifiers keep their names. -/
def Renaming.Keeps (ρ : Renaming) (xs : List Ident) : Prop := ∀ x ∈ xs, ρ.name x = x.name

section

variable (ρ : Renaming) (P : Placement) (scope scope' : FileScope)

/-- The form keeps its names, its qualifier is bound to the same path under the new name, and its
length is the same at the new place. -/
structure TypeForm.Rebound (form : TypeForm α) : Prop where
  names : ρ.Keeps form.names
  qualifier {q : Ident} {path : String} (h : form.qualifier? = some q)
    (hpath : scope.imports.lookup q.name = some path) :
    scope'.imports.lookup (ρ.name q) = some path
  length {n : Span} {elem : α} (h : form = .array n elem) :
    (scope.arrayLength n).Carries (scope'.arrayLength (n.placed P))

/-- The type and all types inside are so. -/
def TypeNode.Rebound (t : TypeNode) : Prop :=
  ∀ u : TypeNode, u.Within t → u.form.Rebound ρ P scope scope'

end

section

variable {ρ : Renaming} {P : Placement} {scope scope' : FileScope} {g g' : α → Convert TypeExpr}

theorem FieldList.carries_params_renamed {l : FieldList α}
    (h : ∀ t ∈ l.children, Convert.Carries (g t) (g' t)) (hnames : ρ.Keeps l.names) :
    Convert.Carries (l.map g).params ((l.renamed ρ id).placed P g').params := by
  refine Convert.Carries.bind (x := (l.fields.map _).mapM _)
    (y := ((l.fields.map _).map _).mapM _) ?_ fun _ => .refl _
  rw [List.map_map, List.mapM_map, List.mapM_map]
  refine Convert.Carries.mapM fun x hx => (h _ (List.mem_map_of_mem hx)).bind fun t => ?_
  have hkept : x.names.map (fun y => ((y.renamed ρ).placed P).name) = x.names.map (·.name) :=
    List.map_congr_left fun y hy => hnames y (List.mem_flatMap.2 ⟨x, hx, hy⟩)
  simp only [Field.map, Field.renamed, Field.placed, Function.comp_apply, List.isEmpty_map,
    List.map_map, Option.isSome_map, Function.comp_def, hkept]
  exact .refl _

theorem Results.carries_params_renamed {rs : Results α}
    (h : ∀ t ∈ rs.children, Convert.Carries (g t) (g' t)) (hnames : ρ.Keeps rs.names) :
    Convert.Carries (rs.map g).params ((rs.renamed ρ id).placed P g').params := by
  cases rs with
  | absent => exact .refl _
  | single t => exact (h t (.head _)).bind fun _ => .refl _
  | list l => exact FieldList.carries_params_renamed h hnames

theorem Signature.carries_model_renamed {s : Signature α}
    (h : ∀ t ∈ s.children, Convert.Carries (g t) (g' t)) (hnames : ρ.Keeps s.names) :
    Convert.Carries (s.map g).model ((s.renamed ρ id).placed P g').model := by
  obtain ⟨hparams, hresults⟩ := List.forall_mem_append.1 h
  obtain ⟨hparamNames, hresultNames⟩ := List.forall_mem_append.1 hnames
  exact (FieldList.carries_params_renamed hparams hparamNames).bind fun _ =>
    (Results.carries_params_renamed hresults hresultNames).bind fun _ => .refl _

variable (hown : scope'.ownPackage = scope.ownPackage)

include hown

theorem FileScope.carries_named {q : Option Ident} {x : Ident} (hx : ρ.name x = x.name)
    (hq : ∀ y path, q = some y → scope.imports.lookup y.name = some path →
      scope'.imports.lookup (ρ.name y) = some path) :
    Convert.Carries (scope.named q x) (scope'.named ((q.map (Ident.renamed ρ)).map (Ident.placed P))
      ((x.renamed ρ).placed P)) := by
  rcases q with _ | y
  · simp only [FileScope.named, Option.map_none, Ident.renamed, Ident.placed, hx, hown]
    exact .refl _
  · simp only [FileScope.named, Option.map_some, Ident.renamed, Ident.placed, hx]
    split
    · next path hpath =>
      rw [hq y path rfl hpath]
      exact .refl _
    · exact .error

theorem TypeForm.carries_model_renamed {form : TypeForm α} {span span' : Span}
    (h : ∀ t ∈ form.children, Convert.Carries (g t) (g' t))
    (hform : form.Rebound ρ P scope scope') :
    Convert.Carries ((form.map g).model scope span)
      (((form.renamed ρ id).placed P g').model scope' span') := by
  cases form with
  | named q x args =>
    simp only [map, renamed, placed, model, List.isEmpty_map]
    split
    · refine FileScope.carries_named hown (hform.names x (.head _)) fun y path hy hpath => ?_
      subst hy
      exact hform.qualifier rfl hpath
    · exact .error
  | pointer _ t | slice _ t | chan _ _ t => exact (h t (.head _)).bind fun _ => .refl _
  | array n t => exact (hform.length rfl).bind fun _ => (h t (.head _)).bind fun _ => .refl _
  | mapping _ k v =>
    exact (h k (.head _)).bind fun _ => (h v (.tail _ (.head _))).bind fun _ => .refl _
  | struct _ fields =>
    simp only [map, renamed, placed, model, List.isEmpty_map]
    split
    · exact .refl _
    · exact .error
  | interface _ elements =>
    simp only [map, renamed, placed, model, List.isEmpty_map]
    split
    · exact .refl _
    · exact .error
  | func _ s => exact (Signature.carries_model_renamed h hform.names).bind fun _ => .refl _
  | paren _ t => exact h t (.head _)

theorem TypeNode.carries_model_renamed {t : TypeNode} (h : t.Rebound ρ P scope scope') :
    Convert.Carries (t.model scope) (((t.renamed ρ).placed P).model scope') := by
  induction t using TypeNode.induct with
  | h serial span form ih =>
    rw [TypeNode.renamed_mk, TypeNode.placed_mk, TypeNode.model, TypeNode.model, fold_mk, fold_mk,
      TypeForm.map_placed, ← Function.comp_id (TypeNode.renamed ρ), ← TypeForm.map_renamed,
      TypeForm.placed_map]
    exact TypeForm.carries_model_renamed hown
      (fun u hu => ih u hu fun v hv => h v (.child hu hv)) (h _ .self)

theorem Element.carries_model_renamed {e : Element TypeNode}
    (h : ∀ t ∈ e.children, t.Rebound ρ P scope scope') (hnames : ρ.Keeps e.names) :
    Convert.Carries (e.model scope) (((e.renamed ρ (TypeNode.renamed ρ)).placed P
      (TypeNode.placed P)).model scope') := by
  cases e with
  | method x s =>
    obtain ⟨hx, hs⟩ := List.forall_mem_cons.1 hnames
    have hname : ((x.renamed ρ).placed P).name = x.name := hx
    simp only [renamed, placed, model, hname, Signature.map_placed]
    rw [← Function.comp_id (TypeNode.renamed ρ), ← Signature.map_renamed, Signature.placed_map]
    exact (Signature.carries_model_renamed
      (fun t ht => TypeNode.carries_model_renamed hown (h t ht)) hs).bind fun _ => .refl _
  | union terms => exact .error

/-- Of a declared interface, with its elements. -/
theorem TypeSpec.carries_model_renamed {s : TypeSpec} {elements : List (Element TypeNode)}
    (helements : s.elements? = some elements) (h : s.type.Rebound ρ P scope scope')
    (hname : ρ.name s.name = s.name.name) :
    Convert.Carries (s.model scope elements) (((s.renamed ρ).placed P).model scope'
      ((elements.map (Element.renamed ρ (TypeNode.renamed ρ))).map
        (Element.placed P (TypeNode.placed P)))) := by
  have hname : ((s.renamed ρ).placed P).name.name = s.name.name := hname
  obtain ⟨keyword, hform⟩ := form_of_elements? helements
  rcases hparams : s.params with _ | params
  · have hparams' : ((s.renamed ρ).placed P).params = none := by simp [renamed, placed, hparams]
    simp only [model, hparams, hparams', hname, List.mapM_map]
    refine Convert.Carries.bind (Convert.Carries.mapM fun e he => ?_) fun _ => .refl _
    refine Element.carries_model_renamed hown (fun t ht u hu => ?_) fun x hx => ?_
    · exact h u (.child (child_of_element helements he ht) hu)
    · refine (h _ .self).names x ?_
      rw [hform]
      exact List.mem_flatMap.2 ⟨e, he, hx⟩
  · simp only [model, hparams]
    exact .error

omit hown

theorem TypeSpec.elements?_renamed (s : TypeSpec) : (s.renamed ρ).elements?
    = s.elements?.map (·.map (Element.renamed ρ (TypeNode.renamed ρ))) := by
  obtain ⟨name, params, assign, ⟨serial, span, form⟩⟩ := s
  simp only [elements?, renamed, TypeNode.renamed_mk, TypeNode.form]
  cases form <;> rfl

theorem Decl.interfaces_renamed (d : Decl) : (d.renamed ρ).interfaces = d.interfaces.map fun p =>
    (p.1.renamed ρ, p.2.map (Element.renamed ρ (TypeNode.renamed ρ))) := by
  rcases d with ⟨_, _, _, _, _ | specs | _⟩ | _
  · rfl
  · simp only [interfaces, renamed, typeSpecs, Specs.renamed, List.filterMap_map,
      List.map_filterMap]
    congr 1
    funext s
    simp only [Function.comp_apply, TypeSpec.elements?_renamed, Option.map_map]
    rfl
  · rfl
  · rfl

include hown

/-- What model declarations have, they have under the new names and at the new places. -/
theorem carries_modelAll_renamed {ds : List Decl} (h : ∀ d ∈ ds, ∀ s ∈ d.typeSpecs,
      s.type.Rebound ρ P scope scope' ∧ ρ.name s.name = s.name.name) :
    Convert.Carries (modelAll scope ds)
      (modelAll scope' ((ds.map (Decl.renamed ρ)).map (Decl.placed P))) := by
  have hrenamed : modelAll scope' ((ds.map (Decl.renamed ρ)).map (Decl.placed P))
      = (ds.flatMap Decl.interfaces).mapM fun p => ((p.1.renamed ρ).placed P).model scope'
        ((p.2.map (Element.renamed ρ (TypeNode.renamed ρ))).map
          (Element.placed P (TypeNode.placed P))) := by
    simp only [modelAll, List.flatMap_map, Decl.interfaces_placed, Decl.interfaces_renamed,
      ← List.map_flatMap, List.mapM_map]
    rfl
  rw [hrenamed, modelAll]
  refine Convert.Carries.mapM ?_
  rintro ⟨s, elements⟩ hp
  obtain ⟨d, hd, hp⟩ := List.mem_flatMap.1 hp
  obtain ⟨s', hs', hp⟩ := List.mem_filterMap.1 hp
  obtain ⟨es, helements, hp⟩ := Option.map_eq_some_iff.1 hp
  obtain ⟨rfl, rfl⟩ := Prod.mk.inj hp
  obtain ⟨hrebound, hname⟩ := h d hd s' hs'
  exact TypeSpec.carries_model_renamed hown helements hrebound hname

end

end GoIface
