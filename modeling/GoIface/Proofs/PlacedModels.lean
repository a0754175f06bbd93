import GoIface.Proofs.Contents
import GoIface.Proofs.FileModels
import GoIface.Proofs.Placing
import GoIface.Proofs.WrittenTypes

/-!
# Models of trees at other places

The model of a tree depends on its places only where a length of an array is read from the text,
and on the numbers of its nodes not at all. So a tree at two places has the same model, or none at
both, if its lengths are read alike there (`mute_modelAll_placed`).
-/

namespace GoIface

variable {α β γ : Type}

theorem mute_eq_ok_iff {x : Convert α} {a : α} : mute x = .ok a ↔ x = .ok a := by
  cases x <;> simp

theorem mute_mapM_congr {f g : α → Convert β} :
    ∀ {xs : List α}, (∀ x ∈ xs, mute (f x) = mute (g x)) → mute (xs.mapM f) = mute (xs.mapM g)
  | [], _ => rfl
  | x :: xs, h => by
    obtain ⟨hx, hxs⟩ := List.forall_mem_cons.1 h
    rw [List.mapM_cons, List.mapM_cons]
    exact mute_bind hx fun _ => mute_bind (mute_mapM_congr hxs) fun _ => rfl

theorem TypeNode.Within.trans {t u v : TypeNode} (h : t.Within u) (h' : u.Within v) :
    t.Within v := by
  induction h' with
  | self => exact h
  | child hv _ ih => exact .child hv (ih h)

/-! ## The parts of a tree -/

section

variable (P : Placement)

theorem FieldList.children_placed (f : α → β) (l : FieldList α) :
    (l.placed P f).children = l.children.map f := by
  simp [children, placed, Field.placed]

theorem Signature.children_placed (f : α → β) (s : Signature α) :
    (s.placed P f).children = s.children.map f := by
  rcases s with ⟨_, _, _, _ | _ | _⟩ <;>
    simp [children, placed, Results.placed, Results.children, FieldList.children_placed]

theorem TypeForm.children_placed (f : α → β) (form : TypeForm α) :
    (form.placed P f).children = form.children.map f := by
  have helement (e : Element α) : (e.placed P f).children = e.children.map f := by
    cases e <;> simp [Element.placed, Element.children, Signature.children_placed, Term.placed]
  cases form <;>
    simp [placed, children, Field.placed, helement, Signature.children_placed, List.flatMap_map,
      List.map_flatMap]

theorem TypeNode.form_placed (t : TypeNode) :
    (t.placed P).form = t.form.placed P (TypeNode.placed P) := by
  obtain ⟨serial, span, form⟩ := t
  rw [placed_mk, TypeNode.form, TypeNode.form]

theorem TypeNode.Within.placed {t u : TypeNode} (h : t.Within u) :
    (t.placed P).Within (u.placed P) := by
  induction h with
  | self => exact .self
  | @child t u v hv _ ih =>
    refine .child ?_ ih
    rw [TypeNode.form_placed, TypeForm.children_placed]
    exact List.mem_map_of_mem hv

theorem Decl.roots_placed (d : Decl) : (d.placed P).roots = d.roots.map (TypeNode.placed P) := by
  have hvalues (specs : List ValueSpec) :
      (specs.map (ValueSpec.placed P)).flatMap (·.type.toList)
        = (specs.flatMap (·.type.toList)).map (TypeNode.placed P) := by
    simp [List.flatMap_map, List.map_flatMap, ValueSpec.placed, Option.toList_map]
  rcases d with ⟨_, _, _, _, specs | specs | specs⟩ | ⟨_, _, _, receiver, _, _, s, _⟩
  · exact hvalues specs
  · simp [placed, Specs.placed, roots, Specs.roots, TypeSpec.placed]
  · exact hvalues specs
  · cases receiver <;>
      simp [placed, roots, Signature.children_placed, FieldList.children_placed]

theorem File.HasType.placed {f : File} {t : TypeNode} (h : f.HasType t) :
    (f.placed P).HasType (t.placed P) := by
  obtain ⟨d, hd, u, hu, ht⟩ := h
  refine ⟨d.placed P, List.mem_map_of_mem hd, u.placed P, ?_, ht.placed P⟩
  rw [Decl.roots_placed]
  exact List.mem_map_of_mem hu

end

/-! ## Two placements -/

section

variable (P P' : Placement) (scope scope' : FileScope)

/-- The array lengths in a type are read alike at the two places. -/
def LengthsAgree (t : TypeNode) : Prop :=
  ∀ u : TypeNode, u.Within t → ∀ n elem, u.form = .array n elem →
    mute (scope.arrayLength (n.placed P)) = mute (scope'.arrayLength (n.placed P'))

/-- The two files bind the same names. -/
structure FileScope.Alike : Prop where
  imports : scope.imports = scope'.imports
  importPath : scope.importPath = scope'.importPath

variable {P P' scope scope'}

section

variable {g g' : α → Convert TypeExpr}

theorem FieldList.mute_params_placed {l : FieldList α}
    (h : ∀ t ∈ l.children, mute (g t) = mute (g' t)) :
    mute (l.placed P g).params = mute (l.placed P' g').params := by
  refine mute_bind (x := (l.fields.map _).mapM _) (y := (l.fields.map _).mapM _) ?_ fun _ => rfl
  rw [List.mapM_map, List.mapM_map]
  refine mute_mapM_congr fun x hx => mute_bind (h _ (List.mem_map_of_mem hx)) fun t => ?_
  simp [Field.placed, Ident.placed, Function.comp_def]

theorem Results.mute_params_placed {rs : Results α}
    (h : ∀ t ∈ rs.children, mute (g t) = mute (g' t)) :
    mute (rs.placed P g).params = mute (rs.placed P' g').params := by
  cases rs with
  | absent => rfl
  | single t => exact mute_bind (h t (.head _)) fun _ => rfl
  | list l => exact FieldList.mute_params_placed h

theorem Signature.mute_model_placed {s : Signature α}
    (h : ∀ t ∈ s.children, mute (g t) = mute (g' t)) :
    mute (s.placed P g).model = mute (s.placed P' g').model := by
  obtain ⟨hparams, hresults⟩ := List.forall_mem_append.1 h
  exact mute_bind (FieldList.mute_params_placed hparams) fun _ =>
    mute_bind (Results.mute_params_placed hresults) fun _ => rfl

variable (hscope : scope.Alike scope')

include hscope

theorem FileScope.Alike.named (q : Option Ident) (x : Ident) :
    mute (scope.named (q.map (Ident.placed P)) (x.placed P))
      = mute (scope'.named (q.map (Ident.placed P')) (x.placed P')) := by
  rcases q with _ | q
  · simp only [FileScope.named, Option.map_none, Ident.placed, FileScope.ownPackage,
      hscope.imports, hscope.importPath]
    rfl
  · simp only [FileScope.named, Option.map_some, Ident.placed, hscope.imports]
    split <;> rfl

theorem TypeForm.mute_model_placed {form : TypeForm α} {span span' : Span}
    (h : ∀ t ∈ form.children, mute (g t) = mute (g' t))
    (hlength : ∀ n elem, form = .array n elem →
      mute (scope.arrayLength (n.placed P)) = mute (scope'.arrayLength (n.placed P'))) :
    mute ((form.placed P g).model scope span) = mute ((form.placed P' g').model scope' span') := by
  cases form with
  | named q x args =>
    simp only [placed, model, List.isEmpty_map]
    split
    · exact hscope.named q x
    · rfl
  | pointer _ t | slice _ t | chan _ _ t => exact mute_bind (h t (.head _)) fun _ => rfl
  | array n t =>
    exact mute_bind (hlength n t rfl) fun _ => mute_bind (h t (.head _)) fun _ => rfl
  | mapping _ k v =>
    exact mute_bind (h k (.head _)) fun _ => mute_bind (h v (.tail _ (.head _))) fun _ => rfl
  | struct _ fields =>
    simp only [placed, model, List.isEmpty_map]
    split <;> rfl
  | interface _ elements =>
    simp only [placed, model, List.isEmpty_map]
    split <;> rfl
  | func _ s => exact mute_bind (Signature.mute_model_placed h) fun _ => rfl
  | paren _ t => exact h t (.head _)

end

variable (hscope : scope.Alike scope')

include hscope

theorem TypeNode.mute_model_placed {t : TypeNode} (h : LengthsAgree P P' scope scope' t) :
    mute ((t.placed P).model scope) = mute ((t.placed P').model scope') := by
  induction t using TypeNode.induct with
  | h serial span form ih =>
    rw [TypeNode.placed_mk, TypeNode.placed_mk, TypeNode.model, TypeNode.model, fold_mk, fold_mk,
      TypeForm.map_placed, TypeForm.map_placed]
    refine TypeForm.mute_model_placed hscope (fun u hu => ?_) fun n elem => h _ .self n elem
    exact ih u hu fun v hv => h v (.child hu hv)

theorem Element.mute_model_placed {e : Element TypeNode}
    (h : ∀ t ∈ e.children, LengthsAgree P P' scope scope' t) :
    mute ((e.placed P (TypeNode.placed P)).model scope)
      = mute ((e.placed P' (TypeNode.placed P')).model scope') := by
  cases e with
  | method x s =>
    refine mute_bind ?_ fun _ => rfl
    rw [Signature.map_placed, Signature.map_placed]
    exact Signature.mute_model_placed fun t ht => TypeNode.mute_model_placed hscope (h t ht)
  | union terms => rfl

/-- Of a declared interface, with its elements. -/
theorem TypeSpec.mute_model_placed {s : TypeSpec} {elements : List (Element TypeNode)}
    (h : ∀ e ∈ elements, ∀ t ∈ e.children, LengthsAgree P P' scope scope' t) :
    mute ((s.placed P).model scope (elements.map (Element.placed P (TypeNode.placed P))))
      = mute ((s.placed P').model scope'
        (elements.map (Element.placed P' (TypeNode.placed P')))) := by
  rcases hparams : s.params with _ | params
  · simp only [model, placed, hparams, Option.map_none]
    refine mute_bind (x := (elements.map _).mapM _) (y := (elements.map _).mapM _) ?_ fun _ => rfl
    rw [List.mapM_map, List.mapM_map]
    exact mute_mapM_congr fun e he => Element.mute_model_placed hscope (h e he)
  · simp only [model, placed, hparams, Option.map_some]
    rfl

omit hscope

/-- Lengths are read alike if their texts are the same. -/
theorem mute_arrayLength_congr {s s' : Span}
    (h : s.slice scope.source.toList = s'.slice scope'.source.toList) :
    mute (scope.arrayLength s) = mute (scope'.arrayLength s') := by
  simp only [FileScope.arrayLength, h]
  split <;> rfl

theorem TypeSpec.elements?_placed (s : TypeSpec) : (s.placed P).elements?
    = s.elements?.map (·.map (Element.placed P (TypeNode.placed P))) := by
  obtain ⟨name, params, assign, ⟨serial, span, form⟩⟩ := s
  simp only [elements?, placed, TypeNode.placed_mk, TypeNode.form]
  cases form <;> rfl

theorem Decl.interfaces_placed (d : Decl) : (d.placed P).interfaces = d.interfaces.map fun p =>
    (p.1.placed P, p.2.map (Element.placed P (TypeNode.placed P))) := by
  rcases d with ⟨_, _, _, _, _ | specs | _⟩ | _
  · rfl
  · simp only [interfaces, placed, typeSpecs, Specs.placed, List.filterMap_map, List.map_filterMap]
    congr 1
    funext s
    simp only [Function.comp_apply, TypeSpec.elements?_placed, Option.map_map]
    rfl
  · rfl
  · rfl

theorem TypeSpec.form_of_elements? {s : TypeSpec} {elements : List (Element TypeNode)}
    (h : s.elements? = some elements) : ∃ keyword, s.type.form = .interface keyword elements := by
  unfold elements? at h
  split at h
  · next hform => exact ⟨_, Option.some.inj h ▸ hform⟩
  · simp at h

theorem TypeSpec.child_of_element {s : TypeSpec} {elements : List (Element TypeNode)}
    (helements : s.elements? = some elements) {e : Element TypeNode} (he : e ∈ elements)
    {t : TypeNode} (ht : t ∈ e.children) : t ∈ s.type.form.children := by
  obtain ⟨keyword, hform⟩ := form_of_elements? helements
  rw [hform]
  exact List.mem_flatMap.2 ⟨e, he, ht⟩

/-- The types of a declared interface are in those that stand in no other. -/
theorem Decl.within_of_interfaces {d : Decl} {s : TypeSpec} {elements : List (Element TypeNode)}
    (h : (s, elements) ∈ d.interfaces) {e : Element TypeNode} (he : e ∈ elements) {t : TypeNode}
    (ht : t ∈ e.children) : ∃ root ∈ d.roots, t.Within root := by
  rcases d with ⟨_, _, _, _, _ | specs | _⟩ | _
  · simp [interfaces, typeSpecs] at h
  · obtain ⟨s', hs', h⟩ := List.mem_filterMap.1 h
    obtain ⟨es, helements, h⟩ := Option.map_eq_some_iff.1 h
    obtain ⟨rfl, rfl⟩ := Prod.mk.inj h
    have hchild := TypeSpec.child_of_element helements he ht
    exact ⟨s'.type, List.mem_map_of_mem hs', .child hchild .self⟩
  · simp [interfaces, typeSpecs] at h
  · simp [interfaces, typeSpecs] at h

include hscope

/-- Declarations at two places declare interfaces with the same models, where array lengths are
read alike. -/
theorem mute_modelAll_placed {ds : List Decl}
    (h : ∀ d ∈ ds, ∀ root ∈ d.roots, LengthsAgree P P' scope scope' root) :
    mute (modelAll scope (ds.map (Decl.placed P)))
      = mute (modelAll scope' (ds.map (Decl.placed P'))) := by
  have hplaced (P : Placement) (scope : FileScope) : modelAll scope (ds.map (Decl.placed P))
      = (ds.flatMap Decl.interfaces).mapM fun p => (p.1.placed P).model scope
        (p.2.map (Element.placed P (TypeNode.placed P))) := by
    simp only [modelAll, List.flatMap_map, Decl.interfaces_placed, ← List.map_flatMap,
      List.mapM_map]
    rfl
  rw [hplaced, hplaced]
  refine mute_mapM_congr ?_
  rintro ⟨s, elements⟩ hp
  refine TypeSpec.mute_model_placed hscope ?_
  obtain ⟨d, hd, hp⟩ := List.mem_flatMap.1 hp
  intro e he t ht u hu
  obtain ⟨root, hroot, hwithin⟩ := Decl.within_of_interfaces hp he ht
  exact h d hd root hroot u (hu.trans hwithin)

end

end GoIface
