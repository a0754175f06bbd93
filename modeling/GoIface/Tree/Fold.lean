import GoIface.Tree

/-!
# Folding types

`map` puts something else at the places of types, and `children` lists what stands there, in the
order it was written. A fold computes a value for a type from its form with the values of its
parts in their places (`fold_mk`). What holds of a type whenever it holds of its children holds of
every type (`TypeNode.induct`).
-/

namespace GoIface

variable {α β : Type}

def Field.map (f : α → β) (x : Field α) : Field β := { x with type := f x.type }

def FieldList.map (f : α → β) (l : FieldList α) : FieldList β :=
  ⟨l.lparen, l.fields.map (·.map f), l.rparen⟩

def FieldList.children (l : FieldList α) : List α := l.fields.map (·.type)

def Results.map (f : α → β) : Results α → Results β
  | .absent => .absent
  | .single t => .single (f t)
  | .list l => .list (l.map f)

def Results.children : Results α → List α
  | .absent => []
  | .single t => [t]
  | .list l => l.children

def Signature.map (f : α → β) (s : Signature α) : Signature β :=
  ⟨s.serial, s.span, s.params.map f, s.results.map f⟩

def Signature.children (s : Signature α) : List α := s.params.children ++ s.results.children

def Term.map (f : α → β) (t : Term α) : Term β := ⟨t.tilde, f t.type⟩

def Element.map (f : α → β) : Element α → Element β
  | .method name s => .method name (s.map f)
  | .union terms => .union (terms.map (·.map f))

def Element.children : Element α → List α
  | .method _ s => s.children
  | .union terms => terms.map (·.type)

def TypeForm.map (f : α → β) : TypeForm α → TypeForm β
  | .named q n args => .named q n (args.map f)
  | .pointer p t => .pointer p (f t)
  | .array n t => .array n (f t)
  | .slice p t => .slice p (f t)
  | .mapping p k v => .mapping p (f k) (f v)
  | .chan d p t => .chan d p (f t)
  | .struct p fields => .struct p (fields.map (·.map f))
  | .interface p elements => .interface p (elements.map (·.map f))
  | .func p s => .func p (s.map f)
  | .paren p t => .paren p (f t)

def TypeForm.children : TypeForm α → List α
  | .named _ _ args => args
  | .pointer _ t | .array _ t | .slice _ t | .chan _ _ t | .paren _ t => [t]
  | .mapping _ k v => [k, v]
  | .struct _ fields => fields.map (·.type)
  | .interface _ elements => elements.flatMap (·.children)
  | .func _ s => s.children

mutual

def TypeNode.fold (f : Nat → Span → TypeForm α → α) : TypeNode → α
  | .mk serial span form => f serial span (foldForm f form)

def foldForm (f : Nat → Span → TypeForm α → α) : TypeForm TypeNode → TypeForm α
  | .named q n args => .named q n (foldTypes f args)
  | .pointer p t => .pointer p (t.fold f)
  | .array n t => .array n (t.fold f)
  | .slice p t => .slice p (t.fold f)
  | .mapping p k v => .mapping p (k.fold f) (v.fold f)
  | .chan d p t => .chan d p (t.fold f)
  | .struct p fields => .struct p (foldFields f fields)
  | .interface p elements => .interface p (foldElements f elements)
  | .func p s => .func p (foldSignature f s)
  | .paren p t => .paren p (t.fold f)

def foldTypes (f : Nat → Span → TypeForm α → α) : List TypeNode → List α
  | [] => []
  | t :: ts => t.fold f :: foldTypes f ts

def foldField (f : Nat → Span → TypeForm α → α) : Field TypeNode → Field α
  | ⟨serial, span, names, ellipsis, type, tag, embedded⟩ =>
    ⟨serial, span, names, ellipsis, type.fold f, tag, embedded⟩

def foldFields (f : Nat → Span → TypeForm α → α) : List (Field TypeNode) → List (Field α)
  | [] => []
  | x :: xs => foldField f x :: foldFields f xs

def foldFieldList (f : Nat → Span → TypeForm α → α) : FieldList TypeNode → FieldList α
  | ⟨l, fields, r⟩ => ⟨l, foldFields f fields, r⟩

def foldResults (f : Nat → Span → TypeForm α → α) : Results TypeNode → Results α
  | .absent => .absent
  | .single t => .single (t.fold f)
  | .list l => .list (foldFieldList f l)

def foldSignature (f : Nat → Span → TypeForm α → α) : Signature TypeNode → Signature α
  | ⟨serial, span, params, results⟩ =>
    ⟨serial, span, foldFieldList f params, foldResults f results⟩

def foldTerm (f : Nat → Span → TypeForm α → α) : Term TypeNode → Term α
  | ⟨tilde, type⟩ => ⟨tilde, type.fold f⟩

def foldTerms (f : Nat → Span → TypeForm α → α) : List (Term TypeNode) → List (Term α)
  | [] => []
  | t :: ts => foldTerm f t :: foldTerms f ts

def foldElement (f : Nat → Span → TypeForm α → α) : Element TypeNode → Element α
  | .method name s => .method name (foldSignature f s)
  | .union terms => .union (foldTerms f terms)

def foldElements (f : Nat → Span → TypeForm α → α) : List (Element TypeNode) → List (Element α)
  | [] => []
  | e :: es => foldElement f e :: foldElements f es

end

section

variable (f : Nat → Span → TypeForm α → α)

theorem foldTypes_eq_map : ∀ ts : List TypeNode, foldTypes f ts = ts.map (·.fold f)
  | [] => rfl
  | _ :: ts => by simp [foldTypes, foldTypes_eq_map ts]

theorem foldField_eq_map : ∀ x : Field TypeNode, foldField f x = x.map (·.fold f)
  | ⟨_, _, _, _, _, _, _⟩ => rfl

theorem foldFields_eq_map : ∀ xs : List (Field TypeNode),
    foldFields f xs = xs.map (·.map (·.fold f))
  | [] => rfl
  | x :: xs => by simp [foldFields, foldField_eq_map, foldFields_eq_map xs]

theorem foldFieldList_eq_map : ∀ l : FieldList TypeNode, foldFieldList f l = l.map (·.fold f)
  | ⟨_, fields, _⟩ => by simp [foldFieldList, FieldList.map, foldFields_eq_map]

theorem foldResults_eq_map : ∀ r : Results TypeNode, foldResults f r = r.map (·.fold f)
  | .absent | .single _ => rfl
  | .list l => by simp [foldResults, Results.map, foldFieldList_eq_map]

theorem foldSignature_eq_map : ∀ s : Signature TypeNode, foldSignature f s = s.map (·.fold f)
  | ⟨_, _, _, _⟩ => by
    simp [foldSignature, Signature.map, foldFieldList_eq_map, foldResults_eq_map]

theorem foldTerms_eq_map : ∀ ts : List (Term TypeNode),
    foldTerms f ts = ts.map (·.map (·.fold f))
  | [] => rfl
  | ⟨_, _⟩ :: ts => by simp [foldTerms, foldTerm, Term.map, foldTerms_eq_map ts]

theorem foldElement_eq_map : ∀ e : Element TypeNode, foldElement f e = e.map (·.fold f)
  | .method _ _ => by simp [foldElement, Element.map, foldSignature_eq_map]
  | .union _ => by simp [foldElement, Element.map, foldTerms_eq_map]

theorem foldElements_eq_map : ∀ es : List (Element TypeNode),
    foldElements f es = es.map (·.map (·.fold f))
  | [] => rfl
  | e :: es => by simp [foldElements, foldElement_eq_map, foldElements_eq_map es]

theorem foldForm_eq_map (form : TypeForm TypeNode) : foldForm f form = form.map (·.fold f) := by
  cases form <;>
    simp [foldForm, TypeForm.map, foldTypes_eq_map, foldFields_eq_map, foldElements_eq_map,
      foldSignature_eq_map]

theorem TypeNode.fold_mk (serial : Nat) (span : Span) (form : TypeForm TypeNode) :
    (TypeNode.mk serial span form).fold f = f serial span (form.map (·.fold f)) := by
  rw [TypeNode.fold, foldForm_eq_map]

end

/-- It holds of a type if it holds of the types right inside. -/
def Inherited (P : TypeNode → Prop) : Prop :=
  ∀ serial span form, (∀ t ∈ form.children, P t) → P (.mk serial span form)

namespace Inherited

variable {P : TypeNode → Prop}

mutual

theorem type (h : Inherited P) : ∀ t : TypeNode, P t
  | .mk serial span form => h serial span form (h.form form)

theorem form (h : Inherited P) : ∀ form : TypeForm TypeNode, ∀ t ∈ form.children, P t
  | .named _ _ args => h.types args
  | .pointer _ t | .array _ t | .slice _ t | .chan _ _ t | .paren _ t => by
    simpa [TypeForm.children] using h.type t
  | .mapping _ k v => by simpa [TypeForm.children] using ⟨h.type k, h.type v⟩
  | .struct _ fields => h.fields fields
  | .interface _ elements => h.elements elements
  | .func _ s => h.signature s

theorem types (h : Inherited P) : ∀ ts : List TypeNode, ∀ t ∈ ts, P t
  | [] => by simp
  | t :: ts => by simpa using ⟨h.type t, h.types ts⟩

theorem field (h : Inherited P) : ∀ x : Field TypeNode, P x.type
  | ⟨_, _, _, _, type, _, _⟩ => h.type type

theorem fields (h : Inherited P) : ∀ xs : List (Field TypeNode), ∀ t ∈ xs.map (·.type), P t
  | [] => by simp
  | x :: xs => by
    have hx := h.field x
    have hxs := h.fields xs
    rw [List.map_cons, List.forall_mem_cons]
    exact ⟨hx, hxs⟩

theorem fieldList (h : Inherited P) : ∀ l : FieldList TypeNode, ∀ t ∈ l.children, P t
  | ⟨_, fields, _⟩ => h.fields fields

theorem results (h : Inherited P) : ∀ r : Results TypeNode, ∀ t ∈ r.children, P t
  | .absent => by simp [Results.children]
  | .single t => by simpa [Results.children] using h.type t
  | .list l => h.fieldList l

theorem signature (h : Inherited P) : ∀ s : Signature TypeNode, ∀ t ∈ s.children, P t
  | ⟨_, _, params, results⟩ => by
    have hp := h.fieldList params
    have hr := h.results results
    rw [Signature.children, List.forall_mem_append]
    exact ⟨hp, hr⟩

theorem terms (h : Inherited P) : ∀ ts : List (Term TypeNode), ∀ t ∈ ts.map (·.type), P t
  | [] => by simp
  | ⟨_, t⟩ :: ts => by
    have ht := h.type t
    have hts := h.terms ts
    rw [List.map_cons, List.forall_mem_cons]
    exact ⟨ht, hts⟩

theorem element (h : Inherited P) : ∀ e : Element TypeNode, ∀ t ∈ e.children, P t
  | .method _ s => h.signature s
  | .union terms => h.terms terms

theorem elements (h : Inherited P) : ∀ es : List (Element TypeNode),
    ∀ t ∈ es.flatMap (·.children), P t
  | [] => by simp
  | e :: es => by
    have he := h.element e
    have hes := h.elements es
    rw [List.flatMap_cons, List.forall_mem_append]
    exact ⟨he, hes⟩

end

end Inherited

theorem TypeNode.induct {P : TypeNode → Prop}
    (h : ∀ serial span form, (∀ t ∈ form.children, P t) → P (.mk serial span form))
    (t : TypeNode) : P t := Inherited.type h t

section

variable {γ : Type} {f g : α → β}

theorem Field.map_congr {x : Field α} (h : f x.type = g x.type) : x.map f = x.map g := by
  rw [Field.map, Field.map, h]

theorem FieldList.map_congr {l : FieldList α} (h : ∀ t ∈ l.children, f t = g t) :
    l.map f = l.map g := by
  have hfields : l.fields.map (Field.map f) = l.fields.map (Field.map g) :=
    List.map_congr_left fun _ hx => Field.map_congr (h _ (List.mem_map_of_mem hx))
  exact congrArg (FieldList.mk l.lparen · l.rparen) hfields

theorem Signature.map_congr {s : Signature α} (h : ∀ t ∈ s.children, f t = g t) :
    s.map f = s.map g := by
  obtain ⟨hparams, hresults⟩ := List.forall_mem_append.1 h
  have hmap : s.results.map f = s.results.map g := by
    rcases hres : s.results with _ | t | l <;> rw [hres] at hresults
    · rfl
    · exact congrArg Results.single (hresults t (by simp [Results.children]))
    · exact congrArg Results.list (FieldList.map_congr hresults)
  rw [Signature.map, Signature.map, FieldList.map_congr hparams, hmap]

theorem Element.map_congr {e : Element α} (h : ∀ t ∈ e.children, f t = g t) :
    e.map f = e.map g := by
  cases e with
  | method name s => exact congrArg (Element.method name) (Signature.map_congr h)
  | union terms =>
    refine congrArg Element.union (List.map_congr_left fun t ht => ?_)
    rw [Term.map, Term.map, h _ (List.mem_map_of_mem ht)]

/-- Only what is done with the children counts. -/
theorem TypeForm.map_congr {form : TypeForm α} (h : ∀ t ∈ form.children, f t = g t) :
    form.map f = form.map g := by
  cases form with
  | named q n args => exact congrArg (TypeForm.named q n) (List.map_congr_left h)
  | struct p fields =>
    exact congrArg (TypeForm.struct p)
      (List.map_congr_left fun x hx => Field.map_congr (h _ (List.mem_map_of_mem hx)))
  | interface p elements =>
    exact congrArg (TypeForm.interface p) (List.map_congr_left fun e he =>
      Element.map_congr fun t ht => h t (List.mem_flatMap.2 ⟨e, he, ht⟩))
  | func p s => exact congrArg (TypeForm.func p) (Signature.map_congr h)
  | _ => simp_all [TypeForm.map, TypeForm.children]

theorem FieldList.map_map (f : α → β) (g : β → γ) (l : FieldList α) :
    (l.map f).map g = l.map (g ∘ f) := by
  simp [FieldList.map, Field.map, Function.comp_def]

theorem Signature.map_map (f : α → β) (g : β → γ) (s : Signature α) :
    (s.map f).map g = s.map (g ∘ f) := by
  rcases s with ⟨_, _, _, _ | _ | _⟩ <;> simp [Signature.map, Results.map, FieldList.map_map]

theorem TypeForm.map_map (f : α → β) (g : β → γ) (form : TypeForm α) :
    (form.map f).map g = form.map (g ∘ f) := by
  have helement (e : Element α) : (e.map f).map g = e.map (g ∘ f) := by
    cases e <;> simp [Element.map, Signature.map_map, Term.map]
  cases form <;> simp [TypeForm.map, Field.map, Signature.map_map, helement]

/-- What commutes with each step of a fold commutes with the fold. -/
theorem TypeNode.fold_fusion {f : Nat → Span → TypeForm α → α} {g : Nat → Span → TypeForm β → β}
    {k : α → β} (h : ∀ serial span form, k (f serial span form) = g serial span (form.map k))
    (t : TypeNode) : k (t.fold f) = t.fold g := by
  induction t using TypeNode.induct with
  | h serial span form ih =>
    rw [fold_mk, fold_mk, h, TypeForm.map_map]
    exact congrArg (g serial span) (TypeForm.map_congr ih)

end

end GoIface
