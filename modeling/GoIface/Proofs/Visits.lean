import GoIface.Tree.Visitor

/-!
# Visits put together

The visit of a node is put together of the visits of its parts and of the hooks. A relation of
walks that putting together and the hooks keep holds of the visits of whatever is inside types
(`Visitor.Related`), so visitors with the same hooks there do the same, and a visitor without hooks
there does nothing. A walk that only adds to a list adds the same to every list (`Appends`).
-/

namespace GoIface

variable {σ τ α : Type}

/-! ## Related visits -/

/-- A relation of walks that is kept by the hooks for what is inside types. -/
structure Visitor.Related (R : (σ → σ) → (τ → τ) → Prop) (v : Visitor σ) (w : Visitor τ) :
    Prop where
  id : R id id
  comp {f f' : σ → σ} {g g' : τ → τ} (h : R f g) (h' : R f' g') : R (f' ∘ f) (g' ∘ g)
  type {f : σ → σ} {g : τ → τ} (t : TypeNode) (h : R f g) : R (v.type t f) (w.type t g)
  field {f : σ → σ} {g : τ → τ} (x : Field TypeNode) (h : R f g) : R (v.field x f) (w.field x g)
  signature {f : σ → σ} {g : τ → τ} (s : Signature TypeNode) (h : R f g) :
    R (v.signature s f) (w.signature s g)

namespace Visitor.Related

variable {R : (σ → σ) → (τ → τ) → Prop} {v : Visitor σ} {w : Visitor τ}

mutual

theorem visitType (h : Related R v w) : ∀ t : TypeNode, R (t.visit v) (t.visit w)
  | .mk serial span form => h.type (.mk serial span form) (h.visitForm form)

theorem visitForm (h : Related R v w) :
    ∀ form : TypeForm TypeNode, R (GoIface.visitForm v form) (GoIface.visitForm w form)
  | .named _ _ args => h.visitTypes args
  | .pointer _ t | .array _ t | .slice _ t | .chan _ _ t | .paren _ t => h.visitType t
  | .mapping _ key value => by
    rw [GoIface.visitForm, GoIface.visitForm]
    exact h.comp (h.visitType key) (h.visitType value)
  | .struct _ fields => h.visitFields fields
  | .interface _ elements => h.visitElements elements
  | .func _ s => h.visitSignature s

theorem visitTypes (h : Related R v w) :
    ∀ ts : List TypeNode, R (GoIface.visitTypes v ts) (GoIface.visitTypes w ts)
  | [] => h.id
  | t :: ts => h.comp (h.visitType t) (h.visitTypes ts)

theorem visitField (h : Related R v w) :
    ∀ x : Field TypeNode, R (GoIface.visitField v x) (GoIface.visitField w x)
  | ⟨_, _, _, _, type, _, _⟩ => h.field _ (h.visitType type)

theorem visitFields (h : Related R v w) :
    ∀ xs : List (Field TypeNode), R (GoIface.visitFields v xs) (GoIface.visitFields w xs)
  | [] => h.id
  | x :: xs => h.comp (h.visitField x) (h.visitFields xs)

theorem visitFieldList (h : Related R v w) :
    ∀ l : FieldList TypeNode, R (GoIface.visitFieldList v l) (GoIface.visitFieldList w l)
  | ⟨_, fields, _⟩ => h.visitFields fields

theorem visitResults (h : Related R v w) :
    ∀ r : Results TypeNode, R (GoIface.visitResults v r) (GoIface.visitResults w r)
  | .absent => h.id
  | .single t => h.visitType t
  | .list l => h.visitFieldList l

theorem visitSignature (h : Related R v w) :
    ∀ s : Signature TypeNode, R (GoIface.visitSignature v s) (GoIface.visitSignature w s)
  | ⟨_, _, params, results⟩ =>
    h.signature _ (h.comp (h.visitFieldList params) (h.visitResults results))

theorem visitTerms (h : Related R v w) :
    ∀ ts : List (Term TypeNode), R (GoIface.visitTerms v ts) (GoIface.visitTerms w ts)
  | [] => h.id
  | ⟨_, t⟩ :: ts => h.comp (h.visitType t) (h.visitTerms ts)

theorem visitElement (h : Related R v w) :
    ∀ e : Element TypeNode, R (GoIface.visitElement v e) (GoIface.visitElement w e)
  | .method _ s => h.visitSignature s
  | .union terms => h.visitTerms terms

theorem visitElements (h : Related R v w) :
    ∀ es : List (Element TypeNode), R (GoIface.visitElements v es) (GoIface.visitElements w es)
  | [] => h.id
  | e :: es => h.comp (h.visitElement e) (h.visitElements es)

end

end Visitor.Related

/-- The visitors do the same with types, fields and signatures. -/
structure Visitor.SameInTypes (v w : Visitor σ) : Prop where
  type : v.type = w.type
  field : v.field = w.field
  signature : v.signature = w.signature

section

variable {v w : Visitor σ}

theorem Visitor.SameInTypes.related (h : v.SameInTypes w) : Visitor.Related Eq v w where
  id := rfl
  comp hf hg := by rw [hf, hg]
  type t hf := by rw [h.type, hf]
  field x hf := by rw [h.field, hf]
  signature s hf := by rw [h.signature, hf]

/-- Without hooks for what is inside types, to visit a type changes nothing. -/
theorem TypeNode.visit_eq_id (h : v.SameInTypes {}) (t : TypeNode) : t.visit v = id := by
  have hrelated : Visitor.Related (fun f (_ : σ → σ) => f = id) v v := {
    id := rfl
    comp := fun hf hg => by rw [hf, hg]; rfl
    type := fun t hf => by rw [h.type, hf]
    field := fun x hf => by rw [h.field, hf]
    signature := fun s hf => by rw [h.signature, hf] }
  exact hrelated.visitType t

end

/-! ## Walks that add to a list -/

/-- The walk adds these behind what it is given. -/
def Appends (walk : List α → List α) (xs : List α) : Prop := ∀ seen, walk seen = seen ++ xs

namespace Appends

variable {walk walk' : List α → List α} {xs ys : List α}

theorem nil : Appends (α := α) id [] := fun seen => (List.append_nil seen).symm

theorem append (h : Appends walk xs) (h' : Appends walk' ys) :
    Appends (walk' ∘ walk) (xs ++ ys) := by
  intro seen
  rw [Function.comp_apply, h', h, List.append_assoc]

theorem visitEach {visit : τ → List α → List α} {made : τ → List α}
    (h : ∀ x, Appends (visit x) (made x)) :
    ∀ xs : List τ, Appends (visitEach visit xs) (xs.flatMap made)
  | [] => nil
  | x :: xs => (h x).append (visitEach h xs)

theorem visitEach_nil {visit : τ → List α → List α} (h : ∀ x, Appends (visit x) [])
    (xs : List τ) : Appends (GoIface.visitEach visit xs) [] := by
  have hnone : xs.flatMap (fun _ => ([] : List α)) = [] :=
    List.flatMap_eq_nil_iff.2 fun _ _ => rfl
  exact hnone ▸ visitEach h xs

end Appends

end GoIface
