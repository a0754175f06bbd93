import GoIface.Proofs.Arenas
import Mathlib.Logic.Relation

/-!
# What an arena refers to

Nodes and items refer to nodes by number and to lists by place. An arena grows by steps that only
refer to what is there already (`Arena.Step`), so in an arena that was built by such steps
everything that is referred to is there (`Arena.closed_of_steps`), and whatever can be reached from
a type was there before it: types that are reached have smaller numbers (`Founded.lt_of_reaches`).
-/

namespace GoIface

inductive Ref where
  | node {k : NodeKind} (id : NodeId k)
  | list {k : ListKind} (r : ListRef k)

namespace Flat

def FieldList.refs (l : FieldList) : List Ref := [.list l.fields]

def Results.refs : Results → List Ref
  | .absent => []
  | .single t => [.node t]
  | .list l => l.refs

def Element.refs : Element → List Ref
  | .method _ s => [.node s]
  | .union terms => [.list terms]

def TypeForm.refs : TypeForm → List Ref
  | .named _ _ args => [.list args]
  | .pointer _ t | .array _ t | .slice _ t | .chan _ _ t | .paren _ t => [.node t]
  | .mapping _ key value => [.node key, .node value]
  | .struct _ fields => [.list fields]
  | .interface _ elements => [.list elements]
  | .func _ s => [.node s]

def Spec.refs : Spec → List Ref
  | .value s => .list s.names :: s.type.toList.map .node
  | .type s => [.node s.type]

def Decl.refs : Decl → List Ref
  | .specs id => [.node id]
  | .func id => [.node id]

def File.refs (f : File) : List Ref := [.list f.imports, .list f.decls]

end Flat

def Node.refs : (k : NodeKind) → Node k → List Ref
  | .decl, d => [.list d.specs]
  | .func, d => d.receiver.toList.flatMap Flat.FieldList.refs ++ [.node d.signature]
  | .type, form => Flat.TypeForm.refs form
  | .field, x => [.list x.names, .node x.type]
  | .signature, s => s.params.refs ++ s.results.refs

def Item.refs : (k : ListKind) → Item k → List Ref
  | .names, _ | .imports, _ => []
  | .types, id => [.node id]
  | .fields, id => [.node id]
  | .specs, s => Flat.Spec.refs s
  | .decls, d => Flat.Decl.refs d
  | .elements, e => Flat.Element.refs e
  | .terms, t => [.node t.type]

namespace Arena

variable {A B : Arena}

def Resolves (A : Arena) : Ref → Prop
  | .node id => ∃ node, A.node? id = some node
  | .list r => ∃ xs, A.items? r = some xs

/-- What the first leads to holds the second. -/
inductive Refers (A : Arena) : Ref → Ref → Prop
  | node {k : NodeKind} {id : NodeId k} {node : Node k} {s : Ref} (h : A.node? id = some node)
      (hs : s ∈ Node.refs k node) : Refers A (.node id) s
  | item {k : ListKind} {r : ListRef k} {xs : List (Item k)} {x : Item k} {s : Ref}
      (h : A.items? r = some xs) (hx : x ∈ xs) (hs : s ∈ Item.refs k x) : Refers A (.list r) s

/-- Every number and every place in the arena leads to something. -/
structure Closed (A : Arena) : Prop where
  node {k : NodeKind} {node : Node k} {s : Ref} (h : node ∈ (A.nodes k).data)
    (hs : s ∈ Node.refs k node) : A.Resolves s
  item {k : ListKind} {x : Item k} {s : Ref} (h : x ∈ A.items k)
    (hs : s ∈ Item.refs k x) : A.Resolves s

/-- One more node or list, which refers to what is there. -/
inductive Step (A : Arena) : Arena → Prop
  | alloc {k : NodeKind} {node : Node k} {span : Span}
      (h : ∀ s ∈ Node.refs k node, A.Resolves s) : Step A (A.alloc k node span).2
  | push {k : ListKind} {xs : List (Item k)} (h : ∀ x ∈ xs, ∀ s ∈ Item.refs k x, A.Resolves s) :
      Step A (A.push k xs).2

/-! ## Steps -/

theorem Resolves.of_le {s : Ref} (hs : A.Resolves s) (h : A ≤ B) : B.Resolves s := by
  cases s with
  | node id =>
    obtain ⟨node, hnode⟩ := hs
    exact ⟨node, node?_of_le h hnode⟩
  | list r =>
    obtain ⟨xs, hxs⟩ := hs
    exact ⟨xs, items?_of_le h hxs⟩

theorem Step.le (h : Step A B) : A ≤ B := by
  cases h with
  | alloc => exact A.le_alloc _ _
  | push => exact A.le_push _

theorem getElem?_alloc {k j : NodeKind} {node : Node k} {span : Span} {i : Nat} {x : Node j}
    (h : ((A.alloc k node span).2.nodes j).data[i]? = some x) :
    (A.nodes j).data[i]? = some x ∨ i = A.size j ∧ ∃ h : k = j, h ▸ node = x := by
  by_cases hj : j = k
  · subst hj
    simp only [alloc, SpannedArena.push, nodes_setNodes_self, Array.getElem?_push] at h
    split at h
    · next hi => exact .inr ⟨hi, rfl, Option.some.inj h⟩
    · exact .inl h
  · rw [alloc, nodes_setNodes_of_ne A hj] at h
    exact .inl h

theorem mem_push {k j : ListKind} {xs : List (Item k)} {x : Item j}
    (h : x ∈ (A.push k xs).2.items j) : x ∈ A.items j ∨ ∃ h : k = j, x ∈ h ▸ xs := by
  by_cases hj : j = k
  · subst hj
    rw [← Array.mem_toList_iff, items_push_self, List.mem_append, Array.mem_toList_iff] at h
    exact h.imp_right fun hx => ⟨rfl, hx⟩
  · rw [push, items_setItems_of_ne A hj] at h
    exact .inl h

theorem Closed.step (hA : A.Closed) (h : Step A B) : B.Closed := by
  have hle := h.le
  cases h with
  | alloc hnew =>
    constructor
    · intro j x s hx hs
      obtain ⟨i, hi⟩ := Array.mem_iff_getElem?.1 hx
      rcases getElem?_alloc hi with hi | ⟨-, rfl, rfl⟩
      · exact (hA.node (Array.mem_of_getElem? hi) hs).of_le hle
      · exact (hnew s hs).of_le hle
    · intro j x s hx hs
      rw [items_alloc] at hx
      exact (hA.item hx hs).of_le hle
  | push hnew =>
    constructor
    · intro j x s hx hs
      rw [push, nodes_setItems] at hx
      exact (hA.node hx hs).of_le hle
    · intro j x s hx hs
      rcases mem_push hx with hx | ⟨rfl, hx⟩
      · exact (hA.item hx hs).of_le hle
      · exact (hnew x hx s hs).of_le hle

/-! ## Types have smaller numbers inside -/

/-- When a type was made, all that it refers to was there, and so was all that this refers to. -/
def Founded (A : Arena) : Prop :=
  ∀ (id : NodeId .type) (form : Flat.TypeForm), A.node? id = some form →
    ∃ B ≤ A, B.Closed ∧ B.size .type ≤ id.raw.toNat ∧ ∀ s ∈ form.refs, B.Resolves s

theorem Founded.step (hA : A.Founded) (hclosed : A.Closed) (h : Step A B) : B.Founded := by
  have hle := h.le
  have hold {id : NodeId .type} {form : Flat.TypeForm} (hform : A.node? id = some form) :
      ∃ C ≤ B, C.Closed ∧ C.size .type ≤ id.raw.toNat ∧ ∀ s ∈ form.refs, C.Resolves s := by
    obtain ⟨C, hC, hrest⟩ := hA id form hform
    exact ⟨C, le_trans hC hle, hrest⟩
  intro id form hform
  cases h with
  | alloc hnew =>
    rcases getElem?_alloc hform with hform | ⟨hid, rfl, rfl⟩
    · exact hold hform
    · exact ⟨A, hle, hclosed, Nat.le_of_eq hid.symm, hnew⟩
  | push => exact hold (by simpa [node?, push] using hform)

theorem closed_empty : empty.Closed where
  node {k} _ _ h := by cases k <;> simp [empty, nodes, SpannedArena.empty] at h
  item {k} _ _ h := by cases k <;> simp [empty, items] at h

theorem founded_empty : empty.Founded := by
  intro id form h
  simp [node?, empty, nodes, SpannedArena.empty] at h

/-- What is built step by step refers to nothing that is not there. -/
theorem closed_of_steps (h : Relation.ReflTransGen Step empty A) : A.Closed ∧ A.Founded := by
  induction h with
  | refl => exact ⟨closed_empty, founded_empty⟩
  | tail _ hstep ih => exact ⟨ih.1.step hstep, ih.2.step ih.1 hstep⟩

/-- In an arena that has grown, what was there refers to what was there. -/
theorem Closed.resolves_of_refers (hB : B.Closed) (h : B ≤ A) {r s : Ref} (hr : B.Resolves r)
    (hs : A.Refers r s) : B.Resolves s := by
  cases hs with
  | node hnode hs =>
    obtain ⟨node, hnode'⟩ := hr
    obtain rfl := Option.some.inj ((node?_of_le h hnode').symm.trans hnode)
    exact hB.node (Array.mem_of_getElem? hnode') hs
  | item hxs hx hs =>
    obtain ⟨xs, hxs'⟩ := hr
    obtain rfl := Option.some.inj ((items?_of_le h hxs').symm.trans hxs)
    obtain ⟨-, -, rfl⟩ := items?_eq_some_iff.1 hxs'
    exact hB.item (Array.mem_toList_iff.1 (List.mem_of_mem_take (List.mem_of_mem_drop hx))) hs

/-- A type that is reached from another has a smaller number. -/
theorem Founded.lt_of_reaches (hA : A.Founded) {id id' : NodeId .type}
    (h : Relation.TransGen A.Refers (.node id) (.node id')) : id'.raw < id.raw := by
  obtain ⟨s, hs, hreaches⟩ := Relation.TransGen.head'_iff.1 h
  cases hs with
  | node hform hs =>
    obtain ⟨B, hB, hclosed, hsize, hrefs⟩ := hA id _ hform
    have hall {r : Ref} (hr : Relation.ReflTransGen A.Refers s r) : B.Resolves r := by
      induction hr with
      | refl => exact hrefs s hs
      | tail _ hrefers ih => exact hclosed.resolves_of_refers hB ih hrefers
    obtain ⟨form', hform'⟩ := hall hreaches
    have hlt : id'.raw.toNat < B.size .type := (Array.getElem?_eq_some_iff.1 hform').1
    exact UInt32.lt_iff_toNat_lt.2 (Nat.lt_of_lt_of_le hlt hsize)

end Arena

end GoIface
