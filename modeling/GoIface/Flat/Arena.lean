import GoIface.Flat

/-!
# Arenas

An arena holds the nodes of a file by kind, each with its span, and the lists of the file in one
buffer for each kind of item. It only grows: a new node gets the next number, and the items of a new
list go behind all others. Numbers and places of 32 bits lose what does not fit in them. So what
they lead to is found while the arena is small enough (`Arena.holds_alloc`, `Arena.items?_push`).
-/

namespace GoIface

/-- Nodes of one kind and their spans. -/
structure SpannedArena (α : Type) where
  data : Array α
  spans : Array Span
  aligned : spans.size = data.size

namespace SpannedArena

variable {α : Type}

def empty : SpannedArena α := ⟨#[], #[], rfl⟩

def push (a : SpannedArena α) (node : α) (span : Span) : SpannedArena α :=
  ⟨a.data.push node, a.spans.push span, by simp [a.aligned]⟩

end SpannedArena

structure Arena where
  decls : SpannedArena Flat.SpecDecl
  funcs : SpannedArena Flat.FuncDecl
  types : SpannedArena Flat.TypeForm
  fields : SpannedArena Flat.Field
  signatures : SpannedArena Flat.Signature
  nameItems : Array Ident
  typeItems : Array (NodeId .type)
  fieldItems : Array (NodeId .field)
  specItems : Array Flat.Spec
  importItems : Array ImportSpec
  declItems : Array Flat.Decl
  elementItems : Array Flat.Element
  termItems : Array (Term (NodeId .type))

namespace Arena

def empty : Arena :=
  ⟨.empty, .empty, .empty, .empty, .empty, #[], #[], #[], #[], #[], #[], #[], #[]⟩

def nodes (A : Arena) : (k : NodeKind) → SpannedArena (Node k)
  | .decl => A.decls
  | .func => A.funcs
  | .type => A.types
  | .field => A.fields
  | .signature => A.signatures

def setNodes (A : Arena) : (k : NodeKind) → SpannedArena (Node k) → Arena
  | .decl, a => { A with decls := a }
  | .func, a => { A with funcs := a }
  | .type, a => { A with types := a }
  | .field, a => { A with fields := a }
  | .signature, a => { A with signatures := a }

/-- The buffer of the lists of a kind. -/
def items (A : Arena) : (k : ListKind) → Array (Item k)
  | .names => A.nameItems
  | .types => A.typeItems
  | .fields => A.fieldItems
  | .specs => A.specItems
  | .imports => A.importItems
  | .decls => A.declItems
  | .elements => A.elementItems
  | .terms => A.termItems

def setItems (A : Arena) : (k : ListKind) → Array (Item k) → Arena
  | .names, xs => { A with nameItems := xs }
  | .types, xs => { A with typeItems := xs }
  | .fields, xs => { A with fieldItems := xs }
  | .specs, xs => { A with specItems := xs }
  | .imports, xs => { A with importItems := xs }
  | .decls, xs => { A with declItems := xs }
  | .elements, xs => { A with elementItems := xs }
  | .terms, xs => { A with termItems := xs }

def size (A : Arena) (k : NodeKind) : Nat := (A.nodes k).data.size

/-- How many nodes of each kind there are. -/
def counts (A : Arena) : Counts :=
  ⟨A.size .decl, A.size .func, A.size .type, A.size .field, A.size .signature⟩

def node? (A : Arena) {k : NodeKind} (id : NodeId k) : Option (Node k) :=
  (A.nodes k).data[id.raw.toNat]?

def span? (A : Arena) {k : NodeKind} (id : NodeId k) : Option Span :=
  (A.nodes k).spans[id.raw.toNat]?

/-- The items of a list, if all of its stretch lies in the buffer. -/
def items? (A : Arena) {k : ListKind} (r : ListRef k) : Option (List (Item k)) :=
  let start := r.start.toNat
  let stop := (r.start + r.length).toNat
  if start ≤ stop ∧ stop ≤ (A.items k).size then some ((A.items k).extract start stop).toList
  else none

/-- The arena with one more node, and its number. -/
def alloc (A : Arena) (k : NodeKind) (node : Node k) (span : Span) : NodeId k × Arena :=
  (⟨(A.size k).toUInt32⟩, A.setNodes k ((A.nodes k).push node span))

/-- The arena with one more list, and its place. -/
def push (A : Arena) (k : ListKind) (items : List (Item k)) : ListRef k × Arena :=
  let start := (A.items k).size
  let buffer := A.items k ++ items
  (⟨start.toUInt32, (buffer.size - start).toUInt32⟩, A.setItems k buffer)

section

variable (A : Arena)

@[simp]
theorem nodes_setNodes_self (k : NodeKind) (a : SpannedArena (Node k)) :
    (A.setNodes k a).nodes k = a := by
  cases k <;> rfl

theorem nodes_setNodes_of_ne {k j : NodeKind} (h : j ≠ k) (a : SpannedArena (Node k)) :
    (A.setNodes k a).nodes j = A.nodes j := by
  cases k <;> cases j <;> first | rfl | exact absurd rfl h

@[simp]
theorem items_setNodes (k : NodeKind) (a : SpannedArena (Node k)) :
    (A.setNodes k a).items = A.items := by
  funext j
  cases k <;> cases j <;> rfl

@[simp]
theorem items_setItems_self (k : ListKind) (xs : Array (Item k)) :
    (A.setItems k xs).items k = xs := by
  cases k <;> rfl

theorem items_setItems_of_ne {k j : ListKind} (h : j ≠ k) (xs : Array (Item k)) :
    (A.setItems k xs).items j = A.items j := by
  cases k <;> cases j <;> first | rfl | exact absurd rfl h

@[simp]
theorem nodes_setItems (k : ListKind) (xs : Array (Item k)) :
    (A.setItems k xs).nodes = A.nodes := by
  funext j
  cases k <;> cases j <;> rfl

end

end Arena

end GoIface
