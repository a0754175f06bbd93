import GoIface.Flat.Declarations
import GoIface.Tree.Outline

/-!
# Visiting an arena

A visit of an arena goes from number to number and from place to place, and has no result where
one of them leads to nothing. A hook is given the arena, what it is called for and the visit of what
is inside, which it may make or leave out. The inside of a type has smaller numbers, so a visit does
not go through more types around one another than there are.
-/

namespace GoIface

/-- Changes a state, unless it meets a number or a place that leads to nothing. -/
abbrev Walk (σ : Type) := StateT σ Option

structure Ast.Visitor (σ : Type) where
  file : Ast → Walk σ Unit → Walk σ Unit := fun _ inside => inside
  decl : Arena → NodeId .decl → Walk σ Unit → Walk σ Unit := fun _ _ inside => inside
  func : Arena → NodeId .func → Walk σ Unit → Walk σ Unit := fun _ _ inside => inside
  typeSpec : Arena → Flat.TypeSpec → Walk σ Unit → Walk σ Unit := fun _ _ inside => inside
  type : Arena → NodeId .type → Walk σ Unit → Walk σ Unit := fun _ _ inside => inside
  field : Arena → NodeId .field → Walk σ Unit → Walk σ Unit := fun _ _ inside => inside
  signature : Arena → NodeId .signature → Walk σ Unit → Walk σ Unit := fun _ _ inside => inside

namespace Arena

variable {σ : Type} (A : Arena)

def walkNode {k : NodeKind} (id : NodeId k) (walk : Node k → Walk σ Unit) : Walk σ Unit := do
  walk (← A.node? id)

def walkItems {k : ListKind} (r : ListRef k) (walk : Item k → Walk σ Unit) : Walk σ Unit := do
  (← A.items? r).forM walk

section

variable (v : Ast.Visitor σ) (type : NodeId .type → Walk σ Unit)

def visitField (id : NodeId .field) : Walk σ Unit :=
  v.field A id <| A.walkNode id fun (x : Flat.Field) => do
    A.walkItems x.names fun _ => return
    type x.type

def visitFieldList (l : Flat.FieldList) : Walk σ Unit := A.walkItems l.fields (A.visitField v type)

def visitResults : Flat.Results → Walk σ Unit
  | .absent => return
  | .single t => type t
  | .list l => A.visitFieldList v type l

def visitSignature (id : NodeId .signature) : Walk σ Unit :=
  v.signature A id <| A.walkNode id fun (s : Flat.Signature) => do
    A.visitFieldList v type s.params
    A.visitResults v type s.results

def visitElement : Flat.Element → Walk σ Unit
  | .method _ s => A.visitSignature v type s
  | .union terms => A.walkItems terms fun (t : Term (NodeId .type)) => type t.type

def visitForm : Flat.TypeForm → Walk σ Unit
  | .named _ _ args => A.walkItems args type
  | .pointer _ t | .array _ t | .slice _ t | .chan _ _ t | .paren _ t => type t
  | .mapping _ key value => do
    type key
    type value
  | .struct _ fields => A.walkItems fields (A.visitField v type)
  | .interface _ elements => A.walkItems elements (A.visitElement v type)
  | .func _ s => A.visitSignature v type s

end

section

variable (v : Ast.Visitor σ)

/-- Visits a type with at most so many types around one another, itself included. -/
def visitWithin : Nat → NodeId .type → Walk σ Unit
  | 0, _ => failure
  | levels + 1, id => v.type A id <| A.walkNode id (A.visitForm v (visitWithin levels))

def visitType : NodeId .type → Walk σ Unit := A.visitWithin v (A.size .type)

def visitSpec : Flat.Spec → Walk σ Unit
  | .value s => do
    A.walkItems s.names fun _ => return
    s.type.forM (A.visitType v)
  | .type s => v.typeSpec A s (A.visitType v s.type)

def visitDecl : Flat.Decl → Walk σ Unit
  | .specs id => v.decl A id <| A.walkNode id fun (d : Flat.SpecDecl) =>
    A.walkItems d.specs (A.visitSpec v)
  | .func id => v.func A id <| A.walkNode id fun (d : Flat.FuncDecl) => do
    d.receiver.forM (A.visitFieldList v (A.visitType v))
    A.visitSignature v (A.visitType v) d.signature

end

end Arena

def Ast.visit {σ : Type} (v : Visitor σ) (ast : Ast) : Walk σ Unit :=
  v.file ast do
    ast.arena.walkItems ast.file.imports fun _ => return
    ast.arena.walkItems ast.file.decls (ast.arena.visitDecl v)

section

variable (stop : Kind → Bool)

/-- Adds an event, and those of the inside unless the kind of the node is one to stop at. -/
def Walk.record (event : Event) (inside : Walk (List Event) Unit) : Walk (List Event) Unit := do
  modify (· ++ [event])
  unless stop event.kind do inside

/-- Lists what is met, without looking inside the kinds that `stop` holds of. -/
def Ast.recorder : Ast.Visitor (List Event) where
  file ast := Walk.record stop (.file ast.file.package)
  decl A id inside := do Walk.record stop (.decl id.raw.toNat (← A.span? id)) inside
  func A id inside := do Walk.record stop (.func id.raw.toNat (← A.span? id)) inside
  typeSpec _ s := Walk.record stop (.typeSpec s.name.name)
  type A id inside := do Walk.record stop (.type id.raw.toNat (← A.span? id)) inside
  field A id inside := do Walk.record stop (.field id.raw.toNat (← A.span? id)) inside
  signature A id inside := do Walk.record stop (.signature id.raw.toNat (← A.span? id)) inside

/-- What a visit meets that stops at some kinds of nodes, if all of it is there. -/
def Ast.events? (ast : Ast) : Option (List Event) :=
  ((ast.visit (recorder stop)).run []).map Prod.snd

end

end GoIface
