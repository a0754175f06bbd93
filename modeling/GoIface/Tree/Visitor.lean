import GoIface.Tree.Outline

/-!
# Visitors

A visitor has a hook for each kind of node. A hook is given the node and the visit of what is
inside it, which it may make or leave out. If a hook is not given, it only visits the inside. The
parts of a node are visited in the order they were written, and spans and names are passed by.
-/

namespace GoIface

/-- What to do on meeting a node, by its kind. -/
structure Visitor (σ : Type) where
  file : File → (σ → σ) → σ → σ := fun _ inside => inside
  decl : SpecDecl → (σ → σ) → σ → σ := fun _ inside => inside
  func : FuncDecl → (σ → σ) → σ → σ := fun _ inside => inside
  typeSpec : TypeSpec → (σ → σ) → σ → σ := fun _ inside => inside
  type : TypeNode → (σ → σ) → σ → σ := fun _ inside => inside
  field : Field TypeNode → (σ → σ) → σ → σ := fun _ inside => inside
  signature : Signature TypeNode → (σ → σ) → σ → σ := fun _ inside => inside

section

variable {σ : Type} (v : Visitor σ)

mutual

def TypeNode.visit : TypeNode → σ → σ
  | .mk serial span form => v.type (.mk serial span form) (visitForm form)

def visitForm : TypeForm TypeNode → σ → σ
  | .named _ _ args => visitTypes args
  | .pointer _ t | .array _ t | .slice _ t | .chan _ _ t | .paren _ t => t.visit
  | .mapping _ key value => value.visit ∘ key.visit
  | .struct _ fields => visitFields fields
  | .interface _ elements => visitElements elements
  | .func _ s => visitSignature s

def visitTypes : List TypeNode → σ → σ
  | [] => id
  | t :: ts => visitTypes ts ∘ t.visit

def visitField : Field TypeNode → σ → σ
  | ⟨serial, span, names, ellipsis, type, tag, embedded⟩ =>
    v.field ⟨serial, span, names, ellipsis, type, tag, embedded⟩ type.visit

def visitFields : List (Field TypeNode) → σ → σ
  | [] => id
  | x :: xs => visitFields xs ∘ visitField x

def visitFieldList : FieldList TypeNode → σ → σ
  | ⟨_, fields, _⟩ => visitFields fields

def visitResults : Results TypeNode → σ → σ
  | .absent => id
  | .single t => t.visit
  | .list l => visitFieldList l

def visitSignature : Signature TypeNode → σ → σ
  | ⟨serial, span, params, results⟩ =>
    v.signature ⟨serial, span, params, results⟩ (visitResults results ∘ visitFieldList params)

def visitTerms : List (Term TypeNode) → σ → σ
  | [] => id
  | ⟨_, t⟩ :: ts => visitTerms ts ∘ t.visit

def visitElement : Element TypeNode → σ → σ
  | .method _ s => visitSignature s
  | .union terms => visitTerms terms

def visitElements : List (Element TypeNode) → σ → σ
  | [] => id
  | e :: es => visitElements es ∘ visitElement e

end

/-- Visits each of them in turn. -/
def visitEach {α : Type} (visit : α → σ → σ) (xs : List α) (s : σ) : σ :=
  xs.foldl (fun s x => visit x s) s

def TypeSpec.visit (s : TypeSpec) : σ → σ := v.typeSpec s (s.type.visit v)

def ValueSpec.visit (s : ValueSpec) : σ → σ := visitEach (TypeNode.visit v) s.type.toList

def Specs.visit : Specs → σ → σ
  | .consts specs | .vars specs => visitEach (ValueSpec.visit v) specs
  | .types specs => visitEach (TypeSpec.visit v) specs

def FuncDecl.visit (d : FuncDecl) : σ → σ :=
  v.func d (visitSignature v d.signature ∘ visitEach (visitFieldList v) d.receiver.toList)

def Decl.visit : Decl → σ → σ
  | .specs d => v.decl d (d.specs.visit v)
  | .func d => d.visit v

def File.visit (f : File) : σ → σ := v.file f (visitEach (Decl.visit v) f.decls)

end

section

variable (stop : Kind → Bool)

/-- Adds an event, and those of the inside unless the kind of the node is one to stop at. -/
def record (event : Event) (inside : List Event → List Event) (seen : List Event) : List Event :=
  if stop event.kind then seen ++ [event] else inside (seen ++ [event])

/-- Lists what is met, without looking inside the kinds that `stop` holds of. -/
def recorder : Visitor (List Event) where
  file f := record stop (.file f.package)
  decl d := record stop (.decl d.serial d.span)
  func d := record stop (.func d.serial d.span)
  typeSpec s := record stop (.typeSpec s.name.name)
  type t := record stop (.type t.serial t.span)
  field x := record stop (.field x.serial x.span)
  signature s := record stop (.signature s.serial s.span)

end

end GoIface
