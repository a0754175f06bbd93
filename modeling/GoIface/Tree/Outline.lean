import GoIface.Tree.Fold

/-!
# Outlines

The outline of a file is the tree of what a reader meets in it, in the order it was written: a
declaration is met before its parts, and type parameters, lengths, values and bodies are not
entered. `Outline.events` lists the meetings of a reader who does not look inside some kinds of
node.
-/

namespace GoIface

inductive Kind where
  | file | decl | func | typeSpec | type | field | signature
deriving Repr, DecidableEq

/-- A meeting with a node: its serial number where it has one, and its span or name. -/
inductive Event where
  | file (package : Span)
  | decl (serial : Nat) (span : Span)
  | func (serial : Nat) (span : Span)
  | typeSpec (name : String)
  | type (serial : Nat) (span : Span)
  | field (serial : Nat) (span : Span)
  | signature (serial : Nat) (span : Span)
deriving Repr, DecidableEq

def Event.kind : Event → Kind
  | file _ => .file
  | decl _ _ => .decl
  | func _ _ => .func
  | typeSpec _ => .typeSpec
  | type _ _ => .type
  | field _ _ => .field
  | signature _ _ => .signature

inductive Outline where
  | node (event : Event) (inside : List Outline)
deriving Repr

mutual

/-- Every event in order, except those inside a node of a kind that `stop` holds of. -/
def Outline.events (stop : Kind → Bool) : Outline → List Event
  | .node event inside => event :: if stop event.kind then [] else eventsOfAll stop inside

def eventsOfAll (stop : Kind → Bool) : List Outline → List Event
  | [] => []
  | o :: os => o.events stop ++ eventsOfAll stop os

end

theorem eventsOfAll_eq_flatMap (stop : Kind → Bool) :
    ∀ os : List Outline, eventsOfAll stop os = os.flatMap (·.events stop)
  | [] => rfl
  | o :: os => by simp [eventsOfAll, eventsOfAll_eq_flatMap stop os]

def Field.outline (x : Field Outline) : Outline := .node (.field x.serial x.span) [x.type]

def FieldList.outlines (l : FieldList Outline) : List Outline := l.fields.map (·.outline)

def Results.outlines : Results Outline → List Outline
  | .absent => []
  | .single t => [t]
  | .list l => l.outlines

def Signature.outline (s : Signature Outline) : Outline :=
  .node (.signature s.serial s.span) (s.params.outlines ++ s.results.outlines)

def Element.outlines : Element Outline → List Outline
  | .method _ s => [s.outline]
  | .union terms => terms.map (·.type)

def TypeForm.outlines : TypeForm Outline → List Outline
  | .named _ _ args => args
  | .pointer _ t | .array _ t | .slice _ t | .chan _ _ t | .paren _ t => [t]
  | .mapping _ k v => [k, v]
  | .struct _ fields => fields.map (·.outline)
  | .interface _ elements => elements.flatMap (·.outlines)
  | .func _ s => [s.outline]

def TypeNode.outline (t : TypeNode) : Outline :=
  t.fold fun serial span form => .node (.type serial span) form.outlines

def TypeSpec.outline (s : TypeSpec) : Outline := .node (.typeSpec s.name.name) [s.type.outline]

def ValueSpec.outlines (s : ValueSpec) : List Outline := s.type.toList.map (·.outline)

def Specs.outlines : Specs → List Outline
  | .consts specs | .vars specs => specs.flatMap (·.outlines)
  | .types specs => specs.map (·.outline)

def FuncDecl.outline (d : FuncDecl) : Outline :=
  .node (.func d.serial d.span)
    (d.receiver.toList.flatMap (·.map TypeNode.outline |>.outlines)
      ++ [(d.signature.map TypeNode.outline).outline])

def Decl.outline : Decl → Outline
  | .specs d => .node (.decl d.serial d.span) d.specs.outlines
  | .func d => d.outline

def File.outline (f : File) : Outline := .node (.file f.package) (f.decls.map (·.outline))

end GoIface
