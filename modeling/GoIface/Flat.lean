import GoIface.Tree

/-!
# Nodes that lie in an arena

A flat node holds no other nodes. Where a tree has a node, it has the number of one, and where a
tree has a list, it has the place of one in a buffer. Numbers and places go with the kind of what
they lead to, and have 32 bits.
-/

namespace GoIface

inductive NodeKind where
  | decl | func | type | field | signature
deriving Repr, DecidableEq

inductive ListKind where
  | names | types | fields | specs | imports | decls | elements | terms
deriving Repr, DecidableEq

/-- The number of a node among those of its kind. -/
structure NodeId (k : NodeKind) where
  raw : UInt32
deriving Repr, DecidableEq

/-- A stretch of the buffer that holds the lists of a kind. -/
structure ListRef (k : ListKind) where
  start : UInt32
  length : UInt32
deriving Repr, DecidableEq

def ListRef.empty {k : ListKind} : ListRef k := ⟨0, 0⟩

namespace Flat

structure Field where
  names : ListRef .names
  ellipsis : Option Span
  type : NodeId .type
  tag : Option StringLiteral
  embedded : Bool
deriving Repr, DecidableEq

structure FieldList where
  lparen : Span
  fields : ListRef .fields
  rparen : Span
deriving Repr, DecidableEq

inductive Results where
  | absent
  | single (type : NodeId .type)
  | list (fields : FieldList)
deriving Repr, DecidableEq

structure Signature where
  params : FieldList
  results : Results
deriving Repr, DecidableEq

inductive Element where
  | method (name : Ident) (signature : NodeId .signature)
  | union (terms : ListRef .terms)
deriving Repr, DecidableEq

inductive TypeForm where
  | named (qualifier : Option Ident) (name : Ident) (args : ListRef .types)
  | pointer (star : Span) (elem : NodeId .type)
  | array (length : Span) (elem : NodeId .type)
  | slice (lbrack : Span) (elem : NodeId .type)
  | mapping (keyword : Span) (key value : NodeId .type)
  | chan (direction : Direction) (keyword : Span) (elem : NodeId .type)
  | struct (keyword : Span) (fields : ListRef .fields)
  | interface (keyword : Span) (elements : ListRef .elements)
  | func (keyword : Span) (signature : NodeId .signature)
  | paren (lparen : Span) (type : NodeId .type)
deriving Repr, DecidableEq

structure ValueSpec where
  names : ListRef .names
  type : Option (NodeId .type)
  values : Option Span
deriving Repr, DecidableEq

structure TypeSpec where
  name : Ident
  params : Option Span
  assign : Option Span
  type : NodeId .type
deriving Repr, DecidableEq

inductive Spec where
  | value (spec : ValueSpec)
  | type (spec : TypeSpec)
deriving Repr, DecidableEq

inductive SpecKind where
  | consts | types | vars
deriving Repr, DecidableEq

structure SpecDecl where
  keyword : Span
  kind : SpecKind
  parens : Option Parens
  specs : ListRef .specs
deriving Repr, DecidableEq

structure FuncDecl where
  keyword : Span
  receiver : Option FieldList
  name : Ident
  typeParams : Option Span
  signature : NodeId .signature
  body : Option Span
deriving Repr, DecidableEq

inductive Decl where
  | specs (decl : NodeId .decl)
  | func (decl : NodeId .func)
deriving Repr, DecidableEq

structure File where
  package : Span
  name : Ident
  imports : ListRef .imports
  decls : ListRef .decls
deriving Repr, DecidableEq

end Flat

/-- What stands at the numbers of a kind. -/
abbrev Node : NodeKind → Type
  | .decl => Flat.SpecDecl
  | .func => Flat.FuncDecl
  | .type => Flat.TypeForm
  | .field => Flat.Field
  | .signature => Flat.Signature

/-- What the lists of a kind are made of. -/
abbrev Item : ListKind → Type
  | .names => Ident
  | .types => NodeId .type
  | .fields => NodeId .field
  | .specs => Flat.Spec
  | .imports => ImportSpec
  | .decls => Flat.Decl
  | .elements => Flat.Element
  | .terms => Term (NodeId .type)

end GoIface
