import GoIface.Direction
import GoIface.Span

/-!
# Syntax trees

The tree of a file holds its package clause, its imports and the shape of its declarations. Types
are held in full. Type parameters, array lengths, initial values and function bodies are only the
spans they cover.

The parts of a type are written over the type `τ` of what stands at the places of types, and
`TypeNode` closes the knot. Declarations, functions, types, fields and signatures each carry a
serial number: how many nodes of their kind were made before them.
-/

namespace GoIface

structure Ident where
  name : String
  span : Span
deriving Repr, DecidableEq

/-- A string literal, quotes included. -/
structure StringLiteral where
  span : Span
deriving Repr, DecidableEq

/-- What stands between the quotes, escapes as written. -/
def StringLiteral.value (l : StringLiteral) (source : String) : String :=
  let text := l.span.slice source.toList
  if byteCount text < 2 then "" else String.ofList text.tail.dropLast

/-- A parameter, a result or a field of a struct. One without names is anonymous or embedded. -/
structure Field (τ : Type) where
  serial : Nat
  span : Span
  names : List Ident
  ellipsis : Option Span
  type : τ
  tag : Option StringLiteral
  embedded : Bool
deriving Repr, DecidableEq

structure FieldList (τ : Type) where
  lparen : Span
  fields : List (Field τ)
  rparen : Span
deriving Repr, DecidableEq

inductive Results (τ : Type) where
  | absent
  | single (type : τ)
  | list (fields : FieldList τ)
deriving Repr, DecidableEq

structure Signature (τ : Type) where
  serial : Nat
  span : Span
  params : FieldList τ
  results : Results τ
deriving Repr, DecidableEq

/-- A member of a union, with its `~` if it has one. -/
structure Term (τ : Type) where
  tilde : Option Span
  type : τ
deriving Repr, DecidableEq

inductive Element (τ : Type) where
  | method (name : Ident) (signature : Signature τ)
  | union (terms : List (Term τ))
deriving Repr, DecidableEq

/-- The forms of a type. The span each keeps is that of its first mark or keyword, except that a
channel always keeps its keyword and an array its length. -/
inductive TypeForm (τ : Type) where
  | named (qualifier : Option Ident) (name : Ident) (args : List τ)
  | pointer (star : Span) (elem : τ)
  | array (length : Span) (elem : τ)
  | slice (lbrack : Span) (elem : τ)
  | mapping (keyword : Span) (key value : τ)
  | chan (direction : Direction) (keyword : Span) (elem : τ)
  | struct (keyword : Span) (fields : List (Field τ))
  | interface (keyword : Span) (elements : List (Element τ))
  | func (keyword : Span) (signature : Signature τ)
  | paren (lparen : Span) (type : τ)
deriving Repr, DecidableEq

inductive TypeNode where
  | mk (serial : Nat) (span : Span) (form : TypeForm TypeNode)
deriving Repr

namespace TypeNode

def serial : TypeNode → Nat
  | mk n _ _ => n

def span : TypeNode → Span
  | mk _ s _ => s

def form : TypeNode → TypeForm TypeNode
  | mk _ _ f => f

end TypeNode

inductive ImportName where
  | dot (span : Span)
  | blank (span : Span)
  | name (ident : Ident)
deriving Repr, DecidableEq

structure ImportSpec where
  name : Option ImportName
  path : StringLiteral
deriving Repr, DecidableEq

structure ValueSpec where
  names : List Ident
  type : Option TypeNode
  values : Option Span
deriving Repr

structure TypeSpec where
  name : Ident
  params : Option Span
  assign : Option Span
  type : TypeNode
deriving Repr

def TypeSpec.isAlias (s : TypeSpec) : Bool := s.assign.isSome

inductive Specs where
  | consts (specs : List ValueSpec)
  | types (specs : List TypeSpec)
  | vars (specs : List ValueSpec)
deriving Repr

/-- The parentheses of a group. -/
structure Parens where
  left : Span
  right : Span
deriving Repr, DecidableEq

structure SpecDecl where
  serial : Nat
  span : Span
  keyword : Span
  parens : Option Parens
  specs : Specs
deriving Repr

structure FuncDecl where
  serial : Nat
  span : Span
  keyword : Span
  receiver : Option (FieldList TypeNode)
  name : Ident
  typeParams : Option Span
  signature : Signature TypeNode
  body : Option Span
deriving Repr

inductive Decl where
  | specs (decl : SpecDecl)
  | func (decl : FuncDecl)
deriving Repr

structure File where
  package : Span
  name : Ident
  imports : List ImportSpec
  decls : List Decl
deriving Repr

/-- How many nodes of each kind were made. -/
structure Counts where
  decls : Nat
  funcs : Nat
  types : Nat
  fields : Nat
  signatures : Nat
deriving Repr, DecidableEq

end GoIface
