import GoIface.Model
import GoIface.Model.Imports
import GoIface.Model.Length
import GoIface.Text.Quoted
import GoIface.Text.Uppercase
import GoIface.Tree.Visitor

/-!
# From trees to interfaces

The interfaces of a file are found by a visitor that looks at the type specs it meets and goes into
no function: it notes those whose type is an interface literal. Each of their methods is converted
with its types; what has no counterpart in the model is refused where it stands, and of several such
places the first in the text is reported.
-/

namespace GoIface

/-- Why something has no model. -/
inductive Refusal where
  | genericInterface (name : String)
  | typeElement (text : String)
  | genericType (text : String)
  | arrayLength (text : String) (fault : LengthFault)
  | structFields
  | interfaceElements
  | unknownPackage (qualifier : String)
deriving Repr, DecidableEq

def Refusal.message : Refusal → String
  | genericInterface name => "generic interface " ++ name ++ " is not supported"
  | typeElement text => "don't know how to mock method of type " ++ text
  | genericType text => "generic type " ++ text ++ " is not supported"
  | arrayLength text fault => "bad array size " ++ Text.quoted text ++ ": " ++ fault.message
  | structFields => "can't handle non-empty unnamed struct types"
  | interfaceElements => "can't handle non-empty unnamed interface types"
  | unknownPackage qualifier => "unknown package " ++ Text.quoted qualifier

/-- What a type means depends on the file that it stands in. -/
structure FileScope where
  source : String
  imports : Bindings
  /-- The import path of the file's own package, empty where unknown. -/
  importPath : String

abbrev Convert := Except (Located Refusal)

def refuse {α : Type} (refusal : Refusal) (span : Span) : Convert α := .error ⟨refusal, span⟩

def isExported (name : String) : Bool := name.toList.head?.any Text.isUppercase

namespace FileScope

variable (scope : FileScope)

/-- A file may bind the path of its own package to another. -/
def ownPackage : String := (scope.imports.lookup scope.importPath).getD scope.importPath

def named (qualifier : Option Ident) (name : Ident) : Convert TypeExpr :=
  match qualifier with
  | some q =>
    match scope.imports.lookup q.name with
    | some path => .ok (.named path name.name)
    | none => refuse (.unknownPackage q.name) q.span
  | none =>
    if isExported name.name then .ok (.named scope.ownPackage name.name)
    else .ok (.predeclared name.name)

def arrayLength (span : Span) : Convert Nat :=
  let text := Text.trim (span.slice scope.source.toList)
  match readLength text with
  | .ok n => .ok n
  | .error fault => refuse (.arrayLength (String.ofList text) fault) span

end FileScope

/-- The parameters of a field whose type is converted: one for each name, or one without name. -/
def Field.params (x : Field (Convert TypeExpr)) : Convert (List Param) := do
  let elem ← x.type
  let variadic := x.ellipsis.isSome
  let type := if variadic then .slice elem else elem
  let names := if x.names.isEmpty then [""] else x.names.map (·.name)
  return names.map fun name => ⟨name, variadic, type⟩

def FieldList.params (l : FieldList (Convert TypeExpr)) : Convert (List Param) := do
  return (← l.fields.mapM Field.params).flatten

def Results.params : Results (Convert TypeExpr) → Convert (List Param)
  | .absent => .ok []
  | .single type => do return [⟨"", false, ← type⟩]
  | .list l => l.params

/-- The arguments and the results of a signature. -/
def Signature.model (s : Signature (Convert TypeExpr)) : Convert (List Param × List Param) := do
  let args ← s.params.params
  return (args, ← s.results.params)

/-- The model of a type from the models of the types inside it. -/
def TypeForm.model (scope : FileScope) (span : Span) :
    TypeForm (Convert TypeExpr) → Convert TypeExpr
  | .named qualifier name args =>
    if args.isEmpty then scope.named qualifier name
    else refuse (.genericType (span.text scope.source)) span
  | .pointer _ elem => .pointer <$> elem
  | .array length elem => do
    let n ← scope.arrayLength length
    return .array n (← elem)
  | .slice _ elem => .slice <$> elem
  | .mapping _ key value => do
    let key ← key
    return .mapping key (← value)
  | .chan direction _ elem => .chan direction <$> elem
  | .struct _ fields =>
    if fields.isEmpty then .ok (.predeclared "struct\x7b\x7d") else refuse .structFields span
  | .interface _ elements =>
    if elements.isEmpty then .ok (.predeclared "interface\x7b\x7d")
    else refuse .interfaceElements span
  | .func _ signature => do
    let (args, results) ← signature.model
    return .func args results
  | .paren _ type => type

def TypeNode.model (scope : FileScope) (t : TypeNode) : Convert TypeExpr :=
  t.fold fun _ span form => form.model scope span

def Term.span (t : Term TypeNode) : Span := (t.tilde.map (·.hull t.type.span)).getD t.type.span

/-- The span of the terms of a union. -/
def termsSpan : List (Term TypeNode) → Span
  | [] => ⟨0, 0⟩
  | t :: ts => ts.foldl (fun span t => span.hull t.span) t.span

def Element.model (scope : FileScope) : Element TypeNode → Convert Method
  | .method name signature => do
    let (args, results) ← (signature.map (TypeNode.model scope)).model
    return ⟨name.name, args, results⟩
  | .union terms =>
    let span := termsSpan terms
    refuse (.typeElement (span.text scope.source)) span

/-- The elements of the interface literal that a type declaration names. -/
def TypeSpec.elements? (s : TypeSpec) : Option (List (Element TypeNode)) :=
  match s.type.form with
  | .interface _ elements => some elements
  | _ => none

def TypeSpec.model (scope : FileScope) (s : TypeSpec) (elements : List (Element TypeNode)) :
    Convert Interface := do
  match s.params with
  | some span => refuse (.genericInterface s.name.name) span
  | none => return ⟨s.name.name, ← elements.mapM (Element.model scope)⟩

def Decl.typeSpecs : Decl → List TypeSpec
  | .specs ⟨_, _, _, _, .types declared⟩ => declared
  | _ => []

/-- Notes the type specs whose type is an interface literal, with its elements. What is inside
functions and type specs is not visited. -/
def interfaceDecls : Visitor (List (TypeSpec × List (Element TypeNode))) where
  func _ _ := id
  typeSpec s _ found := found ++ (s.elements?.map (s, ·)).toList

/-- The declared interfaces of a file with their elements, in order. -/
def File.interfaces (f : File) : List (TypeSpec × List (Element TypeNode)) :=
  f.visit interfaceDecls []

def File.model (scope : FileScope) (f : File) : Convert FileModel := do
  return ⟨f.name.name, ← f.interfaces.mapM fun (s, elements) => s.model scope elements⟩

end GoIface
