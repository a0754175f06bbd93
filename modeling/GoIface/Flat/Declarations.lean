import GoIface.Flat.Types
import GoIface.Tree.Declarations

/-!
# Reading declarations into an arena

The imports and the declarations of a file are the last lists that its arena takes.
-/

namespace GoIface.Build

open Parse

def typeSpec : Build Flat.TypeSpec := do
  let name ← ident
  let params ← if holdsTypeParams (← get).rest then some <$> bracketed else pure none
  let assign ← eat .assign
  return ⟨name, params, assign, ← type⟩

def valueSpec : Build Flat.ValueSpec := do
  let names ← separated .comma ident
  let typed := (← get).next?.any Token.startsType
  let type ← if typed then some <$> type else pure none
  match ← eat .assign with
  | some _ =>
    let values ← through .expression fun t => t == .mark .semi || t == .mark .rparen
    return ⟨← push .names names, type, some values⟩
  | none => return ⟨← push .names names, type, none⟩

def specDecl (kind : Flat.SpecKind) (spec : Build Flat.Spec) : Build Flat.Decl := do
  let keyword ← bump
  let (items, parens) ← group spec
  let specs ← push .specs items
  return .specs (← make .decl keyword ⟨keyword, kind, parens, specs⟩)

def funcDecl : Build Flat.Decl := do
  let keyword ← bump
  let receiver ← if (← get).isAt .lparen then some <$> params type else pure none
  let name ← ident
  let generic := receiver.isNone && (← get).isAt .lbrack
  let typeParams ← if generic then some <$> bracketed else pure none
  let signature ← signature type
  let body ← if (← get).isAt .lbrace then some <$> bracketed else pure none
  return .func (← make .func keyword ⟨keyword, receiver, name, typeParams, signature, body⟩)

def decl : Build Flat.Decl := do
  match (← get).next? with
  | some (.keyword .constKw) => specDecl .consts (.value <$> valueSpec)
  | some (.keyword .typeKw) => specDecl .types (.type <$> typeSpec)
  | some (.keyword .varKw) => specDecl .vars (.value <$> valueSpec)
  | some (.keyword .funcKw) => funcDecl
  | some (.keyword .importKw) => failHere .lateImport
  | _ => expected .declaration

def file : Build Flat.File := do
  let package ← expect (.keyword .packageKw)
  let name ← ident
  if (← eat .semi).isNone then expected .semicolon
  let isImport := fun c : Cursor Arena => c.next? == some (.keyword .importKw)
  let imports ← declsWhile isImport importDecl (← get).rest.length
  let decls ← declsWhile (!·.atEnd) decl (← get).rest.length
  let imports ← push .imports imports.flatten
  return ⟨package, name, imports, ← push .decls decls⟩

end GoIface.Build

namespace GoIface

/-- A file and the arena that its nodes and lists are in. -/
structure Ast where
  arena : Arena
  file : Flat.File

def Ast.ofSource (source : String) : Except Rejection Ast :=
  (readSource Build.file .empty source).map fun (file, arena) => ⟨arena, file⟩

end GoIface
