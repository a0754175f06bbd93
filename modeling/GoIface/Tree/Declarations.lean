import GoIface.Tree.Types

/-!
# Reading declarations

A file is a package clause, imports and declarations, each ended by a semicolon that only the last
may lack. A text with faulty lexemes is rejected for these alone, before it is read at all.
-/

namespace GoIface.Parse

variable {μ α : Type}

def importName? : ParseOf μ (Option ImportName) := do
  match (← get).next? with
  | some (.mark .dot) => return some (.dot (← bump))
  | some (.ident "_") => return some (.blank (← bump))
  | some (.ident _) => return some (.name (← ident))
  | _ => return none

def importSpec : ParseOf μ ImportSpec := do
  let name ← importName?
  match ← stringLiteral? with
  | some path => return ⟨name, path⟩
  | none => expected .importPath

/-- A group of `spec` in parentheses, or one alone. -/
def group (spec : ParseOf μ α) : ParseOf μ (List α × Option Parens) := do
  match ← eat .lparen with
  | some left =>
    let (specs, right) ← block .rparen spec
    return (specs, some ⟨left, right⟩)
  | none => return ([← spec], none)

def importDecl : ParseOf μ (List ImportSpec) := do
  let _ ← bump
  return (← group importSpec).1

/-- Whether what follows the name of a type is a list of type parameters and not the length of an
array: a name and then what can start a constraint or the next name. -/
def holdsTypeParams : List Lexeme → Bool
  | ⟨.mark .lbrack, _⟩ :: ⟨.ident _, _⟩ :: ⟨t, _⟩ :: _ =>
    match t with
    | .ident _ => true
    | .mark m => (m matches .star | .lbrack | .lparen | .comma | .tilde)
    | .keyword k => (k matches .interfaceKw | .funcKw | .mapKw | .chanKw | .structKw)
    | _ => false
  | _ => false

def typeSpec : Parse TypeSpec := do
  let name ← ident
  let params ← if holdsTypeParams (← get).rest then some <$> bracketed else pure none
  let assign ← eat .assign
  return ⟨name, params, assign, ← type⟩

def valueSpec : Parse ValueSpec := do
  let names ← separated .comma ident
  let typed := (← get).next?.any Token.startsType
  let type ← if typed then some <$> type else pure none
  match ← eat .assign with
  | some _ =>
    let values ← through .expression fun t => t == .mark .semi || t == .mark .rparen
    return ⟨names, type, some values⟩
  | none => return ⟨names, type, none⟩

def specDecl (spec : Parse α) (specs : List α → Specs) : Parse Decl := do
  let keyword ← bump
  let (items, parens) ← group spec
  makeSpecDecl keyword parens (specs items)

def funcDecl : Parse Decl := do
  let keyword ← bump
  let receiver ← if (← get).isAt .lparen then some <$> params type else pure none
  let name ← ident
  let generic := receiver.isNone && (← get).isAt .lbrack
  let typeParams ← if generic then some <$> bracketed else pure none
  let signature ← signature type
  let body ← if (← get).isAt .lbrace then some <$> bracketed else pure none
  makeFunc keyword receiver name typeParams signature body

def decl : Parse Decl := do
  match (← get).next? with
  | some (.keyword .constKw) => specDecl valueSpec .consts
  | some (.keyword .typeKw) => specDecl typeSpec .types
  | some (.keyword .varKw) => specDecl valueSpec .vars
  | some (.keyword .funcKw) => funcDecl
  | some (.keyword .importKw) => failHere .lateImport
  | _ => expected .declaration

/-- The semicolon after a declaration, which the end of the text may stand for. -/
def declEnd : ParseOf μ Unit := do
  if (← get).atEnd || (← eat .semi).isSome then return () else expected .declarationEnd

/-- Declarations for as long as `more` holds, at most `n` of them. -/
def declsWhile (more : Cursor μ → Bool) (decl : ParseOf μ α) : Nat → ParseOf μ (List α)
  | 0 => return []
  | n + 1 => do
    if more (← get) then
      let x ← decl
      declEnd
      return x :: (← declsWhile more decl n)
    else return []

def file : Parse File := do
  let package ← expect (.keyword .packageKw)
  let name ← ident
  if (← eat .semi).isNone then expected .semicolon
  let isImport := fun c : Cursor => c.next? == some (.keyword .importKw)
  let imports ← declsWhile isImport importDecl (← get).rest.length
  let decls ← declsWhile (!·.atEnd) decl (← get).rest.length
  return ⟨package, name, imports.flatten, decls⟩

end GoIface.Parse

namespace GoIface

/-- The cursor before all lexemes of a text. -/
def Cursor.start {μ : Type} (made : μ) (ls : List Lexeme) (textEnd : Nat) : Cursor μ :=
  ⟨ls, ⟨0, 0⟩, textEnd, made⟩

def Cursor.ofLexemes (ls : List Lexeme) (textEnd : Nat) : Cursor :=
  ⟨ls, ⟨0, 0⟩, textEnd, ⟨0, 0, 0, 0, 0⟩⟩

/-- What is read of a whole text, and what was made on the way. -/
def readSource {μ α : Type} (read : ParseOf μ α) (made : μ) (source : String) :
    Except Rejection (α × μ) :=
  let lexemes := lex source
  match lexemes.filterMap Lexeme.diagnostic? with
  | first :: others => .error (.lexical first others)
  | [] =>
    match read (.start made lexemes (byteCount source.toList)) with
    | .ok (x, c) => .ok (x, c.made)
    | .error e => .error (.grammatical e)

theorem readSource_of_sound {μ α : Type} {read : ParseOf μ α} {made : μ} {source : String}
    (h : (lex source).filterMap Lexeme.diagnostic? = []) : readSource read made source
      = match read (.start made (lex source) (byteCount source.toList)) with
        | .ok (x, c) => .ok (x, c.made)
        | .error e => .error (.grammatical e) := by
  simp only [readSource, h]

/-- The tree of a text and the counts of its nodes. -/
def File.ofSource (source : String) : Except Rejection (File × Counts) :=
  readSource Parse.file ⟨0, 0, 0, 0, 0⟩ source

end GoIface
