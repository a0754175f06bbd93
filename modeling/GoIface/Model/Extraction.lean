import GoIface.Files.Fault
import GoIface.Model.Conversion
import GoIface.Position
import GoIface.Tree.Declarations

/-!
# From texts to interfaces

A text is read, its imports are bound and its interfaces are converted, in this order, and the
first fault ends it. So a text that is no file is never blamed for its imports, nor one whose
imports collide for its types.
-/

namespace GoIface

/-- A place in a file. -/
structure Place where
  file : String
  position : Position
deriving Repr, DecidableEq

def Place.text (p : Place) : String :=
  p.file ++ ":" ++ toString p.position.line ++ ":" ++ toString p.position.column

inductive ExtractError where
  | io (path : String) (fault : FileFault)
  | rejected (place : Place) (fault : Fault)
  | refused (place : Place) (refusal : Refusal)
  | collision (file name : String)
  | notFound (name : String)
deriving Repr, DecidableEq

def ExtractError.message : ExtractError → String
  | io path fault => path ++ ": " ++ fault.message
  | rejected place fault => place.text ++ ": " ++ fault.message
  | refused place refusal => place.text ++ ": " ++ refusal.message
  | collision file name =>
    file ++ ": imported package collision: " ++ Text.quoted name ++ " imported twice"
  | notFound name => "not found interface " ++ name

def placeIn (file source : String) (span : Span) : Place :=
  ⟨file, positionOf source span.start⟩

/-- The model of a text that is read already. -/
def FileModel.ofFile (resolve : Resolver) (name source importPath : String) (file : File) :
    Except ExtractError FileModel :=
  match bindImports resolve source file.imports with
  | .error twice => .error (.collision name twice)
  | .ok imports =>
    match file.model ⟨source, imports, importPath⟩ with
    | .error e => .error (.refused (placeIn name source e.span) e.fault)
    | .ok model => .ok model

/-- The tree of a text, with the place of its fault if it has none. -/
def readFile (name source : String) : Except ExtractError File :=
  match File.ofSource source with
  | .error r => .error (.rejected (placeIn name source r.first.span) r.first.fault)
  | .ok (file, _) => .ok file

/-- The model of a text. The name only labels errors. -/
def FileModel.ofSource (resolve : Resolver) (name source importPath : String) :
    Except ExtractError FileModel := do
  let file ← readFile name source
  ofFile resolve name source importPath file

def findInterface (files : List FileModel) (name importPath : String) :
    Except ExtractError Declared :=
  match seekInterface files name with
  | some (interface, package) => .ok ⟨interface, package, importPath⟩
  | none => .error (.notFound name)

end GoIface
