import GoIface.ImportPath
import GoIface.Tree

/-!
# What imports bind

An import binds an identifier to its path: the name it is given, a point for an import into the
file itself, and else the name of the package as far as that can be told. A blank import binds
nothing. No identifier may be bound twice.
-/

namespace GoIface

/-- The declared names of packages, by import path, where they are known. -/
abbrev Resolver := String → Option String

/-- The paths that a file's identifiers are bound to. -/
abbrev Bindings := List (String × String)

def boundName (resolve : Resolver) (path : String) : Option ImportName → Option String
  | some (.blank _) => none
  | some (.dot _) => some "."
  | some (.name x) => some x.name
  | none => some ((resolve path).getD (guessedName path))

/-- The identifier and path of every import that binds one, in order. -/
def importBindings (resolve : Resolver) (source : String) (imports : List ImportSpec) : Bindings :=
  imports.filterMap fun i =>
    let path := i.path.value source
    (boundName resolve path i.name).map (·, path)

/-- The first identifier that is bound again. -/
def collision? (bound : List String) : Bindings → Option String
  | [] => none
  | (name, _) :: rest => if bound.contains name then some name else collision? (name :: bound) rest

def bindImports (resolve : Resolver) (source : String) (imports : List ImportSpec) :
    Except String Bindings :=
  let bindings := importBindings resolve source imports
  match collision? [] bindings with
  | some name => .error name
  | none => .ok bindings

/-- The paths whose names are asked of a resolver. -/
def unnamedPaths (source : String) (imports : List ImportSpec) : List String :=
  (imports.filter (·.name.isNone)).map (·.path.value source)

end GoIface
