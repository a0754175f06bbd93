import GoIface.ImportPath
import GoIface.Model

/-!
# Writing types

A type is written as it is declared in a file that knows packages by the names of an alias table.
A package that is not in the table goes by the last segment of its import path. No parentheses are
ever written around a type.

The description of a file lists its interfaces, methods and parameters line by line, with every
package under its last segment.
-/

namespace GoIface

/-- The names that a file knows packages by, by import path. -/
abbrev AliasTable := List (String × String)

def AliasTable.qualifier (table : AliasTable) (package : String) : String :=
  (table.lookup package).getD (lastSegment package)

def commaSeparated (texts : List String) : String := String.intercalate ", " texts

/-- The results of a signature, each already written. -/
def resultsText : List String → String
  | [] => ""
  | [t] => " " ++ t
  | ts => " (" ++ commaSeparated ts ++ ")"

mutual

def TypeExpr.render (table : AliasTable) : TypeExpr → String
  | .array length elem => "[" ++ toString length ++ "]" ++ elem.render table
  | .slice elem => "[]" ++ elem.render table
  | .pointer elem => "*" ++ elem.render table
  | .mapping key value => "map[" ++ key.render table ++ "]" ++ value.render table
  | .chan direction elem => direction.keyword ++ " " ++ elem.render table
  | .func args results =>
    "func(" ++ commaSeparated (renderAll table args) ++ ")"
      ++ resultsText (renderAll table results)
  | .named package name =>
    if package.isEmpty then name else table.qualifier package ++ "." ++ name
  | .predeclared name => name

def renderParam (table : AliasTable) : Param → String
  | ⟨_, true, .slice elem⟩ => "..." ++ elem.render table
  | ⟨_, _, type⟩ => type.render table

def renderAll (table : AliasTable) : List Param → List String
  | [] => []
  | p :: ps => renderParam table p :: renderAll table ps

end

theorem renderAll_eq_map (table : AliasTable) :
    ∀ ps : List Param, renderAll table ps = ps.map (renderParam table)
  | [] => rfl
  | _ :: ps => by simp [renderAll, renderAll_eq_map table ps]

/-- What is written after the name of a method. -/
def Method.signatureText (table : AliasTable) (m : Method) : String :=
  "(" ++ commaSeparated (m.args.map (renderParam table)) ++ ")"
    ++ resultsText (m.results.map (renderParam table))

def describeParam (p : Param) : String :=
  "    - " ++ (if p.name.isEmpty then "\"\"" else p.name) ++ ": " ++ renderParam [] p ++ "\n"

def describeParams (title : String) (ps : List Param) : String :=
  if ps.isEmpty then "" else "    " ++ title ++ ":\n" ++ String.join (ps.map describeParam)

def Method.describe (m : Method) : String :=
  "  - method " ++ m.name ++ "\n" ++ describeParams "args" m.args
    ++ describeParams "results" m.results

def Interface.describe (i : Interface) : String :=
  "interface " ++ i.name ++ "\n" ++ String.join (i.methods.map Method.describe)

def FileModel.describe (f : FileModel) : String :=
  "go file package " ++ f.package ++ "\n" ++ String.join (f.interfaces.map Interface.describe)

end GoIface
