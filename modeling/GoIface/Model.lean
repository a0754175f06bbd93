import GoIface.Direction

/-!
# Interfaces

What a file offers to whoever fakes its interfaces: their methods, with every type told by the path
of the package that declares it. A type without package is taken to be declared where it is used.
-/

namespace GoIface

/-- A parameter or result, without a name if that is empty. The type of a variadic parameter is
the slice that its arguments are collected in. -/
structure Parameter (τ : Type) where
  name : String
  variadic : Bool
  type : τ
deriving Repr, DecidableEq

inductive TypeExpr where
  | array (length : Nat) (elem : TypeExpr)
  | slice (elem : TypeExpr)
  | pointer (elem : TypeExpr)
  | mapping (key value : TypeExpr)
  | chan (direction : Direction) (elem : TypeExpr)
  | func (args results : List (Parameter TypeExpr))
  | named (package name : String)
  /-- Written as it is, with no package whatever the file imports. -/
  | predeclared (name : String)
deriving Repr

abbrev Param := Parameter TypeExpr

structure Method where
  name : String
  args : List Param
  results : List Param
deriving Repr

structure Interface where
  name : String
  methods : List Method
deriving Repr

/-- The package name of a file and the interfaces that it declares, in order. -/
structure FileModel where
  package : String
  interfaces : List Interface
deriving Repr

/-- An interface with the package that declares it. The import path is empty where unknown. -/
structure Declared where
  interface : Interface
  package : String
  importPath : String
deriving Repr

/-- The first interface of a name, with the package name of its file. -/
def seekInterface (files : List FileModel) (name : String) : Option (Interface × String) :=
  files.findSome? fun f => (f.interfaces.find? (·.name == name)).map (·, f.package)

end GoIface
