import GoIface.Model.Packages
import GoIface.Model.Rendering

/-!
# Reports

A report tells where an interface is declared, where its fake goes, which packages its methods
refer to and how they are written there. Packages go by the names guessed from their paths.
-/

namespace GoIface

def orLocal (path : String) : String := if path.isEmpty then "(local)" else path

def reportTable (paths : PathSet) : AliasTable := paths.map fun p => (p, guessedName p)

def Declared.report (d : Declared) (outPackage outPath : String) : String :=
  let paths := d.interface.packages
  "source package: " ++ d.package ++ "\n"
    ++ "source import path: " ++ orLocal d.importPath ++ "\n"
    ++ "output package: " ++ outPackage ++ "\n"
    ++ "output import path: " ++ orLocal outPath ++ "\n"
    ++ "referenced packages:\n"
    ++ String.join (paths.map fun p => "  - " ++ p ++ "\n")
    ++ "signatures:\n"
    ++ String.join (d.interface.methods.map fun m =>
      "  " ++ m.name ++ m.signatureText (reportTable paths) ++ "\n")
    ++ d.interface.describe

end GoIface
