import GoIface.Model

/-!
# Packages that types depend on

Import paths are gathered into sets kept in ascending order, none of them twice. Adding one puts it
into the set and changes nothing else (`mem_insertPath`).
-/

namespace GoIface

/-- Import paths in ascending order, without repetition. -/
abbrev PathSet := List String

def insertPath (path : String) : PathSet → PathSet
  | [] => [path]
  | p :: ps =>
    if path < p then path :: p :: ps
    else if path = p then p :: ps
    else p :: insertPath path ps

theorem mem_insertPath {path p : String} {ps : PathSet} :
    p ∈ insertPath path ps ↔ p = path ∨ p ∈ ps := by
  induction ps with
  | nil => simp [insertPath]
  | cons q qs ih =>
    unfold insertPath
    split
    · simp
    · split
      · next h => simp [h]
      · simp [ih, or_left_comm]

def PathSet.addAll (set : PathSet) (paths : List String) : PathSet :=
  paths.foldl (fun set p => insertPath p set) set

theorem PathSet.mem_addAll {p : String} {set : PathSet} {paths : List String} :
    p ∈ set.addAll paths ↔ p ∈ set ∨ p ∈ paths := by
  induction paths generalizing set with
  | nil => simp [addAll]
  | cons q paths ih =>
    show p ∈ PathSet.addAll (insertPath q set) paths ↔ _
    rw [ih, mem_insertPath, List.mem_cons]
    rw [or_assoc, or_left_comm]

mutual

/-- The packages of the named types inside a type, in the order they are written. -/
def TypeExpr.packages : TypeExpr → List String
  | .array _ elem | .slice elem | .pointer elem | .chan _ elem => elem.packages
  | .mapping key value => key.packages ++ value.packages
  | .func args results => packagesOfAll args ++ packagesOfAll results
  | .named package _ => if package.isEmpty then [] else [package]
  | .predeclared _ => []

def packagesOfParam : Param → List String
  | ⟨_, _, type⟩ => type.packages

def packagesOfAll : List Param → List String
  | [] => []
  | p :: ps => packagesOfParam p ++ packagesOfAll ps

end

theorem packagesOfParam_eq (p : Param) : packagesOfParam p = p.type.packages := by
  cases p
  rfl

theorem packagesOfAll_eq_flatMap :
    ∀ ps : List Param, packagesOfAll ps = ps.flatMap packagesOfParam
  | [] => rfl
  | _ :: ps => by simp [packagesOfAll, packagesOfAll_eq_flatMap ps]

def Method.packages (m : Method) : List String :=
  m.args.flatMap packagesOfParam ++ m.results.flatMap packagesOfParam

/-- The packages that the methods of an interface refer to. -/
def Interface.packages (i : Interface) : PathSet :=
  PathSet.addAll [] (i.methods.flatMap (·.packages))

end GoIface
