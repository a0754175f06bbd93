import GoIface.Model.Extraction
import GoIface.Proofs.Visits
import Mathlib.Data.List.Basic

/-!
# Models of files

The visitor that looks for interfaces meets the type specs of the top level and no others
(`File.interfaces_eq_filterMap`). So the model of a file is its package name and the models of its
declarations, one after another (`FileModel.ofFile_eq_ok_iff`). So it depends on the declarations
one by one, once the imports are bound.
-/

namespace GoIface

/-- The declared interfaces of a declaration with their elements. -/
def Decl.interfaces (d : Decl) : List (TypeSpec × List (Element TypeNode)) :=
  d.typeSpecs.filterMap fun s => s.elements?.map (s, ·)

/-- What is made of the interfaces that declarations declare. -/
def modelAll (scope : FileScope) (ds : List Decl) : Convert (List Interface) :=
  (ds.flatMap Decl.interfaces).mapM fun (s, elements) => s.model scope elements

theorem ValueSpec.visit_interfaceDecls (s : ValueSpec) :
    Appends (s.visit interfaceDecls) [] := by
  have htype (t : TypeNode) : Appends (t.visit interfaceDecls) [] := by
    rw [TypeNode.visit_eq_id (v := interfaceDecls) ⟨rfl, rfl, rfl⟩]
    exact .nil
  exact .visitEach_nil htype s.type.toList

theorem TypeSpec.visit_interfaceDecls (s : TypeSpec) :
    Appends (s.visit interfaceDecls) (s.elements?.map (s, ·)).toList := fun _ => rfl

/-- Only the type specs of a declaration are noted. -/
theorem Decl.visit_interfaceDecls :
    ∀ d : Decl, Appends (d.visit interfaceDecls) d.interfaces
  | .func _ => .nil
  | .specs ⟨_, _, _, _, .consts xs⟩ | .specs ⟨_, _, _, _, .vars xs⟩ =>
    .visitEach_nil ValueSpec.visit_interfaceDecls xs
  | .specs ⟨_, _, _, _, .types xs⟩ => by
    rw [interfaces, List.filterMap_eq_flatMap_toList]
    exact Appends.visitEach TypeSpec.visit_interfaceDecls xs

theorem File.interfaces_eq_flatMap (f : File) :
    f.interfaces = f.decls.flatMap Decl.interfaces :=
  Appends.visitEach Decl.visit_interfaceDecls f.decls []

theorem File.interfaces_eq_filterMap (f : File) : f.interfaces
    = (f.decls.flatMap Decl.typeSpecs).filterMap fun s => s.elements?.map (s, ·) := by
  rw [interfaces_eq_flatMap, List.filterMap_flatMap]
  rfl

theorem File.model_eq (scope : FileScope) (f : File) :
    f.model scope = (modelAll scope f.decls).map fun xs => ⟨f.name.name, xs⟩ := by
  rw [model, interfaces_eq_flatMap]
  rfl

theorem modelAll_append_eq_ok_iff {scope : FileScope} {ds es : List Decl} {zs : List Interface} :
    modelAll scope (ds ++ es) = .ok zs ↔
      ∃ xs ys, modelAll scope ds = .ok xs ∧ modelAll scope es = .ok ys ∧ zs = xs ++ ys := by
  have happend : modelAll scope (ds ++ es) = do
      let xs ← modelAll scope ds
      let ys ← modelAll scope es
      return xs ++ ys := by
    rw [modelAll, List.flatMap_append, List.mapM_append]
    rfl
  rw [happend]
  rcases modelAll scope ds with e | xs <;> rcases modelAll scope es with e | ys <;>
    simp [bind, Except.bind, pure, Except.pure, eq_comm]

/-- A declaration without interfaces adds nothing to a model. -/
theorem modelAll_cons_of_interfaces_eq_nil {d : Decl} (h : d.interfaces = []) (scope : FileScope)
    (ds : List Decl) : modelAll scope (d :: ds) = modelAll scope ds := by
  rw [modelAll, List.flatMap_cons, h]
  rfl

section

variable {resolve : Resolver} {name source importPath : String} {file : File}

theorem FileModel.ofFile_of_collision {twice : String}
    (h : bindImports resolve source file.imports = .error twice) :
    ofFile resolve name source importPath file = .error (.collision name twice) := by
  simp only [ofFile, h]

theorem FileModel.ofFile_of_bound {bindings : Bindings}
    (h : bindImports resolve source file.imports = .ok bindings) :
    ofFile resolve name source importPath file
      = match modelAll ⟨source, bindings, importPath⟩ file.decls with
        | .error e => .error (.refused (placeIn name source e.span) e.fault)
        | .ok xs => .ok ⟨file.name.name, xs⟩ := by
  simp only [ofFile, h, File.model_eq]
  rcases modelAll ⟨source, bindings, importPath⟩ file.decls with e | xs <;> rfl

theorem FileModel.ofFile_eq_ok_iff {m : FileModel} :
    ofFile resolve name source importPath file = .ok m ↔
      ∃ bindings, bindImports resolve source file.imports = .ok bindings ∧
        modelAll ⟨source, bindings, importPath⟩ file.decls = .ok m.interfaces ∧
        m.package = file.name.name := by
  obtain ⟨package, interfaces⟩ := m
  rcases hbind : bindImports resolve source file.imports with twice | bindings
  · simp [ofFile_of_collision hbind]
  · rw [ofFile_of_bound hbind]
    rcases hmodel : modelAll ⟨source, bindings, importPath⟩ file.decls with e | xs
    · simp [hmodel]
    · simp [hmodel, eq_comm, and_comm]

theorem FileModel.ofSource_eq_ok_iff {m : FileModel} :
    ofSource resolve name source importPath = .ok m ↔ ∃ file made,
      File.ofSource source = .ok (file, made) ∧
        ofFile resolve name source importPath file = .ok m := by
  rcases hfile : File.ofSource source with r | ⟨file, made⟩
  · simp [ofSource, readFile, hfile, bind, Except.bind]
  · simp [ofSource, readFile, hfile, bind, Except.bind]

end

end GoIface
