import Mathlib.Data.Set.List
import GoIface.Files.Resolution
import GoIface.Proofs.EnclosingModules

/-!
# Places of packages

A search root maps import paths to directories, and the import path of a directory is told by where
it lies below a module or a `src` directory. The one undoes the other
(`import_path_leads_back`): what a directory is called leads back to it from the root it was named
after, so two directories of one module are never called the same.
-/

namespace GoIface

namespace Path

variable {p q above cwd : String}

/-- Paths that differ in their spelling at most. -/
def SamePath (p q : String) : Prop := steps p = steps q

/-- The path is the other or goes down from it. -/
def LiesIn (p above : String) : Prop := steps above <+: steps p

/-- The path never goes up. -/
def Descends (p : String) : Prop := .up ∉ steps p

theorem exists_names_of_liesIn (hp : isAbsolute p = true) (habove : isAbsolute above = true)
    (hdown : Descends p) (h : LiesIn p above) :
    ∃ names : List String, (∀ n ∈ names, IsName n) ∧ steps p = steps above ++ names.map .down := by
  obtain ⟨rest, hrest⟩ := h
  have hdowns : rest ∈ Set.range (List.map Step.down) := by
    rw [Set.range_list_map]
    intro s hs
    have hmem : s ∈ (stretches p).tail.filterMap step? := by
      rw [steps_of_isAbsolute hp, steps_of_isAbsolute habove, List.cons_append,
        List.cons.injEq] at hrest
      exact hrest.2 ▸ List.mem_append_right _ hs
    obtain ⟨stretch, -, hstretch⟩ := List.mem_filterMap.1 hmem
    rw [step?] at hstretch
    split_ifs at hstretch
    · cases hstretch
      exact absurd (hrest ▸ List.mem_append_right _ hs) hdown
    · exact ⟨stretch, Option.some.inj hstretch⟩
  obtain ⟨names, rfl⟩ := hdowns
  refine ⟨names, fun n hn => isName_of_mem_steps hp ?_, hrest.symm⟩
  rw [← hrest]
  exact List.mem_append_right _ (List.mem_map_of_mem hn)

theorem liesIn_of_below? {rel : String} (h : below? above p = some rel) : LiesIn p above := by
  obtain ⟨names, hsteps, -⟩ := below?_eq_some_iff.1 h
  exact ⟨_, hsteps.symm⟩

end Path

open Path

theorem joinImportPath_empty (below : String) : joinImportPath "" below = below := by
  rcases eq_or_ne below "" with rfl | hbelow
  · rfl
  · simp [joinImportPath, hbelow]

theorem joinImportPath_ne_empty {path : String} (hpath : path ≠ "") (below : String) :
    joinImportPath path below ≠ "" := by
  rcases eq_or_ne below "" with rfl | hbelow <;> simp [joinImportPath, *]

namespace SearchRoot

theorem rest?_eq_some_iff {root : SearchRoot} (hserves : root.serves ≠ "") {importPath : String}
    {rest : List Char} : root.rest? importPath = some rest ↔
      importPath = root.serves ∧ rest = [] ∨
        importPath = root.serves ++ "/" ++ String.ofList rest := by
  have hne (rest : String) : root.serves ≠ root.serves ++ "/" ++ rest := by
    intro h
    have hlen := congrArg String.length h
    simp only [String.length_append] at hlen
    have hslash : "/".length = 1 := rfl
    omega
  rw [rest?, if_neg (by simpa using hserves)]
  split_ifs with heq
  · subst heq
    simp [hne, eq_comm]
  · simp only [Option.bind_eq_bind, Option.bind_eq_some_iff, Text.dropStart?_eq_some_iff, heq,
      false_and, false_or, ← String.toList_inj, String.toList_append, String.toList_ofList]
    constructor
    · rintro ⟨_, himport, rfl⟩
      simpa using himport
    · intro himport
      exact ⟨'/' :: rest, by simpa using himport, rfl⟩

/-- What is put below the path that a root serves is found again. -/
theorem rest?_joinImportPath (path dir below : String) :
    SearchRoot.rest? ⟨path, dir⟩ (joinImportPath path below) = some below.toList := by
  rcases eq_or_ne path "" with rfl | hpath
  · simp [rest?, joinImportPath_empty]
  rw [rest?_eq_some_iff hpath]
  rcases eq_or_ne below "" with rfl | hbelow
  · exact .inl ⟨by simp [joinImportPath], by simp⟩
  · exact .inr (by simp [joinImportPath, hpath, hbelow])

/-- A root has the packages of the path that it serves and of those that go on after a slash. -/
theorem isSome_candidate?_iff {root : SearchRoot} (hserves : root.serves ≠ "")
    (importPath : String) : (root.candidate? importPath).isSome ↔
      importPath = root.serves ∨ ∃ rest, importPath = root.serves ++ "/" ++ rest := by
  rw [candidate?, Option.isSome_map, Option.isSome_iff_exists]
  simp only [rest?_eq_some_iff hserves]
  constructor
  · rintro ⟨rest, ⟨himport, -⟩ | himport⟩
    · exact .inl himport
    · exact .inr ⟨_, himport⟩
  · rintro (himport | ⟨rest, himport⟩)
    · exact ⟨[], .inl ⟨himport, rfl⟩⟩
    · exact ⟨rest.toList, .inr (by simpa using himport)⟩

/-- The import path that is told by where a path lies below a root leads to that path. -/
theorem candidate?_joinImportPath {path dir p : String} {names : List String}
    (hdir : isAbsolute dir = true) (hnames : ∀ n ∈ names, IsName n)
    (hsteps : steps p = steps dir ++ names.map .down) :
    ∃ place, SearchRoot.candidate? ⟨path, dir⟩ (joinImportPath path (ofStretches names))
      = some place ∧ SamePath place p := by
  rw [candidate?, rest?_joinImportPath, Option.map_some, String.ofList_toList,
    segments_ofStretches hnames]
  refine ⟨_, rfl, ?_⟩
  rw [SamePath, (steps_foldl_join hdir fun n hn => (hnames n hn).2.2).2, hsteps,
    ← List.filterMap_eq_map]
  exact congrArg _ (List.filterMap_congr fun n hn => step?_of_isName (hnames n hn))

/-- No two places below a root are told by the same import path. -/
theorem joinImportPath_inj {path : String} {names names' : List String}
    (hnames : ∀ n ∈ names, IsName n) (hnames' : ∀ n ∈ names', IsName n)
    (h : joinImportPath path (ofStretches names) = joinImportPath path (ofStretches names')) :
    names = names' := by
  have hrest := rest?_joinImportPath path "" (ofStretches names)
  rw [h, rest?_joinImportPath, Option.some_inj, String.toList_inj] at hrest
  rw [← segments_ofStretches hnames, ← hrest, segments_ofStretches hnames']

end SearchRoot

variable {fs : FileSystem}

theorem Setting.on_importPathOf (setting : Setting) (dir : String) :
    (setting.importPathOf dir).on fs =
      (((Module.enclosing? (setting.absolute dir)).on fs).bind
        (·.importPath? (setting.absolute dir))).getD
        ((setting.srcDirs.findSome? (below? · (setting.absolute dir))).getD "") := by
  rw [Setting.importPathOf, Reading.on_bind]
  rcases ((Module.enclosing? (setting.absolute dir)).on fs).bind
    (·.importPath? (setting.absolute dir)) with _ | path <;> rfl

theorem Setting.on_importPathOf_of_encloses {setting : Setting} {dir : String} {m : Module}
    {names : List String} (hdir : isAbsolute (setting.absolute dir) = true)
    (h : fs.Encloses m (setting.absolute dir))
    (hsteps : steps (setting.absolute dir) = steps m.root ++ names.map .down) :
    (setting.importPathOf dir).on fs = joinImportPath m.path (ofStretches names) := by
  have hbelow := below?_eq_some_iff.2 ⟨names, hsteps, rfl⟩
  rw [setting.on_importPathOf, (encloses_iff (.inr hdir)).1 h]
  simp [Module.importPath?, hbelow]

theorem Setting.on_importPathOf_of_outside {setting : Setting} {dir : String}
    (hdir : isAbsolute (setting.absolute dir) = true)
    (h : ∀ m (names : List String), fs.Encloses m (setting.absolute dir) →
      steps (setting.absolute dir) ≠ steps m.root ++ names.map .down) :
    (setting.importPathOf dir).on fs
      = (setting.srcDirs.findSome? (below? · (setting.absolute dir))).getD "" := by
  have hnone : ((Module.enclosing? (setting.absolute dir)).on fs).bind
      (·.importPath? (setting.absolute dir)) = none := by
    rcases hm : (Module.enclosing? (setting.absolute dir)).on fs with _ | m
    · rfl
    · rw [Option.bind_some, Module.importPath?, Option.map_eq_none_iff,
        Option.eq_none_iff_forall_ne_some]
      intro rel hrel
      obtain ⟨names, hsteps, -⟩ := below?_eq_some_iff.1 hrel
      exact h m names ((encloses_iff (.inr hdir)).2 hm) hsteps
  rw [setting.on_importPathOf, hnone]
  rfl

theorem Setting.same_absolute (setting : Setting) {dir : String}
    (hcwd : isAbsolute setting.cwd = true) (hdir : isAbsolute dir = true) :
    isAbsolute (setting.absolute dir) = true ∧ SamePath (setting.absolute dir) dir := by
  have hne : dir ≠ "" := by
    rintro rfl
    simp [isAbsolute] at hdir
  obtain ⟨habs, hsteps⟩ := Path.steps_absolute hcwd hne
  obtain ⟨ss, hss, -⟩ := stretches_of_isAbsolute hdir
  refine ⟨habs, ?_⟩
  rw [SamePath, Setting.absolute, hsteps, if_pos hdir, steps_of_isAbsolute hdir, hss]
  rfl

theorem Setting.isAbsolute_of_mem_srcDirs {setting : Setting}
    (hcwd : isAbsolute setting.cwd = true) : ∀ src ∈ setting.srcDirs, isAbsolute src = true := by
  intro src hsrc
  obtain ⟨dir, -, rfl⟩ := List.mem_map.1 hsrc
  refine (Path.steps_absolute hcwd fun hnil => ?_).1
  have hempty := congrArg String.toList hnil
  unfold join at hempty
  split_ifs at hempty <;> simp at hempty

section

variable {setting : Setting} {dir : String} (hcwd : isAbsolute setting.cwd = true)
  (hdir : isAbsolute dir = true) (hdown : Descends dir)

include hcwd hdir hdown

/-- The import path of a directory in a module goes on with the names that lead to it. -/
theorem importPathOf_of_encloses {m : Module} (h : fs.Encloses m (setting.absolute dir)) :
    isAbsolute m.root = true ∧ ∃ names, (∀ n ∈ names, IsName n) ∧
      steps dir = steps m.root ++ names.map .down ∧
      (setting.importPathOf dir).on fs = joinImportPath m.path (ofStretches names) := by
  obtain ⟨habs, hsame⟩ := setting.same_absolute hcwd hdir
  have hroot := isAbsolute_of_mem_ancestors habs _ h.above
  have hlies : LiesIn dir m.root := by
    rw [LiesIn, ← hsame]
    exact prefix_of_mem_ancestors habs h.above
  obtain ⟨names, hnames, hsteps⟩ := exists_names_of_liesIn hdir hroot hdown hlies
  exact ⟨hroot, names, hnames, hsteps,
    setting.on_importPathOf_of_encloses habs h (hsame.trans hsteps)⟩

/-- The import path of a directory outside of modules is told by the first `src` directory. -/
theorem importPathOf_of_srcDir (h : ∀ m, ¬ fs.Encloses m (setting.absolute dir))
    {before after : List String} {src : String} (hdirs : setting.srcDirs = before ++ src :: after)
    (hbefore : ∀ other ∈ before, ¬ LiesIn dir other) (hsrc : LiesIn dir src) :
    isAbsolute src = true ∧ ∃ names, (∀ n ∈ names, IsName n) ∧
      steps dir = steps src ++ names.map .down ∧
      (setting.importPathOf dir).on fs = ofStretches names := by
  obtain ⟨habs, hsame⟩ := setting.same_absolute hcwd hdir
  have hroot : isAbsolute src = true :=
    Setting.isAbsolute_of_mem_srcDirs hcwd src (by simp [hdirs])
  obtain ⟨names, hnames, hsteps⟩ := exists_names_of_liesIn hdir hroot hdown hsrc
  refine ⟨hroot, names, hnames, hsteps, ?_⟩
  have hbelow := below?_eq_some_iff.2 ⟨names, hsame.trans hsteps, rfl⟩
  have hfirst : setting.srcDirs.findSome? (below? · (setting.absolute dir))
      = some (ofStretches names) := by
    refine List.findSome?_eq_some_iff.2 ⟨before, src, after, hdirs, hbelow, fun other hother => ?_⟩
    refine Option.eq_none_iff_forall_ne_some.2 fun rel hrel => hbefore other hother ?_
    rw [LiesIn, ← hsame]
    exact liesIn_of_below? hrel
  rw [setting.on_importPathOf_of_outside habs fun m _ hm => absurd hm (h m), hfirst]
  rfl

end

/-- The import path of a directory leads back to it. If the directory lies in a module, its import
path is not empty and leads from the root of the module to the directory, and no other directory of
that module has it. Otherwise the first `src` directory that it lies in leads back to it. A root
that serves an import path has the packages of this path and of those that go on after a slash. -/
theorem import_path_leads_back (setting : Setting) (fs : FileSystem) (dir : String)
    (hcwd : isAbsolute setting.cwd = true) (hdir : isAbsolute dir = true)
    (hdown : Descends dir) :
    (∀ m, fs.Encloses m (setting.absolute dir) →
      (setting.importPathOf dir).on fs ≠ "" ∧
      (∃ place, SearchRoot.candidate? ⟨m.path, m.root⟩ ((setting.importPathOf dir).on fs)
        = some place ∧ SamePath place dir) ∧
      ∀ other m', isAbsolute other = true → Descends other →
        fs.Encloses m' (setting.absolute other) → SamePath m'.root m.root → m'.path = m.path →
        ¬ SamePath other dir →
        (setting.importPathOf other).on fs ≠ (setting.importPathOf dir).on fs) ∧
    ((∀ m, ¬ fs.Encloses m (setting.absolute dir)) →
      ∀ before src after, setting.srcDirs = before ++ src :: after →
        (∀ other ∈ before, ¬ LiesIn dir other) → LiesIn dir src →
        ∃ place, SearchRoot.candidate? ⟨"", src⟩ ((setting.importPathOf dir).on fs) = some place ∧
          SamePath place dir) ∧
    ∀ (root : SearchRoot) (importPath : String), root.serves ≠ "" →
      ((root.candidate? importPath).isSome ↔
        importPath = root.serves ∨ ∃ rest, importPath = root.serves ++ "/" ++ rest) := by
  refine ⟨fun m hm => ?_, fun hnone _ src _ hdirs hbefore hsrc => ?_,
    fun _ importPath hserves => SearchRoot.isSome_candidate?_iff hserves importPath⟩
  · obtain ⟨hroot, names, hnames, hsteps, himport⟩ := importPathOf_of_encloses hcwd hdir hdown hm
    rw [himport]
    refine ⟨?_, SearchRoot.candidate?_joinImportPath hroot hnames hsteps,
      fun other m' hother hdown' hm' hsame hpath hne heq => ?_⟩
    · obtain ⟨text, -, htold⟩ := Option.bind_eq_some_iff.1 hm.tells
      exact joinImportPath_ne_empty (ne_empty_of_moduleDirective htold) _
    · obtain ⟨-, names', hnames', hsteps', himport'⟩ :=
        importPathOf_of_encloses hcwd hother hdown' hm'
      rw [himport', hpath] at heq
      obtain rfl := SearchRoot.joinImportPath_inj hnames' hnames heq
      exact hne (hsteps'.trans ((congrArg (· ++ _) hsame).trans hsteps.symm))
  · obtain ⟨hroot, names, hnames, hsteps, himport⟩ :=
      importPathOf_of_srcDir hcwd hdir hdown hnone hdirs hbefore hsrc
    obtain ⟨place, hplace, hsame⟩ : ∃ place, SearchRoot.candidate? ⟨"", src⟩
        (joinImportPath "" (ofStretches names)) = some place ∧ SamePath place dir :=
      SearchRoot.candidate?_joinImportPath hroot hnames hsteps
    rw [joinImportPath_empty] at hplace
    exact ⟨place, by rw [himport, hplace], hsame⟩

/-- A module with a directory in it, beside a directory of packages. -/
def storeFiles : FileSystem where
  root := .dir [
    ("go", .dir [("src", .dir [("lib", .dir [])])]),
    ("w", .dir [("m", .dir [
      ("go.mod", .file "module example.com/m\n".toUTF8), ("store", .dir [])])])]
  cwd := "/w"

def storeSetting : Setting := ⟨"/w", ⟨["/go"], none⟩, ⟨"linux", "amd64"⟩⟩

/-- A directory of the module and one of a package are led back to. -/
theorem store_and_lib_lead_back :
    storeFiles.Encloses ⟨"/w/m", "example.com/m"⟩ (storeSetting.absolute "/w/m/store") ∧
    (∃ place, SearchRoot.candidate? ⟨"example.com/m", "/w/m"⟩
      ((storeSetting.importPathOf "/w/m/store").on storeFiles) = some place ∧
      SamePath place "/w/m/store") ∧
    LiesIn "/go/src/lib" "/go/src" ∧
    ∃ place, SearchRoot.candidate? ⟨"", "/go/src"⟩
      ((storeSetting.importPathOf "/go/src/lib").on storeFiles) = some place ∧
      SamePath place "/go/src/lib" := by
  have hstore : storeFiles.Encloses ⟨"/w/m", "example.com/m"⟩
      (storeSetting.absolute "/w/m/store") := (encloses_iff (.inr rfl)).2 (by decide +kernel)
  have hnone : (Module.enclosing? (storeSetting.absolute "/go/src/lib")).on storeFiles = none := by
    decide +kernel
  have hlib m : ¬ storeFiles.Encloses m (storeSetting.absolute "/go/src/lib") := by
    rw [encloses_iff (.inr rfl), hnone]
    exact nofun
  have hin : LiesIn "/go/src/lib" "/go/src" := by
    unfold LiesIn
    decide +kernel
  obtain ⟨hmodule, -, -⟩ := import_path_leads_back storeSetting storeFiles "/w/m/store"
    rfl rfl (by unfold Descends; decide +kernel)
  obtain ⟨-, hsrc, -⟩ := import_path_leads_back storeSetting storeFiles "/go/src/lib"
    rfl rfl (by unfold Descends; decide +kernel)
  exact ⟨hstore, (hmodule _ hstore).2.1, hin,
    hsrc hlib [] "/go/src" [] (by decide +kernel) (by simp) hin⟩

end GoIface
