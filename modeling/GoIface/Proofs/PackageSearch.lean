import GoIface.Proofs.FileChanges
import GoIface.Proofs.PackagePlaces

/-!
# The search for a package

The roots that are searched from a directory stand in one order: its `vendor` directories from the
nearest outward, the module around it, the `src` directories (`on_searchRoots`). The first root that
has a telling file where it would have the package answers, and nothing that lies elsewhere than
there or where an earlier root would have the package matters (`first_declaring_root_answers`).
-/

namespace GoIface

open Path

variable {fs fs' : FileSystem}

theorem Setting.eq_empty_or_isAbsolute_absolute {setting : Setting}
    (hcwd : isAbsolute setting.cwd = true) (dir : String) :
    setting.absolute dir = "" ∨ isAbsolute (setting.absolute dir) = true := by
  rcases eq_or_ne dir "" with rfl | hne
  · exact .inl rfl
  · exact .inr (Path.steps_absolute hcwd hne).1

/-! ## The roots -/

theorem on_vendorRoot? (dir : String) : (vendorRoot? dir).on fs
    = if fs.isDir (join dir "vendor") = true then some ⟨"", join dir "vendor"⟩ else none := by
  rw [vendorRoot?, Reading.on_bind, Reading.on_isDir]
  split_ifs <;> rfl

/-- The roots in their order. -/
structure FileSystem.SearchOrder (fs : FileSystem) (setting : Setting) (dir : String)
    (homes : List String) (enclosing : Option Module) : Prop where
  /-- The directories from a directory upward are the beginnings of its path. -/
  above : dir ≠ "" →
    (ancestors (setting.absolute dir)).map steps = upward (steps (setting.absolute dir))
  /-- Those with a `vendor` directory go from the nearest outward. -/
  outward : homes.Pairwise fun a b => steps b <+: steps a ∧ steps b ≠ steps a
  mem_homes : ∀ a, a ∈ homes ↔
    a ∈ ancestors (setting.absolute dir) ∧ fs.isDir (join a "vendor") = true
  mem_enclosing : ∀ m, m ∈ enclosing ↔ fs.Encloses m (setting.absolute dir)
  roots : (setting.searchRoots dir).on fs
    = homes.map (fun a => ⟨"", join a "vendor"⟩)
      ++ enclosing.toList.map (fun m => ⟨m.path, m.root⟩)
      ++ (setting.env.goroot.toList ++ setting.env.gopath).map
        fun home => ⟨"", setting.absolute (join home "src")⟩

theorem on_searchRoots {setting : Setting} (hcwd : isAbsolute setting.cwd = true) (dir : String) :
    ∃ homes enclosing, fs.SearchOrder setting dir homes enclosing := by
  have hdir := Setting.eq_empty_or_isAbsolute_absolute hcwd dir
  refine ⟨(ancestors (setting.absolute dir)).filter fun a => fs.isDir (join a "vendor"),
    (Module.enclosing? (setting.absolute dir)).on fs,
    fun hne => map_steps_ancestors (Path.steps_absolute hcwd hne).1,
    (pairwise_ancestors hdir).filter _, fun a => List.mem_filter,
    fun m => (encloses_iff hdir).symm, ?_⟩
  have hvendors : (ancestors (setting.absolute dir)).filterMap (fun a => (vendorRoot? a).on fs)
      = ((ancestors (setting.absolute dir)).filter fun a => fs.isDir (join a "vendor")).map
        fun a => ⟨"", join a "vendor"⟩ := by
    simp only [on_vendorRoot?]
    rw [← List.filterMap_eq_map, ← List.filterMap_filter]
    exact List.filterMap_congr fun a _ => by simp [Function.comp]
  simp only [Setting.searchRoots, Reading.on_bind, Reading.on_filterMapM, Reading.on_pure, hvendors]
  rw [Setting.srcDirs, List.map_map]
  rfl

/-! ## The answer -/

/-- The root has a directory for the import path that declares the package. -/
def FileSystem.Answers (fs : FileSystem) (host : Platform) (importPath : String)
    (root : SearchRoot) (package : String) : Prop :=
  ∃ dir, root.candidate? importPath = some dir ∧ fs.Declares host dir package

theorem on_packageAt_eq_some_iff {host : Platform} {importPath package : String}
    {root : SearchRoot} : (packageAt host importPath root).on fs = some package ↔
      fs.Answers host importPath root package := by
  rw [packageAt, FileSystem.Answers]
  rcases root.candidate? importPath with _ | dir
  · simp
  · simp [on_packageInDir_eq_some_iff]

theorem on_packageAt_eq_none_iff {host : Platform} {importPath : String} {root : SearchRoot} :
    (packageAt host importPath root).on fs = none ↔
      ∀ package, ¬ fs.Answers host importPath root package := by
  simp only [← on_packageAt_eq_some_iff, Option.eq_none_iff_forall_ne_some, ne_eq]

theorem on_packageAt_congr {host : Platform} {importPath : String} {root : SearchRoot}
    (h : ∀ dir, root.candidate? importPath = some dir → fs.SeenAs dir fs' dir) :
    (packageAt host importPath root).on fs' = (packageAt host importPath root).on fs := by
  rw [packageAt]
  rcases hdir : root.candidate? importPath with _ | dir
  · rfl
  · exact (on_packageInDir_congr (h dir hdir)).symm

theorem Setting.on_lookupFrom (setting : Setting) (dir importPath : String) :
    (setting.lookupFrom dir importPath).on fs = ((setting.searchRoots dir).on fs).findSome?
      fun root => (packageAt setting.host importPath root).on fs := by
  rw [Setting.lookupFrom, Reading.on_bind, Reading.on_findSomeM?]

/-- Where the roots would have the package. -/
def candidates (roots : List SearchRoot) (importPath : String) : Set String :=
  {place | ∃ root ∈ roots, root.candidate? importPath = some place}

theorem Setting.isAbsolute_of_mem_searchRoots {setting : Setting} {dir : String}
    (hcwd : isAbsolute setting.cwd = true) (hne : dir ≠ "") :
    ∀ root ∈ (setting.searchRoots dir).on fs, isAbsolute root.dir = true := by
  obtain ⟨homes, enclosing, horder⟩ : ∃ homes enclosing,
    fs.SearchOrder setting dir homes enclosing := on_searchRoots hcwd dir
  have habove := isAbsolute_of_mem_ancestors (Path.steps_absolute hcwd hne).1
  rw [horder.roots, List.forall_mem_append, List.forall_mem_append]
  simp only [List.forall_mem_map]
  refine ⟨⟨fun a ha => ?_, fun m hm => ?_⟩, fun home hhome => ?_⟩
  · exact isAbsolute_join (habove a ((horder.mem_homes a).1 ha).1) _
  · exact habove _ ((horder.mem_enclosing m).1 (Option.mem_toList.1 hm)).above
  · exact Setting.isAbsolute_of_mem_srcDirs hcwd _ (List.mem_map_of_mem hhome)

theorem SearchRoot.isAbsolute_candidate {root : SearchRoot} {importPath place : String}
    (hroot : isAbsolute root.dir = true) (h : root.candidate? importPath = some place) :
    isAbsolute place = true := by
  obtain ⟨rest, -, rfl⟩ := Option.map_eq_some_iff.1 h
  refine (steps_foldl_join hroot fun segment hsegment => ?_).1
  rw [segments_eq] at hsegment
  exact noSlash_of_mem_stretches (List.mem_of_mem_filter hsegment)

/-- Changes of files elsewhere are not seen where the roots would have the package. -/
theorem seenAs_of_mem_candidates {setting : Setting} {dir importPath : String}
    (hcwd : isAbsolute setting.cwd = true) (hne : dir ≠ "") (hnamed : fs.WellNamed)
    {upTo : List SearchRoot} (hupTo : upTo ⊆ (setting.searchRoots dir).on fs)
    (h : Relation.ReflTransGen (FileSystem.ChangesOutside (candidates upTo importPath)) fs fs') :
    ∀ place ∈ candidates upTo importPath, fs.SeenAs place fs' place := by
  intro place hplace
  have ⟨root, hroot, hcandidate⟩ := hplace
  have habs := Setting.isAbsolute_of_mem_searchRoots hcwd hne root (hupTo hroot)
  exact FileSystem.seenAs_of_changesOutside hplace
    (SearchRoot.isAbsolute_candidate habs hcandidate) hnamed h

/-- The first root that answers tells the package. Nothing else is told in a file system with the
same roots that looks alike where this root and the earlier ones would have the package, such as
one in which any files have changed that do not lie there. -/
theorem first_declaring_root_answers (setting : Setting) (fs : FileSystem)
    (dir importPath : String) (hcwd : isAbsolute setting.cwd = true) :
    (∃ homes enclosing, fs.SearchOrder setting dir homes enclosing) ∧
    (∀ root : SearchRoot, root.serves ≠ "" → ((root.candidate? importPath).isSome ↔
      importPath = root.serves ∨ ∃ rest, importPath = root.serves ++ "/" ++ rest)) ∧
    (∀ package, (setting.lookupFrom dir importPath).on fs = some package ↔
      ∃ before root after, (setting.searchRoots dir).on fs = before ++ root :: after ∧
        fs.Answers setting.host importPath root package ∧
        ∀ earlier ∈ before, ∀ other, ¬ fs.Answers setting.host importPath earlier other) ∧
    ∀ fs', (setting.searchRoots dir).on fs' = (setting.searchRoots dir).on fs →
      ∀ upTo rest, (setting.searchRoots dir).on fs = upTo ++ rest →
        ((∃ root ∈ upTo, ∃ package, fs.Answers setting.host importPath root package) ∨
          rest = []) →
        ((∀ place ∈ candidates upTo importPath, fs.SeenAs place fs' place) ∨
          dir ≠ "" ∧ fs.WellNamed ∧
            Relation.ReflTransGen (FileSystem.ChangesOutside (candidates upTo importPath)) fs fs') →
        (setting.lookupFrom dir importPath).on fs' = (setting.lookupFrom dir importPath).on fs := by
  refine ⟨on_searchRoots hcwd dir,
    fun root hserves => SearchRoot.isSome_candidate?_iff hserves importPath, fun package => ?_,
    fun fs' hroots upTo rest hsplit hanswers hsame => ?_⟩
  · rw [Setting.on_lookupFrom, List.findSome?_eq_some_iff]
    simp only [on_packageAt_eq_some_iff, on_packageAt_eq_none_iff]
  · have hseen : ∀ place ∈ candidates upTo importPath, fs.SeenAs place fs' place := by
      rcases hsame with hseen | ⟨hne, hnamed, hchanges⟩
      · exact hseen
      · exact seenAs_of_mem_candidates hcwd hne hnamed
          (hsplit ▸ List.subset_append_left upTo rest) hchanges
    have hupTo : upTo.findSome? (fun root => (packageAt setting.host importPath root).on fs')
        = upTo.findSome? fun root => (packageAt setting.host importPath root).on fs := by
      rw [← List.head?_filterMap, ← List.head?_filterMap,
        List.filterMap_congr fun root hroot => on_packageAt_congr fun place hplace =>
          hseen place ⟨root, hroot, hplace⟩]
    rw [Setting.on_lookupFrom, Setting.on_lookupFrom, hroots, hsplit, List.findSome?_append,
      List.findSome?_append, hupTo]
    rcases hanswers with ⟨root, hroot, package, hpackage⟩ | rfl
    · rcases hfound : upTo.findSome? fun root => (packageAt setting.host importPath root).on fs
        with _ | found
      · have hsilent := List.findSome?_eq_none_iff.1 hfound root hroot
        exact absurd hpackage (on_packageAt_eq_none_iff.1 hsilent package)
      · rfl
    · rfl

/-- A module that keeps its own copy of a package, beside another copy of it with this text. -/
def vendoredFiles (other : String) : FileSystem where
  root := .dir [
    ("go", .dir [("src", .dir [("dep", .dir [("dep.go", .file other.toUTF8)])])]),
    ("w", .dir [("m", .dir [
      ("go.mod", .file "module example.com/m\n".toUTF8),
      ("vendor", .dir [("dep", .dir [
        ("doc.go", .file "// Package kept.\n".toUTF8),
        ("kept.go", .file "package kept\n".toUTF8)])])])])]
  cwd := "/w"

/-- The copy of the module answers, whatever becomes of the other one. -/
theorem vendored_copy_answers :
    (vendoredFiles "package dep\n").Answers storeSetting.host "dep" ⟨"", "/w/m/vendor"⟩ "kept" ∧
    (storeSetting.lookupFrom "/w/m" "dep").on (vendoredFiles "package dep\n") = some "kept" ∧
    (storeSetting.lookupFrom "/w/m" "dep").on (vendoredFiles "/* no clause */") = some "kept" := by
  obtain ⟨-, -, hfirst, hsame⟩ := first_declaring_root_answers storeSetting
    (vendoredFiles "package dep\n") "/w/m" "dep" rfl
  have hroots : (storeSetting.searchRoots "/w/m").on (vendoredFiles "package dep\n")
      = [⟨"", "/w/m/vendor"⟩, ⟨"example.com/m", "/w/m"⟩, ⟨"", "/go/src"⟩] := by
    decide +kernel
  have hplace : SearchRoot.candidate? ⟨"", "/w/m/vendor"⟩ "dep" = some "/w/m/vendor/dep" := by
    decide +kernel
  have hlist : (vendoredFiles "package dep\n").list "/w/m/vendor/dep"
      = .ok ["doc.go", "kept.go"] := rfl
  have hsilent p : ¬ (vendoredFiles "package dep\n").Tells "/w/m/vendor/dep/doc.go" p := by
    have hnone : (vendoredFiles "package dep\n").packageName? "/w/m/vendor/dep/doc.go" = none := by
      decide +kernel
    simp [FileSystem.tells_iff, hnone]
  have hanswers : (vendoredFiles "package dep\n").Answers storeSetting.host "dep"
      ⟨"", "/w/m/vendor"⟩ "kept" := by
    refine ⟨_, hplace, _, hlist, by decide +kernel, "kept.go", by simp, by decide +kernel,
      FileSystem.tells_iff.2 (by decide +kernel), fun other hother _ p htold => ?_⟩
    rcases List.mem_pair.1 hother with rfl | rfl
    · exact absurd htold (hsilent p)
    · exact String.le_refl _
  have hlookup := (hfirst "kept").2 ⟨[], _, _, hroots, hanswers, by simp⟩
  refine ⟨hanswers, hlookup, ?_⟩
  rw [← hlookup]
  refine hsame _ (by decide +kernel) [⟨"", "/w/m/vendor"⟩] _ hroots
    (.inl ⟨_, by simp, _, hanswers⟩) (.inl fun place hcandidates => ?_)
  obtain ⟨root, hroot, hcandidate⟩ := hcandidates
  obtain rfl := List.mem_singleton.1 hroot
  obtain rfl := Option.some.inj (hplace.symm.trans hcandidate)
  refine ⟨by decide +kernel, fun names hnames => ?_, fun names hnames => ?_⟩
  all_goals
    obtain rfl := Except.ok.inj (hlist.symm.trans hnames)
    decide +kernel

end GoIface
