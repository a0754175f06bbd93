import GoIface.Proofs.PackageSearch
import GoIface.Proofs.PlacesPassed

/-!
# Spellings of a directory

A directory has many paths, and a path is searched by its text: also the directories that it enters
and leaves again are asked for `vendor` directories and modules, and an import path is only told
below a root that the path goes down from. So the paths of one directory agree if they go down
(`importPathOf_of_goesDown`) and if what they find on the way lies above the directory
(`on_lookupFrom_of_findsOnlyAbove`), and `spellings_agree_iff` says when they do not.
-/

namespace GoIface

open Path

variable {fs : FileSystem}

/-! ## Alike paths -/

namespace FileSystem.Alike

variable {p p' : String} (h : fs.Alike p p')

include h

theorem isDir_join (q : String) : fs.isDir (Path.join p q) = fs.isDir (Path.join p' q) := by
  rw [isDir, isDir, h.entry_join q]

theorem text?_join (q : String) : fs.text? (Path.join p q) = fs.text? (Path.join p' q) := by
  rw [text?, text?, read, read, h.entry_join q]

theorem modulePath?_eq : fs.modulePath? p = fs.modulePath? p' := by
  rw [modulePath?, modulePath?, h.text?_join]

theorem seenAs : fs.SeenAs p fs p' :=
  ⟨by rw [list, list, h.entry], fun _ _ _ _ => h.isDir_join _, fun _ _ _ _ => h.text?_join _⟩

theorem on_packageAt (host : Platform) (importPath serves : String) :
    (packageAt host importPath ⟨serves, p⟩).on fs
      = (packageAt host importPath ⟨serves, p'⟩).on fs := by
  have hrest : SearchRoot.rest? ⟨serves, p⟩ importPath = SearchRoot.rest? ⟨serves, p'⟩ importPath :=
    rfl
  rw [packageAt, packageAt, SearchRoot.candidate?, SearchRoot.candidate?, hrest]
  rcases SearchRoot.rest? ⟨serves, p'⟩ importPath with _ | rest
  · rfl
  · exact on_packageInDir_congr (h.foldl_join _).seenAs

end FileSystem.Alike

/-! ## Looking up on the way outward -/

section

variable (fs) (host : Platform) (importPath : String)

/-- What the `vendor` directory of a directory answers. -/
def FileSystem.vendorAnswer? (a : String) : Option String :=
  if fs.isDir (join a "vendor") = true then
    (packageAt host importPath ⟨"", join a "vendor"⟩).on fs
  else none

/-- What the module of a directory answers if it has one. -/
def FileSystem.moduleAnswer? (a : String) : Option (Option String) :=
  (fs.modulePath? a).map fun path => (packageAt host importPath ⟨path, a⟩).on fs

end

theorem FileSystem.Alike.vendorAnswer? {p p' : String} (h : fs.Alike p p') (host : Platform)
    (importPath : String) :
    fs.vendorAnswer? host importPath p = fs.vendorAnswer? host importPath p' := by
  rw [FileSystem.vendorAnswer?, FileSystem.vendorAnswer?, h.isDir_join,
    (h.join "vendor").on_packageAt]

theorem FileSystem.Alike.moduleAnswer? {p p' : String} (h : fs.Alike p p') (host : Platform)
    (importPath : String) :
    fs.moduleAnswer? host importPath p = fs.moduleAnswer? host importPath p' := by
  rw [FileSystem.moduleAnswer?, FileSystem.moduleAnswer?, h.modulePath?_eq]
  exact congrArg (Option.map · _) (funext fun path => h.on_packageAt host importPath path)

variable {setting : Setting} {dir importPath : String}

theorem findSome?_vendorRoots (host : Platform) (dirs : List String) :
    (dirs.filterMap fun a => (vendorRoot? a).on fs).findSome?
        (fun root => (packageAt host importPath root).on fs)
      = dirs.findSome? (fs.vendorAnswer? host importPath) := by
  have heach a : ((vendorRoot? a).on fs).bind (fun root => (packageAt host importPath root).on fs)
      = fs.vendorAnswer? host importPath a := by
    rw [on_vendorRoot?, FileSystem.vendorAnswer?]
    by_cases hdir : fs.isDir (join a "vendor") = true
    · rw [if_pos hdir, if_pos hdir, Option.bind_some]
    · rw [if_neg hdir, if_neg hdir, Option.bind_none]
  rw [← List.head?_filterMap, List.filterMap_filterMap, List.head?_filterMap]
  exact congrArg (dirs.findSome? ·) (funext heach)

theorem findSome?_moduleAnswer? (host : Platform) (dir : String) :
    (ancestors dir).findSome? (fs.moduleAnswer? host importPath)
      = ((Module.enclosing? dir).on fs).map fun m =>
        (packageAt host importPath ⟨m.path, m.root⟩).on fs := by
  rw [Module.on_enclosing?, List.map_findSome?]
  refine congrArg ((ancestors dir).findSome? ·) (funext fun a => ?_)
  rw [FileSystem.moduleAnswer?, Function.comp_apply, Option.map_map]
  rfl

theorem findSome?_toList {α β : Type} (o : Option α) (f : α → Option β) :
    o.toList.findSome? f = (o.map f).join := by
  rcases o with _ | a <;> simp

theorem Setting.on_lookupFrom_eq_or :
    (setting.lookupFrom dir importPath).on fs
      = (((ancestors (setting.absolute dir)).findSome?
            (fs.vendorAnswer? setting.host importPath)).or
          ((ancestors (setting.absolute dir)).findSome?
            (fs.moduleAnswer? setting.host importPath)).join).or
        (setting.srcDirs.findSome? fun src =>
          (packageAt setting.host importPath ⟨"", src⟩).on fs) := by
  rw [findSome?_moduleAnswer?, ← findSome?_vendorRoots, Setting.on_lookupFrom, Setting.searchRoots]
  simp only [Reading.on_bind, Reading.on_filterMapM, Reading.on_pure]
  rw [List.findSome?_append, List.findSome?_append, List.findSome?_map, List.findSome?_map,
    findSome?_toList]
  simp only [Function.comp_def]

/-- Of what alike paths have in common the first on the way outward is found at the same place. -/
theorem findSome?_ancestors {β : Type} {f : String → Option β} {p : String} {place : List String}
    (hf : ∀ a a', fs.Alike a a' → f a = f a') (hp : isAbsolute p = true)
    (hplace : fs.LeadsTo p place)
    (habove : ∀ a ∈ ancestors p, f a ≠ none → ∃ above, fs.LeadsTo a above ∧ above <:+ place) :
    (ancestors p).findSome? f = place.tails.findSome? (f ∘ pathTo) := by
  have heach a (ha : a ∈ ancestors p) : fs.LeadsTo a (placeOf (steps a)) ∧
      f a = f (pathTo (placeOf (steps a))) := by
    have habs := isAbsolute_of_mem_ancestors hp a ha
    obtain ⟨above, hleads⟩ := hplace.of_prefix hp habs (prefix_of_mem_ancestors hp ha)
    rw [← hleads.eq_placeOf habs]
    exact ⟨hleads, hf a _ (hleads.alike habs (isAbsolute_iff.2 ⟨_, rfl⟩) (hleads.pathTo habs))⟩
  have hvisited : (ancestors p).map (fun a => placeOf (steps a)) = visited (steps p) := by
    rw [visited, ← map_steps_ancestors hp, List.map_map]
    rfl
  have hfound : (ancestors p).findSome? f = (visited (steps p)).findSome? (f ∘ pathTo) := by
    rw [← hvisited, List.findSome?_map, ← List.head?_filterMap, ← List.head?_filterMap,
      List.filterMap_congr fun a ha => (heach a ha).2]
    rfl
  rw [hfound, hplace.eq_placeOf hp, steps_of_isAbsolute hp]
  refine findSome?_visited fun q hq hq' => ?_
  rw [← steps_of_isAbsolute hp, ← hvisited] at hq
  rw [← steps_of_isAbsolute hp, ← hplace.eq_placeOf hp]
  obtain ⟨a, ha, rfl⟩ := List.mem_map.1 hq
  obtain ⟨hleads, heq⟩ := heach a ha
  obtain ⟨above, habove, hsuffix⟩ := habove a ha (heq ▸ hq')
  rwa [habove.eq_placeOf (isAbsolute_of_mem_ancestors hp a ha)] at hsuffix

/-! ## Modules around a place -/

theorem Path.mem_upward {ss above : List Step} (h : above <+: ss) (hne : above ≠ []) :
    above ∈ upward ss := by
  have hmem := (List.mem_inits above ss).2 h
  rw [show ss.inits = [] :: ss.inits.tail by cases ss <;> rfl, List.mem_cons] at hmem
  rw [upward, List.mem_reverse]
  exact hmem.resolve_left hne

theorem Path.exists_ancestor {p : String} {ss : List Step} (hp : isAbsolute p = true)
    (h : ss <+: steps p) (hne : ss ≠ []) : ∃ a ∈ ancestors p, steps a = ss := by
  have hmem := mem_upward h hne
  rwa [← map_steps_ancestors hp, List.mem_map] at hmem

section

variable {p p' : String} {place : List String} {names : List String} {ss : List Step}

/-- Where the ways to one directory pass the same place they are alike. -/
theorem alike_of_placeOf_eq {a a' : String} (hp : isAbsolute p = true)
    (hp' : isAbsolute p' = true) (h : fs.LeadsTo p place) (h' : fs.LeadsTo p' place)
    (ha : a ∈ ancestors p) (ha' : a' ∈ ancestors p')
    (hplace : placeOf (steps a) = placeOf (steps a')) : fs.Alike a a' := by
  have habs := isAbsolute_of_mem_ancestors hp a ha
  have habs' := isAbsolute_of_mem_ancestors hp' a' ha'
  obtain ⟨q, hq⟩ := h.of_prefix hp habs (prefix_of_mem_ancestors hp ha)
  obtain ⟨q', hq'⟩ := h'.of_prefix hp' habs' (prefix_of_mem_ancestors hp' ha')
  obtain rfl : q = q' := by rw [hq.eq_placeOf habs, hq'.eq_placeOf habs', hplace]
  exact hq.alike habs habs' hq'

/-- A module from whose root a path goes down is around every path that goes down to the same
directory by the same names. -/
theorem FileSystem.Encloses.of_downs {m : Module} (hp : isAbsolute p = true)
    (hp' : isAbsolute p' = true) (h : fs.LeadsTo p place) (h' : fs.LeadsTo p' place)
    (hm : fs.Encloses m p) (hsteps : steps p = steps m.root ++ names.map .down)
    (hsteps' : steps p' = ss ++ names.map .down) (hss : ss ≠ []) :
    ∃ m', fs.Encloses m' p' ∧ m'.path = m.path ∧ steps m'.root = ss := by
  have hbefore : placeOf (steps m.root) = placeOf ss := by
    have hplaces := (h.eq_placeOf hp).symm.trans (h'.eq_placeOf hp')
    rwa [hsteps, hsteps', placeOf_append_downs, placeOf_append_downs, List.append_cancel_left_eq]
      at hplaces
  obtain ⟨a, ha, rfl⟩ := exists_ancestor hp' (hsteps' ▸ List.prefix_append ss _) hss
  refine ⟨⟨a, m.path⟩, ⟨ha, ?_, fun b hb husable => ?_⟩, rfl, rfl⟩
  · rw [← hm.tells]
    exact (alike_of_placeOf_eq hp hp' h h' hm.above ha hbefore).modulePath?_eq.symm
  · have hpre := prefix_of_mem_ancestors hp' hb
    rw [hsteps'] at hpre
    rcases List.prefix_or_prefix_of_prefix hpre (List.prefix_append _ _) with hout | ⟨rest, hrest⟩
    · exact hout
    · rw [← hrest, List.prefix_append_right_inj, List.prefix_map_iff] at hpre
      obtain ⟨inner, hinner, rfl⟩ := hpre
      have hroot : steps m.root ++ inner.map .down <+: steps p := by
        rw [hsteps, List.prefix_append_right_inj]
        exact hinner.map _
      obtain ⟨c, hc, hcsteps⟩ := exists_ancestor hp hroot
        (by simp [steps_of_isAbsolute (isAbsolute_of_mem_ancestors hp _ hm.above)])
      have halike : fs.Alike b c := alike_of_placeOf_eq hp' hp h' h hb hc (by
        rw [hcsteps, ← hrest, placeOf_append_downs, placeOf_append_downs, hbefore])
      have hnearest := hm.nearest c hc (halike.modulePath?_eq ▸ husable)
      have hlen := hnearest.length_le
      rw [hcsteps, List.length_append, List.length_map] at hlen
      obtain rfl : inner = [] := List.eq_nil_of_length_eq_zero (by omega)
      rw [← hrest, List.map_nil, List.append_nil]

end

/-! ## Import paths of a place -/

/-- The path goes down all the way, or at least from the root of the module around it. -/
def Setting.GoesDown (setting : Setting) (fs : FileSystem) (dir : String) : Prop :=
  Descends (setting.absolute dir) ∨ ∃ (m : Module) (names : List String),
    fs.Encloses m (setting.absolute dir) ∧
      steps (setting.absolute dir) = steps m.root ++ names.map .down

section

variable {place : List String} (hcwd : isAbsolute setting.cwd = true)
  (hdir : isAbsolute (setting.absolute dir) = true)
  (hplace : fs.LeadsTo (setting.absolute dir) place)

include hdir hplace

theorem steps_of_descends (hdown : Descends (setting.absolute dir)) :
    steps (setting.absolute dir) = .root :: place.reverse.map .down := by
  have hroot : LiesIn (setting.absolute dir) "/" := by
    rw [LiesIn, steps_of_isAbsolute hdir]
    exact List.prefix_append [Step.root] _
  obtain ⟨names, -, hsteps⟩ := exists_names_of_liesIn hdir rfl hdown hroot
  have hnames : place = names.reverse := by
    rw [hplace.eq_placeOf hdir, hsteps, placeOf_append_downs]
    exact List.append_nil _
  rw [hsteps, hnames, List.reverse_reverse]
  rfl

include hcwd

theorem leadsTo_absolute_pathTo :
    isAbsolute (setting.absolute (pathTo place)) = true ∧
      fs.LeadsTo (setting.absolute (pathTo place)) place ∧
      steps (setting.absolute (pathTo place)) = .root :: place.reverse.map .down := by
  obtain ⟨hplain, hsteps⟩ := steps_pathTo (hplace.isName hdir)
  obtain ⟨habs, hsame⟩ := setting.same_absolute hcwd hplain
  exact ⟨habs, (FileSystem.leadsTo_congr habs hplain hsame).2 (hplace.pathTo hdir),
    hsame.trans hsteps⟩

/-- The import path of a path that goes down is that of the plain path to the same place. -/
theorem importPathOf_of_goesDown (hdown : setting.GoesDown fs dir) :
    (setting.importPathOf dir).on fs = (setting.importPathOf (pathTo place)).on fs := by
  obtain ⟨hplain, hleads, hsteps⟩ := leadsTo_absolute_pathTo hcwd hdir hplace
  by_cases hmodule : ∃ (m : Module) (names : List String),
    fs.Encloses m (setting.absolute dir) ∧
      steps (setting.absolute dir) = steps m.root ++ names.map .down
  · obtain ⟨m, names, hm, hnames⟩ := hmodule
    have hbefore : steps (setting.absolute (pathTo place))
        = (.root :: (placeOf (steps m.root)).reverse.map .down) ++ names.map .down := by
      rw [hsteps, hplace.eq_placeOf hdir, hnames, placeOf_append_downs, List.reverse_append,
        List.reverse_reverse, List.map_append, List.cons_append]
    obtain ⟨m', hm', hpath, hroot⟩ := hm.of_downs hdir hplain hplace hleads hnames hbefore
      (List.cons_ne_nil _ _)
    rw [setting.on_importPathOf_of_encloses hdir hm hnames,
      setting.on_importPathOf_of_encloses hplain hm' (hbefore.trans (by rw [hroot])), hpath]
  · have hsame := steps_of_descends hdir hplace (hdown.resolve_right hmodule)
    have houtside (m : Module) (names : List String)
        (hm : fs.Encloses m (setting.absolute (pathTo place))) :
        steps (setting.absolute (pathTo place)) ≠ steps m.root ++ names.map .down := by
      intro hnames
      obtain ⟨m', hm', -, hroot⟩ := hm.of_downs hplain hdir hleads hplace hnames
        (hsame.trans (hsteps.symm.trans hnames))
        (by simp [steps_of_isAbsolute (isAbsolute_of_mem_ancestors hplain _ hm.above)])
      exact hmodule ⟨m', names, hm', by rw [hroot, hsame, ← hsteps, hnames]⟩
    rw [setting.on_importPathOf_of_outside hdir fun m names hm hnames =>
        hmodule ⟨m, names, hm, hnames⟩,
      setting.on_importPathOf_of_outside hplain houtside]
    simp only [below?, hsame, hsteps]

omit hcwd hplace in
/-- The import path of a path that goes up too late is empty. -/
theorem importPathOf_of_not_goesDown (hsrc : ∀ src ∈ setting.srcDirs, Descends src)
    (hup : ¬ setting.GoesDown fs dir) : (setting.importPathOf dir).on fs = "" := by
  obtain ⟨hascends, hmodule⟩ := not_or.1 hup
  have hnone : setting.srcDirs.findSome? (below? · (setting.absolute dir)) = none := by
    rw [List.findSome?_eq_none_iff]
    intro src hmem
    rw [Option.eq_none_iff_forall_ne_some]
    intro rel hrel
    obtain ⟨names, hsteps, -⟩ := below?_eq_some_iff.1 hrel
    refine hascends ?_
    rw [Descends, hsteps, List.mem_append, not_or]
    exact ⟨hsrc src hmem, by simp⟩
  rw [setting.on_importPathOf_of_outside hdir fun m names hm hnames =>
    hmodule ⟨m, names, hm, hnames⟩, hnone]
  rfl

end

/-! ## Spellings -/

/-- Where a path leads is kept when it is spelled out from the root. -/
theorem Setting.leadsTo_absolute {home place : List String} (hcwd : setting.cwd = fs.cwd)
    (habs : isAbsolute setting.cwd = true) (hhome : fs.LeadsTo setting.cwd home)
    (h : fs.LeadsTo dir place) :
    isAbsolute (setting.absolute dir) = true ∧ fs.LeadsTo (setting.absolute dir) place := by
  have hne : dir ≠ "" := by
    rintro rfl
    cases h.locate
  obtain ⟨hspelled, hsteps⟩ := Path.steps_absolute habs hne
  rw [← Setting.absolute] at hspelled hsteps
  refine ⟨hspelled, ?_⟩
  rcases hdir : isAbsolute dir with _ | _
  · have hjoin : isAbsolute (join setting.cwd dir) = true := isAbsolute_join habs dir
    have hsame : steps (setting.absolute dir) = steps (join setting.cwd dir) := by
      rw [steps_join habs hdir]
      simpa [hdir] using hsteps
    have hnul := ((FileSystem.locate_eq_ok_iff habs).1 hhome.locate).1
    rw [FileSystem.leadsTo_congr hspelled hjoin hsame]
    refine ⟨?_, h.isDir⟩
    rw [← h.locate, hcwd]
    rw [hcwd] at habs hnul
    exact FileSystem.locate_join_cwd habs hnul hdir hne
  · obtain ⟨-, hsame⟩ := setting.same_absolute habs hdir
    exact (FileSystem.leadsTo_congr hspelled hdir hsame).2 h

/-- Of the directories that a path passes, those that have an answer or a module lie above the
place. -/
def Setting.FindsOnlyAbove (setting : Setting) (fs : FileSystem) (dir importPath : String)
    (place : List String) : Prop :=
  ∀ a ∈ ancestors (setting.absolute dir),
    (∃ package, fs.Answers setting.host importPath ⟨"", join a "vendor"⟩ package) ∨
        (∃ path, fs.modulePath? a = some path) →
      ∃ above, fs.LeadsTo a above ∧ above <:+ place

theorem on_lookupFrom_of_findsOnlyAbove {place : List String}
    (hdir : isAbsolute (setting.absolute dir) = true)
    (hplace : fs.LeadsTo (setting.absolute dir) place)
    (h : setting.FindsOnlyAbove fs dir importPath place) :
    (setting.lookupFrom dir importPath).on fs
      = ((place.tails.findSome? (fs.vendorAnswer? setting.host importPath ∘ pathTo)).or
          (place.tails.findSome? (fs.moduleAnswer? setting.host importPath ∘ pathTo)).join).or
        (setting.srcDirs.findSome? fun src =>
          (packageAt setting.host importPath ⟨"", src⟩).on fs) := by
  rw [Setting.on_lookupFrom_eq_or,
    findSome?_ancestors (fun _ _ halike => halike.vendorAnswer? _ _) hdir hplace
      fun a ha hfound => h a ha (.inl ?_),
    findSome?_ancestors (fun _ _ halike => halike.moduleAnswer? _ _) hdir hplace
      fun a ha hfound => h a ha (.inr ?_)]
  · obtain ⟨answer, hanswer⟩ := Option.ne_none_iff_exists'.1 hfound
    rw [FileSystem.moduleAnswer?, Option.map_eq_some_iff] at hanswer
    obtain ⟨path, hpath, -⟩ := hanswer
    exact ⟨path, hpath⟩
  · obtain ⟨package, hpackage⟩ := Option.ne_none_iff_exists'.1 hfound
    rw [FileSystem.vendorAnswer?, Option.ite_none_right_eq_some] at hpackage
    exact ⟨package, on_packageAt_eq_some_iff.1 hpackage.2⟩

/-- A path that passes places above its own only finds nothing else. -/
theorem findsOnlyAbove_of_suffix {place : List String}
    (hdir : isAbsolute (setting.absolute dir) = true)
    (hplace : fs.LeadsTo (setting.absolute dir) place)
    (h : ∀ a ∈ ancestors (setting.absolute dir), placeOf (steps a) <:+ place) :
    setting.FindsOnlyAbove fs dir importPath place := by
  intro a ha _
  have habs := isAbsolute_of_mem_ancestors hdir a ha
  obtain ⟨above, hleads⟩ := hplace.of_prefix hdir habs (prefix_of_mem_ancestors hdir ha)
  exact ⟨above, hleads, hleads.eq_placeOf habs ▸ h a ha⟩

/-- A path that never goes up passes directories above its place only. -/
theorem findsOnlyAbove_of_descends {place : List String}
    (hdir : isAbsolute (setting.absolute dir) = true)
    (hplace : fs.LeadsTo (setting.absolute dir) place)
    (hdown : Descends (setting.absolute dir)) :
    setting.FindsOnlyAbove fs dir importPath place := by
  refine findsOnlyAbove_of_suffix hdir hplace fun a ha => ?_
  obtain ⟨names, -, hsteps⟩ := exists_names_of_liesIn hdir (isAbsolute_of_mem_ancestors hdir a ha)
    hdown (prefix_of_mem_ancestors hdir ha)
  rw [hplace.eq_placeOf hdir, hsteps, placeOf_append_downs]
  exact List.suffix_append _ _

/-- Paths to one directory have one import path if both go down from the module around them or
neither does, and otherwise only if there is none. They have the same packages for an import path
if no directory that one of them enters and leaves again answers for it or has a module. Both is so
for paths that never go up. -/
theorem spellings_agree_iff (setting : Setting) (fs : FileSystem) {home place : List String}
    {dir dir' : String} (hcwd : setting.cwd = fs.cwd) (habs : isAbsolute setting.cwd = true)
    (hhome : fs.LeadsTo setting.cwd home) (hsrc : ∀ src ∈ setting.srcDirs, Descends src)
    (h : fs.LeadsTo dir place) (h' : fs.LeadsTo dir' place) :
    ((setting.importPathOf dir).on fs = (setting.importPathOf dir').on fs ↔
      (setting.GoesDown fs dir ↔ setting.GoesDown fs dir') ∨
        (setting.importPathOf dir).on fs = "" ∧ (setting.importPathOf dir').on fs = "") ∧
    (¬ setting.GoesDown fs dir → (setting.importPathOf dir).on fs = "") ∧
    (∀ importPath, setting.FindsOnlyAbove fs dir importPath place →
      setting.FindsOnlyAbove fs dir' importPath place →
      (setting.lookupFrom dir importPath).on fs = (setting.lookupFrom dir' importPath).on fs) ∧
    (Descends (setting.absolute dir) → setting.GoesDown fs dir ∧
      ∀ importPath, setting.FindsOnlyAbove fs dir importPath place) := by
  obtain ⟨hdir, hplace⟩ := Setting.leadsTo_absolute hcwd habs hhome h
  obtain ⟨hdir', hplace'⟩ := Setting.leadsTo_absolute hcwd habs hhome h'
  have hempty : ¬ setting.GoesDown fs dir → (setting.importPathOf dir).on fs = "" :=
    importPathOf_of_not_goesDown hdir hsrc
  have hempty' : ¬ setting.GoesDown fs dir' → (setting.importPathOf dir').on fs = "" :=
    importPathOf_of_not_goesDown hdir' hsrc
  refine ⟨⟨fun heq => ?_, ?_⟩, hempty, fun importPath hfinds hfinds' => ?_, fun hdown =>
    ⟨.inl hdown, fun _ => findsOnlyAbove_of_descends hdir hplace hdown⟩⟩
  · by_cases hdown : setting.GoesDown fs dir
    · by_cases hdown' : setting.GoesDown fs dir'
      · exact .inl (iff_of_true hdown hdown')
      · exact .inr ⟨heq.trans (hempty' hdown'), hempty' hdown'⟩
    · exact .inr ⟨hempty hdown, heq.symm.trans (hempty hdown)⟩
  · rintro (hgoes | ⟨hnone, hnone'⟩)
    · by_cases hdown : setting.GoesDown fs dir
      · rw [importPathOf_of_goesDown habs hdir hplace hdown,
          importPathOf_of_goesDown habs hdir' hplace' (hgoes.1 hdown)]
      · rw [hempty hdown, hempty' (mt hgoes.2 hdown)]
    · rw [hnone, hnone']
  · rw [on_lookupFrom_of_findsOnlyAbove hdir hplace hfinds,
      on_lookupFrom_of_findsOnlyAbove hdir' hplace' hfinds']

/-- A module with two directories, of which one keeps a copy of a package. -/
def siblingFiles : FileSystem where
  root := .dir [("w", .dir [("m", .dir [
    ("go.mod", .file "module example.com/m\n".toUTF8),
    ("x", .dir [
      ("a", .dir [("vendor", .dir [("dep", .dir [
        ("dep.go", .file "package stray\n".toUTF8)])])]),
      ("b", .dir [])])])])]
  cwd := "/w"

/-- Entering `x` again changes nothing, while entering and leaving `a` loses the import path and
finds a package that the directory cannot use. -/
theorem detour_through_sibling :
    (storeSetting.importPathOf "m/x/../x/b").on siblingFiles
        = (storeSetting.importPathOf "m/x/b").on siblingFiles ∧
    (storeSetting.lookupFrom "m/x/../x/b" "dep").on siblingFiles
        = (storeSetting.lookupFrom "m/x/b" "dep").on siblingFiles ∧
    (storeSetting.importPathOf "m/x/a/../b").on siblingFiles = "" ∧
    (storeSetting.importPathOf "m/x/b").on siblingFiles = "example.com/m/x/b" ∧
    (storeSetting.lookupFrom "m/x/a/../b" "dep").on siblingFiles = some "stray" ∧
    (storeSetting.lookupFrom "m/x/b" "dep").on siblingFiles = none := by
  have hplain : siblingFiles.LeadsTo "m/x/b" ["b", "x", "m", "w"] := ⟨by decide +kernel, _, rfl⟩
  have hagain : siblingFiles.LeadsTo "m/x/../x/b" ["b", "x", "m", "w"] :=
    ⟨by decide +kernel, _, rfl⟩
  have hdetour : siblingFiles.LeadsTo "m/x/a/../b" ["b", "x", "m", "w"] :=
    ⟨by decide +kernel, _, rfl⟩
  have hhome : siblingFiles.LeadsTo storeSetting.cwd ["w"] := ⟨by decide +kernel, _, rfl⟩
  have hsrc : ∀ src ∈ storeSetting.srcDirs, Descends src := by
    unfold Descends
    decide +kernel
  obtain ⟨hagree, -, hlookup, -⟩ := spellings_agree_iff storeSetting siblingFiles rfl rfl hhome hsrc
    hagain hplain
  obtain ⟨-, hempty, -, -⟩ := spellings_agree_iff storeSetting siblingFiles rfl rfl hhome hsrc
    hdetour hplain
  obtain ⟨-, -, -, hdown⟩ := spellings_agree_iff storeSetting siblingFiles rfl rfl hhome hsrc
    hplain hplain
  have hplainDown := hdown (by unfold Descends; decide +kernel)
  obtain ⟨hagainAbs, hagainLeads⟩ : isAbsolute (storeSetting.absolute "m/x/../x/b") = true ∧
      siblingFiles.LeadsTo (storeSetting.absolute "m/x/../x/b") ["b", "x", "m", "w"] :=
    Setting.leadsTo_absolute rfl rfl hhome hagain
  obtain ⟨hdetourAbs, -⟩ : isAbsolute (storeSetting.absolute "m/x/a/../b") = true ∧
      siblingFiles.LeadsTo (storeSetting.absolute "m/x/a/../b") ["b", "x", "m", "w"] :=
    Setting.leadsTo_absolute rfl rfl hhome hdetour
  have hagainDown : storeSetting.GoesDown siblingFiles "m/x/../x/b" :=
    .inr ⟨⟨"/w/m/x/..", "example.com/m"⟩, ["x", "b"],
      (encloses_iff (.inr hagainAbs)).2 (by decide +kernel), by decide +kernel⟩
  have hagainFinds : storeSetting.FindsOnlyAbove siblingFiles "m/x/../x/b" "dep"
      ["b", "x", "m", "w"] :=
    findsOnlyAbove_of_suffix hagainAbs hagainLeads (by decide +kernel)
  have hdetourUp : ¬ storeSetting.GoesDown siblingFiles "m/x/a/../b" := by
    have hup : Step.up ∈ steps (storeSetting.absolute "m/x/a/../b") := by decide +kernel
    rintro (hdescends | ⟨m, names, hm, hsteps⟩)
    · exact hdescends hup
    · have hroot : (Module.enclosing? (storeSetting.absolute "m/x/a/../b")).on siblingFiles
          = some ⟨"/w/m", "example.com/m"⟩ := by decide +kernel
      obtain rfl := Option.some.inj (((encloses_iff (.inr hdetourAbs)).1 hm).symm.trans hroot)
      have hdowns : Step.up ∉ steps "/w/m" := by decide +kernel
      simp [hsteps, hdowns] at hup
  exact ⟨hagree.2 (.inl (iff_of_true hagainDown hplainDown.1)),
    hlookup _ hagainFinds (hplainDown.2 _), hempty hdetourUp, by decide +kernel, by decide +kernel,
    by decide +kernel⟩

end GoIface
