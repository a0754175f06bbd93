import Mathlib.Data.Set.Insert
import GoIface.Proofs.Kinds

/-!
# Making directories

What is put where there is no directory changes nothing else (`kindAt_put`), and a way to a place is
not lost while directories stay (`follow_of_keeps`). So whatever becomes of making a directory and
those above it, directories have been made where there was nothing, each where the path or one above
it leads (`makes_makeDirs`), and writing a file changes nothing but the place that its path leads to
(`writes_of_writeFile`).
-/

namespace GoIface

namespace Entry

variable {root root' e : Entry} {names place : List String} {name : String}

/-! ## What changes -/

/-- Nothing is found below the entry. -/
def IsLeaf (e : Entry) : Prop := ∀ name names, e.find? (name :: names) = none

theorem isLeaf_file (content : ByteArray) : (file content).IsLeaf := fun _ _ => rfl

theorem isLeaf_empty : (dir []).IsLeaf := fun _ _ => rfl

theorem kindAt_cons {entries : List (String × Entry)} (name : String) (names : List String) :
    (dir entries).kindAt (name :: names) = (entries.lookup name).bind (·.kindAt names) := by
  rw [kindAt, find?, Option.map_bind]
  rfl

/-- Below what is no directory there is nothing. -/
theorem kindAt_of_not_dir (h : root.kindAt [] ≠ some .dir) (name : String) (names : List String) :
    root.kindAt (name :: names) = none := by
  rcases root with content | entries
  · rfl
  · exact absurd rfl h

/-- A leaf that is put into a directory, in place of no other directory, is all that changes. -/
theorem kindAt_put (hdir : root.kindAt place = some .dir)
    (hfree : root.kindAt (place ++ [name]) ≠ some .dir) (hleaf : e.IsLeaf) (names : List String) :
    (root.put (place ++ [name]) e).kindAt names =
      if names = place ++ [name] then some e.kind else root.kindAt names := by
  induction place generalizing root names with
  | nil =>
    obtain ⟨entries, hroot⟩ := kindAt_eq_dir_iff.1 hdir
    obtain rfl : root = dir entries := by simpa [find?] using hroot
    rcases names with _ | ⟨n, names⟩
    · rfl
    rw [List.nil_append, put, put, kindAt_cons, kindAt_cons, lookup_setEntry]
    by_cases hn : n = name
    · obtain rfl := hn
      rw [List.nil_append, kindAt_cons] at hfree
      rw [if_pos rfl, Option.bind_some]
      rcases names with _ | ⟨m, names⟩
      · rw [if_pos rfl]
        rfl
      · rw [if_neg (by simp), kindAt, hleaf]
        rcases hlookup : entries.lookup n with _ | old
        · rfl
        · rw [hlookup] at hfree
          exact (kindAt_of_not_dir hfree m names).symm
    · rw [if_neg hn, if_neg (by simp [hn])]
  | cons n place ih =>
    rcases root with content | entries
    · cases hdir
    rw [kindAt_cons] at hdir
    rw [List.cons_append, kindAt_cons] at hfree
    rcases hlookup : entries.lookup n with _ | old
    · rw [hlookup] at hdir
      cases hdir
    · rw [hlookup, Option.bind_some] at hdir hfree
      rcases names with _ | ⟨m, names⟩
      · rfl
      rw [List.cons_append, put, hlookup, Option.getD_some, kindAt_cons, kindAt_cons,
        lookup_setEntry]
      by_cases hm : m = n
      · obtain rfl := hm
        rw [if_pos rfl, Option.bind_some, ih hdir hfree, hlookup, Option.bind_some]
        simp only [List.cons.injEq, true_and]
      · rw [if_neg hm, if_neg (by simp [hm])]

/-- Nothing is lost, and directories stay. -/
structure Keeps (root root' : Entry) : Prop where
  there (names : List String) : root.kindAt names ≠ none → root'.kindAt names ≠ none
  dir (names : List String) : root.kindAt names = some .dir → root'.kindAt names = some .dir

theorem keeps_put (hdir : root.kindAt place = some .dir)
    (hfree : root.kindAt (place ++ [name]) ≠ some .dir) (hleaf : e.IsLeaf) :
    root.Keeps (root.put (place ++ [name]) e) := by
  refine ⟨fun names hthere => ?_, fun names hnames => ?_⟩
  · rw [kindAt_put hdir hfree hleaf]
    split_ifs
    · simp
    · exact hthere
  · have hne : names ≠ place ++ [name] := by
      rintro rfl
      exact hfree hnames
    rw [kindAt_put hdir hfree hleaf, if_neg hne, hnames]

end Entry

namespace FileSystem

open Path

variable {fs fs' fs'' : FileSystem} {root root' : Entry} {place place' ss names : List String}
  {path : String} {paths paths' : Set String} {content : ByteArray} {site : Site}

theorem follow_of_keeps (h : root.Keeps root') (hfollow : follow root place ss = .ok place') :
    follow root' place ss = .ok place' := by
  induction ss generalizing place with
  | nil => exact hfollow
  | cons s ss ih =>
    by_cases hdir : root.kindAt place.reverse = some .dir
    · rw [follow_of_isDirAt hdir] at hfollow
      rw [follow_of_isDirAt (h.dir _ hdir)]
      split_ifs at hfollow with hidle hup hlong hgone
      · rw [if_pos hidle]
        exact ih hfollow
      · rw [if_neg hidle, if_pos hup]
        exact ih hfollow
      · rw [if_neg hidle, if_neg hup, if_neg hlong, if_neg (h.there _ hgone)]
        exact ih hfollow
    · rw [follow_of_not_isDirAt hdir] at hfollow
      cases hfollow

theorem stretchesOf_congr (hcwd : fs'.cwd = fs.cwd) (path : String) :
    fs'.stretchesOf path = fs.stretchesOf path := by
  rw [stretchesOf, stretchesOf, hcwd]

theorem locate_eq_ok_iff_follow : fs.locate path = .ok names ↔
    ∃ stretches, fs.stretchesOf path = .ok stretches ∧
      follow fs.root [] stretches = .ok names.reverse := by
  rw [locate]
  rcases fs.stretchesOf path with fault | stretches
  · simp [bind, Except.bind]
  · simp only [bind, Except.bind, Except.ok.injEq, exists_eq_left', pure, Except.pure]
    rcases follow fs.root [] stretches with fault | place
    · simp
    · simp [List.reverse_eq_iff]

theorem locate_of_keeps (h : fs.root.Keeps fs'.root) (hcwd : fs'.cwd = fs.cwd)
    (hlocate : fs.locate path = .ok names) : fs'.locate path = .ok names := by
  obtain ⟨stretches, hstretches, hfollow⟩ := locate_eq_ok_iff_follow.1 hlocate
  exact locate_eq_ok_iff_follow.2
    ⟨stretches, (stretchesOf_congr hcwd path).trans hstretches, follow_of_keeps h hfollow⟩

theorem LeadsTo.of_keeps (hkeeps : fs.root.Keeps fs'.root) (hcwd : fs'.cwd = fs.cwd)
    (h : fs.LeadsTo path place) : fs'.LeadsTo path place :=
  ⟨locate_of_keeps hkeeps hcwd h.locate,
    Entry.isDirAt_iff_kindAt.2 (hkeeps.dir _ (Entry.isDirAt_iff_kindAt.1 h.isDir))⟩

/-! ## Sites -/

/-- A path names a place in a directory by a last name, after which there are slashes at most. -/
theorem exists_of_site? (h : fs.site? path = .ok (some site)) : ∃ init slashes,
    fs.stretchesOf path = .ok (init ++ site.name :: slashes) ∧ (∀ s ∈ slashes, s = "") ∧
      (site.slash = false → slashes = []) ∧
      follow fs.root [] (init ++ [""]) = .ok site.dir.reverse ∧
      isIdle site.name = false ∧ site.name ≠ ".." := by
  rcases hstretches : fs.stretchesOf path with fault | stretches
  · simp [site?, hstretches, bind, Except.bind] at h
  have hsplit : stretches.rdropWhile (·.isEmpty) ++ stretches.rtakeWhile (·.isEmpty) = stretches :=
    List.rdropWhile_append_rtakeWhile
  have hnamed : (stretches.reverse.dropWhile (·.isEmpty)).reverse =
      stretches.rdropWhile (·.isEmpty) := rfl
  rw [site?, hstretches] at h
  simp only [bind, Except.bind, hnamed] at h
  rcases hlast : (stretches.rdropWhile (·.isEmpty)).getLast? with _ | last
  · simp [hlast, pure, Except.pure] at h
  · obtain ⟨init, hinit⟩ := List.getLast?_eq_some_iff.1 hlast
    have hnonempty : last.isEmpty = false := by
      have hend := List.rdropWhile_last_not (·.isEmpty) stretches (by simp [hinit])
      simpa [hinit] using hend
    rw [hinit, List.dropLast_concat] at h
    rw [hinit, List.append_assoc, List.singleton_append] at hsplit
    rcases hfollow : follow fs.root [] (init ++ [""]) with fault | place
    · simp [hfollow] at h
    · simp only [List.getLast?_concat, hfollow, pure, Except.pure] at h
      split_ifs at h with hdots
      · cases h
      · cases h
        refine ⟨init, _, by rw [hsplit], fun s hs => ?_, fun hslash => ?_, by simp [hfollow], ?_,
          ?_⟩
        · simpa using List.mem_rtakeWhile_imp hs
        · have hlength := congrArg List.length hsplit
          rw [bne_eq_false_iff_eq, List.length_append, List.length_singleton] at hslash
          rw [List.length_append, List.length_cons] at hlength
          exact List.eq_nil_of_length_eq_zero (by omega)
        · simp_all [isIdle]
        · simp_all

theorem follow_of_slash (h : follow root place (ss ++ [""]) = .ok place') :
    follow root place ss = .ok place' := by
  rw [follow_append] at h
  rcases hfollow : follow root place ss with fault | last
  · rw [hfollow] at h
    cases h
  · rw [hfollow] at h
    exact congrArg Except.ok (place_of_follow h).symm

theorem follow_slashes (hdir : root.kindAt place.reverse = some .dir) (hss : ∀ s ∈ ss, s = "") :
    follow root place ss = .ok place := by
  induction ss with
  | nil => rfl
  | cons s ss ih =>
    obtain ⟨rfl, hrest⟩ := List.forall_mem_cons.1 hss
    rw [follow_of_isDirAt hdir, if_pos (by decide), ih hrest]

/-- A path leads to the place that it names as soon as something fitting is there. -/
theorem locate_of_site? (h : fs.site? path = .ok (some site)) (hkeeps : fs.root.Keeps fs'.root)
    (hcwd : fs'.cwd = fs.cwd) (hshort : site.isTooLong = false)
    (hthere : fs'.root.kindAt (site.dir ++ [site.name]) ≠ none)
    (hslash : site.slash = true → fs'.root.kindAt (site.dir ++ [site.name]) = some .dir) :
    fs'.locate path = .ok (site.dir ++ [site.name]) := by
  obtain ⟨init, slashes, hstretches, hslashes, hend, hfollow, hidle, hup⟩ := exists_of_site? h
  refine locate_eq_ok_iff_follow.2 ⟨_, (stretchesOf_congr hcwd path).trans hstretches, ?_⟩
  have hdir := isDirAt_of_follow_slash (follow_of_keeps hkeeps hfollow)
  have hplace : (site.name :: site.dir.reverse).reverse = site.dir ++ [site.name] := by simp
  have hlong : ¬ nameLimit < site.name.utf8ByteSize := by
    simpa [Site.isTooLong] using hshort
  rw [follow_append, follow_of_keeps hkeeps (follow_of_slash hfollow)]
  show follow fs'.root site.dir.reverse (site.name :: slashes) = _
  rw [follow_of_isDirAt (Entry.isDirAt_iff_kindAt.1 hdir), hidle, if_neg (by simp),
    if_neg (by simpa using hup), if_neg hlong, hplace, if_neg hthere, List.reverse_append]
  rcases hslashed : site.slash with _ | _
  · rw [hend hslashed]
    rfl
  · exact follow_slashes (by rw [hplace, hslash hslashed]) hslashes

/-! ## Directories that are made -/

/-- Directories have been made where there was nothing, each where one of the paths leads. -/
structure Makes (fs : FileSystem) (paths : Set String) (fs' : FileSystem) : Prop where
  cwd : fs'.cwd = fs.cwd
  kindAt (names : List String) : fs'.root.kindAt names = fs.root.kindAt names ∨
    fs.root.kindAt names = none ∧ fs'.root.kindAt names = some .dir ∧
      ∃ path ∈ paths, fs'.locate path = .ok names

namespace Makes

theorem refl (fs : FileSystem) (paths : Set String) : fs.Makes paths fs := ⟨rfl, fun _ => .inl rfl⟩

theorem mono (h : fs.Makes paths fs') (hpaths : paths ⊆ paths') : fs.Makes paths' fs' := by
  refine ⟨h.cwd, fun names => (h.kindAt names).imp_right ?_⟩
  rintro ⟨hnone, hdir, path, hpath, hlocate⟩
  exact ⟨hnone, hdir, path, hpaths hpath, hlocate⟩

theorem keeps (h : fs.Makes paths fs') : fs.root.Keeps fs'.root := by
  refine ⟨fun names hthere => ?_, fun names hdir => ?_⟩
  · rcases h.kindAt names with heq | ⟨-, hdir, -⟩
    · rwa [heq]
    · simp [hdir]
  · rcases h.kindAt names with heq | ⟨hnone, -, -⟩
    · rwa [heq]
    · simp [hnone] at hdir

theorem trans (h : fs.Makes paths fs') (h' : fs'.Makes paths fs'') : fs.Makes paths fs'' := by
  refine ⟨h'.cwd.trans h.cwd, fun names => ?_⟩
  rcases h'.kindAt names with heq | ⟨hnone', hdir', hpath'⟩
  · rw [heq]
    refine (h.kindAt names).imp_right ?_
    rintro ⟨hnone, hdir, path, hpath, hlocate⟩
    exact ⟨hnone, hdir, path, hpath, locate_of_keeps h'.keeps h'.cwd hlocate⟩
  · rcases h.kindAt names with heq | ⟨-, hdir, -⟩
    · exact .inr ⟨heq ▸ hnone', hdir', hpath'⟩
    · simp [hdir] at hnone'

end Makes

theorem makeDir_eq_ok_iff : fs.makeDir path = .ok fs' ↔
    ∃ site, fs.site? path = .ok (some site) ∧ site.isTooLong = false ∧
      fs.root.kindAt (site.dir ++ [site.name]) = none ∧
      fs' = fs.put (site.dir ++ [site.name]) (.dir []) := by
  rw [makeDir]
  rcases fs.site? path with fault | (_ | site)
  · simp [bind, Except.bind]
  · simp [bind, Except.bind, throw, throwThe, MonadExceptOf.throw]
  · simp only [bind, Except.bind, throw, throwThe, MonadExceptOf.throw, pure, Except.pure,
      Except.ok.injEq, Option.some.injEq, exists_eq_left', Entry.kindAt, Option.map_eq_none_iff]
    split_ifs with hlong hthere
    · simp [hlong]
    · simp [Option.ne_none_iff_isSome.2 hthere]
    · simp [hlong, Option.not_isSome_iff_eq_none.1 hthere, eq_comm]

theorem writeFile_eq_ok_iff : fs.writeFile path content = .ok fs' ↔
    ∃ site, fs.site? path = .ok (some site) ∧ site.slash = false ∧ site.isTooLong = false ∧
      fs.root.kindAt (site.dir ++ [site.name]) ≠ some .dir ∧
      fs' = fs.put (site.dir ++ [site.name]) (.file content) := by
  rw [writeFile]
  rcases fs.site? path with fault | (_ | site)
  · simp [bind, Except.bind]
  · simp [bind, Except.bind, throw, throwThe, MonadExceptOf.throw]
  · have hkind : (fs.root.find? (site.dir ++ [site.name])).any Entry.isDir = true ↔
        fs.root.kindAt (site.dir ++ [site.name]) = some .dir := by
      rw [Entry.kindAt, Option.any_eq_true, Option.map_eq_some_iff]
      simp only [Entry.kind_eq_dir_iff]
    simp only [bind, Except.bind, throw, throwThe, MonadExceptOf.throw, pure, Except.pure,
      Except.ok.injEq, Option.some.injEq, exists_eq_left']
    split_ifs with hslash hlong hdir
    · simp [hslash]
    · simp [hlong]
    · simp [hkind.1 hdir]
    · simp [hslash, hlong, mt hkind.2 hdir, eq_comm]

theorem kindAt_site_dir (h : fs.site? path = .ok (some site)) :
    fs.root.kindAt site.dir = some .dir := by
  obtain ⟨init, slashes, -, -, -, hfollow, -⟩ := exists_of_site? h
  simpa using Entry.isDirAt_iff_kindAt.1 (isDirAt_of_follow_slash hfollow)

theorem makes_of_makeDir (h : fs.makeDir path = .ok fs') : fs.Makes {path} fs' := by
  obtain ⟨site, hsite, hshort, hnone, rfl⟩ := makeDir_eq_ok_iff.1 h
  have hdir := kindAt_site_dir hsite
  have hfree : fs.root.kindAt (site.dir ++ [site.name]) ≠ some .dir := by simp [hnone]
  have hkind := Entry.kindAt_put hdir hfree Entry.isLeaf_empty
  refine ⟨rfl, fun names => ?_⟩
  rw [put, hkind]
  split_ifs with hnames
  · have hmade := hkind names
    rw [if_pos hnames, hnames] at hmade
    rw [hnames]
    exact .inr ⟨hnone, rfl, path, rfl, locate_of_site? hsite
      (Entry.keeps_put hdir hfree Entry.isLeaf_empty) rfl hshort (hmade ▸ by simp) fun _ => hmade⟩
  · exact .inl rfl

theorem makes_ensureDir (fs : FileSystem) (path : String) :
    fs.Makes {path} (fs.ensureDir path).1 := by
  rw [ensureDir]
  rcases hmake : fs.makeDir path with fault | fs'
  · exact .refl fs _
  · exact makes_of_makeDir hmake

theorem makes_makeDirsWithin (n : Nat) (fs : FileSystem) (path : String) :
    fs.Makes {a | a ∈ ancestorsWithin n path} (makeDirsWithin n fs path).1 := by
  induction n generalizing fs path with
  | zero => simpa [makeDirsWithin, ancestorsWithin] using makes_ensureDir fs path
  | succ n ih =>
    have hpath : fs.Makes {a | a ∈ ancestorsWithin (n + 1) path} (fs.ensureDir path).1 :=
      (makes_ensureDir fs path).mono (by simp [ancestorsWithin])
    rw [makeDirsWithin]
    split
    · next fs₁ parent hensure hparent =>
      rw [hensure] at hpath
      have habove : fs₁.Makes {a | a ∈ ancestorsWithin (n + 1) path}
          (makeDirsWithin n fs₁ parent).1 :=
        (ih fs₁ parent).mono fun a ha => by simp_all [ancestorsWithin]
      split
      · next fs₂ hmade =>
        rw [hmade] at habove
        exact (hpath.trans habove).trans
          ((makes_ensureDir fs₂ path).mono (by simp [ancestorsWithin]))
      · exact hpath.trans habove
    · exact hpath

/-- Whether or not it succeeds, directories are made only where the path and those above it lead. -/
theorem makes_makeDirs (fs : FileSystem) (path : String) :
    fs.Makes {a | a ∈ ancestors path} (fs.makeDirs path).1 := by
  rw [makeDirs]
  split_ifs
  · exact .refl fs _
  · exact makes_makeDirsWithin _ fs path

/-! ## A file that is written -/

/-- One place has the content, where there was no directory, and nothing else is different. -/
structure Writes (fs : FileSystem) (names : List String) (content : ByteArray) (fs' : FileSystem) :
    Prop where
  cwd : fs'.cwd = fs.cwd
  free : fs.root.kindAt names ≠ some .dir
  written : fs'.root.kindAt names = some (.file content)
  others (other : List String) (hne : other ≠ names) :
    fs'.root.kindAt other = fs.root.kindAt other

theorem Writes.keeps (h : fs.Writes names content fs') : fs.root.Keeps fs'.root := by
  refine ⟨fun other hthere => ?_, fun other hdir => ?_⟩
  · by_cases hne : other = names
    · simp [hne, h.written]
    · rwa [h.others other hne]
  · rwa [h.others other fun heq => h.free (heq ▸ hdir)]

theorem writes_of_writeFile (h : fs.writeFile path content = .ok fs') :
    ∃ site, fs.site? path = .ok (some site) ∧ fs'.locate path = .ok (site.dir ++ [site.name]) ∧
      fs.Writes (site.dir ++ [site.name]) content fs' := by
  obtain ⟨site, hsite, hslash, hshort, hfree, rfl⟩ := writeFile_eq_ok_iff.1 h
  have hdir := kindAt_site_dir hsite
  have hkind := Entry.kindAt_put hdir hfree (Entry.isLeaf_file content)
  have hwrites : fs.Writes (site.dir ++ [site.name]) content
      (fs.put (site.dir ++ [site.name]) (.file content)) :=
    ⟨rfl, hfree, by rw [put, hkind, if_pos rfl]; rfl, fun other hne => by
      rw [put, hkind, if_neg hne]⟩
  exact ⟨site, hsite, locate_of_site? hsite hwrites.keeps rfl hshort (by simp [hwrites.written])
    (by simp [hslash]), hwrites⟩

/-! ## The directory of a file -/

theorem stretchesOf_eq_ok_iff {stretches : List String} : fs.stretchesOf path = .ok stretches ↔
    path ≠ "" ∧ nul ∉ path.toList ∧ stretches = (Path.stretches (join fs.cwd path)).tail := by
  have hempty : path.isEmpty = true ↔ path = "" := by simp
  rw [stretchesOf, show Char.ofNat 0 = nul from rfl]
  simp only [hempty, List.contains_iff_mem]
  split_ifs with hpath hnul
  · simp [hpath]
  · simp [hnul]
  · simp [hpath, hnul, eq_comm]

theorem steps_absolute_eq_join {cwd : String} (hcwd : isAbsolute cwd = true) (hpath : path ≠ "") :
    steps (absolute cwd path) = steps (join cwd path) := by
  rw [(steps_absolute hcwd hpath).2]
  rcases habs : isAbsolute path with _ | _
  · rw [steps_join hcwd habs, if_neg (by simp)]
  · obtain ⟨ss, hss, -⟩ := stretches_of_isAbsolute habs
    rw [join, if_pos habs, if_pos rfl, steps_of_isAbsolute habs, hss]
    rfl

/-- A path that names a place leads, without its last step, to the directory around it. -/
theorem leadsTo_absoluteDir (hcwd : isAbsolute fs.cwd = true) (hnul : nul ∉ fs.cwd.toList)
    (h : fs.site? path = .ok (some site)) :
    fs.LeadsTo (absoluteDir fs.cwd path) site.dir.reverse := by
  obtain ⟨init, slashes, hstretches, hslashes, -, hfollow, hidle, hup⟩ := exists_of_site? h
  obtain ⟨hpath, hplain, htail⟩ := stretchesOf_eq_ok_iff.1 hstretches
  have hstep : step? site.name = some (.down site.name) := by simp [step?, hidle, hup]
  have hnone : slashes.filterMap step? = [] :=
    List.filterMap_eq_nil_iff.2 fun s hs => hslashes s hs ▸ rfl
  have hsteps : steps (absolute fs.cwd path) =
      (.root :: init.filterMap step?) ++ [.down site.name] := by
    rw [steps_absolute_eq_join hcwd hpath, steps_of_isAbsolute (isAbsolute_join hcwd path), ← htail,
      List.filterMap_append, List.filterMap_cons_some hstep, hnone]
    rfl
  rcases parent?_cases (steps_absolute hcwd hpath).1 with ⟨-, hroot⟩ | ⟨above, step, hparent,
    habove, habsolute⟩
  · simp [hsteps] at hroot
  · obtain ⟨hinit, -⟩ := List.append_inj' (habsolute.symm.trans hsteps) rfl
    have hdir : absoluteDir fs.cwd path = above := by
      rw [absoluteDir, hparent]
      rfl
    rw [hdir, leadsTo_iff habove, hinit, List.filterMap_cons_none rfl, filterMap_text?]
    have hplace := isDirAt_of_follow_slash hfollow
    refine ⟨fun hin => ?_, (follow_filter hplace).1 (follow_of_slash hfollow), hplace⟩
    -- every step of the directory is one of the path, in which there is no nul
    obtain ⟨t, ht, hnulIn⟩ := (nul_mem_iff above).1 hin
    have hjoin : nul ∈ (join fs.cwd path).toList := by
      refine (nul_mem_iff _).2 ⟨t, ?_, hnulIn⟩
      rw [← steps_absolute_eq_join hcwd hpath, habsolute, List.filterMap_append]
      exact List.mem_append_left _ ht
    rcases habs : isAbsolute path with _ | _
    · exact ((nul_mem_join_iff _ _ habs).1 hjoin).elim hnul hplain
    · rw [join, if_pos habs] at hjoin
      exact hplain hjoin

/-! ## Proper trees -/

theorem isName_of_find? {e : Entry} (h : root.Proper) (hfind : root.find? names = some e) :
    ∀ name ∈ names, IsName name := by
  induction names generalizing root with
  | nil => simp
  | cons name names ih =>
    rcases root with content | entries
    · cases hfind
    · rw [Entry.find?] at hfind
      obtain ⟨inner, hlookup, hfind⟩ := Option.bind_eq_some_iff.1 hfind
      have hname : name ∈ entries.map (·.1) := by
        obtain ⟨before, after, rfl, -⟩ := List.lookup_eq_some_iff.1 hlookup
        simp
      exact List.forall_mem_cons.2 ⟨(h [] entries rfl).2 name hname, ih (h.of_lookup hlookup) hfind⟩

theorem proper_put {e : Entry} (h : fs.root.Proper) (hsite : fs.site? path = .ok (some site))
    (he : e.Proper) : (fs.put (site.dir ++ [site.name]) e).root.Proper := by
  obtain ⟨init, slashes, hstretches, -, -, -, hidle, hup⟩ := exists_of_site? hsite
  obtain ⟨entries, hfind⟩ := Entry.kindAt_eq_dir_iff.1 (kindAt_site_dir hsite)
  have hmem : site.name ∈ (Path.stretches (join fs.cwd path)).tail := by
    rw [← (stretchesOf_eq_ok_iff.1 hstretches).2.2]
    simp
  refine h.put (List.forall_mem_append.2 ⟨isName_of_find? h hfind, ?_⟩) he
  simpa using ⟨hidle, hup, noSlash_of_mem_stretches (List.mem_of_mem_tail hmem)⟩

theorem proper_writeFile (h : fs.root.Proper) (hwrite : fs.writeFile path content = .ok fs') :
    fs'.root.Proper := by
  obtain ⟨site, hsite, -, -, -, rfl⟩ := writeFile_eq_ok_iff.1 hwrite
  exact proper_put h hsite (Entry.proper_file content)

theorem proper_ensureDir (h : fs.root.Proper) (path : String) :
    (fs.ensureDir path).1.root.Proper := by
  rw [ensureDir]
  rcases hmake : fs.makeDir path with fault | fs'
  · exact h
  · obtain ⟨site, hsite, -, -, rfl⟩ := makeDir_eq_ok_iff.1 hmake
    exact proper_put h hsite Entry.proper_empty

theorem proper_makeDirsWithin (n : Nat) (h : fs.root.Proper) (path : String) :
    (makeDirsWithin n fs path).1.root.Proper := by
  induction n generalizing fs path with
  | zero => exact proper_ensureDir h path
  | succ n ih =>
    have hpath := proper_ensureDir h path
    rw [makeDirsWithin]
    split
    · next fs₁ parent hensure _ =>
      rw [hensure] at hpath
      have habove := ih hpath parent
      split
      · next fs₂ hmade =>
        rw [hmade] at habove
        exact proper_ensureDir habove path
      · exact habove
    · exact hpath

theorem proper_makeDirs (h : fs.root.Proper) (path : String) :
    (fs.makeDirs path).1.root.Proper := by
  rw [makeDirs]
  split_ifs
  · exact h
  · exact proper_makeDirsWithin _ h path

end FileSystem

end GoIface
