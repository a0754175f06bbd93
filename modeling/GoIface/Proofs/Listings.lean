import Mathlib.Data.List.Sort
import GoIface.Proofs.Kinds

/-!
# Listings of a directory

The files of a package are read if all that are selected are text, and come in the ascending order
of their names (`goFiles_eq_ok_iff`). Nothing is asked of an entry that its name or the host keeps
out (`of_mem_asked_goFiles`), and the order in which a directory is listed does not matter
(`goFiles_congr`).
-/

namespace GoIface

open Path

/-! ## What is asked -/

variable {fs fs' : FileSystem} {α β : Type} {q : Query}

/-- The questions that a reading puts to a file system, in order. -/
def Reading.asked (fs : FileSystem) : Reading α → List Query
  | done _ => []
  | ask q next => q :: (next (fs.answer q)).asked fs

theorem Reading.asked_bind (r : Reading α) (f : α → Reading β) :
    (r >>= f).asked fs = r.asked fs ++ (f (r.on fs)).asked fs := by
  show (r.bind f).asked fs = _
  induction r with
  | done => rfl
  | ask q next ih => exact congrArg (q :: ·) (ih _)

namespace Extract

theorem mem_asked_bind (x : Extract α) (f : α → Extract β) : q ∈ (x >>= f).run.asked fs ↔
    q ∈ x.run.asked fs ∨ ∃ a, x.run.on fs = .ok a ∧ q ∈ (f a).run.asked fs := by
  rw [ExceptT.run_bind, Reading.asked_bind, List.mem_append]
  refine or_congr_right ?_
  rcases x.run.on fs with e | a
  · simp [Reading.asked, pure]
  · simp

theorem asked_lift (r : Reading α) : (liftM r : Extract α).run.asked fs = r.asked fs := by
  show (r >>= fun a => pure (Except.ok a)).asked fs = _
  rw [Reading.asked_bind]
  exact List.append_nil _

theorem mem_asked_filterAuxM {f : α → Extract Bool} {as acc : List α}
    (h : q ∈ (List.filterAuxM f as acc).run.asked fs) : ∃ a ∈ as, q ∈ (f a).run.asked fs := by
  induction as generalizing acc with
  | nil => cases h
  | cons a as ih =>
    rw [List.filterAuxM, mem_asked_bind] at h
    rcases h with h | ⟨b, -, h⟩
    · exact ⟨a, List.mem_cons_self, h⟩
    · obtain ⟨a', ha', h⟩ := ih h
      exact ⟨a', List.mem_cons_of_mem _ ha', h⟩

theorem mem_asked_filterM {f : α → Extract Bool} {as : List α}
    (h : q ∈ (as.filterM f).run.asked fs) : ∃ a ∈ as, q ∈ (f a).run.asked fs := by
  rw [List.filterM, mem_asked_bind] at h
  rcases h with h | ⟨b, -, h⟩
  · exact mem_asked_filterAuxM h
  · cases h

end Extract

variable {host : Platform} {dir name : String}

theorem of_mem_asked_readText {path : String}
    (h : q ∈ (Extract.readText path).run.asked fs) : q = .read path := by
  rw [Extract.readText, Extract.mem_asked_bind, Extract.asked_lift, Reading.readText,
    Reading.asked_bind, List.mem_append] at h
  rcases h with (h | h) | ⟨result, -, h⟩
  · exact List.mem_singleton.1 h
  · split at h
    · cases h
    · split at h <;> cases h
  · split at h <;> cases h

theorem of_mem_asked_belongs (h : q ∈ (belongs host dir name).run.asked fs) :
    isSourceName name = true ∧ host.accepts name = true ∧
      (q = .isDir (join dir name) ∨
        fs.isDir (join dir name) = false ∧ q = .read (join dir name)) := by
  simp only [belongs] at h
  by_cases hname : (!isSourceName name || !host.accepts name) = true
  · rw [if_pos hname] at h
    cases h
  · refine ⟨by simp_all, by simp_all, ?_⟩
    rw [if_neg hname, Extract.mem_asked_bind, Extract.asked_lift, Extract.on_lift] at h
    rcases h with h | ⟨found, hfound, h⟩
    · exact .inl (List.mem_singleton.1 h)
    · obtain rfl := Except.ok.inj hfound
      rw [Reading.on_isDir] at h
      rcases hdir : fs.isDir (join dir name) with _ | _
      · rw [hdir, if_neg (by simp), Extract.mem_asked_bind] at h
        rcases h with h | ⟨text, -, h⟩
        · exact .inr ⟨rfl, of_mem_asked_readText h⟩
        · cases h
      · rw [hdir, if_pos rfl] at h
        cases h

/-- Beside the directory itself, only entries are asked about that pass by their names and the host,
and only those are read of them that are no directories. -/
theorem of_mem_asked_goFiles (h : q ∈ (goFiles host dir).run.asked fs) : q = .list dir ∨
    ∃ listed, fs.list dir = .ok listed ∧ ∃ name ∈ listed,
      isSourceName name = true ∧ host.accepts name = true ∧
        (q = .isDir (join dir name) ∨
          fs.isDir (join dir name) = false ∧ q = .read (join dir name)) := by
  rw [goFiles, Extract.mem_asked_bind, Extract.asked_lift, Extract.on_lift, Reading.on_list] at h
  rcases h with h | ⟨found, hfound, h⟩
  · exact .inl (List.mem_singleton.1 h)
  · obtain rfl := Except.ok.inj hfound
    rcases hlist : fs.list dir with fault | listed
    · rw [hlist] at h
      cases h
    · rw [hlist] at h
      rcases (Extract.mem_asked_bind _ _).1 h with h | ⟨kept, -, h⟩
      · obtain ⟨name, hname, h⟩ := Extract.mem_asked_filterM h
        exact .inr ⟨listed, rfl, name, hname, of_mem_asked_belongs h⟩
      · cases h

/-! ## Names in a directory -/

theorem Entry.Proper.of_list {listed : List String} (h : fs.root.Proper)
    (hlist : fs.list dir = .ok listed) : listed.Nodup ∧ ∀ name ∈ listed, IsName name := by
  obtain ⟨names, entries, -, hfind, rfl⟩ := FileSystem.list_eq_ok_iff.1 hlist
  exact h names entries hfind

/-- The paths of the entries of a directory begin alike. -/
theorem exists_join_eq (dir : String) : ∃ start : String, ∀ name, IsName name →
    join dir name = start ++ name := by
  have hrelative {name : String} (h : IsName name) : isAbsolute name = false :=
    isAbsolute_of_noSlash h.2.2
  by_cases hend : (dir.isEmpty || endsInSlash dir) = true
  · refine ⟨dir, fun name h => ?_⟩
    rw [join, hrelative h, if_neg (by simp), if_pos hend]
  · refine ⟨dir ++ "/", fun name h => ?_⟩
    rw [join, hrelative h, if_neg (by simp), if_neg hend]

theorem join_inj {other : String} (h : IsName name) (h' : IsName other)
    (heq : join dir name = join dir other) : name = other := by
  obtain ⟨start, hstart⟩ := exists_join_eq dir
  rw [hstart _ h, hstart _ h'] at heq
  simpa [← String.toList_inj] using heq

theorem join_lt_join {other : String} (h : IsName name) (h' : IsName other) (hlt : name < other) :
    join dir name < join dir other := by
  obtain ⟨start, hstart⟩ := exists_join_eq dir
  rw [hstart _ h, hstart _ h', String.lt_iff, String.toList_append, String.toList_append]
  exact List.append_left_lt hlt

/-! ## The order of the files -/

theorem lt_of_le_of_ne {a b : String} (h : a ≤ b) (hne : a ≠ b) : a < b := by
  by_contra hnot
  exact hne (String.le_antisymm h (String.not_lt.1 hnot))

theorem pairwise_lt_mergeSort {names : List String} (h : names.Nodup) :
    (names.mergeSort fun a b => decide (a ≤ b)).Pairwise (· < ·) := by
  have hsorted : (names.mergeSort fun a b => decide (a ≤ b)).Pairwise fun a b => decide (a ≤ b) :=
    List.pairwise_mergeSort
      (fun a b c hab hbc => by
        simpa using String.le_trans (by simpa using hab) (by simpa using hbc))
      (fun a b => by simpa using String.le_total a b) names
  exact (hsorted.and ((List.mergeSort_perm _ _).nodup_iff.2 h)).imp fun ⟨hle, hne⟩ =>
    lt_of_le_of_ne (by simpa using hle) hne

/-- An ascending list is told by what is in it. -/
theorem eq_of_pairwise_lt {names names' : List String} (h : names.Pairwise (· < ·))
    (h' : names'.Pairwise (· < ·)) (hmem : ∀ name, name ∈ names ↔ name ∈ names') :
    names = names' := by
  have hne {l : List String} (hl : l.Pairwise (· < ·)) : l.Nodup :=
    hl.imp fun {a b} (hlt : a < b) (heq : a = b) => String.lt_irrefl b (heq ▸ hlt)
  exact List.Perm.eq_of_pairwise
    (fun a b _ _ hab hba => absurd (String.lt_trans hab hba) (String.lt_irrefl a)) h h'
    ((List.perm_ext_iff_of_nodup (hne h) (hne h')).2 hmem)

variable {listed files : List String}

/-- The paths of the files of the package, if all selected ones are text. -/
theorem goFiles_eq_ok_iff (hproper : fs.root.Proper) (hlist : fs.list dir = .ok listed) :
    (goFiles host dir).run.on fs = .ok files ↔ fs.AllText host dir listed ∧
      ∃ names : List String, files = names.map (join dir) ∧ names.Pairwise (· < ·) ∧
        ∀ name, name ∈ names ↔ name ∈ listed ∧ fs.Builds host dir name := by
  have hsorted := pairwise_lt_mergeSort
    ((hproper.of_list hlist).1.filter (fs.Builds host dir ·))
  have hmem name : name ∈ (listed.filter (fs.Builds host dir ·)).mergeSort
      (fun a b => decide (a ≤ b)) ↔ name ∈ listed ∧ fs.Builds host dir name := by
    simp
  rw [← toOption_eq_some_iff, toOption_on_goFiles, hlist]
  simp only [Except.toOption, Option.bind_some, Option.ite_none_right_eq_some, Option.some_inj]
  refine and_congr_right fun _ => ⟨?_, ?_⟩
  · rintro rfl
    exact ⟨_, rfl, hsorted, hmem⟩
  · rintro ⟨names, rfl, hascends, hnames⟩
    rw [eq_of_pairwise_lt hsorted hascends fun name => (hmem name).trans (hnames name).symm]

/-! ## Other orders -/

namespace Entry

variable {entries entries' : List (String × Entry)}

/-- One directory of a tree lists its entries in another order. -/
inductive Reordered : Entry → Entry → Prop
  | here {entries entries' : List (String × Entry)} (perm : entries.Perm entries') :
      Reordered (.dir entries) (.dir entries')
  | inside {name : String} {e e' : Entry} {entries : List (String × Entry)}
      (entry : entries.lookup name = some e) (reordered : Reordered e e') :
      Reordered (.dir entries) (.dir (setEntry name e' entries))

theorem lookup_eq_of_perm (hperm : entries.Perm entries') (h : (entries.map (·.1)).Nodup)
    (name : String) : entries'.lookup name = entries.lookup name := by
  induction hperm with
  | nil => rfl
  | cons entry _ ih => rw [lookup_cons_eq, lookup_cons_eq, ih (List.nodup_cons.1 h).2]
  | swap first second rest =>
    obtain ⟨m, e⟩ := first
    obtain ⟨n, e'⟩ := second
    have hne : n ≠ m := by
      rw [List.map_cons, List.map_cons, List.nodup_cons] at h
      exact fun heq => h.1 (heq ▸ List.mem_cons_self)
    rw [lookup_cons_eq, lookup_cons_eq, lookup_cons_eq, lookup_cons_eq]
    split_ifs with hm hn
    · exact absurd (hn.symm.trans hm) hne
    all_goals rfl
  | trans hperm _ ih ih' => rw [ih' ((hperm.map (·.1)).nodup_iff.1 h), ih h]

/-- The same stands at every place if no name stands twice in a directory. -/
theorem Reordered.kindAt_eq {root root' : Entry} (h : root.Reordered root')
    (hproper : root.Proper) (names : List String) : root'.kindAt names = root.kindAt names := by
  induction h generalizing names with
  | here perm =>
    rcases names with _ | ⟨name, names⟩
    · rfl
    · rw [kindAt, kindAt, find?, find?, lookup_eq_of_perm perm (hproper [] _ rfl).1]
  | @inside name e e' entries entry _ ih =>
    rcases names with _ | ⟨n, names⟩
    · rfl
    · rw [kindAt, kindAt, find?, find?, lookup_setEntry]
      split_ifs with hn
      · obtain rfl := hn
        rw [entry]
        exact ih (hproper.of_lookup entry) names
      · rfl

end Entry

namespace FileSystem

variable {fs fs' : FileSystem}

theorem SameKinds.of_reordered (h : fs.root.Reordered fs'.root) (hcwd : fs'.cwd = fs.cwd)
    (hproper : fs.root.Proper) : fs.SameKinds fs' :=
  ⟨hcwd, h.kindAt_eq hproper⟩

theorem SameKinds.selects_iff (h : fs.SameKinds fs') :
    fs'.Selects host dir name ↔ fs.Selects host dir name := by
  rw [Selects, Selects, h.isDir]

theorem SameKinds.builds_iff (h : fs.SameKinds fs') :
    fs'.Builds host dir name ↔ fs.Builds host dir name := by
  rw [Builds, Builds, h.selects_iff, h.text?]

end FileSystem

theorem goFiles_congr (hproper : fs.root.Proper) (hlist : fs.list dir = .ok listed)
    (hproper' : fs'.root.Proper) (h : fs.SameKinds fs') :
    (goFiles host dir).run.on fs' = .ok files ↔ (goFiles host dir).run.on fs = .ok files := by
  obtain ⟨listed', hlist', hmem⟩ := h.list hlist
  rw [goFiles_eq_ok_iff hproper' hlist', goFiles_eq_ok_iff hproper hlist, FileSystem.AllText,
    FileSystem.AllText]
  simp only [hmem, h.selects_iff, h.builds_iff, h.text?]

/-- The files of a package are found if and only if all that are selected are text. They are then
those not marked as ignored, ascending, in whatever order the directory is listed, and nothing is
read that its name or the host keeps out. -/
theorem go_files_are_the_selected (host : Platform) (hproper : fs.root.Proper)
    (hlist : fs.list dir = .ok listed) :
    ((∃ files, (goFiles host dir).run.on fs = .ok files) ↔
      ∀ name ∈ listed, isSourceName name = true → host.accepts name = true →
        fs.isDir (join dir name) = false → (fs.text? (join dir name)).isSome) ∧
    (∀ files, (goFiles host dir).run.on fs = .ok files → files.Pairwise (· < ·) ∧
      ∀ path, path ∈ files ↔ ∃ name ∈ listed, path = join dir name ∧
        isSourceName name = true ∧ host.accepts name = true ∧ fs.isDir path = false ∧
          ∃ text ∈ fs.text? path, isIgnored text = false) ∧
    (∀ fs' : FileSystem, fs'.root.Proper → fs.SameKinds fs' →
      ∀ files, (goFiles host dir).run.on fs' = .ok files ↔
        (goFiles host dir).run.on fs = .ok files) ∧
    ∀ name ∈ listed, ¬ (isSourceName name = true ∧ host.accepts name = true) →
      .read (join dir name) ∉ (goFiles host dir).run.asked fs := by
  have hfound (files : List String) : (goFiles host dir).run.on fs = .ok files ↔ _ :=
    goFiles_eq_ok_iff hproper hlist
  have hnames := (hproper.of_list hlist).2
  refine ⟨⟨?_, fun hall => ?_⟩, fun files hfiles => ?_, fun fs' hproper' h files => ?_,
    fun name hname hout hread => ?_⟩
  · rintro ⟨files, hfiles⟩ name hname hsource haccepts hfile
    exact ((hfound files).1 hfiles).1 name hname ⟨hsource, haccepts, hfile⟩
  · refine ⟨_, (hfound _).2 ⟨fun name hname h => hall name hname h.1 h.2.1 h.2.2, _, rfl,
      pairwise_lt_mergeSort ((hproper.of_list hlist).1.filter (fs.Builds host dir ·)), ?_⟩⟩
    simp
  · obtain ⟨-, names, rfl, hascends, hmem⟩ := (hfound files).1 hfiles
    have hname {name : String} (h : name ∈ names) : IsName name := hnames name ((hmem name).1 h).1
    refine ⟨List.pairwise_map.2 (hascends.imp_of_mem fun ha hb hlt =>
      join_lt_join (hname ha) (hname hb) hlt), fun path => ?_⟩
    rw [List.mem_map]
    constructor
    · rintro ⟨name, hin, rfl⟩
      obtain ⟨hin, ⟨hsource, haccepts, hfile⟩, htext⟩ := (hmem name).1 hin
      exact ⟨name, hin, rfl, hsource, haccepts, hfile, htext⟩
    · rintro ⟨name, hin, rfl, hsource, haccepts, hfile, htext⟩
      exact ⟨name, (hmem name).2 ⟨hin, ⟨hsource, haccepts, hfile⟩, htext⟩, rfl⟩
  · exact goFiles_congr hproper hlist hproper' h
  · rcases of_mem_asked_goFiles hread with
      h | ⟨listed', hlist', other, hother, hsource, haccepts, h⟩
    · cases h
    · obtain rfl := Except.ok.inj (hlist.symm.trans hlist')
      rcases h with h | ⟨-, h⟩
      · cases h
      · obtain rfl := join_inj (hnames name hname) (hnames other hother) (Query.read.inj h)
        exact hout ⟨hsource, haccepts⟩

/-- Entries of a directory, one of them a file of no text that another system's name keeps out. -/
def mixedEntries : List (String × Entry) :=
  [("b.go", .file "package p\n".toUTF8), ("a_windows.go", .file ⟨#[0xff]⟩),
    ("a.go", .file "package p\n".toUTF8), ("c.go", .dir [])]

theorem proper_of_perm_mixedEntries {entries : List (String × Entry)}
    (h : entries.Perm mixedEntries) : (Entry.dir entries).Proper := by
  have hnames : ∀ name ∈ mixedEntries.map (·.1), IsName name := by
    unfold IsName
    decide +kernel
  refine Entry.proper_dir ((h.map _).nodup_iff.2 (by decide +kernel))
    (fun name hname => hnames name ((h.map _).mem_iff.1 hname)) fun entry hentry => ?_
  have hmem := h.mem_iff.1 hentry
  simp only [mixedEntries, List.mem_cons, List.not_mem_nil, or_false] at hmem
  rcases hmem with rfl | rfl | rfl | rfl
  · exact Entry.proper_file _
  · exact Entry.proper_file _
  · exact Entry.proper_file _
  · exact Entry.proper_empty

/-- Listed backwards, the directory has the same files, and the one that is no text is not read. -/
theorem files_of_backward_listing : ∃ files,
    (goFiles ⟨"linux", "amd64"⟩ "/").run.on ⟨.dir mixedEntries, "/"⟩ = .ok files ∧
    (goFiles ⟨"linux", "amd64"⟩ "/").run.on ⟨.dir mixedEntries.reverse, "/"⟩ = .ok files ∧
    "/a.go" ∈ files ∧ "/c.go" ∉ files ∧
    .read "/a_windows.go" ∉
      (goFiles ⟨"linux", "amd64"⟩ "/").run.asked ⟨.dir mixedEntries, "/"⟩ := by
  have hperm := List.reverse_perm mixedEntries
  have hproper : Entry.Proper (FileSystem.root ⟨.dir mixedEntries, "/"⟩) :=
    proper_of_perm_mixedEntries (.refl _)
  have hlist : FileSystem.list ⟨.dir mixedEntries, "/"⟩ "/" = .ok (mixedEntries.map (·.1)) := rfl
  obtain ⟨htext, hfiles, horder, hasked⟩ :=
    go_files_are_the_selected ⟨"linux", "amd64"⟩ hproper hlist
  obtain ⟨files, hfound⟩ := htext.2 (by decide +kernel)
  have hmem := (hfiles files hfound).2
  refine ⟨files, hfound, (horder ⟨.dir mixedEntries.reverse, "/"⟩
    (proper_of_perm_mixedEntries hperm)
    (.of_reordered (.here hperm.symm) rfl hproper) files).2 hfound,
    (hmem _).2 ⟨"a.go", by decide +kernel⟩, fun hin => ?_, hasked "a_windows.go" (by decide +kernel)
      (by decide +kernel)⟩
  obtain ⟨-, -, -, -, -, hfile, -⟩ := (hmem _).1 hin
  exact absurd hfile (by decide +kernel)

end GoIface
