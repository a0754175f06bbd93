import Mathlib.Logic.Relation
import GoIface.Proofs.SelectedFiles
import GoIface.Proofs.Following

/-!
# Changes of files

Writing or removing a file makes no other difference: the same directories are there, each but the
one of the file with the same names, and every other file keeps its content
(`ChangesFile.differsAt`). So paths lead to the directories that they led to
(`leadsTo_of_differsAt`), and a directory is seen as before as long as the files that change lie in
others (`seenAs_of_changesOutside`).
-/

namespace GoIface

namespace Entry

variable {entries entries' : List (String × Entry)} {name : String} {names : List String}
  {root root' e e' : Entry}

/-! ## Entries of a directory -/

theorem lookup_cons_eq (m n : String) :
    List.lookup n ((m, e) :: entries) = if n = m then some e else entries.lookup n := by
  rw [List.lookup_cons]
  rcases eq_or_ne n m with rfl | hne
  · simp
  · simp [hne, beq_false_of_ne hne]

theorem lookup_setEntry (n : String) :
    (setEntry name e entries).lookup n = if n = name then some e else entries.lookup n := by
  induction entries with
  | nil => exact lookup_cons_eq name n
  | cons entry entries ih =>
    obtain ⟨m, old⟩ := entry
    rw [setEntry, lookup_cons_eq]
    rcases eq_or_ne m name with rfl | hm
    · rw [if_pos rfl, lookup_cons_eq]
      split_ifs <;> rfl
    · rw [if_neg hm, lookup_cons_eq, ih]
      rcases eq_or_ne n m with rfl | hne
      · rw [if_pos rfl, if_neg hm, if_pos rfl]
      · rw [if_neg hne, if_neg hne]

theorem map_fst_setEntry (h : (entries.lookup name).isSome) :
    (setEntry name e entries).map (·.1) = entries.map (·.1) := by
  induction entries with
  | nil => cases h
  | cons entry entries ih =>
    obtain ⟨m, old⟩ := entry
    rw [setEntry]
    rcases eq_or_ne m name with rfl | hm
    · rw [if_pos rfl, List.map_cons, List.map_cons]
    · rw [lookup_cons_eq, if_neg hm.symm] at h
      rw [if_neg hm, List.map_cons, List.map_cons, ih h]

theorem lookup_filter_ne (n : String) : (entries.filter (·.1 != name)).lookup n
    = if n = name then none else entries.lookup n := by
  induction entries with
  | nil => simp
  | cons entry entries ih =>
    obtain ⟨m, old⟩ := entry
    rw [List.filter_cons, lookup_cons_eq]
    rcases eq_or_ne m name with rfl | hm
    · rw [if_neg (by simp), ih]
      split_ifs <;> rfl
    · rw [if_pos (by simpa using hm), lookup_cons_eq, ih]
      rcases eq_or_ne n m with rfl | hne
      · rw [if_pos rfl, if_neg hm, if_pos rfl]
      · rw [if_neg hne, if_neg hne]

/-! ## One file -/

/-- The names in a directory. -/
def names? : Entry → Option (List String)
  | dir entries => some (entries.map (·.1))
  | file _ => none

def content? : Entry → Option ByteArray
  | file content => some content
  | dir _ => none

/-- The trees differ in one place at most, where either has a file or nothing. -/
inductive DiffersAt : List String → Entry → Entry → Prop
  | same {names : List String} {root : Entry} (isFile : (root.find? names).any isDir = false) :
      DiffersAt names root root
  | here {name : String} {entries entries' : List (String × Entry)}
      (isFile : (entries.lookup name).any isDir = false)
      (isFile' : (entries'.lookup name).any isDir = false)
      (others : ∀ n, n ≠ name → entries.lookup n = entries'.lookup n) :
      DiffersAt [name] (dir entries) (dir entries')
  | inside {name n : String} {names : List String} {entries entries' : List (String × Entry)}
      {e e' : Entry} (entry : entries.lookup name = some e)
      (entry' : entries'.lookup name = some e') (differs : DiffersAt (n :: names) e e')
      (others : ∀ n, n ≠ name → entries.lookup n = entries'.lookup n)
      (listed : entries.map (·.1) = entries'.map (·.1)) :
      DiffersAt (name :: n :: names) (dir entries) (dir entries')

theorem DiffersAt.symm (h : DiffersAt names root root') : DiffersAt names root' root := by
  induction h with
  | same isFile => exact .same isFile
  | here isFile isFile' others => exact .here isFile' isFile fun n hn => (others n hn).symm
  | inside entry entry' _ others listed ih =>
    exact .inside entry' entry ih (fun n hn => (others n hn).symm) listed.symm

theorem bind_find?_nil (found : Option Entry) : found.bind (find? []) = found := by
  rcases found <;> rfl

theorem bind_find?_of_isFile {found : Option Entry} (h : found.any isDir = false) (n : String)
    (q : List String) : found.bind (find? (n :: q)) = none := by
  rcases found with _ | (_ | _)
  · rfl
  · rfl
  · cases h

theorem bind_names?_of_isFile {found : Option Entry} (h : found.any isDir = false) :
    found.bind names? = none := by
  rcases found with _ | (_ | _)
  · rfl
  · rfl
  · cases h

/-- What differs is found at the place, and above it there are directories. -/
theorem DiffersAt.find?_cases (h : DiffersAt names root root') (q : List String) :
    root.find? q = root'.find? q ∨
    (q = names ∧ (root.find? q).any isDir = false ∧ (root'.find? q).any isDir = false) ∨
    ∃ entries entries', root.find? q = some (dir entries) ∧ root'.find? q = some (dir entries') ∧
      (q ≠ names.dropLast → entries.map (·.1) = entries'.map (·.1)) := by
  induction h generalizing q with
  | same => exact .inl rfl
  | @here name entries entries' isFile isFile' others =>
    rcases q with _ | ⟨n, q⟩
    · exact .inr (.inr ⟨entries, entries', rfl, rfl, fun hq => absurd rfl hq⟩)
    · rw [find?, find?]
      rcases eq_or_ne n name with rfl | hn
      · rcases q with _ | ⟨m, q⟩
        · refine .inr (.inl ⟨rfl, ?_, ?_⟩)
          · rwa [bind_find?_nil]
          · rwa [bind_find?_nil]
        · rw [bind_find?_of_isFile isFile, bind_find?_of_isFile isFile']
          exact .inl rfl
      · rw [others n hn]
        exact .inl rfl
  | @inside name n names entries entries' e e' entry entry' _ others listed ih =>
    rcases q with _ | ⟨m, q⟩
    · exact .inr (.inr ⟨entries, entries', rfl, rfl, fun _ => listed⟩)
    · rw [find?, find?]
      rcases eq_or_ne m name with rfl | hm
      · rw [entry, entry', Option.bind_some, Option.bind_some]
        rcases ih q with heq | ⟨rfl, hfiles⟩ | ⟨inner, inner', hfind, hfind', hlisted⟩
        · exact .inl heq
        · exact .inr (.inl ⟨rfl, hfiles⟩)
        · exact .inr (.inr ⟨inner, inner', hfind, hfind', fun hq =>
            hlisted fun heq => hq (by rw [heq]; rfl)⟩)
      · rw [others m hm]
        exact .inl rfl

section

variable (h : DiffersAt names root root') (q : List String)

include h

theorem DiffersAt.isDir_find? : (root.find? q).any isDir = (root'.find? q).any isDir := by
  rcases h.find?_cases q with heq | ⟨-, hfile, hfile'⟩ | ⟨entries, entries', hfind, hfind', -⟩
  · rw [heq]
  · rw [hfile, hfile']
  · rw [hfind, hfind']
    rfl

theorem DiffersAt.names?_find? (hq : q ≠ names.dropLast) :
    (root.find? q).bind names? = (root'.find? q).bind names? := by
  rcases h.find?_cases q with heq | ⟨-, hfile, hfile'⟩ | ⟨entries, entries', hfind, hfind', hlisted⟩
  · rw [heq]
  · rw [bind_names?_of_isFile hfile, bind_names?_of_isFile hfile']
  · rw [hfind, hfind', Option.bind_some, Option.bind_some, names?, names?, hlisted hq]

theorem DiffersAt.content?_find? (hq : q ≠ names) :
    (root.find? q).bind content? = (root'.find? q).bind content? := by
  rcases h.find?_cases q with heq | ⟨heq, -⟩ | ⟨entries, entries', hfind, hfind', -⟩
  · rw [heq]
  · exact absurd heq hq
  · rw [hfind, hfind']
    rfl

end

theorem DiffersAt.setEntry (h : DiffersAt names e e') (hne : names ≠ [])
    (hentry : entries.lookup name = some e) :
    DiffersAt (name :: names) (dir entries) (dir (setEntry name e' entries)) := by
  obtain ⟨n, names, rfl⟩ := List.exists_cons_of_ne_nil hne
  exact .inside hentry (by rw [lookup_setEntry, if_pos rfl]) h
    (fun n hn => by rw [lookup_setEntry, if_neg hn]) (map_fst_setEntry (by simp [hentry])).symm

theorem differsAt_put {dir : List String} {content : ByteArray}
    (hdir : (root.find? dir).any isDir = true)
    (hfile : (root.find? (dir ++ [name])).any isDir = false) :
    DiffersAt (dir ++ [name]) root (root.put (dir ++ [name]) (.file content)) := by
  induction dir generalizing root with
  | nil =>
    rcases root with _ | entries
    · cases hdir
    · refine .here ?_ (by rw [lookup_setEntry, if_pos rfl]; rfl)
        fun n hn => by rw [lookup_setEntry, if_neg hn]
      rwa [List.nil_append, find?, bind_find?_nil] at hfile
  | cons n dir ih =>
    rcases root with _ | entries
    · cases hdir
    · rcases hentry : entries.lookup n with _ | e
      · rw [find?, hentry] at hdir
        cases hdir
      · rw [find?, hentry] at hdir
        rw [List.cons_append, find?, hentry] at hfile
        rw [List.cons_append, put, hentry, Option.getD_some]
        exact (ih hdir hfile).setEntry (by simp) hentry

theorem differsAt_erase (h : (root.find? names).any isDir = false) :
    DiffersAt names root (root.erase names) := by
  fun_induction erase names root with
  | case1 name entries =>
    refine .here ?_ (by rw [lookup_filter_ne, if_pos rfl]; rfl)
      fun n hn => by rw [lookup_filter_ne, if_neg hn]
    rwa [find?, bind_find?_nil] at h
  | case2 name entries names hne e hentry ih =>
    rw [find?, hentry] at h
    exact (ih h).setEntry (by simpa using hne) hentry
  | case3 => exact .same h
  | case4 => exact .same h

theorem find?_append (xs ys : List String) :
    root.find? (xs ++ ys) = (root.find? xs).bind (find? ys) := by
  induction xs generalizing root with
  | nil => rfl
  | cons n xs ih =>
    rcases root with _ | entries
    · rfl
    · rw [List.cons_append, find?, find?, Option.bind_assoc]
      exact congrArg _ (funext fun e => ih)

theorem isDirAt_iff {place : List String} :
    root.IsDirAt place ↔ (root.find? place.reverse).any isDir = true := by
  rw [IsDirAt]
  rcases root.find? place.reverse with _ | (content | entries)
  · simp
  · simp [isDir]
  · simp [isDir]

theorem isDirAt_congr {place : List String} (h : DiffersAt names root root') :
    root.IsDirAt place ↔ root'.IsDirAt place := by
  rw [isDirAt_iff, isDirAt_iff, h.isDir_find?]

end Entry

/-! ## Finding directories -/

namespace FileSystem

open Path

variable {fs fs' : FileSystem} {root root' : Entry} {names place place' ss : List String}
  {p dir : String}

/-- A way to a directory is not lost by a change of one file. -/
theorem follow_of_differsAt (h : root.DiffersAt names root') (hdir : root.IsDirAt place')
    (hfollow : follow root place ss = .ok place') : follow root' place ss = .ok place' := by
  induction ss generalizing place with
  | nil => exact hfollow
  | cons s ss ih =>
    obtain ⟨entries, hfind⟩ := isDirAt_of_follow_cons hfollow
    obtain ⟨entries', hfind'⟩ := (Entry.isDirAt_congr h).1 ⟨entries, hfind⟩
    rw [follow_cons hfind] at hfollow
    rw [follow_cons hfind']
    split_ifs at hfollow ⊢ with hidle hup hlong hthere hthere'
    · exact ih hfollow
    · exact ih hfollow
    · exact ih hfollow
    · -- what is entered after the stretch is a directory in both trees
      obtain ⟨inner, hinner⟩ := (Entry.isDirAt_congr h).1 (isDirAt_of_follow hdir hfollow)
      rw [List.reverse_cons, Entry.find?_append, hfind', Option.bind_some, Entry.find?] at hinner
      rcases hlookup : entries'.lookup s with _ | e
      · rw [hlookup] at hinner
        cases hinner
      · exact hthere (by rw [hlookup]; rfl)

/-- A slash at the end asks for a directory. -/
theorem isDirAt_of_follow_slash (h : follow root place (ss ++ [""]) = .ok place') :
    root.IsDirAt place' := by
  rw [follow_append] at h
  rcases hfollow : follow root place ss with fault | last
  · rw [hfollow] at h
    cases h
  · rw [hfollow] at h
    obtain rfl := place_of_follow h
    exact isDirAt_of_follow_cons h

theorem isDir_of_site? {path : String} {site : Site} (h : fs.site? path = .ok (some site)) :
    (fs.root.find? site.dir).any Entry.isDir = true := by
  rcases hstretches : fs.stretchesOf path with fault | stretches
  · simp [site?, hstretches, bind, Except.bind] at h
  · rw [site?, hstretches] at h
    simp only [bind, Except.bind] at h
    split at h
    · cases h
    · split at h
      · cases h
      · next place hfollow =>
        split_ifs at h
        · cases h
        · cases h
          exact Entry.isDirAt_iff.1 (isDirAt_of_follow_slash hfollow)

theorem leadsTo_of_differsAt (hp : isAbsolute p = true) (h : fs.root.DiffersAt names fs'.root)
    (hleads : fs.LeadsTo p place) : fs'.LeadsTo p place := by
  obtain ⟨hnul, hfollow⟩ := (locate_eq_ok_iff hp).1 hleads.locate
  exact ⟨(locate_eq_ok_iff hp).2 ⟨hnul, follow_of_differsAt h hleads.isDir hfollow⟩,
    (Entry.isDirAt_congr h).1 hleads.isDir⟩

/-! ## Seeing a directory -/

theorem isDir_eq (p : String) : fs.isDir p = (fs.entry p).toOption.any Entry.isDir := by
  rw [isDir]
  rcases fs.entry p <;> rfl

theorem toOption_list (p : String) :
    (fs.list p).toOption = (fs.entry p).toOption.bind Entry.names? := by
  rw [list]
  rcases fs.entry p with _ | (_ | _) <;> rfl

theorem text?_eq (p : String) :
    fs.text? p = ((fs.entry p).toOption.bind Entry.content?).bind String.fromUTF8? := by
  rw [text?, read]
  rcases fs.entry p with _ | (_ | _) <;> rfl

theorem toOption_entry (p : String) :
    (fs.entry p).toOption = (fs.locate p).toOption.bind (Entry.find? · fs.root) := by
  rw [entry]
  rcases fs.locate p with fault | names
  · rfl
  · rcases hfind : fs.root.find? names with _ | e
    · simp [hfind, bind, Except.bind, throw, throwThe, MonadExceptOf.throw, Except.toOption]
    · simp [hfind, bind, Except.bind, pure, Except.pure, Except.toOption]

theorem exists_leadsTo_of_list {listed : List String} (h : fs.list p = .ok listed) :
    ∃ place, fs.LeadsTo p place := by
  have hlist : (fs.list p).toOption = _ := toOption_list p
  rw [h, toOption_entry] at hlist
  rcases hlocate : fs.locate p with fault | names
  · rw [hlocate] at hlist
    cases hlist
  · rw [hlocate] at hlist
    rcases hfind : fs.root.find? names with _ | (_ | entries)
    · simp [Except.toOption, hfind] at hlist
    · simp [Except.toOption, hfind, Entry.names?] at hlist
    · exact ⟨names.reverse, by rw [hlocate, List.reverse_reverse], entries,
        by rw [List.reverse_reverse, hfind]⟩

theorem LeadsTo.toOption_entry (h : fs.LeadsTo p place) :
    (fs.entry p).toOption = fs.root.find? place.reverse := by
  rw [FileSystem.toOption_entry, h.locate]
  rfl

theorem LeadsTo.toOption_entry_join {name : String} (hp : isAbsolute p = true)
    (h : fs.LeadsTo p place) (hname : IsName name) : (fs.entry (join p name)).toOption
      = if nul ∈ name.toList ∨ nameLimit < name.utf8ByteSize then none
        else fs.root.find? (place.reverse ++ [name]) := by
  obtain ⟨entries, hfind⟩ := h.isDir
  obtain ⟨hidle, hup, hslash⟩ := hname
  rw [FileSystem.toOption_entry, h.locate_join hp (isAbsolute_of_noSlash hslash),
    stretches_of_noSlash hslash, follow_cons hfind, Entry.find?_append, hfind, Option.bind_some,
    Entry.find?]
  by_cases hnul : nul ∈ name.toList
  · simp [hnul, Except.toOption]
  · by_cases hlong : nameLimit < name.utf8ByteSize
    · simp [hnul, hlong, hidle, hup, Except.toOption, Except.map]
    · rcases hlookup : entries.lookup name with _ | e
      · simp [hnul, hlong, hidle, hup, Except.toOption, Except.map]
      · simp [hnul, hlong, hidle, hup, hlookup, Except.toOption, Except.map, follow,
          Entry.find?_append, hfind, Entry.find?]

theorem seenAs_of_differsAt (hdir : isAbsolute dir = true) (h : fs.root.DiffersAt names fs'.root)
    (hnames : ∀ listed, fs.list dir = .ok listed → ∀ n ∈ listed, IsName n)
    (hout : ∀ place, fs.LeadsTo dir place → place.reverse ≠ names.dropLast) :
    fs.SeenAs dir fs' dir := by
  by_cases hleads : ∃ place, fs.LeadsTo dir place
  · obtain ⟨place, hleads⟩ := hleads
    have hleads' := leadsTo_of_differsAt hdir h hleads
    have hne name : place.reverse ++ [name] ≠ names := fun heq =>
      hout place hleads (by rw [← heq, List.dropLast_concat])
    refine ⟨?_, fun listed hlist n hn => ?_, fun listed hlist n hn => ?_⟩
    · rw [toOption_list, toOption_list, hleads.toOption_entry, hleads'.toOption_entry,
        h.names?_find? _ (hout place hleads)]
    · rw [isDir_eq, isDir_eq, hleads.toOption_entry_join hdir (hnames listed hlist n hn),
        hleads'.toOption_entry_join hdir (hnames listed hlist n hn)]
      split_ifs
      · rfl
      · exact h.isDir_find? _
    · rw [text?_eq, text?_eq, hleads.toOption_entry_join hdir (hnames listed hlist n hn),
        hleads'.toOption_entry_join hdir (hnames listed hlist n hn)]
      split_ifs
      · rfl
      · rw [h.content?_find? _ (hne n)]
  · have hnone {fs : FileSystem} (hnowhere : ¬ ∃ place, fs.LeadsTo dir place) :
        (fs.list dir).toOption = none := by
      rcases hlist : fs.list dir with fault | listed
      · rfl
      · exact absurd (exists_leadsTo_of_list hlist) hnowhere
    have hleads' : ¬ ∃ place, fs'.LeadsTo dir place := fun ⟨place, hplace⟩ =>
      hleads ⟨place, leadsTo_of_differsAt hdir h.symm hplace⟩
    exact ⟨(hnone hleads).trans (hnone hleads').symm,
      fun _ hlist => absurd (exists_leadsTo_of_list hlist) hleads,
      fun _ hlist => absurd (exists_leadsTo_of_list hlist) hleads⟩

/-! ## Runs of changes -/

/-- One file is written or removed, which lies or lay at the place. -/
inductive ChangesFile (fs : FileSystem) : List String → FileSystem → Prop
  | write {path : String} {content : ByteArray} {site : Site} {fs' : FileSystem}
      (goes : fs.site? path = .ok (some site)) (written : fs.writeFile path content = .ok fs') :
      ChangesFile fs (site.dir ++ [site.name]) fs'
  | remove {path : String} {names : List String} {fs' : FileSystem}
      (leads : fs.locate path = .ok names) (removed : fs.removeFile path = .ok fs') :
      ChangesFile fs names fs'

theorem ChangesFile.differsAt (h : fs.ChangesFile names fs') :
    fs.root.DiffersAt names fs'.root := by
  cases h with
  | @write path content site _ goes written =>
    have hsite := isDir_of_site? goes
    rw [writeFile, goes] at written
    change (if site.slash = true then _ else _) = _ at written
    split_ifs at written with hslash hlong hthere
    cases written
    exact Entry.differsAt_put hsite (Bool.eq_false_iff.2 hthere)
  | @remove path _ _ leads removed =>
    have hfind : fs.isDir path = (fs.root.find? names).any Entry.isDir := by
      rw [isDir_eq, FileSystem.toOption_entry, leads]
      rfl
    rw [removeFile, leads] at removed
    change (if fs.isDir path = true then _ else _) = _ at removed
    split_ifs at removed with hdir
    · cases removed
    · obtain rfl := Except.ok.inj removed
      exact Entry.differsAt_erase (by simpa [hfind] using hdir)

/-- One file is written or removed that lies in none of the directories. -/
def ChangesOutside (dirs : Set String) (fs fs' : FileSystem) : Prop :=
  ∃ names, fs.ChangesFile names fs' ∧
    ∀ dir ∈ dirs, ∀ place, fs.LeadsTo dir place → place.reverse ≠ names.dropLast

/-- Directories hold names only. -/
def WellNamed (fs : FileSystem) : Prop :=
  ∀ dir listed, fs.list dir = .ok listed → ∀ n ∈ listed, IsName n

/-- However many files change, a directory that none of them lies in is seen as before. -/
theorem seenAs_of_changesOutside {dirs : Set String} (hdir : dir ∈ dirs)
    (habs : isAbsolute dir = true) (hnames : fs.WellNamed)
    (h : Relation.ReflTransGen (ChangesOutside dirs) fs fs') : fs.SeenAs dir fs' dir := by
  induction h with
  | refl => exact .refl
  | tail _ hstep ih =>
    obtain ⟨names, hchanges, hout⟩ := hstep
    exact ih.trans (seenAs_of_differsAt habs hchanges.differsAt
      (fun listed hlist => hnames dir listed (ih.symm.list_eq hlist)) (hout dir hdir))

end FileSystem

end GoIface
