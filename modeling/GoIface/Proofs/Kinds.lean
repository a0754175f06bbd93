import Mathlib.Data.List.Nodup
import GoIface.Proofs.FileChanges

/-!
# What stands at a place

A place is empty or holds a directory or a file. That is all that paths are followed by and all that
is read of a file, so file systems with the same at every place answer alike, in whatever order
they list their directories (`locate_congr`, `isDir_congr`, `text?_congr`).
-/

namespace GoIface

theorem toOption_eq_some_iff {ε α : Type} {x : Except ε α} {a : α} :
    x.toOption = some a ↔ x = .ok a := by
  cases x <;> simp [Except.toOption]

/-- What an entry is, but for what a directory holds. -/
inductive EntryKind where
  | dir
  | file (content : ByteArray)

def EntryKind.content? : EntryKind → Option ByteArray
  | dir => none
  | file content => some content

namespace Entry

variable {root : Entry} {names : List String} {entries : List (String × Entry)}

def kind : Entry → EntryKind
  | dir _ => .dir
  | file content => .file content

@[simp] theorem content?_kind (e : Entry) : e.kind.content? = e.content? := by
  cases e <;> rfl

theorem kind_eq_dir_iff (e : Entry) : e.kind = .dir ↔ e.isDir = true := by
  cases e <;> simp [kind, isDir]

def kindAt (root : Entry) (names : List String) : Option EntryKind := (root.find? names).map kind

theorem kindAt_eq_dir_iff :
    root.kindAt names = some .dir ↔ ∃ entries, root.find? names = some (dir entries) := by
  rw [kindAt]
  rcases root.find? names with _ | (content | entries) <;> simp [kind]

theorem isDirAt_iff_kindAt {place : List String} :
    root.IsDirAt place ↔ root.kindAt place.reverse = some .dir :=
  kindAt_eq_dir_iff.symm

/-- What a directory holds under a name. -/
theorem kindAt_concat (h : root.find? names = some (dir entries)) (name : String) :
    root.kindAt (names ++ [name]) = (entries.lookup name).map kind := by
  rw [kindAt, find?_append, h, Option.bind_some, find?]
  rcases entries.lookup name <;> rfl

theorem mem_names_iff (h : root.find? names = some (dir entries)) (name : String) :
    name ∈ entries.map (·.1) ↔ root.kindAt (names ++ [name]) ≠ none := by
  rw [kindAt_concat h, ne_eq, Option.map_eq_none_iff, List.lookup_eq_none_iff, not_forall]
  simp only [List.mem_map, bne_iff_ne, ne_eq, Classical.not_imp, not_not,
    eq_comm (a := name)]

/-! ## Names in directories -/

open Path

/-- Every directory holds names, and none of them twice. -/
def Proper (root : Entry) : Prop :=
  ∀ names entries, root.find? names = some (dir entries) →
    (entries.map (·.1)).Nodup ∧ ∀ name ∈ entries.map (·.1), IsName name

variable {e : Entry} {name : String}

theorem proper_file (content : ByteArray) : (file content).Proper := by
  rintro (_ | ⟨name, names⟩) entries hfind
  · cases hfind
  · cases hfind

theorem proper_dir (hnodup : (entries.map (·.1)).Nodup)
    (hnames : ∀ name ∈ entries.map (·.1), IsName name)
    (hentries : ∀ entry ∈ entries, entry.2.Proper) : (dir entries).Proper := by
  rintro (_ | ⟨name, names⟩) inner hfind
  · obtain rfl : entries = inner := by simpa [find?] using hfind
    exact ⟨hnodup, hnames⟩
  · rw [find?] at hfind
    rcases hlookup : entries.lookup name with _ | e
    · rw [hlookup] at hfind
      cases hfind
    · rw [hlookup] at hfind
      obtain ⟨before, after, rfl, -⟩ := List.lookup_eq_some_iff.1 hlookup
      exact hentries (name, e) (by simp) names inner hfind

theorem proper_empty : (dir []).Proper := proper_dir List.nodup_nil (by simp) (by simp)

theorem Proper.of_lookup (h : (dir entries).Proper) (he : entries.lookup name = some e) :
    e.Proper := by
  refine fun names inner hfind => h (name :: names) inner ?_
  rw [find?, he]
  exact hfind

theorem map_fst_setEntry_of_none (h : entries.lookup name = none) :
    (setEntry name e entries).map (·.1) = entries.map (·.1) ++ [name] := by
  induction entries with
  | nil => rfl
  | cons entry entries ih =>
    obtain ⟨m, old⟩ := entry
    rw [lookup_cons_eq] at h
    split_ifs at h with hm
    rw [setEntry, if_neg (Ne.symm hm), List.map_cons, ih h, List.map_cons, List.cons_append]

theorem Proper.setEntry (h : (dir entries).Proper) (hname : IsName name) (he : e.Proper) :
    (dir (setEntry name e entries)).Proper := by
  obtain ⟨hnodup, hnames⟩ := h [] entries rfl
  rintro (_ | ⟨n, names⟩) inner hfind
  · obtain rfl : Entry.setEntry name e entries = inner := by simpa [find?] using hfind
    rcases hlookup : entries.lookup name with _ | old
    · rw [map_fst_setEntry_of_none hlookup, List.nodup_append_comm]
      refine ⟨List.nodup_cons.2 ⟨fun hin => ?_, hnodup⟩, ?_⟩
      · obtain ⟨entry, hentry, heq⟩ := List.mem_map.1 hin
        exact absurd heq.symm (by simpa using List.lookup_eq_none_iff.1 hlookup entry hentry)
      · simpa [or_imp, forall_and, hname] using hnames
    · rw [map_fst_setEntry (by simp [hlookup])]
      exact ⟨hnodup, hnames⟩
  · rw [find?, lookup_setEntry] at hfind
    split_ifs at hfind
    · exact he names inner hfind
    · exact h (n :: names) inner hfind

theorem Proper.put (h : root.Proper) (hnames : ∀ name ∈ names, IsName name) (he : e.Proper) :
    (root.put names e).Proper := by
  induction names generalizing root with
  | nil => exact he
  | cons name names ih =>
    obtain ⟨hname, hnames⟩ := List.forall_mem_cons.1 hnames
    rcases root with content | entries
    · exact h
    · refine h.setEntry hname (ih ?_ hnames)
      rcases hlookup : entries.lookup name with _ | old
      · exact proper_empty
      · exact h.of_lookup hlookup

end Entry

namespace FileSystem

open Path

variable {fs fs' : FileSystem} {root root' : Entry} {place : List String}

theorem follow_of_isDirAt (h : root.kindAt place.reverse = some .dir) (s : String)
    (ss : List String) : follow root place (s :: ss) =
      if isIdle s then follow root place ss
      else if s == ".." then follow root place.tail ss
      else if nameLimit < s.utf8ByteSize then .error .nameTooLong
      else if root.kindAt (s :: place).reverse = none then .error .missing
      else follow root (s :: place) ss := by
  obtain ⟨entries, hfind⟩ := Entry.kindAt_eq_dir_iff.1 h
  rw [follow_cons hfind, List.reverse_cons, Entry.kindAt_concat hfind]
  rcases entries.lookup s <;> simp

theorem follow_of_not_isDirAt (h : root.kindAt place.reverse ≠ some .dir) (s : String)
    (ss : List String) : follow root place (s :: ss) = .error .notDirectory := by
  rw [follow]
  split
  · next entries hfind => exact absurd (Entry.kindAt_eq_dir_iff.2 ⟨entries, hfind⟩) h
  · rfl

theorem follow_congr (h : ∀ names, root'.kindAt names = root.kindAt names)
    (place ss : List String) : follow root' place ss = follow root place ss := by
  induction ss generalizing place with
  | nil => rfl
  | cons s ss ih =>
    by_cases hdir : root.kindAt place.reverse = some .dir
    · rw [follow_of_isDirAt hdir, follow_of_isDirAt ((h _).trans hdir), h, ih, ih, ih]
    · rw [follow_of_not_isDirAt hdir, follow_of_not_isDirAt (by rwa [h])]

/-- What a path leads to. -/
def kind? (fs : FileSystem) (path : String) : Option EntryKind :=
  (fs.locate path).toOption.bind fs.root.kindAt

theorem map_kind_entry (path : String) :
    (fs.entry path).toOption.map Entry.kind = fs.kind? path := by
  rw [toOption_entry, kind?, Option.map_bind]
  rfl

theorem isDir_iff_kind? {path : String} : fs.isDir path = true ↔ fs.kind? path = some .dir := by
  rw [isDir_eq, ← map_kind_entry]
  rcases (fs.entry path).toOption with _ | e
  · simp
  · simp [Entry.kind_eq_dir_iff]

theorem text?_eq_kind? (path : String) :
    fs.text? path = ((fs.kind? path).bind EntryKind.content?).bind String.fromUTF8? := by
  rw [text?_eq, ← map_kind_entry, Option.bind_map]
  simp [Function.comp_def]

/-- The same stands at every place. -/
structure SameKinds (fs fs' : FileSystem) : Prop where
  cwd : fs'.cwd = fs.cwd
  kindAt (names : List String) : fs'.root.kindAt names = fs.root.kindAt names

namespace SameKinds

variable (h : fs.SameKinds fs') (path : String)

include h

theorem locate : fs'.locate path = fs.locate path := by
  rw [FileSystem.locate, FileSystem.locate, stretchesOf, stretchesOf, h.cwd]
  simp only [follow_congr h.kindAt]

theorem kind? : fs'.kind? path = fs.kind? path := by
  rw [FileSystem.kind?, FileSystem.kind?, h.locate]
  exact congrArg _ (funext h.kindAt)

theorem isDir : fs'.isDir path = fs.isDir path := by
  rw [Bool.eq_iff_iff, isDir_iff_kind?, isDir_iff_kind?, h.kind?]

theorem text? : fs'.text? path = fs.text? path := by
  rw [text?_eq_kind?, text?_eq_kind?, h.kind?]

end SameKinds

theorem list_eq_ok_iff {path : String} {listed : List String} : fs.list path = .ok listed ↔
    ∃ names entries, fs.locate path = .ok names ∧ fs.root.find? names = some (.dir entries) ∧
      listed = entries.map (·.1) := by
  rw [← toOption_eq_some_iff, toOption_list, toOption_entry]
  simp only [Option.bind_eq_some_iff, toOption_eq_some_iff]
  constructor
  · rintro ⟨_ | entries, ⟨names, hlocate, hfind⟩, hnames⟩
    · cases hnames
    · exact ⟨names, entries, hlocate, hfind, (Option.some.inj hnames).symm⟩
  · rintro ⟨names, entries, hlocate, hfind, rfl⟩
    exact ⟨.dir entries, ⟨names, hlocate, hfind⟩, rfl⟩

theorem SameKinds.list {path : String} {listed : List String} (h : fs.SameKinds fs')
    (hlist : fs.list path = .ok listed) : ∃ listed', fs'.list path = .ok listed' ∧
      ∀ name, name ∈ listed' ↔ name ∈ listed := by
  obtain ⟨names, entries, hlocate, hfind, rfl⟩ := list_eq_ok_iff.1 hlist
  obtain ⟨entries', hfind'⟩ := Entry.kindAt_eq_dir_iff.1
    ((h.kindAt names).trans (Entry.kindAt_eq_dir_iff.2 ⟨entries, hfind⟩))
  refine ⟨_, list_eq_ok_iff.2 ⟨names, entries', (h.locate path).trans hlocate, hfind', rfl⟩,
    fun name => ?_⟩
  rw [Entry.mem_names_iff hfind', Entry.mem_names_iff hfind, h.kindAt]

end FileSystem

end GoIface
