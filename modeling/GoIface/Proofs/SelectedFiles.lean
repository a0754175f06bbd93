import GoIface.Files.Resolution
import GoIface.Proofs.EnclosingModules
import GoIface.Proofs.PackageClauses

/-!
# Files of a package directory

An entry is selected by its name and the host unless it is a directory, and the selected files that
are text and not marked as ignored make up the package. They are listed in the order of their names
if all selected ones are text, and not at all otherwise (`toOption_on_goFiles`). So the package of a
directory is that of the first of them that tells one (`on_packageInDir_eq_some_iff`), and it
depends on nothing but what is seen of the directory (`on_packageInDir_congr`).
-/

namespace GoIface

open Path

variable {fs fs' : FileSystem}

/-! ## Filtering -/

section

variable {α β : Type}

theorem Extract.toOption_on_bind (x : Extract α) (f : α → Extract β) :
    ((x >>= f).run.on fs).toOption
      = (x.run.on fs).toOption.bind fun a => ((f a).run.on fs).toOption := by
  rw [ExceptT.run_bind, Reading.on_bind]
  rcases x.run.on fs with e | a <;> rfl

theorem Extract.toOption_on_pure (a : α) :
    ((pure a : Extract α).run.on fs).toOption = some a := rfl

theorem Extract.on_lift (r : Reading α) : (liftM r : Extract α).run.on fs = .ok (r.on fs) :=
  Reading.on_bind fs r _

theorem toOption_on_filterAuxM (f : α → Extract Bool) (as acc : List α) :
    ((List.filterAuxM f as acc).run.on fs).toOption =
      if ∀ a ∈ as, ((f a).run.on fs).toOption.isSome then
        some ((as.filter fun a => ((f a).run.on fs).toOption = some true).reverse ++ acc)
      else none := by
  induction as generalizing acc with
  | nil => rfl
  | cons a as ih =>
    rw [List.filterAuxM, Extract.toOption_on_bind]
    rcases hf : ((f a).run.on fs).toOption with _ | b
    · simp [hf]
    · rw [Option.bind_some, ih]
      cases b <;> simp [hf]

theorem toOption_on_filterM (f : α → Extract Bool) (as : List α) :
    ((as.filterM f).run.on fs).toOption =
      if ∀ a ∈ as, ((f a).run.on fs).toOption.isSome then
        some (as.filter fun a => ((f a).run.on fs).toOption = some true)
      else none := by
  rw [List.filterM, Extract.toOption_on_bind, toOption_on_filterAuxM]
  split_ifs
  · rw [List.append_nil, Option.bind_some, Extract.toOption_on_pure, List.reverse_reverse]
  · rfl

end

/-! ## Selecting -/

namespace FileSystem

variable (fs) (host : Platform) (dir : String)

/-- The entry of a name is read for the package. -/
def Selects (name : String) : Prop :=
  isSourceName name = true ∧ host.accepts name = true ∧ fs.isDir (join dir name) = false

instance : DecidablePred (fs.Selects host dir) := fun _ => instDecidableAnd

/-- The file of a name belongs to the package. -/
def Builds (name : String) : Prop :=
  fs.Selects host dir name ∧ ∃ text ∈ fs.text? (join dir name), isIgnored text = false

instance : DecidablePred (fs.Builds host dir) := fun _ => instDecidableAnd

/-- Every selected file is text. -/
def AllText (names : List String) : Prop :=
  ∀ name ∈ names, fs.Selects host dir name → (fs.text? (join dir name)).isSome

instance : DecidablePred (fs.AllText host dir) := fun names =>
  inferInstanceAs (Decidable (∀ name ∈ names, _ → _))

end FileSystem

variable {host : Platform} {dir dir' : String}

theorem toOption_on_readText (path : String) :
    ((Extract.readText path).run.on fs).toOption = fs.text? path := by
  rw [Extract.readText, ← Reading.toOption_on_readText, Extract.toOption_on_bind, Extract.on_lift]
  rcases (Reading.readText path).on fs with fault | text <;> rfl

theorem toOption_on_belongs (name : String) : ((belongs host dir name).run.on fs).toOption
    = if fs.Selects host dir name then (fs.text? (join dir name)).map (!isIgnored ·)
      else some false := by
  simp only [belongs]
  by_cases hname : (!isSourceName name || !host.accepts name) = true
  · have hnot : ¬ fs.Selects host dir name := fun ⟨hsource, haccepts, _⟩ => by
      simp [hsource, haccepts] at hname
    rw [if_pos hname, if_neg hnot]
    rfl
  · rw [if_neg hname, Extract.toOption_on_bind, Extract.on_lift, Reading.on_isDir]
    rcases hdir : fs.isDir (join dir name) with _ | _
    · have hselects : fs.Selects host dir name := ⟨by simp_all, by simp_all, hdir⟩
      rw [if_pos hselects, ← toOption_on_readText]
      show ((Extract.readText (join dir name) >>= _ : Extract Bool).run.on fs).toOption = _
      rw [Extract.toOption_on_bind, Option.map_eq_bind]
      rfl
    · have hnot : ¬ fs.Selects host dir name := fun ⟨_, _, hfile⟩ => by simp [hdir] at hfile
      rw [if_neg hnot]
      rfl

theorem toOption_on_goFiles : ((goFiles host dir).run.on fs).toOption
    = (fs.list dir).toOption.bind fun names =>
      if fs.AllText host dir names then
        some (((names.filter (fs.Builds host dir ·)).mergeSort fun a b => decide (a ≤ b)).map
          (join dir))
      else none := by
  have hkept name : ((belongs host dir name).run.on fs).toOption = some true ↔
      fs.Builds host dir name := by
    rw [toOption_on_belongs, FileSystem.Builds]
    split_ifs with hselects
    · simp [hselects, Option.map_eq_some_iff]
    · simp [hselects]
  have hall names : (∀ name ∈ names, ((belongs host dir name).run.on fs).toOption.isSome) ↔
      fs.AllText host dir names := by
    refine forall₂_congr fun name _ => ?_
    rw [toOption_on_belongs]
    split_ifs with hselects
    · simp [hselects]
    · simp [hselects]
  rw [goFiles, Extract.toOption_on_bind, Extract.on_lift, Reading.on_list]
  show Option.bind (some (fs.list dir)) _ = _
  rw [Option.bind_some]
  rcases fs.list dir with fault | names
  · rfl
  · show ((names.filterM (belongs host dir) >>= _ : Extract (List String)).run.on fs).toOption = _
    rw [Extract.toOption_on_bind, toOption_on_filterM]
    simp only [hkept, hall]
    show _ = if fs.AllText host dir names then _ else _
    split_ifs <;> rfl

/-! ## The package of a directory -/

section

variable {β : Type} {f : String → Option β} {l : List String} {b : β}
  (hl : l.Pairwise (· ≤ ·))

include hl

theorem exists_least_of_findSome? (h : l.findSome? f = some b) :
    ∃ a ∈ l, f a = some b ∧ ∀ c ∈ l, (f c).isSome → a ≤ c := by
  obtain ⟨before, a, after, rfl, ha, hbefore⟩ := List.findSome?_eq_some_iff.1 h
  refine ⟨a, by simp, ha, fun c hc htold => ?_⟩
  rw [List.pairwise_append, List.pairwise_cons] at hl
  rw [List.mem_append, List.mem_cons] at hc
  rcases hc with hc | rfl | hc
  · simp [hbefore c hc] at htold
  · exact String.le_refl _
  · exact hl.2.1.1 c hc

/-- The first of an ascending list of which something is told is the least of these. -/
theorem findSome?_eq_some_iff_least : l.findSome? f = some b ↔
    ∃ a ∈ l, f a = some b ∧ ∀ c ∈ l, (f c).isSome → a ≤ c := by
  refine ⟨exists_least_of_findSome? hl, fun ⟨a, ha, htold, hleast⟩ => ?_⟩
  rcases h : l.findSome? f with _ | b'
  · rw [List.findSome?_eq_none_iff.1 h a ha] at htold
    cases htold
  · obtain ⟨a', ha', htold', hleast'⟩ := exists_least_of_findSome? hl h
    obtain rfl := String.le_antisymm (hleast a' ha' (by simp [htold']))
      (hleast' a ha (by simp [htold]))
    exact htold'.symm.trans htold

end

namespace FileSystem

/-- The package that the text of a file tells. -/
def packageName? (fs : FileSystem) (path : String) : Option String :=
  (fs.text? path).bind packageNameOf

/-- The file is text that begins, after blanks and comments, with `package` and this name. -/
def Tells (fs : FileSystem) (path package : String) : Prop :=
  ∃ text ∈ fs.text? path, (lex text)[0]?.map Lexeme.token = some (.keyword .packageKw) ∧
    (lex text)[1]?.map Lexeme.token = some (.ident package)

theorem tells_iff {path package : String} :
    fs.Tells path package ↔ fs.packageName? path = some package := by
  simp only [Tells, packageName?, Option.bind_eq_some_iff, packageNameOf_eq_some_iff,
    Option.mem_def]

/-- The directory can be listed, every selected file in it is text, and the first file of the
package, in the order of their names, that tells a package tells this one. -/
def Declares (fs : FileSystem) (host : Platform) (dir package : String) : Prop :=
  ∃ names, fs.list dir = .ok names ∧ fs.AllText host dir names ∧
    ∃ name ∈ names, fs.Builds host dir name ∧ fs.Tells (join dir name) package ∧
      ∀ other ∈ names, fs.Builds host dir other → ∀ p, fs.Tells (join dir other) p → name ≤ other

end FileSystem

theorem on_packageOfFile (path : String) :
    (packageOfFile path).on fs = fs.packageName? path := by
  rw [packageOfFile, FileSystem.packageName?, ← Reading.toOption_on_readText, Reading.on_bind]
  rcases (Reading.readText path).on fs with fault | text <;> rfl

theorem on_packageInDir_eq_some_iff {package : String} :
    (packageInDir host dir).on fs = some package ↔ fs.Declares host dir package := by
  have hsorted (names : List String) :
      (names.mergeSort fun a b => decide (a ≤ b)).Pairwise (· ≤ ·) :=
    (List.pairwise_mergeSort (fun a b c hab hbc => by
      simpa using String.le_trans (by simpa using hab) (by simpa using hbc))
      (fun a b => by simpa using String.le_total a b) names).imp (by simp)
  have hfiles : (packageInDir host dir).on fs = ((goFiles host dir).run.on fs).toOption.bind
      fun files => files.findSome? fs.packageName? := by
    rw [packageInDir, Reading.on_bind]
    rcases (goFiles host dir).run.on fs with e | files
    · rfl
    · simp [Except.toOption, on_packageOfFile]
  rw [hfiles, toOption_on_goFiles, FileSystem.Declares]
  rcases fs.list dir with fault | names
  · simp [Except.toOption]
  show Option.bind (if fs.AllText host dir names then some _ else none) _ = _ ↔ _
  by_cases hall : fs.AllText host dir names
  · rw [if_pos hall, Option.bind_some, List.findSome?_map,
      findSome?_eq_some_iff_least (hsorted _)]
    simp [hall, and_assoc, FileSystem.tells_iff, Option.isSome_iff_exists]
  · rw [if_neg hall]
    simp [hall]

/-! ## What is seen of a directory -/

/-- A directory that is seen as another one: both have the same entries, of which the same are
directories and the same are text. -/
structure FileSystem.SeenAs (fs : FileSystem) (dir : String) (fs' : FileSystem) (dir' : String) :
    Prop where
  list : (fs.list dir).toOption = (fs'.list dir').toOption
  isDir : ∀ names, fs.list dir = .ok names → ∀ name ∈ names,
    fs.isDir (join dir name) = fs'.isDir (join dir' name)
  text : ∀ names, fs.list dir = .ok names → ∀ name ∈ names,
    fs.text? (join dir name) = fs'.text? (join dir' name)

theorem FileSystem.SeenAs.list_eq {names : List String} (h : fs.SeenAs dir fs' dir')
    (hlist : fs.list dir = .ok names) : fs'.list dir' = .ok names := by
  have hlists := h.list
  rw [hlist] at hlists
  rcases hlist' : fs'.list dir' with fault | names'
  · rw [hlist'] at hlists
    cases hlists
  · rw [hlist'] at hlists
    exact congrArg Except.ok (Option.some.inj hlists).symm

theorem FileSystem.SeenAs.symm (h : fs.SeenAs dir fs' dir') : fs'.SeenAs dir' fs dir := by
  have hback names (hlist : fs'.list dir' = .ok names) : fs.list dir = .ok names := by
    rcases hfs : fs.list dir with fault | names'
    · have hlists := h.list
      rw [hlist, hfs] at hlists
      cases hlists
    · rw [← hlist, h.list_eq hfs]
  exact ⟨h.list.symm,
    fun names hlist name hname => (h.isDir names (hback names hlist) name hname).symm,
    fun names hlist name hname => (h.text names (hback names hlist) name hname).symm⟩

theorem FileSystem.SeenAs.refl : fs.SeenAs dir fs dir :=
  ⟨rfl, fun _ _ _ _ => rfl, fun _ _ _ _ => rfl⟩

theorem FileSystem.SeenAs.trans {fs'' : FileSystem} {dir'' : String} (h : fs.SeenAs dir fs' dir')
    (h' : fs'.SeenAs dir' fs'' dir'') : fs.SeenAs dir fs'' dir'' :=
  ⟨h.list.trans h'.list,
    fun names hlist name hname => (h.isDir names hlist name hname).trans
      (h'.isDir names (h.list_eq hlist) name hname),
    fun names hlist name hname => (h.text names hlist name hname).trans
      (h'.text names (h.list_eq hlist) name hname)⟩

theorem FileSystem.Declares.of_seenAs {package : String} (h : fs.SeenAs dir fs' dir')
    (hdeclares : fs.Declares host dir package) : fs'.Declares host dir' package := by
  obtain ⟨names, hlist, hall, name, hname, hbuilds, hpackage, hleast⟩ := hdeclares
  have htext n (hn : n ∈ names) := h.text names hlist n hn
  have hselects n (hn : n ∈ names) : fs.Selects host dir n ↔ fs'.Selects host dir' n := by
    rw [Selects, Selects, h.isDir names hlist n hn]
  have hbuild n (hn : n ∈ names) : fs.Builds host dir n ↔ fs'.Builds host dir' n := by
    rw [Builds, Builds, hselects n hn, htext n hn]
  have htells n (hn : n ∈ names) p :
      fs.Tells (join dir n) p ↔ fs'.Tells (join dir' n) p := by
    rw [Tells, Tells, htext n hn]
  exact ⟨names, h.list_eq hlist,
    fun n hn hselected => htext n hn ▸ hall n hn ((hselects n hn).2 hselected),
    name, hname, (hbuild name hname).1 hbuilds, (htells name hname _).1 hpackage,
    fun other hother hbuilt p htold =>
      hleast other hother ((hbuild other hother).2 hbuilt) p ((htells other hother p).2 htold)⟩

theorem on_packageInDir_congr (h : fs.SeenAs dir fs' dir') :
    (packageInDir host dir).on fs = (packageInDir host dir').on fs' := by
  refine Option.ext fun package => ?_
  rw [on_packageInDir_eq_some_iff, on_packageInDir_eq_some_iff]
  exact ⟨.of_seenAs h, .of_seenAs h.symm⟩

end GoIface
