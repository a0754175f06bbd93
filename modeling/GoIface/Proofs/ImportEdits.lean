import GoIface.Proofs.Aliases
import GoIface.Proofs.Heads

/-!
# What a model owes to imports

The model of a file takes from the imports nothing but the paths that its qualifiers are bound to,
and the path that the file's own may be bound to. So it stays if the imports are put in another
order, if one is added that binds another identifier, and if an alias is renamed where it is used
(`models_keep_under_import_edits`).
-/

namespace GoIface

open GoIface.Text

/-! ## What imports say -/

/-- The ways to name what an import binds. -/
inductive Naming where
  | unnamed | dot | blank
  | named (name : String)
deriving Repr, DecidableEq

def ImportSpec.naming (i : ImportSpec) : Naming :=
  match i.name with
  | none => .unnamed
  | some (.dot _) => .dot
  | some (.blank _) => .blank
  | some (.name x) => .named x.name

/-- What an import says, wherever it stands: how it names what it binds, and its path. -/
def ImportSpec.clause (source : String) (i : ImportSpec) : Naming × String :=
  (i.naming, i.path.value source)

/-- The identifier that an import binds which says so. -/
def boundBy (resolve : Resolver) : Naming × String → Option String
  | (.unnamed, path) => some ((resolve path).getD (guessedName path))
  | (.dot, _) => some "."
  | (.blank, _) => none
  | (.named x, _) => some x

section

variable {resolve : Resolver} {source : String} {imports : List ImportSpec}

theorem boundBy_clause (i : ImportSpec) :
    boundBy resolve (i.clause source) = boundName resolve (i.path.value source) i.name := by
  rcases i with ⟨_ | (_ | _ | _), path⟩ <;> rfl

/-- Imports bind what they say. -/
theorem importBindings_eq_clause : importBindings resolve source imports
    = (imports.map (·.clause source)).filterMap fun s => (boundBy resolve s).map (·, s.2) := by
  simp only [importBindings, List.filterMap_map, Function.comp_def, boundBy_clause]
  rfl

end

/-! ## Tables that say more -/

namespace Bindings

variable {table table' extra : Bindings}

/-- The second table has all that the first has, in any order, and more for other identifiers. -/
structure Extends (table' table extra : Bindings) : Prop where
  perm : table'.Perm (extra ++ table)
  once : extra.Pairwise fun a b => a.1 ≠ b.1
  apart : ∀ a ∈ extra, ∀ b ∈ table, a.1 ≠ b.1

theorem Extends.once' (h : table'.Extends table extra)
    (htable : table.Pairwise fun a b => a.1 ≠ b.1) : table'.Pairwise fun a b => a.1 ≠ b.1 :=
  h.perm.symm.pairwise (List.pairwise_append.2 ⟨h.once, htable, h.apart⟩) Ne.symm

/-- What is looked up in the first table is looked up alike in the second. -/
theorem Extends.lookup (h : table'.Extends table extra)
    (htable : table.Pairwise fun a b => a.1 ≠ b.1) {x path : String}
    (hpath : table.lookup x = some path) : table'.lookup x = some path := by
  rw [lookup_eq_some_iff htable] at hpath
  rw [lookup_eq_some_iff (h.once' htable)]
  exact h.perm.symm.subset (List.mem_append_right _ hpath)

theorem Extends.lookup_of_ne (h : table'.Extends table extra)
    (htable : table.Pairwise fun a b => a.1 ≠ b.1) {x : String} (hx : ∀ b ∈ extra, b.1 ≠ x) :
    table'.lookup x = table.lookup x := by
  refine Option.ext fun path => ⟨fun hpath => ?_, h.lookup htable⟩
  rw [lookup_eq_some_iff (h.once' htable)] at hpath
  rcases List.mem_append.1 (h.perm.subset hpath) with hextra | hmem
  · exact absurd rfl (hx _ hextra)
  · exact (lookup_eq_some_iff htable).2 hmem

end Bindings

/-! ## Other imports before the same declarations -/

section

variable {resolve : Resolver} {source source' importPath h h' d : String} {head head' : File}
  {extra : Bindings} {m : FileModel}

/-- Declarations have the model that they had, whatever more is bound. -/
theorem modelAll_extended {table table' : Bindings} (hextends : table'.Extends table extra)
    (htable : table.Pairwise fun a b => a.1 ≠ b.1) (hfresh : ∀ b ∈ extra, b.1 ≠ importPath)
    {ds : List Decl} {xs : List Interface}
    (hall : modelAll ⟨source, table, importPath⟩ ds = .ok xs) :
    modelAll ⟨source, table', importPath⟩ ds = .ok xs := by
  have hown : FileScope.ownPackage ⟨source, table', importPath⟩
      = FileScope.ownPackage ⟨source, table, importPath⟩ :=
    congrArg (Option.getD · importPath) (hextends.lookup_of_ne htable hfresh)
  have hcarries : Convert.Carries (modelAll ⟨source, table, importPath⟩ ds)
      (modelAll ⟨source, table', importPath⟩
        ((ds.map (Decl.renamed .keep)).map (Decl.placed .stay))) :=
    carries_modelAll_renamed hown fun d _ s _ => ⟨fun u _ => ⟨fun _ _ => rfl,
      fun _ hpath => hextends.lookup htable hpath, fun _ => .refl _⟩, rfl⟩
  rw [Decl.renamed_keep, Decl.placed_stay, List.map_id, List.map_id] at hcarries
  exact hcarries xs hall

/-- Under a head of the same name that binds as much and perhaps more, a source has the same
model. -/
theorem ofSource_extended {name name' : String} (extra : Bindings) (hh : Headed source h d head)
    (hh' : Headed source' h' d head') (hname : head'.name.name = head.name.name)
    (hextends : (importBindings resolve h' head'.imports).Extends
      (importBindings resolve h head.imports) extra)
    (hfresh : ∀ b ∈ extra, b.1 ≠ importPath)
    (hm : FileModel.ofSource resolve name source importPath = .ok m) :
    FileModel.ofSource resolve name' source' importPath = .ok m := by
  obtain ⟨f, made, hread, hofFile⟩ := FileModel.ofSource_eq_ok_iff.1 hm
  obtain ⟨table, hbind, hall, hpackage⟩ := FileModel.ofFile_eq_ok_iff.1 hofFile
  obtain ⟨ds, a, a', made', rfl, hread'⟩ := ofSource_reheaded hh hh' hread
  obtain ⟨made₁, hhead⟩ := hh.read
  obtain ⟨made₁', hhead'⟩ := hh'.read
  have hbind : bindImports resolve h head.imports = .ok table := by
    rw [← bindImports_append hhead resolve d, ← hh.text]
    exact hbind
  obtain ⟨honce, rfl⟩ := bindImports_eq_ok_iff.1 hbind
  have htable := pairwise_importBindings_iff.2 honce
  have hbind' := (bindImports_append hhead' resolve d).trans (bindImports_eq_ok_iff.2
    ⟨pairwise_importBindings_iff.1 (hextends.once' htable), rfl⟩)
  rw [← hh'.text] at hbind'
  refine FileModel.ofSource_eq_ok_iff.2 ⟨_, made', hread', FileModel.ofFile_eq_ok_iff.2
    ⟨_, hbind', ?_, hpackage.trans hname.symm⟩⟩
  have hmore := modelAll_extended hextends htable hfresh hall
  rw [← mute_eq_ok_iff] at hmore ⊢
  have hscope : FileScope.Alike ⟨source', importBindings resolve h' head'.imports, importPath⟩
      ⟨source, importBindings resolve h' head'.imports, importPath⟩ := ⟨rfl, rfl⟩
  exact (mute_modelAll_parallel hscope (hh'.text ▸ String.toList_append)
    (hh.text ▸ String.toList_append) ds a' a).trans hmore

end

/-! ## Edits -/

/-- An edit of the imports of a source, after which all qualifiers of its types are bound to the
paths that they were bound to. -/
inductive ImportEdit (resolve : Resolver) (importPath source : String) : String → Prop
  /-- The same imports stand in another order. -/
  | reordered {source' h h' d : String} {head head' : File} (hh : Headed source h d head)
      (hh' : Headed source' h' d head') (hname : head'.name.name = head.name.name)
      (himports : (head'.imports.map (·.clause h')).Perm (head.imports.map (·.clause h))) :
      ImportEdit resolve importPath source source'
  /-- One more import stands somewhere among them. What it binds, if it binds anything, is not bound
  yet and is not spelled like the path of the package. -/
  | added {source' h h' d : String} {head head' : File} {before after : List (Naming × String)}
      {more : Naming × String} (hh : Headed source h d head) (hh' : Headed source' h' d head')
      (hname : head'.name.name = head.name.name)
      (himports : head.imports.map (·.clause h) = before ++ after)
      (himports' : head'.imports.map (·.clause h') = before ++ more :: after)
      (hfree : ∀ x, boundBy resolve more = some x →
        x ≠ importPath ∧ ∀ i ∈ head.imports, ¬ i.Binds resolve h x) :
      ImportEdit resolve importPath source source'
  /-- An alias has another name, in its import and in every type that is qualified by it. -/
  | renamed {source' : String} {f : File} {made : Counts} {R : Respelling}
      (hread : File.ofSource source = .ok (f, made)) (hspell : R.Respells source source')
      (hrename : f.RenamesAlias R) (hfree : ∀ i ∈ f.imports, ¬ i.Binds resolve source R.new)
      (hold : R.old ≠ importPath) (hnew : R.new ≠ importPath) :
      ImportEdit resolve importPath source source'

/-- The imports of every source can be edited, and the source has the same model after each
edit. -/
theorem models_keep_under_import_edits {resolve : Resolver} {name source importPath : String}
    {m : FileModel} (hm : FileModel.ofSource resolve name source importPath = .ok m) :
    (∃ h d head, Headed source h d head) ∧
      ∀ source', ImportEdit resolve importPath source source' →
        ∀ name', FileModel.ofSource resolve name' source' importPath = .ok m := by
  obtain ⟨f, made, hread, -⟩ := FileModel.ofSource_eq_ok_iff.1 hm
  refine ⟨exists_headed hread, fun source' hedit name' => ?_⟩
  cases hedit with
  | @reordered h h' d head head' hh hh' hname himports =>
    refine ofSource_extended [] hh hh' hname ⟨?_, .nil, by simp⟩ (by simp) hm
    rw [importBindings_eq_clause, importBindings_eq_clause, List.nil_append]
    exact himports.filterMap _
  | @added h h' d head head' before after more hh hh' hname himports himports' hfree =>
    let entry (s : Naming × String) : Option (String × String) := (boundBy resolve s).map (·, s.2)
    have hentry : ∀ b ∈ (entry more).toList, boundBy resolve more = some b.1 := by
      intro b hb
      obtain ⟨x, hx, rfl⟩ := Option.map_eq_some_iff.1 (Option.mem_toList.1 hb)
      exact hx
    refine ofSource_extended (entry more).toList hh hh' hname ⟨?_, ?_, ?_⟩
      (fun b hb => (hfree _ (hentry b hb)).1) hm
    · rw [importBindings_eq_clause, importBindings_eq_clause, himports, himports']
      have hperm : ((before ++ more :: after).filterMap entry).Perm
          ((more :: (before ++ after)).filterMap entry) := List.perm_middle.filterMap entry
      rw [List.filterMap_cons] at hperm
      cases hmore : entry more <;> rw [hmore] at hperm <;> exact hperm
    · cases entry more <;> simp
    · rintro a ha b hb heq
      obtain ⟨i, hi, hbinds, -⟩ := mem_importBindings_iff.1 hb
      exact (hfree _ (hentry a ha)).2 i hi (heq ▸ hbinds)
  | renamed hread hspell hrename hfree hold hnew =>
    exact ofSource_renamed_alias hread hm hspell hrename hfree hold hnew

def storeImports : String := "package s\nimport kv \"k\"\nimport \"io\"\n"

/-- The imports in another order and in a group. -/
def groupedImports : String := "package s\nimport (\"io\"; kv \"k\")\n"

/-- One more, for the names that it exports. -/
def dottedImports : String := "package s\nimport kv \"k\"\nimport . \"fmt\"\nimport \"io\"\n"

def keyStore : String := "type S interface { G(kv kv.K) io.R }\n"

/-- The store under another alias. The parameter that is named like the old one keeps its name. -/
def renamedStore : String :=
  "package s\nimport db \"k\"\nimport \"io\"\n"
    ++ "type S interface { G(kv db.K) io.R }\n"

/-- At the import and at the qualifier. -/
def kvToDb : Respelling :=
  ⟨"kv", "db", fun n => n == 17 || n == 60, by decide, by decide⟩

/-- What the head of a source says, if nothing is declared in it. -/
def headClauses (h : String) : Option (String × List (Naming × String)) :=
  (File.ofSource h).toOption.bind fun p =>
    if p.1.decls.isEmpty then some (p.1.name.name, p.1.imports.map (·.clause h)) else none

theorem exists_headed_of_headClauses (h d x : String) (said : List (Naming × String))
    (hclauses : headClauses h = some (x, said)) (hfin : Finished h) (hd : ¬ StartsWithImport d)
    (hsound : ∀ l ∈ lex (h ++ d), l.fault? = none) : ∃ head, Headed (h ++ d) h d head ∧
      head.name.name = x ∧ head.imports.map (·.clause h) = said := by
  unfold headClauses at hclauses
  rcases hread : File.ofSource h with e | ⟨head, made⟩
  · rw [hread] at hclauses
    cases hclauses
  · rw [hread] at hclauses
    simp only [Except.toOption, Option.bind_some] at hclauses
    split at hclauses
    · next hdecls =>
      obtain ⟨hx, hsaid⟩ := Prod.mk.inj (Option.some.inj hclauses)
      exact ⟨head, .of_finished hread (List.isEmpty_iff.1 hdecls) hfin hd hsound, hx, hsaid⟩
    · cases hclauses

section

/-- The heads of the store are texts of their own. -/
theorem headed_keyStore {h : String} (hh : h ∈ [storeImports, groupedImports, dottedImports])
    (said : List (Naming × String)) (hclauses : headClauses h = some ("s", said)) :
    ∃ head, Headed (h ++ keyStore) h keyStore head ∧ head.name.name = "s" ∧
      head.imports.map (·.clause h) = said := by
  have hheads : ∀ h ∈ [storeImports, groupedImports, dottedImports],
      h.toList.getLast? = some '\n' ∧ (∀ l ∈ (lex h).getLast?, l.token = .mark .semi) ∧
        ∀ l ∈ lex (h ++ keyStore), l.fault? = none := by
    decide +kernel
  have hd : ¬ StartsWithImport keyStore := by
    unfold StartsWithImport
    decide +kernel
  obtain ⟨hline, hsemi, hsound⟩ := hheads h hh
  exact exists_headed_of_headClauses h keyStore "s" said hclauses ⟨hline, hsemi⟩ hd hsound

theorem headClauses_keyStore :
    headClauses storeImports = some ("s", [(.named "kv", "k"), (.unnamed, "io")]) ∧
    headClauses groupedImports = some ("s", [(.unnamed, "io"), (.named "kv", "k")]) ∧
    headClauses dottedImports
      = some ("s", [(.named "kv", "k"), (.dot, "fmt"), (.unnamed, "io")]) := by
  decide +kernel

theorem headed_storeImports : ∃ head, Headed (storeImports ++ keyStore) storeImports keyStore head ∧
    head.name.name = "s" ∧
    head.imports.map (·.clause storeImports) = [(.named "kv", "k"), (.unnamed, "io")] :=
  headed_keyStore (.head _) _ headClauses_keyStore.1

theorem edit_grouped : ImportEdit (fun _ => none) "s" (storeImports ++ keyStore)
    (groupedImports ++ keyStore) := by
  obtain ⟨head, hh, hname, hsaid⟩ := headed_storeImports
  obtain ⟨head', hh', hname', hsaid'⟩ := headed_keyStore (.tail _ (.head _)) _
    headClauses_keyStore.2.1
  refine .reordered hh hh' (hname'.trans hname.symm) ?_
  rw [hsaid, hsaid']
  exact .swap _ _ _

theorem edit_dotted : ImportEdit (fun _ => none) "s" (storeImports ++ keyStore)
    (dottedImports ++ keyStore) := by
  obtain ⟨head, hh, hname, hsaid⟩ := headed_storeImports
  obtain ⟨head', hh', hname', hsaid'⟩ := headed_keyStore (.tail _ (.tail _ (.head _))) _
    headClauses_keyStore.2.2
  have hsplit : head.imports.map (·.clause storeImports)
      = [(.named "kv", "k")] ++ [(.unnamed, "io")] := hsaid
  refine .added hh hh' (hname'.trans hname.symm) hsplit hsaid' ?_
  rintro _ ⟨⟩
  refine ⟨by decide, fun i hi hbinds => ?_⟩
  have hdot := (boundBy_clause i).trans (ImportSpec.binds_iff.1 hbinds)
  have hmem := List.mem_map_of_mem (f := fun i => ImportSpec.clause storeImports i) hi
  rw [hsaid] at hmem
  rcases List.mem_cons.1 hmem with h | hmem
  · rw [h] at hdot
    simp [boundBy] at hdot
  · rw [List.mem_singleton.1 hmem] at hdot
    revert hdot
    decide

theorem edit_renamed : ImportEdit (fun _ => none) "s" (storeImports ++ keyStore) renamedStore := by
  have hfile : (File.ofSource (storeImports ++ keyStore)).toOption.map (fun p =>
      (decide (p.1.RenamesAlias kvToDb), p.1.imports.map fun i => boundName (fun _ => none)
        (i.path.value (storeImports ++ keyStore)) i.name))
        = some (true, [some "kv", some "io"]) := by
    decide +kernel
  rcases hf : File.ofSource (storeImports ++ keyStore) with e | ⟨f, made⟩
  · rw [hf] at hfile
    cases hfile
  rw [hf] at hfile
  obtain ⟨hrename, hbound⟩ := Prod.mk.inj (Option.some.inj hfile)
  have hrespells : kvToDb.Respells (storeImports ++ keyStore) renamedStore := by
    unfold Respelling.Respells
    decide +kernel
  refine .renamed hf hrespells (of_decide_eq_true hrename)
    (fun i hi hbinds => ?_) (by decide) (by decide)
  have hmem := List.mem_map_of_mem (f := fun i => boundName (fun _ => none)
    (i.path.value (storeImports ++ keyStore)) i.name) hi
  rw [hbound, ImportSpec.binds_iff.1 hbinds] at hmem
  revert hmem
  decide

end

theorem edited_imports_keep_store : ∃ m,
    FileModel.ofSource (fun _ => none) "s.go" (storeImports ++ keyStore) "s" = .ok m ∧
    ImportEdit (fun _ => none) "s" (storeImports ++ keyStore) (groupedImports ++ keyStore) ∧
    ImportEdit (fun _ => none) "s" (storeImports ++ keyStore) (dottedImports ++ keyStore) ∧
    ImportEdit (fun _ => none) "s" (storeImports ++ keyStore) renamedStore ∧
    ∀ source ∈ [groupedImports ++ keyStore, dottedImports ++ keyStore, renamedStore],
      FileModel.ofSource (fun _ => none) "s.go" source "s" = .ok m := by
  have hnames : (FileModel.ofSource (fun _ => none) "s.go" (storeImports ++ keyStore)
      "s").toOption.map (·.interfaces.map Interface.name) = some ["S"] := by decide +kernel
  rcases hm : FileModel.ofSource (fun _ => none) "s.go" (storeImports ++ keyStore) "s" with e | m
  · rw [hm] at hnames
    cases hnames
  obtain ⟨-, hkeeps⟩ := models_keep_under_import_edits hm
  refine ⟨m, rfl, edit_grouped, edit_dotted, edit_renamed, ?_⟩
  simp only [List.forall_mem_cons]
  exact ⟨hkeeps _ edit_grouped _, hkeeps _ edit_dotted _, hkeeps _ edit_renamed _, by simp⟩

end GoIface
