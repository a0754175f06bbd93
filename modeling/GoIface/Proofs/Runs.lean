import GoIface.CommandLine.Run
import GoIface.Proofs.MadeDirectories

/-!
# What runs leave behind

A run has read everything before it prints or writes, so what fails in importing the directory, in
walking one of its files or in finding the interface leaves nothing (`no_trace_of_failure`). What is
written otherwise is what would be printed but for the import path of the output, and no other place
differs than that of the file and directories that were missing above it (`leaves_of_writeOutput`).
-/

namespace GoIface.CommandLine

open Path

variable {setting : Setting} {options : Options} {fs fs' : FileSystem} {file text : String}

/-! ## Stages -/

instance : LawfulMonad Reading := by
  refine .mk' Reading ?_ (fun _ _ => rfl) ?_
  · intro α r
    show r.bind Reading.done = r
    induction r with
    | done => rfl
    | ask q next ih => exact congrArg (Reading.ask q) (funext ih)
  · intro α β γ r f g
    show (r.bind f).bind g = r.bind fun a => (f a).bind g
    induction r with
    | done => rfl
    | ask q next ih => exact congrArg (Reading.ask q) (funext ih)

section

variable {ε ε' α β : Type}

theorem on_bind (x : ExceptT ε Reading α) (f : α → ExceptT ε Reading β) :
    (x >>= f).run.on fs = (x.run.on fs).bind fun a => (f a).run.on fs := by
  rw [ExceptT.run_bind, Reading.on_bind]
  rcases x.run.on fs <;> rfl

theorem on_lift (r : Reading α) : (liftM r : ExceptT ε Reading α).run.on fs = .ok (r.on fs) :=
  Reading.on_bind fs r _

theorem on_adapt (x : ExceptT ε Reading α) (f : ε → ε') :
    (x.adapt f).run.on fs = (x.run.on fs).mapError f :=
  Reading.on_bind fs x.run _

/-- If it fails for one, it fails, by the error of one that it fails for. -/
theorem on_mapM_error {f : α → Extract β} {as : List α} {a : α} {e : ExtractError} (ha : a ∈ as)
    (h : (f a).run.on fs = .error e) :
    ∃ e', (as.mapM f).run.on fs = .error e' ∧ ∃ a' ∈ as, (f a').run.on fs = .error e' := by
  induction as with
  | nil => cases ha
  | cons first as ih =>
    rw [List.mapM_cons, on_bind]
    rcases hfirst : (f first).run.on fs with e' | b
    · exact ⟨e', rfl, first, List.mem_cons_self, hfirst⟩
    · have ha' : a ∈ as := (List.mem_cons.1 ha).resolve_left fun heq => by simp [heq, hfirst] at h
      obtain ⟨e', hrest, a', hmem, hfails⟩ := ih ha'
      refine ⟨e', ?_, a', List.mem_cons_of_mem _ hmem, hfails⟩
      show ((as.mapM f >>= fun bs => pure (b :: bs) : Extract (List β)).run.on fs) = _
      rw [on_bind, hrest]
      rfl

end

/-- The files of a package are walked one after another. -/
def walk (setting : Setting) (options : Options) (package : PackageDir) :
    Extract (List FileModel) :=
  extractFiles (setting.lookupFrom options.dir) package.importPath package.files

theorem on_declared : (declared setting options).run.on fs =
    (((importPackage setting options.dir).run.on fs).mapError (.importing options.dir)).bind
      fun package => (((walk setting options package).run.on fs).mapError .parsing).bind
        fun files => (findInterface files options.target package.importPath).mapError .finding := by
  rw [declared, on_bind, on_adapt]
  refine congrArg _ (funext fun package => ?_)
  rw [on_bind, on_adapt]
  rfl

theorem on_delivery : (delivery setting options).run.on fs =
    ((declared setting options).run.on fs).map fun d =>
      ⟨d.report (outPackage options d) ((outPath setting options).on fs), options.output⟩ := by
  rw [delivery, on_bind]
  rcases (declared setting options).run.on fs with e | d
  · rfl
  · show ((liftM (outPath setting options) >>= _ : ExceptT RunError Reading Delivery).run.on fs) = _
    rw [on_bind, on_lift]
    rfl

/-! ## What is written -/

/-- All that is different is the content of a file, at the place that its path leads to, and that
directories are there which were missing where the paths above it lead. -/
structure Leaves (fs : FileSystem) (cwd file : String) (content : ByteArray) (names : List String)
    (fs' : FileSystem) : Prop where
  home : fs'.cwd = fs.cwd
  leads : fs'.locate file = .ok names
  free : fs.root.kindAt names ≠ some .dir
  written : fs'.root.kindAt names = some (.file content)
  others (other : List String) (hne : other ≠ names) :
    fs'.root.kindAt other = fs.root.kindAt other ∨
      fs.root.kindAt other = none ∧ fs'.root.kindAt other = some .dir ∧
        ∃ above ∈ ancestors (absoluteDir cwd file), fs'.locate above = .ok other
  around : cwd = fs.cwd → isAbsolute cwd = true → FileSystem.nul ∉ cwd.toList →
    fs'.LeadsTo (absoluteDir cwd file) names.dropLast.reverse

theorem leaves_of_writeOutput {cwd : String} (h : writeOutput cwd file text fs = (fs', none)) :
    ∃ names, Leaves fs cwd file text.toUTF8 names fs' := by
  have hmakes := FileSystem.makes_makeDirs fs (absoluteDir cwd file)
  unfold writeOutput at h
  rcases hdirs : fs.makeDirs (absoluteDir cwd file) with ⟨made, _ | fault⟩
  · rw [hdirs] at hmakes
    rcases hwrite : made.writeFile file text.toUTF8 with fault | written
    · simp only [hdirs, hwrite] at h
      cases h
    · simp only [hdirs, hwrite] at h
      cases h
      obtain ⟨site, hsite, hleads, hwrites⟩ := FileSystem.writes_of_writeFile hwrite
      refine ⟨site.dir ++ [site.name], hwrites.cwd.trans hmakes.cwd, hleads, ?_, hwrites.written,
        fun other hne => ?_, ?_⟩
      · rcases hmakes.kindAt (site.dir ++ [site.name]) with heq | ⟨hnone, -⟩
        · exact heq ▸ hwrites.free
        · simp [hnone]
      · rw [hwrites.others other hne]
        refine (hmakes.kindAt other).imp_right ?_
        rintro ⟨hnone, hdir, above, habove, hlocate⟩
        exact ⟨hnone, hdir, above, habove,
          FileSystem.locate_of_keeps hwrites.keeps hwrites.cwd hlocate⟩
      · rintro hcwd habs hnul
        rw [hcwd, ← hmakes.cwd] at habs hnul ⊢
        rw [List.dropLast_concat]
        exact (FileSystem.leadsTo_absoluteDir habs hnul hsite).of_keeps hwrites.keeps hwrites.cwd
  · simp [hdirs] at h

/-! ## What is told -/

/-- What a report tells before the import path of the output. -/
def reportHead (d : Declared) (outPackage : String) : String :=
  "source package: " ++ d.package ++ "\n"
    ++ "source import path: " ++ orLocal d.importPath ++ "\n"
    ++ "output package: " ++ outPackage ++ "\n"

def reportRest (d : Declared) : String :=
  let paths := d.interface.packages
  "referenced packages:\n"
    ++ String.join (paths.map fun p => "  - " ++ p ++ "\n")
    ++ "signatures:\n"
    ++ String.join (d.interface.methods.map fun m =>
      "  " ++ m.name ++ m.signatureText (reportTable paths) ++ "\n")
    ++ d.interface.describe

theorem report_eq (d : Declared) (outPackage outPath : String) : d.report outPackage outPath =
    reportHead d outPackage ++ ("output import path: " ++ orLocal outPath ++ "\n")
      ++ reportRest d := by
  unfold Declared.report reportHead reportRest
  simp only [String.append_assoc]

theorem newline_suffix_reportHead (d : Declared) (outPackage : String) :
    "\n".toList <:+ (reportHead d outPackage).toList := by
  unfold reportHead
  rw [String.toList_append]
  exact List.suffix_append _ _

/-! ## Runs -/

theorem run_eq : run setting options fs =
    match (declared setting options).run.on fs with
    | .ok d => Delivery.perform ⟨d.report (outPackage options d) ((outPath setting options).on fs),
        options.output⟩ setting.cwd fs
    | .error e => ⟨fs, "", some e⟩ := by
  rw [run, on_delivery]
  rcases (declared setting options).run.on fs <;> rfl

theorem exists_walk_error {package : PackageDir} {path : String} {e : ExtractError}
    (hpath : path ∈ package.files)
    (h : (extractFile (setting.lookupFrom options.dir) package.importPath path).run.on fs
      = .error e) : ∃ e', (walk setting options package).run.on fs = .error e' := by
  obtain ⟨e', hfails, -⟩ := on_mapM_error hpath h
  exact ⟨e', by rw [walk, extractFiles, on_bind, hfails]; rfl⟩

theorem proper_writeOutput (h : fs.root.Proper) (cwd file text : String) :
    (writeOutput cwd file text fs).1.root.Proper := by
  have hmade := FileSystem.proper_makeDirs h (absoluteDir cwd file)
  unfold writeOutput
  rcases hdirs : fs.makeDirs (absoluteDir cwd file) with ⟨made, _ | fault⟩
  · rw [hdirs] at hmade
    rcases hwrite : made.writeFile file text.toUTF8 with fault | written
    · simpa only [hdirs, hwrite] using hmade
    · simpa only [hdirs, hwrite] using FileSystem.proper_writeFile hmade hwrite
  · rw [hdirs] at hmade
    simpa only [hdirs] using hmade

/-- Directories keep distinct names in them, whatever becomes of a run. -/
theorem proper_run (h : fs.root.Proper) : (run setting options fs).files.root.Proper := by
  rw [run_eq]
  rcases (declared setting options).run.on fs with e | d
  · exact h
  · rcases options.output with _ | file
    · exact h
    · have hwritten := proper_writeOutput h setting.cwd file
        (d.report (outPackage options d) ((outPath setting options).on fs))
      simp only [Delivery.perform]
      exact hwritten

/-- Nothing is printed and no file or directory is made if the directory cannot be imported, if one
of its files, whichever it is, cannot be walked, or if the interface is not found. If all goes well
and the text is to go into a file, that file has what would be printed otherwise, but for the line
that tells the import path of the output. -/
theorem no_trace_of_failure (setting : Setting) (options : Options) (fs : FileSystem) :
    (∀ e, (importPackage setting options.dir).run.on fs = .error e →
      run setting options fs = ⟨fs, "", some (.importing options.dir e)⟩) ∧
    (∀ package, (importPackage setting options.dir).run.on fs = .ok package →
      (∀ path ∈ package.files, ∀ e,
        (extractFile (setting.lookupFrom options.dir) package.importPath path).run.on fs
          = .error e → ∃ e', run setting options fs = ⟨fs, "", some (.parsing e')⟩) ∧
      ∀ files, (walk setting options package).run.on fs = .ok files → ∀ e,
        findInterface files options.target package.importPath = .error e →
          run setting options fs = ⟨fs, "", some (.finding e)⟩) ∧
    ∀ file, options.output = some file → (run setting options fs).error = none →
      ∃ head rest, "\n".toList <:+ head.toList ∧
        run setting { options with output := none } fs =
          ⟨fs, head ++ ("output import path: " ++ orLocal "" ++ "\n") ++ rest, none⟩ ∧
        (run setting options fs).printed = "" ∧
        ∃ names, Leaves fs setting.cwd file
          (head ++ ("output import path: " ++ orLocal
            ((setting.importPathOf (absoluteDir setting.cwd file)).on fs) ++ "\n") ++ rest).toUTF8
          names (run setting options fs).files := by
  refine ⟨fun e himport => ?_, fun package himport => ⟨fun path hpath e hfails => ?_,
    fun files hwalk e hfind => ?_⟩, fun file hfile hnone => ?_⟩
  · rw [run_eq, on_declared, himport]
    rfl
  · obtain ⟨e', hwalk⟩ := exists_walk_error hpath hfails
    refine ⟨e', ?_⟩
    rw [run_eq, on_declared, himport]
    simp only [Except.mapError, Except.bind, hwalk]
  · rw [run_eq, on_declared, himport]
    simp only [Except.mapError, Except.bind, hwalk, hfind]
  · rcases hdeclared : (declared setting options).run.on fs with e | d
    · rw [run_eq, hdeclared] at hnone
      cases hnone
    · have hrun : run setting options fs = Delivery.perform
          ⟨d.report (outPackage options d) ((outPath setting options).on fs), options.output⟩
          setting.cwd fs := by
        rw [run_eq, hdeclared]
      have hprint : run setting { options with output := none } fs =
          ⟨fs, d.report (outPackage options d) "", none⟩ := by
        have hsame : (declared setting { options with output := none }).run.on fs = .ok d :=
          hdeclared
        rw [run_eq, hsame]
        rfl
      have hout : (outPath setting options).on fs =
          (setting.importPathOf (absoluteDir setting.cwd file)).on fs := by
        rw [outPath, hfile]
      refine ⟨reportHead d (outPackage options d), reportRest d, newline_suffix_reportHead _ _,
        by rw [hprint, report_eq], ?_⟩
      rw [hrun, hout, hfile, report_eq] at hnone ⊢
      rcases hwrite : writeOutput setting.cwd file
          (reportHead d (outPackage options d) ++ ("output import path: " ++ orLocal
            ((setting.importPathOf (absoluteDir setting.cwd file)).on fs) ++ "\n") ++ reportRest d)
          fs with ⟨fs', error⟩
      simp only [Delivery.perform, hwrite] at hnone ⊢
      obtain rfl := hnone
      exact ⟨trivial, leaves_of_writeOutput hwrite⟩

/-- Two packages, of which one has a file that ends too early. -/
def neighbours : FileSystem where
  root := .dir [("w", .dir [
    ("p", .dir [("p.go", .file "package p\ntype I interface\x7b\x7d\n".toUTF8)]),
    ("q", .dir [("q.go", .file "package q\ntype I interface\x7b\n".toUTF8)])])]
  cwd := "/w"

def neighbourSetting : Setting := ⟨"/w", ⟨[], none⟩, ⟨"linux", "amd64"⟩⟩

deriving instance DecidableEq for PackageDir

/-- Nothing comes of the package that ends too early, and the other goes into new directories. -/
theorem early_end_leaves_nothing :
    (∃ e, run neighbourSetting ⟨"I", "q", none, some "out/deep/i.txt"⟩ neighbours
      = ⟨neighbours, "", some (.parsing e)⟩) ∧
    ∃ text names, Leaves neighbours "/w" "out/deep/i.txt" text names
      (run neighbourSetting ⟨"I", "p", none, some "out/deep/i.txt"⟩ neighbours).files := by
  obtain ⟨-, hfails, -⟩ :=
    no_trace_of_failure neighbourSetting ⟨"I", "q", none, some "out/deep/i.txt"⟩ neighbours
  obtain ⟨-, -, hsucceeds⟩ :=
    no_trace_of_failure neighbourSetting ⟨"I", "p", none, some "out/deep/i.txt"⟩ neighbours
  constructor
  · have himport : (importPackage neighbourSetting "q").run.on neighbours
        = .ok ⟨"q", "", ["q/q.go"]⟩ := by
      decide +kernel
    rcases hfile : (extractFile (neighbourSetting.lookupFrom "q") "" "q/q.go").run.on neighbours
      with e | model
    · exact (hfails _ himport).1 "q/q.go" (by simp) e hfile
    · have hnone : ((extractFile (neighbourSetting.lookupFrom "q") "" "q/q.go").run.on
          neighbours).toOption.isNone = true := by
        decide +kernel
      rw [hfile] at hnone
      cases hnone
  · obtain ⟨head, rest, -, -, -, names, hleaves⟩ :=
      hsucceeds "out/deep/i.txt" rfl (by decide +kernel)
    exact ⟨_, names, hleaves⟩

end GoIface.CommandLine
