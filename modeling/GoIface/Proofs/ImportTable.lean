import GoIface.Proofs.FileModels
import GoIface.Proofs.ImportPaths
import GoIface.Proofs.Scanning
import Mathlib.Data.List.TakeWhile

/-!
# The table of imports

What an import binds is said by its form (`ImportSpec.Binds`), and what the imports of a file bind
together by whether an identifier is bound again (`BoundOnce`) and by which of them first
(`RepeatsFirst`). Binding the imports fails with the first that is bound again, whatever else is
wrong with the file, and else the table holds what each import binds and nothing more
(`imports_bind_identifiers_once`).
-/

namespace GoIface

/-! ## What an import binds -/

/-- The identifier is the last segment of a path up to its first point. -/
def NamedAfter (path x : String) : Prop :=
  ∃ before rest, path.toList = before ++ (x.toList ++ rest) ∧ '/' ∉ x.toList ++ rest ∧
    (∀ c ∈ before.getLast?, c = '/') ∧ '.' ∉ x.toList ∧ ∀ c ∈ rest.head?, c = '.'

/-- A run goes to where it has to stop. -/
theorem takeWhile_append_of_stop {p : Char → Bool} {xs ys : List Char} (hxs : ∀ c ∈ xs, p c = true)
    (hys : noneAhead p ys.head?) : (xs ++ ys).takeWhile p = xs :=
  congrArg Text.Cut.text (Text.Cut.run_append hxs hys)

theorem exists_takeWhile_append (p : Char → Bool) (cs : List Char) :
    ∃ rest, cs = cs.takeWhile p ++ rest ∧ noneAhead p rest.head? := by
  refine ⟨cs.dropWhile p, List.takeWhile_append_dropWhile.symm, ?_⟩
  have hstop := List.head?_dropWhile_not p cs
  rcases hhead : (cs.dropWhile p).head? with _ | c
  · rfl
  · rw [hhead] at hstop
    exact hstop

theorem noneAhead_ne_iff {c : Char} {o : Option Char} :
    noneAhead (· != c) o ↔ ∀ d ∈ o, d = c := by
  cases o <;> simp [noneAhead]

theorem mem_takeWhile_ne {c : Char} {cs : List Char} : c ∉ cs.takeWhile (· != c) := by
  intro hmem
  simpa using List.mem_takeWhile_imp hmem

theorem lastSegment_of_append {path : String} {before segment : List Char}
    (hpath : path.toList = before ++ segment) (hsegment : '/' ∉ segment)
    (hbefore : ∀ c ∈ before.getLast?, c = '/') :
    (lastSegment path).toList = segment := by
  have htake : (segment.reverse ++ before.reverse).takeWhile (· != '/') = segment.reverse := by
    refine takeWhile_append_of_stop (fun c hc => ?_) ?_
    · simpa using ne_of_mem_of_not_mem (List.mem_reverse.1 hc) hsegment
    · rwa [List.head?_reverse, noneAhead_ne_iff]
  rw [lastSegment, hpath, List.reverse_append, htake, List.reverse_reverse, String.toList_ofList]

theorem exists_lastSegment (path : String) : ∃ before,
    path.toList = before ++ (lastSegment path).toList ∧ '/' ∉ (lastSegment path).toList ∧
      ∀ c ∈ before.getLast?, c = '/' := by
  obtain ⟨rest, hsplit, hstop⟩ := exists_takeWhile_append (· != '/') path.toList.reverse
  have hpath := congrArg List.reverse hsplit
  rw [List.reverse_reverse, List.reverse_append] at hpath
  rw [lastSegment, String.toList_ofList]
  refine ⟨rest.reverse, hpath, fun hmem => mem_takeWhile_ne (List.mem_reverse.1 hmem), ?_⟩
  rwa [List.getLast?_reverse, ← noneAhead_ne_iff]

theorem namedAfter_iff {path x : String} : NamedAfter path x ↔ x = guessedName path := by
  constructor
  · rintro ⟨before, rest, hpath, hslash, hbefore, hpoint, hrest⟩
    have hsegment := lastSegment_of_append hpath hslash hbefore
    have htake : (x.toList ++ rest).takeWhile (· != '.') = x.toList := by
      refine takeWhile_append_of_stop (fun c hc => ?_) (noneAhead_ne_iff.2 hrest)
      simpa using ne_of_mem_of_not_mem hc hpoint
    rw [guessedName, hsegment, htake, String.ofList_toList]
  · rintro rfl
    obtain ⟨before, hpath, hslash, hbefore⟩ := exists_lastSegment path
    obtain ⟨rest, hsplit, hstop⟩ := exists_takeWhile_append (· != '.') (lastSegment path).toList
    have hname : (guessedName path).toList = (lastSegment path).toList.takeWhile (· != '.') := by
      rw [guessedName, String.toList_ofList]
    have hpoint : '.' ∉ (guessedName path).toList := hname ▸ mem_takeWhile_ne
    rw [← hname] at hsplit
    rw [hsplit] at hpath hslash
    exact ⟨before, rest, hpath, hslash, hbefore, hpoint, noneAhead_ne_iff.1 hstop⟩

/-- The identifier is what an import binds: its own name, a point, and without a name what the
package is known by or else what its path ends in. A blank import binds none. -/
inductive ImportSpec.Binds (resolve : Resolver) (source : String) (i : ImportSpec) :
    String → Prop
  | named {x : Ident} (h : i.name = some (.name x)) : Binds resolve source i x.name
  | dotted {span : Span} (h : i.name = some (.dot span)) : Binds resolve source i "."
  | known {x : String} (h : i.name = none) (hknown : resolve (i.path.value source) = some x) :
      Binds resolve source i x
  | guessed {x : String} (h : i.name = none) (hunknown : resolve (i.path.value source) = none)
      (hx : NamedAfter (i.path.value source) x) : Binds resolve source i x

section

variable {resolve : Resolver} {source : String}

theorem ImportSpec.binds_iff {i : ImportSpec} {x : String} :
    i.Binds resolve source x ↔ boundName resolve (i.path.value source) i.name = some x := by
  constructor
  · rintro (h | h | ⟨h, hknown⟩ | ⟨h, hunknown, hx⟩)
    · simp [boundName, h]
    · simp [boundName, h]
    · simp [boundName, h, hknown]
    · simp [boundName, h, hunknown, namedAfter_iff.1 hx]
  · intro hbound
    rcases hname : i.name with _ | (span | span | ident)
    · rw [hname] at hbound
      rcases hresolve : resolve (i.path.value source) with _ | known
      · exact .guessed hname hresolve (namedAfter_iff.2 (by simpa [boundName, hresolve, eq_comm]
          using hbound))
      · refine .known hname ?_
        simpa [boundName, hresolve] using hbound
    · rw [hname] at hbound
      obtain rfl : "." = x := by simpa [boundName] using hbound
      exact .dotted hname
    · simp [boundName, hname] at hbound
    · rw [hname] at hbound
      obtain rfl : ident.name = x := by simpa [boundName] using hbound
      exact .named hname

end

/-! ## What imports bind together -/

/-- No identifier is bound by two imports. -/
def BoundOnce (resolve : Resolver) (source : String) (imports : List ImportSpec) : Prop :=
  imports.Pairwise fun i j => ∀ x, i.Binds resolve source x → ¬ j.Binds resolve source x

/-- The identifier is that of the first import that binds one a second time. -/
def RepeatsFirst (resolve : Resolver) (source : String) (imports : List ImportSpec) (x : String) :
    Prop :=
  ∃ before i after, imports = before ++ i :: after ∧ i.Binds resolve source x ∧
    (∃ j ∈ before, j.Binds resolve source x) ∧ BoundOnce resolve source before

section

variable {bound : List String} {bindings : Bindings} {x y path : String}

theorem collision?_cons_of_mem (hy : y ∈ bound) :
    collision? bound ((y, path) :: bindings) = some y := by
  simp [collision?, hy]

theorem collision?_cons_of_not_mem (hy : y ∉ bound) :
    collision? bound ((y, path) :: bindings) = collision? (y :: bound) bindings := by
  simp [collision?, hy]

theorem collision?_eq_none_iff : collision? bound bindings = none ↔
    bindings.Pairwise (fun a b => a.1 ≠ b.1) ∧ ∀ b ∈ bindings, b.1 ∉ bound := by
  induction bindings generalizing bound with
  | nil => simp [collision?]
  | cons b rest ih =>
    obtain ⟨y, path⟩ := b
    by_cases hy : y ∈ bound
    · simp [collision?_cons_of_mem hy, hy]
    · simp only [collision?_cons_of_not_mem hy, ih, List.pairwise_cons, List.mem_cons, not_or]
      grind

/-- The first collision is at what collides with identifiers before it that do not themselves
collide. -/
theorem collision?_eq_some_iff : collision? bound bindings = some x ↔
    ∃ before path after, bindings = before ++ (x, path) :: after ∧
      collision? bound before = none ∧ (x ∈ bound ∨ ∃ b ∈ before, b.1 = x) := by
  induction bindings generalizing bound with
  | nil => simp [collision?]
  | cons b rest ih =>
    obtain ⟨y, path⟩ := b
    by_cases hy : y ∈ bound
    · rw [collision?_cons_of_mem hy]
      constructor
      · rintro ⟨⟩
        exact ⟨[], path, rest, rfl, rfl, .inl hy⟩
      · rintro ⟨_ | ⟨b, before⟩, path', after, hsplit, hnone, -⟩
        · cases hsplit
          rfl
        · cases hsplit
          simp [collision?_cons_of_mem hy] at hnone
    · rw [collision?_cons_of_not_mem hy, ih]
      constructor
      · rintro ⟨before, path', after, rfl, hnone, hx⟩
        refine ⟨(y, path) :: before, path', after, rfl, ?_, ?_⟩
        · rwa [collision?_cons_of_not_mem hy]
        · simpa [or_assoc, or_left_comm, eq_comm] using hx
      · rintro ⟨_ | ⟨b, before⟩, path', after, hsplit, hnone, hx⟩
        · cases hsplit
          simp [hy] at hx
        · cases hsplit
          rw [collision?_cons_of_not_mem hy] at hnone
          refine ⟨before, path', after, rfl, hnone, ?_⟩
          simpa [or_assoc, or_left_comm, eq_comm] using hx

end

section

variable {resolve : Resolver} {source : String} {imports : List ImportSpec} {x path : String}

theorem entry_eq_some_iff {i : ImportSpec} {b : String × String} :
    (boundName resolve (i.path.value source) i.name).map (·, i.path.value source) = some b ↔
      i.Binds resolve source b.1 ∧ i.path.value source = b.2 := by
  rw [ImportSpec.binds_iff]
  rcases boundName resolve (i.path.value source) i.name with _ | y <;> simp [Prod.ext_iff]

theorem mem_importBindings_iff {b : String × String} : b ∈ importBindings resolve source imports ↔
    ∃ i ∈ imports, i.Binds resolve source b.1 ∧ i.path.value source = b.2 := by
  simp only [importBindings, List.mem_filterMap, entry_eq_some_iff]

theorem pairwise_importBindings_iff :
    (importBindings resolve source imports).Pairwise (fun a b => a.1 ≠ b.1) ↔
      BoundOnce resolve source imports := by
  simp only [importBindings, List.pairwise_filterMap, entry_eq_some_iff, BoundOnce]
  refine List.Pairwise.iff fun i j => ?_
  exact ⟨fun h x hi hj => h (x, _) ⟨hi, rfl⟩ (x, _) ⟨hj, rfl⟩ rfl,
    fun h a ha b hb hab => h a.1 ha.1 (hab ▸ hb.1)⟩

theorem collision?_importBindings_eq_none_iff :
    collision? [] (importBindings resolve source imports) = none ↔
      BoundOnce resolve source imports := by
  simp [collision?_eq_none_iff, pairwise_importBindings_iff]

theorem collision?_importBindings_eq_some_iff :
    collision? [] (importBindings resolve source imports) = some x ↔
      RepeatsFirst resolve source imports x := by
  rw [collision?_eq_some_iff]
  constructor
  · rintro ⟨bs, path, cs, hsplit, hnone, hx⟩
    obtain ⟨before, rest, rfl, rfl, hrest⟩ := List.filterMap_eq_append_iff.1 hsplit
    obtain ⟨blanks, i, after, rfl, hblanks, hi, -⟩ := List.filterMap_eq_cons_iff.1 hrest
    have hsame : importBindings resolve source (before ++ blanks)
        = importBindings resolve source before := by
      rw [importBindings, List.filterMap_append, List.filterMap_eq_nil_iff.2 hblanks,
        List.append_nil, importBindings]
    obtain ⟨b, hb, rfl⟩ := hx.resolve_left (by simp)
    obtain ⟨j, hj, hjx, -⟩ := mem_importBindings_iff.1 hb
    refine ⟨before ++ blanks, i, after, by simp, (entry_eq_some_iff.1 hi).1,
      ⟨j, List.mem_append_left _ hj, hjx⟩, ?_⟩
    rw [← collision?_importBindings_eq_none_iff, hsame]
    exact hnone
  · rintro ⟨before, i, after, rfl, hi, ⟨j, hj, hjx⟩, honce⟩
    have hmem := (mem_importBindings_iff (b := (x, j.path.value source))).2 ⟨j, hj, hjx, rfl⟩
    refine ⟨importBindings resolve source before, i.path.value source,
      importBindings resolve source after, ?_, collision?_importBindings_eq_none_iff.2 honce,
      .inr ⟨_, hmem, rfl⟩⟩
    simp [importBindings, ImportSpec.binds_iff.1 hi]

theorem not_boundOnce_iff :
    ¬ BoundOnce resolve source imports ↔ ∃ x, RepeatsFirst resolve source imports x := by
  rw [← collision?_importBindings_eq_none_iff, ← ne_eq, Option.ne_none_iff_exists']
  simp only [collision?_importBindings_eq_some_iff]

/-- In a table without repetitions each entry is the one that is looked up. -/
theorem lookup_eq_some_iff {bindings : Bindings}
    (h : bindings.Pairwise fun a b => a.1 ≠ b.1) :
    bindings.lookup x = some path ↔ (x, path) ∈ bindings := by
  rw [List.lookup_eq_some_iff]
  constructor
  · rintro ⟨before, after, rfl, -⟩
    simp
  · intro hmem
    obtain ⟨before, after, rfl⟩ := List.append_of_mem hmem
    refine ⟨before, after, rfl, fun b hb => ?_⟩
    have hne := (List.pairwise_append.1 h).2.2 b hb (x, path) (by simp)
    simpa using Ne.symm hne

theorem bindImports_eq_error_iff : bindImports resolve source imports = .error x ↔
    RepeatsFirst resolve source imports x := by
  rw [← collision?_importBindings_eq_some_iff, bindImports]
  split <;> simp_all

theorem bindImports_eq_ok_iff {table : Bindings} :
    bindImports resolve source imports = .ok table ↔
      BoundOnce resolve source imports ∧ importBindings resolve source imports = table := by
  rw [← collision?_importBindings_eq_none_iff, bindImports]
  split <;> simp_all

theorem lookup_of_bindImports {table : Bindings}
    (h : bindImports resolve source imports = .ok table) :
    table.lookup x = some path ↔
      ∃ i ∈ imports, i.Binds resolve source x ∧ i.path.value source = path := by
  obtain ⟨honce, rfl⟩ := bindImports_eq_ok_iff.1 h
  rw [lookup_eq_some_iff (pairwise_importBindings_iff.2 honce), mem_importBindings_iff]

end

/-- The imports of a file stand in its source in their order. -/
theorem imports_inOrder {source : String} {file : File} {made : Counts}
    (h : File.ofSource source = .ok (file, made)) :
    file.imports.Pairwise fun i j => i.path.span.stop ≤ j.path.span.start := by
  obtain ⟨run, hrun, hpaths⟩ := spec_ofSource h LexedText.file_paths
  refine hpaths.pairwise ?_
  rintro run after i j hstretch ⟨l, hl, hspan, -⟩ ⟨part, hpart, m, hm, hspan', -⟩
  have hordered := (LexedText.ofSource source).pairwise.sublist (hstretch.trans hrun).sublist
  rw [hspan, hspan']
  exact (List.pairwise_append.1 hordered).2.2 l hl m (hpart.subset hm)

/-- A file fails over its imports just when two of them bind one identifier, with the first that
is bound again, and then its types are not looked at. Else the types are converted under a table
that maps what each import binds to its path, and nothing else. -/
theorem imports_bind_identifiers_once (resolve : Resolver) (name source importPath : String)
    (file : File) :
    ((∃ label x, FileModel.ofFile resolve name source importPath file
        = .error (.collision label x)) ↔ ¬ BoundOnce resolve source file.imports) ∧
    (∀ label x, FileModel.ofFile resolve name source importPath file
        = .error (.collision label x) ↔
      label = name ∧ RepeatsFirst resolve source file.imports x) ∧
    (BoundOnce resolve source file.imports ↔
      ∃ table, bindImports resolve source file.imports = .ok table ∧
        (∀ x path, table.lookup x = some path ↔
          ∃ i ∈ file.imports, i.Binds resolve source x ∧ i.path.value source = path) ∧
        FileModel.ofFile resolve name source importPath file
          = (file.model ⟨source, table, importPath⟩).mapError
            fun e => .refused (placeIn name source e.span) e.fault) ∧
    ∀ made, File.ofSource source = .ok (file, made) →
      FileModel.ofSource resolve name source importPath
          = FileModel.ofFile resolve name source importPath file ∧
        file.imports.Pairwise fun i j => i.path.span.stop ≤ j.path.span.start := by
  have hfirst : ∀ label x, FileModel.ofFile resolve name source importPath file
      = .error (.collision label x) ↔
        label = name ∧ RepeatsFirst resolve source file.imports x := by
    intro label x
    rw [← bindImports_eq_error_iff]
    rcases hbind : bindImports resolve source file.imports with y | table
    · simp [FileModel.ofFile_of_collision hbind, eq_comm]
    · rw [FileModel.ofFile_of_bound hbind]
      split <;> simp
  refine ⟨?_, hfirst, ⟨fun honce => ?_, ?_⟩, fun made hfile => ⟨?_, ?_⟩⟩
  · rw [not_boundOnce_iff]
    simp only [hfirst, exists_and_left, exists_eq_left]
  · have hbind := bindImports_eq_ok_iff.2 ⟨honce, rfl⟩
    refine ⟨_, hbind, fun x path => lookup_of_bindImports hbind, ?_⟩
    simp only [FileModel.ofFile, hbind]
    cases file.model ⟨source, importBindings resolve source file.imports, importPath⟩ <;> rfl
  · rintro ⟨table, hbind, -⟩
    exact (bindImports_eq_ok_iff.1 hbind).1
  · simp [FileModel.ofSource, readFile, hfile, bind, Except.bind]
  · exact imports_inOrder hfile

def clashingImports : String :=
  "package p\nimport _ \"x\"\nimport \"gopkg.in/x.v2\"\nimport x \"b\"\n"
    ++ "type I interface { M(q.T) }\n"

/-- A name like the one that is guessed for an earlier path. -/
theorem clashingImports_collide : ∃ file made, File.ofSource clashingImports = .ok (file, made) ∧
    RepeatsFirst (fun _ => none) clashingImports file.imports "x" ∧
    FileModel.ofSource (fun _ => none) "p.go" clashingImports "p"
      = .error (.collision "p.go" "x") := by
  have hnames : (File.ofSource clashingImports).toOption.map (·.1.imports.length) = some 3 := by
    decide +kernel
  have hcollide : (FileModel.ofSource (fun _ => none) "p.go" clashingImports "p").map (fun _ => ())
      = .error (.collision "p.go" "x") := by decide +kernel
  rcases hfile : File.ofSource clashingImports with e | ⟨file, made⟩
  · rw [hfile] at hnames
    cases hnames
  rcases hmodel : FileModel.ofSource (fun _ => none) "p.go" clashingImports "p" with e | m <;>
    rw [hmodel] at hcollide
  · obtain rfl : e = .collision "p.go" "x" := Except.error.inj hcollide
    obtain ⟨-, hfirst, -, hsource⟩ :=
      imports_bind_identifiers_once (fun _ => none) "p.go" clashingImports "p" file
    have hrepeats := (hfirst _ _).1 ((hsource made hfile).1.symm.trans hmodel)
    exact ⟨file, made, rfl, hrepeats.2, rfl⟩
  · cases hcollide

end GoIface
