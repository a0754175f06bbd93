import GoIface.Tree.Grouping

/-!
# Entries in runs

The entries of a parameter list fall into runs, each of them entries without type and then one with
a type, and into what comes after the last run (`exists_runs`). Each run becomes one parameter with
all the names of the run, and each name that is left over one without name, of which it is the
type. So no name is lost and none is there twice. The list is refused if some of these parameters
have names and some have none, at the first of the latter (`grouping_loses_nothing`).
-/

namespace GoIface

/-- Entries without type and the entry with a type after them. -/
structure EntryRun where
  waiting : List (ParamEntry TypeNode)
  last : ParamEntry TypeNode
  type : TypeNode
  untyped : ∀ e ∈ waiting, e.type = none
  typed : last.type = some type

namespace EntryRun

def entries (r : EntryRun) : List (ParamEntry TypeNode) := r.waiting ++ [r.last]

def names (r : EntryRun) : List Ident := r.entries.flatMap (·.names)

/-- From the start of the first entry to the end of the last. -/
def span (r : EntryRun) : Span := ⟨(r.waiting.headD r.last).span.start, r.last.span.stop⟩

def field (serial : Nat) (r : EntryRun) : Field TypeNode :=
  ⟨serial, r.span, r.names, r.last.ellipsis, r.type, none, false⟩

end EntryRun

/-- The parameters of the runs and of the names left over, made when `made` were made before. -/
def fieldsOfRuns (made : Counts) (runs : List EntryRun) (left : List Ident) :
    List (Field TypeNode) :=
  runs.mapIdx (fun i r => r.field (made.fields + i))
    ++ left.mapIdx fun i x => ⟨made.fields + runs.length + i, x.span, [], none,
      .mk (made.types + i) x.span (.named none x []), none, false⟩

/-- The identifier that the type of a parameter consists of. -/
def Field.bareType? (f : Field TypeNode) : Option Ident :=
  match f.type with
  | .mk _ _ (.named none x []) => some x
  | _ => none

/-! ## Runs -/

theorem exists_runs : ∀ es : List (ParamEntry TypeNode),
    ∃ (runs : List EntryRun) (left : List (ParamEntry TypeNode)),
    es = runs.flatMap EntryRun.entries ++ left ∧ ∀ e ∈ left, e.type = none
  | [] => ⟨[], [], rfl, by simp⟩
  | e :: es => by
    obtain ⟨runs, left, rfl, hleft⟩ := exists_runs es
    cases htype : e.type with
    | some t =>
      exact ⟨⟨[], e, t, by simp, htype⟩ :: runs, left, rfl, hleft⟩
    | none =>
      -- an entry without type joins the run that comes next
      cases runs with
      | nil => exact ⟨[], e :: left, rfl, List.forall_mem_cons.2 ⟨htype, hleft⟩⟩
      | cons r runs =>
        exact ⟨⟨e :: r.waiting, r.last, r.type, List.forall_mem_cons.2 ⟨htype, r.untyped⟩,
          r.typed⟩ :: runs, left, rfl, hleft⟩

theorem filter_isSome_eq_nil {es : List (ParamEntry TypeNode)} (h : ∀ e ∈ es, e.type = none) :
    es.filter (·.type.isSome) = [] :=
  List.filter_eq_nil_iff.2 fun e he => by simp [h e he]

theorem filter_isSome_runs (runs : List EntryRun) :
    (runs.flatMap EntryRun.entries).filter (·.type.isSome) = runs.map EntryRun.last := by
  induction runs with
  | nil => rfl
  | cons r runs ih =>
    rw [List.flatMap_cons, List.filter_append, ih, EntryRun.entries, List.filter_append,
      filter_isSome_eq_nil r.untyped]
    simp [r.typed]

/-! ## Groups -/

/-- What is grouped for a run. -/
def EntryRun.group (r : EntryRun) : ParamGroup TypeNode :=
  ⟨r.waiting.flatMap (·.names), r.last.names, r.last.ellipsis, r.type, r.span.start, r.last.span⟩

theorem EntryRun.field_group (r : EntryRun) (serial : Nat) :
    r.group.field serial = r.field serial := by
  simp [group, ParamGroup.field, ParamGroup.allNames, field, names, entries, span]

/-- Where the first name that waits starts, once some more entries without type are read. -/
def startAfter (waiting : List Ident) (start : Option Nat) (es : List (ParamEntry TypeNode)) :
    Option Nat :=
  if waiting.isEmpty then (es.head?.map (·.span.start)).or start else start

theorem groupEntries_untyped : ∀ (us : List (ParamEntry TypeNode)) {es : List (ParamEntry TypeNode)}
    {waiting : List Ident} {start : Option Nat}, (∀ e ∈ us, e.type = none) →
      (∀ e ∈ us, e.names ≠ []) →
      groupEntries waiting start (us ++ es)
        = groupEntries (waiting ++ us.flatMap (·.names)) (startAfter waiting start us) es
  | [], es, waiting, start, _, _ => by simp [startAfter]
  | u :: us, es, waiting, start, htype, hnames => by
    obtain ⟨hu, htype⟩ := List.forall_mem_cons.1 htype
    obtain ⟨hname, hnames⟩ := List.forall_mem_cons.1 hnames
    rw [List.cons_append, groupEntries, hu, groupEntries_untyped us htype hnames]
    have hne : (waiting ++ u.names).isEmpty = false := by simp [hname]
    simp [startAfter, hne, List.append_assoc]

theorem groupEntries_run (r : EntryRun) (hnames : ∀ e ∈ r.waiting, e.names ≠ [])
    (es : List (ParamEntry TypeNode)) : groupEntries [] none (r.entries ++ es)
      = (groupEntries [] none es).map (r.group :: ·) id := by
  have hstart : (startAfter [] none r.waiting).getD r.last.span.start = r.span.start := by
    unfold startAfter EntryRun.span
    cases r.waiting <;> rfl
  rw [EntryRun.entries, List.append_assoc, groupEntries_untyped r.waiting r.untyped hnames,
    List.singleton_append, groupEntries, r.typed]
  simp only [List.nil_append, hstart]
  rfl

theorem groupEntries_runs {left : List (ParamEntry TypeNode)} (hleft : ∀ e ∈ left, e.type = none) :
    ∀ {runs : List EntryRun}, (∀ e ∈ runs.flatMap EntryRun.entries ++ left,
      e.type = none → e.names ≠ []) →
      groupEntries [] none (runs.flatMap EntryRun.entries ++ left)
        = (runs.map EntryRun.group, left.flatMap (·.names))
  | [], hnames => by
    have h := @groupEntries_untyped left [] [] none hleft fun e he => hnames e he (hleft e he)
    rw [List.append_nil] at h
    simpa [groupEntries] using h
  | r :: runs, hnames => by
    rw [List.flatMap_cons, List.append_assoc] at hnames ⊢
    obtain ⟨hrun, hrest⟩ := List.forall_mem_append.1 hnames
    rw [groupEntries_run r (fun e he => hrun e (List.mem_append_left _ he) (r.untyped e he)),
      groupEntries_runs hleft hrest]
    rfl

/-! ## Parameters -/

/-- A run without names is an entry by itself. -/
theorem EntryRun.span_of_names_eq_nil {r : EntryRun} (hnames : ∀ e ∈ r.waiting, e.names ≠ [])
    (h : r.names = []) : r.span = r.last.span := by
  have hwaiting : r.waiting = [] := by
    refine List.eq_nil_iff_forall_not_mem.2 fun e he => hnames e he ?_
    exact List.flatMap_eq_nil_iff.1 h e (List.mem_append_left _ he)
  simp [span, hwaiting]

section

variable (made : Counts) (runs : List EntryRun) (left : List Ident)

/-- The names and the spans of the parameters. -/
theorem map_fieldsOfRuns : (fieldsOfRuns made runs left).map (fun f => (f.names, f.span))
    = runs.map (fun r => (r.names, r.span)) ++ left.map fun x => ([], x.span) := by
  rw [fieldsOfRuns, List.map_append]
  congr 1 <;>
  exact List.ext_getElem (by simp) fun i _ _ => by simp [EntryRun.field]

theorem any_fieldsOfRuns : (fieldsOfRuns made runs left).any (fun f => !f.names.isEmpty)
    = runs.any fun r => !r.names.isEmpty := by
  have hany : (fieldsOfRuns made runs left).any (fun f => !f.names.isEmpty)
      = ((fieldsOfRuns made runs left).map fun f => (f.names, f.span)).any
        fun p => !p.1.isEmpty := by
    simp [Function.comp_def]
  rw [hany, map_fieldsOfRuns]
  simp [Function.comp_def]

/-- The spans of the parameters without names. -/
theorem unnamed_fieldsOfRuns :
    ((fieldsOfRuns made runs left).filter (·.names.isEmpty)).map (·.span)
      = (runs.filter (·.names.isEmpty)).map EntryRun.span ++ left.map (·.span) := by
  have hfilter : ((fieldsOfRuns made runs left).filter (·.names.isEmpty)).map (·.span)
      = (((fieldsOfRuns made runs left).map fun f => (f.names, f.span)).filter
        (·.1.isEmpty)).map (·.2) := by
    simp [List.filter_map, Function.comp_def]
  have hleft : left.filter (fun _ => true) = left := List.filter_eq_self.2 fun _ _ => rfl
  rw [hfilter, map_fieldsOfRuns]
  simp [List.filter_map, Function.comp_def, hleft]

/-- A list is mixed at the first of its parameters without names. -/
theorem mixedAt?_runs (hnames : ∀ r ∈ runs, ∀ e ∈ r.waiting, e.names ≠ []) :
    mixedAt? (runs.map EntryRun.group) left
      = if (fieldsOfRuns made runs left).any (fun f => !f.names.isEmpty) then
          ((fieldsOfRuns made runs left).find? (·.names.isEmpty)).map (·.span)
        else none := by
  have hallNames (r : EntryRun) : r.group.allNames = r.names := by
    simp [EntryRun.group, ParamGroup.allNames, EntryRun.names, EntryRun.entries]
  have hspans : (runs.filter (·.names.isEmpty)).map (·.group.span)
      = (runs.filter (·.names.isEmpty)).map EntryRun.span := by
    refine List.map_congr_left fun r hr => ?_
    obtain ⟨hr, hempty⟩ := List.mem_filter.1 hr
    exact (EntryRun.span_of_names_eq_nil (hnames r hr) (List.isEmpty_iff.1 hempty)).symm
  rw [any_fieldsOfRuns, ← List.head?_filter, ← List.head?_map, unnamed_fieldsOfRuns, ← hspans]
  simp [mixedAt?, hallNames, List.filter_map, Function.comp_def]

/-- Each name is that of a parameter, or the type of one. -/
theorem names_fieldsOfRuns :
    ((fieldsOfRuns made runs left).take runs.length).flatMap (·.names)
        ++ ((fieldsOfRuns made runs left).drop runs.length).filterMap Field.bareType?
      = runs.flatMap EntryRun.names ++ left := by
  have hlength : (runs.mapIdx fun i r => r.field (made.fields + i)).length = runs.length := by simp
  have hnames : (runs.mapIdx fun i r => r.field (made.fields + i)).map (·.names)
      = runs.map EntryRun.names :=
    List.ext_getElem (by simp) fun i _ _ => by simp [EntryRun.field]
  have htypes : (left.mapIdx fun i x => (⟨made.fields + runs.length + i, x.span, [], none,
      .mk (made.types + i) x.span (.named none x []), none, false⟩ : Field TypeNode)).map
        Field.bareType? = left.map some :=
    List.ext_getElem (by simp) fun i _ _ => by simp [Field.bareType?]
  have hleft := congrArg (List.filterMap id) htypes
  rw [List.filterMap_map, List.filterMap_map, Function.id_comp, Function.id_comp,
    List.filterMap_some] at hleft
  rw [fieldsOfRuns, List.take_left' hlength, List.drop_left' hlength, List.flatMap_def, hnames,
    ← List.flatMap_def, hleft]

end

/-- The counts after the parameters are made. -/
def madeAfterRuns (made : Counts) (runs : List EntryRun) (left : List Ident) : Counts :=
  { made with
    fields := made.fields + (runs.length + left.length)
    types := made.types + left.length }

theorem resolveEntries_runs {runs : List EntryRun} {left : List (ParamEntry TypeNode)}
    (hleft : ∀ e ∈ left, e.type = none)
    (hes : ∀ e ∈ runs.flatMap EntryRun.entries ++ left, e.type = none → e.names ≠ [])
    (made : Counts) :
    resolveEntries (runs.flatMap EntryRun.entries ++ left) made
      = match mixedAt? (runs.map EntryRun.group) (left.flatMap (·.names)) with
        | some span => .error ⟨.mixedParameters, span⟩
        | none => .ok (fieldsOfRuns made runs (left.flatMap (·.names)),
            madeAfterRuns made runs (left.flatMap (·.names))) := by
  have hfields : (runs.map EntryRun.group).mapIdx (fun i g => g.field (made.fields + i))
      = runs.mapIdx fun i r => r.field (made.fields + i) :=
    List.ext_getElem (by simp) fun i _ _ => by simp [EntryRun.field_group]
  rw [resolveEntries, groupEntries_runs hleft hes]
  simp only [hfields, List.length_map, List.length_append, List.length_mapIdx]
  rfl

/-- From the entries of a list one parameter is made for each run, with the names of the run, its
type and where it stands, and then one for each name that is left over, which is the type. No name
is lost, the nodes made are new and nothing else changes. The list is only refused if there would
be parameters with names and others without, and then at the first of these. -/
theorem grouping_loses_nothing {es : List (ParamEntry TypeNode)}
    (hes : ∀ e ∈ es, e.type = none → e.names ≠ []) (c : Cursor) :
    ∃ (runs : List EntryRun) (left : List (ParamEntry TypeNode)),
      (es = runs.flatMap EntryRun.entries ++ left ∧ (∀ e ∈ left, e.type = none) ∧
        runs.map EntryRun.last = es.filter (·.type.isSome)) ∧
      let fields := fieldsOfRuns c.made runs (left.flatMap (·.names))
      ((fields.take runs.length).flatMap (·.names)
          ++ (fields.drop runs.length).filterMap Field.bareType? = es.flatMap (·.names)) ∧
      (∀ fields' c', Parse.resolve es c = .ok (fields', c') ↔
        ¬ ((∃ f ∈ fields, f.names ≠ []) ∧ ∃ f ∈ fields, f.names = []) ∧ fields' = fields ∧
          c' = { c with made := madeAfterRuns c.made runs (left.flatMap (·.names)) }) ∧
      ∀ e, Parse.resolve es c = .error e ↔ (∃ f ∈ fields, f.names ≠ []) ∧
        ∃ f, fields.find? (·.names.isEmpty) = some f ∧ e = ⟨.mixedParameters, f.span⟩ := by
  obtain ⟨runs, left, rfl, hleft⟩ := exists_runs es
  refine ⟨runs, left, ⟨rfl, hleft, ?_⟩, ?_, ?_⟩
  · rw [List.filter_append, filter_isSome_runs, filter_isSome_eq_nil hleft, List.append_nil]
  · rw [names_fieldsOfRuns, List.flatMap_append, List.flatMap_assoc]
    rfl
  have hwaiting : ∀ r ∈ runs, ∀ e ∈ r.waiting, e.names ≠ [] := fun r hr e he =>
    hes e (List.mem_append_left _ (List.mem_flatMap.2 ⟨r, hr, List.mem_append_left _ he⟩))
      (r.untyped e he)
  have hmixed := mixedAt?_runs c.made runs (left.flatMap (·.names)) hwaiting
  have hresolve := resolveEntries_runs hleft hes c.made
  generalize fieldsOfRuns c.made runs (left.flatMap (·.names)) = fields at *
  have hnamed : fields.any (fun f => !f.names.isEmpty) = true ↔ ∃ f ∈ fields, f.names ≠ [] := by
    simp
  have hunnamed : (fields.find? (·.names.isEmpty)).isSome = true ↔ ∃ f ∈ fields, f.names = [] := by
    simp
  rw [Parse.resolve, hresolve, hmixed, ← hnamed, ← hunnamed]
  cases fields.any fun f => !f.names.isEmpty with
  | false => simp [@eq_comm _ fields, @eq_comm _ (_ : Cursor)]
  | true =>
    cases fields.find? (·.names.isEmpty) with
    | none => simp [@eq_comm _ fields, @eq_comm _ (_ : Cursor)]
    | some f => simp [@eq_comm (Located ParseFault) _ ⟨_, f.span⟩]

/-- Two names share a type that takes more arguments, and the run starts at the first of them. -/
theorem names_before_dots_share_type :
    let x : Ident := ⟨"x", ⟨1, 2⟩⟩
    let y : Ident := ⟨"y", ⟨4, 5⟩⟩
    let int : TypeNode := .mk 3 ⟨9, 12⟩ (.named none ⟨"int", ⟨9, 12⟩⟩ [])
    let es : List (ParamEntry TypeNode) :=
      [⟨[x], none, none, ⟨1, 2⟩⟩, ⟨[y], some ⟨6, 9⟩, some int, ⟨4, 12⟩⟩]
    let c : Cursor := ⟨[], ⟨9, 12⟩, 20, ⟨0, 0, 4, 2, 1⟩⟩
    (∀ e ∈ es, e.type = none → e.names ≠ []) ∧
      Parse.resolve es c = .ok ([⟨2, ⟨1, 12⟩, [x, y], some ⟨6, 9⟩, int, none, false⟩],
        { c with made := ⟨0, 0, 4, 3, 1⟩ }) ∧
      ∃ (runs : List EntryRun) (left : List (ParamEntry TypeNode)),
        es = runs.flatMap EntryRun.entries ++ left ∧
        fieldsOfRuns c.made runs (left.flatMap (·.names))
          = [⟨2, ⟨1, 12⟩, [x, y], some ⟨6, 9⟩, int, none, false⟩] := by
  intro x y int es c
  have hes : ∀ e ∈ es, e.type = none → e.names ≠ [] := by simp [es]
  have hok : Parse.resolve es c = .ok ([⟨2, ⟨1, 12⟩, [x, y], some ⟨6, 9⟩, int, none, false⟩],
      { c with made := ⟨0, 0, 4, 3, 1⟩ }) := rfl
  obtain ⟨runs, left, ⟨hruns, -, -⟩, -, hiff, -⟩ := grouping_loses_nothing hes c
  exact ⟨hes, hok, runs, left, hruns, ((hiff _ _).1 hok).2.1.symm⟩

end GoIface
