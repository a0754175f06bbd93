import Mathlib.Data.List.DropRight
import Mathlib.Data.List.Infix
import GoIface.Files.Path
import GoIface.Proofs.Cuts

/-!
# Steps of paths

A path from the root says no more than its steps: joining a path to it appends steps
(`steps_join`), going up drops the last one (`parent?_cases`), so its ancestors are the paths of all
beginnings of its steps, the longest first (`map_steps_ancestors`). Making a path absolute puts its
steps after those of the working directory (`steps_absolute`). A path that lies below another is
told by the names in between (`below?_eq_some_iff`).
-/

namespace GoIface

namespace Path

/-! ## Stretches -/

theorem stretches_eq (p : String) : stretches p = (p.toList.splitOn '/').map String.ofList := by
  rw [stretches, splitAt_slash]

theorem stretches_ne_nil (p : String) : stretches p ≠ [] := by
  simp [stretches_eq]

theorem stretches_slash (p q : String) :
    stretches (p ++ "/" ++ q) = stretches p ++ stretches q := by
  simp [stretches_eq, List.splitOn_append_cons_self]

theorem stretches_of_noSlash {s : String} (h : '/' ∉ s.toList) : stretches s = [s] := by
  simp [stretches_eq, List.splitOn_eq_singleton h]

theorem noSlash_of_mem_stretches {p s : String} (h : s ∈ stretches p) : '/' ∉ s.toList := by
  obtain ⟨part, hpart, rfl⟩ := List.mem_map.1 h
  rw [String.toList_ofList]
  exact fun hslash => absurd (not_of_mem_splitAt hpart _ hslash) (by decide)

theorem stretches_ofStretches {ss : List String} (hss : ss ≠ [])
    (h : ∀ s ∈ ss, '/' ∉ s.toList) : stretches (ofStretches ss) = ss := by
  rw [stretches_eq, ofStretches, String.toList_intercalate]
  have hsplit : (['/'].intercalate (ss.map String.toList)).splitOn '/' = ss.map String.toList :=
    List.splitOn_intercalate '/' (by simpa using h) (by simpa using hss)
  rw [show "/".toList = ['/'] from rfl, hsplit, List.map_map]
  simp [Function.comp_def]

/-- A stretch that leads down to an entry of this name. -/
def IsName (s : String) : Prop := isIdle s = false ∧ s ≠ ".." ∧ '/' ∉ s.toList

theorem step?_of_isName {s : String} (h : IsName s) : step? s = some (.down s) := by
  simp [step?, h.1, h.2.1]

theorem isName_of_step? {p s name : String} (hs : s ∈ stretches p)
    (h : step? s = some (.down name)) : IsName name := by
  unfold step? at h
  split_ifs at h with hidle hup
  · cases h
  · obtain rfl : s = name := by simpa using h
    exact ⟨by simpa using hidle, by simpa using hup, noSlash_of_mem_stretches hs⟩

theorem segments_eq (p : String) : segments p = (stretches p).filter (!·.isEmpty) := by
  rw [segments, stretches, List.filter_map]
  congr 2
  funext cs
  rcases cs with _ | ⟨c, cs⟩ <;> simp [String.isEmpty_eq_false_iff, ← String.toList_eq_nil_iff]

theorem segments_ofStretches {names : List String} (h : ∀ n ∈ names, IsName n) :
    segments (ofStretches names) = names := by
  rcases eq_or_ne names [] with rfl | hne
  · rfl
  rw [segments_eq, stretches_ofStretches hne fun n hn => (h n hn).2.2, List.filter_eq_self]
  intro n hn
  have hidle := (h n hn).1
  rw [isIdle, Bool.or_eq_false_iff] at hidle
  simpa using hidle.1

/-! ## Steps -/

variable {p q cwd : String}

theorem isAbsolute_iff : isAbsolute p = true ↔ ∃ q, p = "/" ++ q := by
  rw [isAbsolute, beq_iff_eq, List.head?_eq_some_iff]
  constructor
  · rintro ⟨cs, hcs⟩
    exact ⟨String.ofList cs, by rw [← String.toList_inj, hcs]; simp⟩
  · rintro ⟨q, rfl⟩
    exact ⟨q.toList, by simp⟩

theorem stretches_of_isAbsolute (hp : isAbsolute p = true) :
    ∃ ss, stretches p = "" :: ss ∧ ss ≠ [] := by
  obtain ⟨q, rfl⟩ := isAbsolute_iff.1 hp
  have hsplit := stretches_slash "" q
  rw [String.empty_append, show stretches "" = [""] from rfl] at hsplit
  exact ⟨stretches q, hsplit, stretches_ne_nil q⟩

theorem steps_of_isAbsolute (hp : isAbsolute p = true) :
    steps p = .root :: (stretches p).tail.filterMap step? := by
  obtain ⟨ss, hss, -⟩ := stretches_of_isAbsolute hp
  simp [steps, hss, hp]

theorem isName_of_mem_steps {name : String} (hp : isAbsolute p = true)
    (h : .down name ∈ steps p) : IsName name := by
  rw [steps_of_isAbsolute hp, List.mem_cons] at h
  rcases h with h | h
  · cases h
  · obtain ⟨s, hs, hstep⟩ := List.mem_filterMap.1 h
    exact isName_of_step? (List.mem_of_mem_tail hs) hstep

theorem text?_of_step? (s : String) :
    (step? s).bind Step.text? = if isIdle s then none else some s := by
  rw [step?]
  split_ifs with hidle hup
  · rfl
  · rw [beq_iff_eq.1 hup]
    rfl
  · rfl

theorem filterMap_text? (ss : List String) :
    (ss.filterMap step?).filterMap Step.text? = ss.filter (!isIdle ·) := by
  rw [List.filterMap_filterMap, ← List.filterMap_eq_filter]
  congr 1
  funext s
  rw [text?_of_step?]
  rcases hs : isIdle s <;> simp [Option.guard, hs]

theorem filterMap_step?_filter (ss : List String) :
    (ss.filter (!isIdle ·)).filterMap step? = ss.filterMap step? := by
  rw [← List.filterMap_eq_filter, List.filterMap_filterMap]
  congr 1
  funext s
  rcases hs : isIdle s <;> simp [step?, hs, Option.guard]

/-- The texts of the steps are the stretches that lead somewhere. -/
theorem texts_steps (p : String) :
    (steps p).filterMap Step.text? = (stretches p).filter (!isIdle ·) := by
  obtain ⟨s, ss, hss⟩ := List.exists_cons_of_ne_nil (stretches_ne_nil p)
  rw [← filterMap_text?, steps, hss]
  by_cases hdot : s = "."
  · subst hdot
    rfl
  rcases habs : isAbsolute p with _ | _
  · rcases hstep : step? s <;> simp [hstep]
  · obtain ⟨_, habsolute, -⟩ := stretches_of_isAbsolute habs
    obtain rfl : s = "" := by
      rw [hss] at habsolute
      exact (List.cons.inj habsolute).1
    rfl

/-! ## Joining -/

/-- Joining puts the stretches of one path after those of the other, less an empty one at its
end. -/
theorem tail_stretches_join (hp : isAbsolute p = true) (hq : isAbsolute q = false) :
    ∃ ss, (stretches (join p q)).tail = ss ++ stretches q ∧
      ((stretches p).tail = ss ∨ (stretches p).tail = ss ++ [""]) := by
  have hne : p ≠ "" := by
    rintro rfl
    simp [isAbsolute] at hp
  have hempty : p.isEmpty = false := String.isEmpty_eq_false_iff.2 hne
  rcases hend : endsInSlash p with _ | _
  · refine ⟨(stretches p).tail, ?_, .inl rfl⟩
    rw [join, hq, hempty, hend, ← List.tail_append_of_ne_nil (stretches_ne_nil p),
      ← stretches_slash]
    rfl
  · obtain ⟨xs, hxs⟩ := List.getLast?_eq_some_iff.1 (beq_iff_eq.1 hend)
    obtain rfl : p = String.ofList xs ++ "/" := by
      rw [← String.toList_inj, hxs]
      simp
    refine ⟨(stretches (String.ofList xs)).tail, ?_, .inr ?_⟩
    · rw [join, hq, hempty, hend, ← List.tail_append_of_ne_nil (stretches_ne_nil _),
        ← stretches_slash]
      rfl
    · have hsplit := stretches_slash (String.ofList xs) ""
      rw [String.append_empty] at hsplit
      rw [hsplit, List.tail_append_of_ne_nil (stretches_ne_nil _)]
      rfl

theorem exists_join_eq_append (p : String) : ∃ start,
    (start.isEmpty || endsInSlash start) = true ∧
      ∀ q, isAbsolute q = false → join p q = start ++ q := by
  by_cases hp : (p.isEmpty || endsInSlash p) = true
  · exact ⟨p, hp, fun q hq => by simp [join, hq, hp]⟩
  · exact ⟨p ++ "/", by simp [endsInSlash], fun q hq => by simp [join, hq, hp]⟩

/-- Two paths are joined one by one or as one. -/
theorem join_join {r : String} (hq : isAbsolute q = false) :
    join (join p q) r = join p (join q r) := by
  rcases hr : isAbsolute r with _ | _
  swap
  · simp [join, hr]
  obtain ⟨start, hstart, happend⟩ := exists_join_eq_append p
  rcases eq_or_ne q "" with rfl | hne
  · have hempty : join "" r = r := by simp [join, hr]
    rw [hempty, happend r hr, happend "" hq, String.append_empty, join, if_neg (by simp [hr]),
      if_pos hstart]
  · have hhead (after : String) : isAbsolute (q ++ after) = false := by
      rw [isAbsolute, String.toList_append, List.head?_append_of_ne_nil _ (by simpa using hne)]
      exact hq
    have hend : endsInSlash (start ++ q) = endsInSlash q := by
      rw [endsInSlash, String.toList_append, List.getLast?_append_of_ne_nil _ (by simpa using hne)]
      rfl
    have hjoin : join q r = q ++ if endsInSlash q then r else "/" ++ r := by
      rw [join, if_neg (by simp [hr]), String.isEmpty_eq_false_iff.2 hne, Bool.false_or]
      split_ifs
      · rfl
      · exact String.append_assoc
    rw [hjoin, happend _ (hhead _), happend q hq, join, if_neg (by simp [hr]), hend]
    have hsome : (start ++ q).isEmpty = false := by simp [String.isEmpty_eq_false_iff, hne]
    rw [hsome, Bool.false_or]
    split_ifs <;> simp [String.append_assoc]

theorem isAbsolute_append (hp : isAbsolute p = true) (q : String) :
    isAbsolute (p ++ q) = true := by
  obtain ⟨r, rfl⟩ := isAbsolute_iff.1 hp
  exact isAbsolute_iff.2 ⟨r ++ q, String.append_assoc⟩

theorem isAbsolute_join (hp : isAbsolute p = true) (q : String) :
    isAbsolute (join p q) = true := by
  unfold join
  split_ifs with hq hend
  · exact hq
  · exact isAbsolute_append hp q
  · rw [String.append_assoc]
    exact isAbsolute_append hp _

theorem steps_join (hp : isAbsolute p = true) (hq : isAbsolute q = false) :
    steps (join p q) = steps p ++ (stretches q).filterMap step? := by
  obtain ⟨ss, hjoin, hss⟩ := tail_stretches_join hp hq
  rw [steps_of_isAbsolute (isAbsolute_join hp q), steps_of_isAbsolute hp, hjoin]
  rcases hss with hss | hss <;> simp [hss, step?, isIdle]

theorem steps_append_slash (hp : isAbsolute p = true) : steps (p ++ "/") = steps p := by
  have hsplit : stretches (p ++ "/") = stretches p ++ [""] := by
    have hsplit := stretches_slash p ""
    rwa [String.append_empty] at hsplit
  rw [steps_of_isAbsolute (isAbsolute_append hp _), steps_of_isAbsolute hp, hsplit,
    List.tail_append_of_ne_nil (stretches_ne_nil p), List.filterMap_append]
  simp [step?, isIdle]

theorem isAbsolute_of_noSlash {s : String} (h : '/' ∉ s.toList) : isAbsolute s = false := by
  rcases hs : isAbsolute s with _ | _
  · rfl
  · obtain ⟨q, rfl⟩ := isAbsolute_iff.1 hs
    simp at h

theorem steps_foldl_join {ss : List String} (hp : isAbsolute p = true)
    (hss : ∀ s ∈ ss, '/' ∉ s.toList) :
    isAbsolute (ss.foldl join p) = true ∧
      steps (ss.foldl join p) = steps p ++ ss.filterMap step? := by
  induction ss generalizing p with
  | nil => simp [hp]
  | cons s ss ih =>
    obtain ⟨hs, hss⟩ := List.forall_mem_cons.1 hss
    obtain ⟨habs, hsteps⟩ := ih (isAbsolute_join hp s) hss
    rw [steps_join hp (isAbsolute_of_noSlash hs), stretches_of_noSlash hs] at hsteps
    refine ⟨habs, ?_⟩
    rw [List.foldl_cons, hsteps, List.append_assoc, ← List.filterMap_append]
    rfl

/-! ## Going up -/

theorem dropIdle_cases (ss : List String) :
    (dropIdle ss = [] ∧ ss.filterMap step? = []) ∨
      ∃ init last step, dropIdle ss = init ++ [last] ∧ step? last = some step ∧
        ss.filterMap step? = init.filterMap step? ++ [step] := by
  induction ss using List.reverseRecOn with
  | nil => exact .inl ⟨rfl, rfl⟩
  | append_singleton ss s ih =>
    have hdrop : dropIdle (ss ++ [s]) = if isIdle s then dropIdle ss else ss ++ [s] :=
      List.rdropWhile_concat isIdle ss s
    rw [hdrop, List.filterMap_append]
    split_ifs with hs
    · have hnone : [s].filterMap step? = [] := by simp [step?, hs]
      rwa [hnone, List.append_nil]
    · obtain ⟨step, hstep⟩ : ∃ step, step? s = some step := by
        rw [step?, if_neg hs]
        split_ifs <;> exact ⟨_, rfl⟩
      exact .inr ⟨ss, s, step, rfl, hstep, by simp [hstep]⟩

theorem filterMap_dropIdle (ss : List String) :
    (dropIdle ss).filterMap step? = ss.filterMap step? := by
  rcases dropIdle_cases ss with ⟨hnil, hss⟩ | ⟨init, last, step, hinit, hlast, hss⟩
  · rw [hnil, hss]
    rfl
  · rw [hinit, hss, List.filterMap_append]
    simp [hlast]

theorem parent?_of_stretches {others : List String} (h : stretches p = "" :: others) :
    parent? p = match dropIdle others with
      | [] => none
      | others => match dropIdle others.dropLast with
        | [] => some "/"
        | others => some (ofStretches ("" :: others)) := by
  rw [parent?, h]
  rfl

theorem dropIdle_subset (ss : List String) : dropIdle ss ⊆ ss :=
  (List.rdropWhile_prefix isIdle ss).subset

/-- The root has no parent, and that of any other path lacks its last step. -/
theorem parent?_cases (hp : isAbsolute p = true) :
    (parent? p = none ∧ steps p = [.root]) ∨
      ∃ q step, parent? p = some q ∧ isAbsolute q = true ∧ steps p = steps q ++ [step] := by
  obtain ⟨others, hothers, -⟩ := stretches_of_isAbsolute hp
  rw [steps_of_isAbsolute hp, parent?_of_stretches hothers, hothers, List.tail_cons]
  rcases dropIdle_cases others with ⟨hnil, hnone⟩ | ⟨init, last, step, hinit, -, hsome⟩
  · exact .inl (by simp [hnil, hnone])
  · refine .inr ?_
    have hsub : dropIdle init ⊆ others := by
      refine List.Subset.trans (dropIdle_subset init)
        (List.Subset.trans ?_ (dropIdle_subset others))
      simp [hinit]
    rw [hsome, ← filterMap_dropIdle init, hinit]
    rcases hup : dropIdle init with _ | ⟨first, rest⟩
    · exact ⟨"/", step, by simp [hup], rfl, rfl⟩
    · have hparent : stretches (ofStretches ("" :: first :: rest)) = "" :: first :: rest := by
        refine stretches_ofStretches (by simp) (List.forall_mem_cons.2 ⟨by simp, ?_⟩)
        rw [← hup]
        exact fun s hs => noSlash_of_mem_stretches (p := p)
          (hothers ▸ List.mem_cons_of_mem _ (hsub hs))
      have habs : isAbsolute (ofStretches ("" :: first :: rest)) = true := by
        rw [isAbsolute_iff]
        exact ⟨ofStretches (first :: rest), by simp [ofStretches]⟩
      refine ⟨ofStretches ("" :: first :: rest), step, by simp [hup], habs, ?_⟩
      rw [steps_of_isAbsolute habs, hparent]
      rfl

/-- The beginnings of a run of steps, the run itself first. -/
def upward (ss : List Step) : List (List Step) := ss.inits.tail.reverse

@[simp] theorem upward_nil : upward [] = [] := rfl

@[simp] theorem upward_concat (ss : List Step) (s : Step) :
    upward (ss ++ [s]) = (ss ++ [s]) :: upward ss := by
  have htail : (ss.inits ++ [ss ++ [s]]).tail = ss.inits.tail ++ [ss ++ [s]] :=
    List.tail_append_of_ne_nil (by cases ss <;> simp)
  simp [upward, List.inits_append, htail]

theorem map_steps_ancestorsWithin : ∀ {n : Nat} {p : String}, isAbsolute p = true →
    (steps p).length ≤ n + 1 → (∀ a ∈ ancestorsWithin n p, isAbsolute a = true) ∧
      (ancestorsWithin n p).map steps = upward (steps p)
  | 0, p, hp, hn => by
    rcases parent?_cases hp with ⟨-, hsteps⟩ | ⟨q, step, -, hq, hsteps⟩
    · refine ⟨by simpa [ancestorsWithin] using hp, ?_⟩
      rw [ancestorsWithin, List.map_singleton, hsteps]
      rfl
    · rw [hsteps, steps_of_isAbsolute hq] at hn
      simp at hn
  | n + 1, p, hp, hn => by
    rcases parent?_cases hp with ⟨hparent, hsteps⟩ | ⟨q, step, hparent, hq, hsteps⟩
    · refine ⟨by simpa [ancestorsWithin, hparent] using hp, ?_⟩
      rw [ancestorsWithin, hparent, hsteps]
      simp [hsteps, upward]
    · obtain ⟨habs, hmap⟩ := map_steps_ancestorsWithin (n := n) hq (by simp [hsteps] at hn; omega)
      rw [ancestorsWithin, hparent]
      refine ⟨List.forall_mem_cons.2 ⟨hp, habs⟩, ?_⟩
      rw [Option.map_some, Option.getD_some, List.map_cons, hmap, hsteps, upward_concat]

theorem length_steps_le (hp : isAbsolute p = true) :
    (steps p).length ≤ (stretches p).length := by
  obtain ⟨ss, hss, -⟩ := stretches_of_isAbsolute hp
  rw [steps_of_isAbsolute hp, hss]
  simpa using List.length_filterMap_le step? ss

theorem isAbsolute_of_mem_ancestors (hp : isAbsolute p = true) :
    ∀ a ∈ ancestors p, isAbsolute a = true :=
  (map_steps_ancestorsWithin hp ((length_steps_le hp).trans (Nat.le_succ _))).1

theorem map_steps_ancestors (hp : isAbsolute p = true) :
    (ancestors p).map steps = upward (steps p) :=
  (map_steps_ancestorsWithin hp ((length_steps_le hp).trans (Nat.le_succ _))).2

/-! ## Making absolute -/

theorem base_of_not_isAbsolute (hp : isAbsolute p = false) : base cwd p = cwd := by
  unfold base
  split <;> simp_all [isAbsolute]

theorem base_of_isAbsolute (hp : isAbsolute p = true) :
    isAbsolute (base cwd p) = true ∧ steps (base cwd p) = [.root] := by
  unfold base
  split
  · exact ⟨rfl, rfl⟩
  · exact ⟨rfl, rfl⟩
  · exact ⟨rfl, rfl⟩
  · next hno =>
    obtain ⟨q, rfl⟩ := isAbsolute_iff.1 hp
    exact absurd (by simp) (hno q.toList)

theorem steps_absolute (hcwd : isAbsolute cwd = true) (hp : p ≠ "") :
    isAbsolute (absolute cwd p) = true ∧ steps (absolute cwd p)
      = (if isAbsolute p then [.root] else steps cwd) ++ (stretches p).filterMap step? := by
  obtain ⟨hbase, hroot⟩ : isAbsolute (base cwd p) = true ∧
      steps (base cwd p) = if isAbsolute p then [.root] else steps cwd := by
    rcases habs : isAbsolute p with _ | _
    · rw [base_of_not_isAbsolute habs]
      exact ⟨hcwd, rfl⟩
    · exact base_of_isAbsolute habs
  have hnoSlash : ∀ s ∈ (stretches p).filter (!isIdle ·), '/' ∉ s.toList :=
    fun s hs => noSlash_of_mem_stretches (List.mem_filter.1 hs).1
  obtain ⟨hspelled, hsteps⟩ := steps_foldl_join hbase hnoSlash
  rw [hroot, filterMap_step?_filter] at hsteps
  rw [absolute, if_neg (by simpa using hp), texts_steps]
  generalize ((stretches p).filter (!isIdle ·)).foldl join (base cwd p) = spelled
    at hspelled hsteps
  by_cases hslash : (endsInSlash p && !endsInSlash spelled) = true
  · rw [if_pos hslash]
    exact ⟨isAbsolute_append hspelled _, (steps_append_slash hspelled).trans hsteps⟩
  · rw [if_neg hslash]
    exact ⟨hspelled, hsteps⟩

/-! ## Below another path -/

theorem dropSteps?_eq_some_iff {bs ss rest : List Step} :
    dropSteps? bs ss = some rest ↔ ss = bs ++ rest := by
  fun_induction dropSteps? bs ss with
  | case1 => simp [eq_comm]
  | case2 _ _ _ ih => simpa using ih
  | case3 _ _ _ _ h => simp [Ne.symm h]
  | case4 => simp

theorem mapM_name?_eq_some_iff {ss : List Step} {names : List String} :
    ss.mapM Step.name? = some names ↔ ss = names.map .down := by
  induction ss generalizing names with
  | nil => simp [eq_comm]
  | cons s ss ih =>
    rw [List.mapM_cons]
    rcases names with _ | ⟨name, names⟩ <;>
      cases s <;> simp [Step.name?, Option.bind_eq_some_iff, ih, and_comm]

theorem below?_eq_some_iff {above rel : String} : below? above p = some rel ↔
    ∃ names, steps p = steps above ++ names.map .down ∧ rel = ofStretches names := by
  simp only [below?, Option.bind_eq_bind, Option.bind_eq_some_iff, dropSteps?_eq_some_iff,
    mapM_name?_eq_some_iff, Option.pure_def, Option.some_inj]
  constructor
  · rintro ⟨_, hsteps, names, rfl, rfl⟩
    exact ⟨names, hsteps, rfl⟩
  · rintro ⟨names, hsteps, rfl⟩
    exact ⟨_, hsteps, names, rfl, rfl⟩

end Path

end GoIface
