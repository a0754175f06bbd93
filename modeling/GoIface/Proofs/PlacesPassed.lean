import Mathlib.Data.List.Basic
import GoIface.Proofs.Following

/-!
# Places that a path passes

The steps of a path lead from place to place, down and up again. What is looked for at the places
that were passed, the last one first, is found as if only the places above the last one had been
searched, provided that nothing is found on a detour (`findSome?_visited`). Every place that can be
reached has a plain path that only goes down to it (`LeadsTo.pathTo`).
-/

namespace GoIface

namespace Path

variable {ss : List Step}

/-- Where a step leads to from a place. -/
def Step.go (place : List String) : Step → List String
  | .root | .here => place
  | .up => place.tail
  | .down name => name :: place

/-- Where steps lead to from the root. -/
def placeOf (ss : List Step) : List String := ss.foldl Step.go []

theorem placeOf_concat (ss : List Step) (s : Step) :
    placeOf (ss ++ [s]) = Step.go (placeOf ss) s := by
  simp [placeOf]

theorem placeOf_append_downs (ss : List Step) (names : List String) :
    placeOf (ss ++ names.map .down) = names.reverse ++ placeOf ss := by
  induction names using List.reverseRecOn with
  | nil => simp
  | append_singleton names name ih =>
    rw [List.map_append, ← List.append_assoc, List.map_singleton, placeOf_concat, ih]
    simp [Step.go]

/-- The places that steps lead to one after another, the last one first. -/
def visited (ss : List Step) : List (List String) := (upward ss).map placeOf

theorem visited_concat (ss : List Step) (s : Step) :
    visited (ss ++ [s]) = placeOf (ss ++ [s]) :: visited ss := by
  rw [visited, upward_concat, List.map_cons]
  rfl

section

variable {β : Type} {f : List String → Option β}

theorem findSome?_cons_or (q : List String) (qs : List (List String)) :
    (q :: qs).findSome? f = (f q).or (qs.findSome? f) := by
  rw [List.findSome?_cons]
  rcases f q <;> rfl

theorem or_findSome?_tails (place : List String) :
    (f place).or (place.tails.findSome? f) = place.tails.findSome? f := by
  obtain ⟨above, htails⟩ : ∃ above, place.tails = place :: above := by cases place <;> simp
  rw [htails, findSome?_cons_or, ← Option.or_assoc, Option.or_self]

theorem placeOf_mem_visited (ss : List Step) : placeOf (.root :: ss) ∈ visited (.root :: ss) := by
  rcases List.eq_nil_or_concat' ss with rfl | ⟨ss, s, rfl⟩
  · exact List.mem_cons_self
  · rw [← List.cons_append, visited_concat]
    exact List.mem_cons_self

/-- What is found nowhere but above the last place is found where going outward finds it first. -/
theorem findSome?_visited
    (h : ∀ q ∈ visited (.root :: ss), f q ≠ none → q <:+ placeOf (.root :: ss)) :
    (visited (.root :: ss)).findSome? f = (placeOf (.root :: ss)).tails.findSome? f := by
  induction ss using List.reverseRecOn with
  | nil => rfl
  | append_singleton ss s ih =>
    have hlast := placeOf_mem_visited ss
    rw [← List.cons_append, visited_concat, placeOf_concat] at h ⊢
    obtain ⟨-, hbefore⟩ := List.forall_mem_cons.1 h
    rw [findSome?_cons_or]
    cases s with
    | root | here =>
      rw [ih hbefore]
      exact or_findSome?_tails _
    | up =>
      rw [ih fun q hq hfound => (hbefore q hq hfound).trans (List.tail_suffix _)]
      rcases hplace : placeOf (.root :: ss) with _ | ⟨name, place⟩
      · exact or_findSome?_tails _
      · have hnone : f (name :: place) = none := by
          by_contra hfound
          have hlen := (hbefore _ (hplace ▸ hlast) hfound).length_le
          rw [hplace, Step.go, List.tail_cons, List.length_cons] at hlen
          omega
        rw [List.tails_cons, findSome?_cons_or, hnone, Option.none_or]
        exact or_findSome?_tails _
    | down name =>
      simp only [Step.go] at hbefore ⊢
      rw [List.tails_cons, findSome?_cons_or]
      rcases hfound : f (name :: placeOf (.root :: ss)) with _ | b
      · rw [ih fun q hq hq' => (List.suffix_cons_iff.1 (hbefore q hq hq')).resolve_left
          fun heq => hq' (heq ▸ hfound)]
      · rfl

end

theorem down_mem_of_mem_placeOf {name : String} (h : name ∈ placeOf ss) : .down name ∈ ss := by
  induction ss using List.reverseRecOn with
  | nil => simp [placeOf] at h
  | append_singleton ss s ih =>
    rw [placeOf_concat] at h
    rw [List.mem_append]
    cases s with
    | root | here => exact .inl (ih h)
    | up => exact .inl (ih (List.mem_of_mem_tail h))
    | down other =>
      rcases List.mem_cons.1 h with rfl | h
      · exact .inr List.mem_cons_self
      · exact .inl (ih h)

/-! ## Plain paths -/

/-- The path that leads straight down to a place. -/
def pathTo (place : List String) : String := "/" ++ ofStretches place.reverse

theorem steps_pathTo {place : List String} (h : ∀ n ∈ place, IsName n) :
    isAbsolute (pathTo place) = true ∧
      steps (pathTo place) = .root :: place.reverse.map .down := by
  have habs : isAbsolute (pathTo place) = true := isAbsolute_iff.2 ⟨_, rfl⟩
  have hstretches : stretches (pathTo place) = "" :: stretches (ofStretches place.reverse) :=
    (congrArg stretches (by rw [pathTo, String.empty_append])).trans (stretches_slash "" _)
  refine ⟨habs, ?_⟩
  rw [steps_of_isAbsolute habs, hstretches, List.tail_cons]
  rcases eq_or_ne place [] with rfl | hne
  · rfl
  · rw [stretches_ofStretches (by simpa using hne) fun n hn => (h n (List.mem_reverse.1 hn)).2.2,
      ← List.filterMap_eq_map]
    exact congrArg _ (List.filterMap_congr fun n hn =>
      step?_of_isName (h n (List.mem_reverse.1 hn)))

end Path

namespace FileSystem

open Path

variable {fs : FileSystem} {root : Entry} {place place' ss : List String} {p : String}

theorem LeadsTo.eq_placeOf (hp : isAbsolute p = true) (h : fs.LeadsTo p place) :
    place = placeOf (steps p) := by
  rw [h.place_eq hp, List.foldl_filterMap]
  refine List.foldl_ext _ _ _ fun place s hs => ?_
  cases s with
  | root | here => rfl
  | up => rfl
  | down name =>
    obtain ⟨hidle, hup, -⟩ := isName_of_mem_steps hp hs
    simp [Step.text?, move, hidle, hup, Step.go]

theorem LeadsTo.isName (hp : isAbsolute p = true) (h : fs.LeadsTo p place) :
    ∀ n ∈ place, IsName n := by
  intro n hn
  rw [h.eq_placeOf hp] at hn
  exact isName_of_mem_steps hp (down_mem_of_mem_placeOf hn)

/-- A place that is reached by going down only. -/
def Straight (root : Entry) (place : List String) : Prop :=
  ∀ above, above <:+ place → follow root [] above.reverse = .ok above

theorem straight_of_follow (hplace : Straight root place)
    (h : follow root place ss = .ok place') : Straight root place' := by
  induction ss generalizing place with
  | nil => exact Except.ok.inj h ▸ hplace
  | cons s ss ih =>
    obtain ⟨entries, hfind⟩ := isDirAt_of_follow_cons h
    rw [follow_cons hfind] at h
    split_ifs at h with hidle hup hlong hthere
    · exact ih hplace h
    · exact ih (fun above habove => hplace above (habove.trans (List.tail_suffix _))) h
    · refine ih (fun above habove => ?_) h
      rcases List.suffix_cons_iff.1 habove with rfl | habove
      · rw [List.reverse_cons, follow_append, hplace place List.suffix_rfl]
        show follow root place [s] = _
        rw [follow_cons hfind, if_neg hidle, if_neg hup, if_neg hlong, if_pos hthere, follow]
      · exact hplace above habove

/-- A directory that is reached is reached by going down only. -/
theorem LeadsTo.pathTo (hp : isAbsolute p = true) (h : fs.LeadsTo p place) :
    fs.LeadsTo (pathTo place) place := by
  obtain ⟨hnul, hfollow, hdir⟩ := (leadsTo_iff hp).1 h
  obtain ⟨habs, hsteps⟩ := steps_pathTo (h.isName hp)
  have htexts : (steps (Path.pathTo place)).filterMap Step.text? = place.reverse := by
    rw [hsteps, List.filterMap_cons_none rfl, List.filterMap_map]
    exact List.filterMap_some
  have hstart : Straight fs.root [] := fun above habove => by
    rw [List.suffix_nil.1 habove]
    rfl
  refine (leadsTo_iff habs).2 ⟨?_, ?_, hdir⟩
  · rw [nul_mem_iff, htexts]
    rintro ⟨t, ht, hmem⟩
    refine hnul ((nul_mem_iff p).2 ⟨t, List.mem_filterMap.2 ⟨.down t, ?_, rfl⟩, hmem⟩)
    rw [List.mem_reverse, h.eq_placeOf hp] at ht
    exact down_mem_of_mem_placeOf ht
  · rw [htexts]
    exact straight_of_follow hstart hfollow place List.suffix_rfl

end FileSystem

end GoIface
