import GoIface.Files.FileSystem
import GoIface.Proofs.PathSteps

/-!
# Following paths

There are no links, so where a path leads is told by its steps alone (`place_of_follow`), and
stretches that lead nowhere may be left out on the way to a directory (`follow_filter`). Two paths
that lead to one directory are alike: what is joined to them leads to the same entries
(`LeadsTo.alike`).
-/

namespace GoIface

/-- There is a directory at a place, which is given by its names from the innermost out. -/
def Entry.IsDirAt (root : Entry) (place : List String) : Prop :=
  ∃ entries, root.find? place.reverse = some (.dir entries)

namespace FileSystem

open Path

variable {root : Entry} {place place' : List String} {ss : List String} {s : String}

theorem follow_cons {entries : List (String × Entry)}
    (h : root.find? place.reverse = some (.dir entries)) (s : String) (ss : List String) :
    follow root place (s :: ss) =
      if isIdle s then follow root place ss
      else if s == ".." then follow root place.tail ss
      else if nameLimit < s.utf8ByteSize then .error .nameTooLong
      else if (entries.lookup s).isSome then follow root (s :: place) ss
      else .error .missing := by
  rw [follow, h]

theorem isDirAt_of_follow_cons (h : follow root place (s :: ss) = .ok place') :
    root.IsDirAt place := by
  rw [follow] at h
  split at h
  · next entries hfind => exact ⟨entries, hfind⟩
  · cases h

theorem follow_append (root : Entry) (place xs ys : List String) :
    follow root place (xs ++ ys) = (follow root place xs).bind (follow root · ys) := by
  induction xs generalizing place with
  | nil => rfl
  | cons x xs ih =>
    by_cases hdir : root.IsDirAt place
    · obtain ⟨entries, hfind⟩ := hdir
      rw [List.cons_append, follow_cons hfind, follow_cons hfind]
      split_ifs <;> first | exact ih _ | rfl
    · rw [List.cons_append, follow, follow]
      split
      · next entries hfind => exact absurd ⟨entries, hfind⟩ hdir
      · rfl

/-- Where a stretch leads to from a place. -/
def move (place : List String) (s : String) : List String :=
  if isIdle s then place else if s == ".." then place.tail else s :: place

theorem place_of_follow (h : follow root place ss = .ok place') : place' = ss.foldl move place := by
  induction ss generalizing place with
  | nil => exact (Except.ok.inj h).symm
  | cons s ss ih =>
    obtain ⟨entries, hfind⟩ := isDirAt_of_follow_cons h
    rw [follow_cons hfind] at h
    rw [List.foldl_cons, move]
    split_ifs at h ⊢ <;> exact ih h

/-- Stretches that lead nowhere may be left out on the way to a directory. -/
theorem follow_filter (hdir : root.IsDirAt place') :
    follow root place ss = .ok place' ↔ follow root place (ss.filter (!isIdle ·)) = .ok place' := by
  induction ss generalizing place with
  | nil => rfl
  | cons s ss ih =>
    by_cases hplace : root.IsDirAt place
    · obtain ⟨entries, hfind⟩ := hplace
      rw [follow_cons hfind]
      rcases hs : isIdle s with _ | _
      · rw [List.filter_cons_of_pos (by simp [hs]), follow_cons hfind]
        simp only [hs, Bool.false_eq_true, ↓reduceIte]
        split_ifs
        · exact ih
        · rfl
        · exact ih
        · rfl
      · rw [List.filter_cons_of_neg (by simp [hs]), if_pos rfl]
        exact ih
    · refine iff_of_false (fun h => hplace (isDirAt_of_follow_cons h)) fun h => ?_
      rcases hrest : (s :: ss).filter (!isIdle ·) with _ | ⟨t, ts⟩
      · rw [hrest] at h
        cases h
        exact hplace hdir
      · rw [hrest] at h
        exact hplace (isDirAt_of_follow_cons h)

theorem isDirAt_of_follow (hdir : root.IsDirAt place')
    (h : follow root place ss = .ok place') : root.IsDirAt place := by
  rcases ss with _ | ⟨s, ss⟩
  · cases h
    exact hdir
  · exact isDirAt_of_follow_cons h

/-! ## Paths from the root -/

variable {fs fs' : FileSystem} {p p' q : String}

def nul : Char := Char.ofNat 0

theorem locate_of_ne_empty (hp : p ≠ "") : fs.locate p
    = if nul ∈ p.toList then .error .nulInName
      else (follow fs.root [] (stretches (join fs.cwd p)).tail).map List.reverse := by
  have hstretches : fs.stretchesOf p = if nul ∈ p.toList then .error .nulInName
      else .ok (stretches (join fs.cwd p)).tail := by
    rw [stretchesOf, String.isEmpty_eq_false_iff.2 hp, show Char.ofNat 0 = nul from rfl]
    by_cases hnul : nul ∈ p.toList
    · rw [if_pos hnul, List.contains_iff_mem.2 hnul]
      rfl
    · rw [if_neg hnul, Bool.eq_false_iff.2 (mt List.contains_iff_mem.1 hnul)]
      rfl
  rw [locate, hstretches]
  split_ifs
  · rfl
  · show (follow fs.root [] (stretches (join fs.cwd p)).tail >>= fun place =>
      pure place.reverse) = _
    rcases follow fs.root [] (stretches (join fs.cwd p)).tail <;> rfl

theorem locate_of_isAbsolute (hp : isAbsolute p = true) : fs.locate p
    = if nul ∈ p.toList then .error .nulInName
      else (follow fs.root [] (stretches p).tail).map List.reverse := by
  have hne : p ≠ "" := by
    rintro rfl
    simp [isAbsolute] at hp
  rw [locate_of_ne_empty hne, join, if_pos hp]

/-- The path leads to the directory at a place. -/
structure LeadsTo (fs : FileSystem) (p : String) (place : List String) : Prop where
  locate : fs.locate p = .ok place.reverse
  isDir : fs.root.IsDirAt place

theorem locate_eq_ok_iff (hp : isAbsolute p = true) : fs.locate p = .ok place.reverse ↔
    nul ∉ p.toList ∧ follow fs.root [] (stretches p).tail = .ok place := by
  rw [locate_of_isAbsolute hp]
  split_ifs with hnul
  · simp [hnul]
  · rcases follow fs.root [] (stretches p).tail with fault | place' <;> simp [hnul, Except.map]

theorem leadsTo_iff (hp : isAbsolute p = true) : fs.LeadsTo p place ↔ nul ∉ p.toList ∧
    follow fs.root [] ((steps p).filterMap Step.text?) = .ok place ∧ fs.root.IsDirAt place := by
  obtain ⟨ss, hss, -⟩ := stretches_of_isAbsolute hp
  have htexts : (stretches p).tail.filter (!isIdle ·) = (steps p).filterMap Step.text? := by
    rw [texts_steps, hss]
    rfl
  constructor
  · rintro ⟨hlocate, hdir⟩
    obtain ⟨hnul, hfollow⟩ := (locate_eq_ok_iff hp).1 hlocate
    exact ⟨hnul, htexts ▸ (follow_filter hdir).1 hfollow, hdir⟩
  · rintro ⟨hnul, hfollow, hdir⟩
    exact ⟨(locate_eq_ok_iff hp).2 ⟨hnul, (follow_filter hdir).2 (htexts ▸ hfollow)⟩, hdir⟩

theorem nul_mem_iff (p : String) :
    nul ∈ p.toList ↔ ∃ t ∈ (steps p).filterMap Step.text?, nul ∈ t.toList := by
  rw [texts_steps, mem_iff_splitAt (p := (· == '/')) (by decide), stretches]
  constructor
  · rintro ⟨part, hpart, hnul⟩
    refine ⟨String.ofList part, List.mem_filter.2 ⟨List.mem_map_of_mem hpart, ?_⟩, by simpa⟩
    rcases hidle : isIdle (String.ofList part) with _ | _
    · rfl
    · rw [isIdle, Bool.or_eq_true, beq_iff_eq, beq_iff_eq, ← String.toList_inj,
        ← String.toList_inj, String.toList_ofList] at hidle
      rcases hidle with rfl | rfl <;> simp [nul] at hnul
  · rintro ⟨t, ht, hnul⟩
    obtain ⟨part, hpart, rfl⟩ := List.mem_map.1 (List.mem_filter.1 ht).1
    exact ⟨part, hpart, by simpa using hnul⟩

/-- Where a path leads is told by its steps. -/
theorem leadsTo_congr (hp : isAbsolute p = true) (hq : isAbsolute q = true)
    (h : steps p = steps q) : fs.LeadsTo p place ↔ fs.LeadsTo q place := by
  rw [leadsTo_iff hp, leadsTo_iff hq, nul_mem_iff, nul_mem_iff, h]

theorem LeadsTo.place_eq (hp : isAbsolute p = true) (h : fs.LeadsTo p place) :
    place = ((steps p).filterMap Step.text?).foldl move [] :=
  place_of_follow ((leadsTo_iff hp).1 h).2.1

/-- The ancestors of a path to a directory lead to directories. -/
theorem LeadsTo.of_prefix (hp : isAbsolute p = true) (hq : isAbsolute q = true)
    (h : fs.LeadsTo p place) (hpre : steps q <+: steps p) : ∃ place', fs.LeadsTo q place' := by
  obtain ⟨hnul, hfollow, hdir⟩ := (leadsTo_iff hp).1 h
  obtain ⟨rest, hrest⟩ := hpre
  rw [nul_mem_iff, ← hrest, List.filterMap_append] at hnul
  rw [← hrest, List.filterMap_append, follow_append] at hfollow
  rcases hq' : follow fs.root [] ((steps q).filterMap Step.text?) with fault | place'
  · rw [hq'] at hfollow
    cases hfollow
  · rw [hq'] at hfollow
    refine ⟨place', (leadsTo_iff hq).2 ⟨?_, hq', isDirAt_of_follow hdir hfollow⟩⟩
    rw [nul_mem_iff]
    exact fun ⟨t, ht, htnul⟩ => hnul ⟨t, List.mem_append_left _ ht, htnul⟩

theorem nul_mem_join_iff (p q : String) (hq : isAbsolute q = false) :
    nul ∈ (join p q).toList ↔ nul ∈ p.toList ∨ nul ∈ q.toList := by
  rw [join, if_neg (by simp [hq])]
  split_ifs <;> simp [nul]

/-- A path that is not from the root goes on from the working directory. -/
theorem locate_join_cwd (hcwd : isAbsolute fs.cwd = true) (hnul : nul ∉ fs.cwd.toList)
    (hp : isAbsolute p = false) (hne : p ≠ "") : fs.locate (join fs.cwd p) = fs.locate p := by
  rw [locate_of_isAbsolute (isAbsolute_join hcwd p), locate_of_ne_empty hne]
  simp only [nul_mem_join_iff _ _ hp, hnul, false_or]

/-- From a directory a path goes on by its own stretches. -/
theorem LeadsTo.locate_join (hp : isAbsolute p = true) (hq : isAbsolute q = false)
    (h : fs.LeadsTo p place) : fs.locate (join p q)
      = if nul ∈ q.toList then .error .nulInName
        else (follow fs.root place (stretches q)).map List.reverse := by
  obtain ⟨hnul, hfollow⟩ := (locate_eq_ok_iff hp).1 h.locate
  obtain ⟨ss, hjoin, hss⟩ := tail_stretches_join hp hq
  have hplace : follow fs.root [] ss = .ok place := by
    rcases hss with hss | hss
    · rwa [hss] at hfollow
    · rw [follow_filter h.isDir] at hfollow ⊢
      simpa [hss, isIdle] using hfollow
  rw [locate_of_isAbsolute (isAbsolute_join hp q), hjoin, follow_append, hplace]
  simp only [nul_mem_join_iff p q hq, hnul, false_or]
  rfl

/-- What is found at one path and on from there is found at the other and on from there. -/
structure Alike (fs : FileSystem) (p p' : String) : Prop where
  entry : fs.entry p = fs.entry p'
  entry_join (q : String) : fs.entry (join p q) = fs.entry (join p' q)

theorem LeadsTo.alike (hp : isAbsolute p = true) (hp' : isAbsolute p' = true)
    (h : fs.LeadsTo p place) (h' : fs.LeadsTo p' place) : fs.Alike p p' := by
  refine ⟨by rw [entry, entry, h.locate, h'.locate], fun q => ?_⟩
  rcases hq : isAbsolute q with _ | _
  · rw [entry, entry, h.locate_join hp hq, h'.locate_join hp' hq]
  · rw [join, join, if_pos hq, if_pos hq]

theorem Alike.join (h : fs.Alike p p') (q : String) : fs.Alike (join p q) (join p' q) := by
  refine ⟨h.entry_join q, fun r => ?_⟩
  rcases hq : isAbsolute q with _ | _
  · rw [join_join hq, join_join hq]
    exact h.entry_join _
  · have hjoin (p : String) : Path.join p q = q := if_pos hq
    rw [hjoin, hjoin]

theorem Alike.foldl_join (h : fs.Alike p p') (ss : List String) :
    fs.Alike (ss.foldl Path.join p) (ss.foldl Path.join p') := by
  induction ss generalizing p p' with
  | nil => exact h
  | cons s ss ih => exact ih (h.join s)

end FileSystem

end GoIface
