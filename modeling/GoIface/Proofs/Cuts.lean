import Mathlib.Data.List.Basic
import GoIface.ImportPath

/-!
# Cutting a text

A text is cut at the characters of which something holds. What it is cut into are the stretches
between two of these that hold none (`mem_splitAt_iff`), and going on from a text only goes on from
the last of its stretches (`exists_splitAt_append`).
-/

namespace GoIface

variable {p : Char → Bool}

theorem splitAt_eq_splitOnP (p : Char → Bool) : ∀ cs : List Char, splitAt p cs = cs.splitOnP p
  | [] => by simp [splitAt]
  | c :: cs => by
    rw [splitAt, splitAt_eq_splitOnP p cs, List.splitOnP_cons_eq_if_modifyHead]
    obtain ⟨part, parts, hparts⟩ := List.exists_cons_of_ne_nil (List.splitOnP_ne_nil p cs)
    rcases hc : p c with _ | _ <;> simp [hparts]

theorem splitAt_slash (cs : List Char) : splitAt (· == '/') cs = cs.splitOn '/' :=
  splitAt_eq_splitOnP _ cs

theorem not_of_mem_splitAt {cs part : List Char} (h : part ∈ splitAt p cs) :
    ∀ c ∈ part, p c = false := by
  induction cs generalizing part with
  | nil => simp_all [splitAt]
  | cons c cs ih =>
    obtain ⟨head, parts, hparts⟩ : ∃ head parts, splitAt p cs = head :: parts :=
      List.exists_cons_of_ne_nil (by simp [splitAt_eq_splitOnP])
    rw [splitAt, hparts] at h
    rw [hparts] at ih
    rcases hc : p c with _ | _
    · simp only [hc, List.mem_cons] at h
      rcases h with rfl | h
      · exact List.forall_mem_cons.2 ⟨hc, ih List.mem_cons_self⟩
      · exact ih (List.mem_cons_of_mem _ h)
    · simp only [hc, List.mem_cons] at h
      rcases h with rfl | h
      · simp
      · exact ih (List.mem_cons.2 h)

theorem mem_iff_splitAt {c : Char} (hc : p c = false) (cs : List Char) :
    c ∈ cs ↔ ∃ part ∈ splitAt p cs, c ∈ part := by
  induction cs with
  | nil => simp [splitAt]
  | cons d cs ih =>
    obtain ⟨head, parts, hparts⟩ : ∃ head parts, splitAt p cs = head :: parts :=
      List.exists_cons_of_ne_nil (by simp [splitAt_eq_splitOnP])
    rw [splitAt, List.mem_cons, ih, hparts]
    rcases hd : p d with _ | _
    · simp [or_assoc]
    · have hne : c ≠ d := fun h => by simp [h, hd] at hc
      simp [hne]

theorem splitAt_of_forall_not {cs : List Char} (h : ∀ c ∈ cs, p c = false) :
    splitAt p cs = [cs] := by
  rw [splitAt_eq_splitOnP, List.splitOnP_eq_singleton h]

theorem splitAt_of_not_mem {c : Char} {cs : List Char} (h : c ∉ cs) :
    splitAt (· == c) cs = [cs] :=
  splitAt_of_forall_not fun _ hd => beq_eq_false_iff_ne.2 (ne_of_mem_of_not_mem hd h)

/-- What a text without cuts begins with goes to the first stretch. -/
theorem splitAt_append_of_forall_not {as cs first : List Char} {others : List (List Char)}
    (h : ∀ c ∈ as, p c = false) (hcs : splitAt p cs = first :: others) :
    splitAt p (as ++ cs) = (as ++ first) :: others := by
  induction as with
  | nil => exact hcs
  | cons a as ih =>
    obtain ⟨ha, has⟩ := List.forall_mem_cons.1 h
    rw [List.cons_append, splitAt, ih has, ha]
    rfl

theorem splitAt_append_cons {c : Char} (hc : p c = true) (xs ys : List Char) :
    splitAt p (xs ++ c :: ys) = splitAt p xs ++ splitAt p ys := by
  simp only [splitAt_eq_splitOnP, List.splitOnP_append_cons xs ys hc]

/-- What a text goes on with goes on from its last stretch. -/
theorem exists_splitAt_append (p : Char → Bool) (cs : List Char) : ∃ init last,
    splitAt p cs = init ++ [last] ∧
      ∀ rest, splitAt p (cs ++ rest) = init ++ splitAt p (last ++ rest) := by
  induction cs with
  | nil => exact ⟨[], [], rfl, fun rest => rfl⟩
  | cons c cs ih =>
    obtain ⟨init, last, hcs, happend⟩ := ih
    simp only [splitAt_eq_splitOnP] at hcs happend ⊢
    simp only [List.cons_append, List.splitOnP_cons_eq_if_modifyHead, hcs, happend]
    rcases hc : p c with _ | _
    · rcases init with _ | ⟨first, init⟩
      · refine ⟨[], c :: last, rfl, fun rest => ?_⟩
        rw [List.cons_append, List.nil_append, List.nil_append,
          List.splitOnP_cons_eq_if_modifyHead, hc]
      · exact ⟨(c :: first) :: init, last, rfl, fun rest => rfl⟩
    · exact ⟨[] :: init, last, rfl, fun rest => rfl⟩

theorem exists_splitAt_cons (p : Char → Bool) (cs : List Char) : ∃ first others,
    splitAt p cs = first :: others ∧ (∃ after, cs = first ++ after ∧ after.head?.all p) ∧
      ∀ part ∈ others, ∃ before c after, p c = true ∧ cs = before ++ c :: (part ++ after) ∧
        after.head?.all p := by
  induction cs with
  | nil => exact ⟨[], [], rfl, ⟨[], rfl, rfl⟩, by simp⟩
  | cons c cs ih =>
    obtain ⟨first, others, hcs, ⟨after, hfirst, hafter⟩, hothers⟩ := ih
    rw [splitAt, hcs]
    rcases hc : p c with _ | _
    · refine ⟨c :: first, others, rfl, ⟨after, by rw [hfirst]; rfl, hafter⟩, fun part hpart => ?_⟩
      obtain ⟨before, d, after, hd, heq, hafter⟩ := hothers part hpart
      exact ⟨c :: before, d, after, hd, by rw [heq]; rfl, hafter⟩
    · refine ⟨[], first :: others, rfl, ⟨c :: cs, rfl, by simp [hc]⟩, fun part hpart => ?_⟩
      rcases List.mem_cons.1 hpart with rfl | hpart
      · exact ⟨[], c, after, hc, by rw [hfirst]; rfl, hafter⟩
      · obtain ⟨before, d, after, hd, heq, hafter⟩ := hothers part hpart
        exact ⟨c :: before, d, after, hd, by rw [heq]; rfl, hafter⟩

/-- The stretches of a text hold no cut and have one on either side unless the text ends there. -/
theorem mem_splitAt_iff {cs part : List Char} : part ∈ splitAt p cs ↔
    (∀ c ∈ part, p c = false) ∧ ∃ before after, cs = before ++ part ++ after ∧
      before.getLast?.all p ∧ after.head?.all p := by
  constructor
  · intro hpart
    refine ⟨not_of_mem_splitAt hpart, ?_⟩
    obtain ⟨first, others, hcs, ⟨after, hfirst, hafter⟩, hothers⟩ := exists_splitAt_cons p cs
    rw [hcs] at hpart
    rcases List.mem_cons.1 hpart with rfl | hpart
    · exact ⟨[], after, hfirst, rfl, hafter⟩
    · obtain ⟨before, c, after, hc, heq, hafter⟩ := hothers part hpart
      exact ⟨before ++ [c], after, by simp [heq], by simp [hc], hafter⟩
  · rintro ⟨hpart, before, after, rfl, hbefore, hafter⟩
    have hrest : part ∈ splitAt p (part ++ after) := by
      rcases after with _ | ⟨c, after⟩
      · simp [splitAt_of_forall_not hpart]
      · rw [splitAt_append_cons (by simpa using hafter), splitAt_of_forall_not hpart]
        simp
    rcases List.eq_nil_or_concat' before with rfl | ⟨before, c, rfl⟩
    · exact hrest
    · rw [List.append_assoc, List.append_assoc, List.singleton_append,
        splitAt_append_cons (by simpa using hbefore)]
      exact List.mem_append_right _ hrest

end GoIface
