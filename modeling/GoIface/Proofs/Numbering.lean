import GoIface.Proofs.FileContents

/-!
# How nodes are numbered

A node keeps how many of its kind were made before it, and a file goes with how many were made in
all. A reader who enters everything meets every number below this once (`Kind.MetOnce`), so no node
was made in vain, none stands in two places and none is passed by. The numbers go down from a type
to the types in it (`TypeNode.Descends`).
-/

namespace GoIface

/-- The kinds whose nodes have numbers. -/
def Kind.numbered : List Kind := [.decl, .func, .type, .field, .signature]

/-- Of the nodes of a kind that were made, each is met once, and no others are met. -/
structure Kind.MetOnce (k : Kind) (made : Nat) (es : List Event) : Prop where
  known : ∀ e ∈ es, e.kind = k → ∃ n, e.serial? = some n ∧ n < made
  once : ∀ n, n < made → es.countP (fun e => e.kind == k && e.serial? == some n) = 1
  all : es.countP (fun e => e.kind == k) = made

theorem Event.exists_serial? {e : Event} (h : e.kind ∈ Kind.numbered) :
    ∃ n, e.serial? = some n := by
  cases e <;> simp_all [Kind.numbered, kind, serial?]

theorem metOnce_of_perm {k : Kind} {made : Nat} {es : List Event} (hk : k ∈ Kind.numbered)
    (h : (serials k es).Perm (List.range made)) : k.MetOnce made es := by
  have hserial (e : Event) (he : e.kind = k) : ∃ n, e.serial? = some n :=
    Event.exists_serial? (he ▸ hk)
  refine ⟨fun e he hkind => ?_, fun n hn => ?_, ?_⟩
  · obtain ⟨n, hn⟩ := hserial e hkind
    have hmem : n ∈ serials k es :=
      List.mem_filterMap.2 ⟨e, List.mem_filter.2 ⟨he, beq_iff_eq.2 hkind⟩, hn⟩
    exact ⟨n, hn, List.mem_range.1 (h.mem_iff.1 hmem)⟩
  · have hcount := h.count_eq n
    rw [serials, List.count_filterMap, List.countP_filter, List.count_range, if_pos hn] at hcount
    simpa only [Bool.and_comm] using hcount
  · have hlength := h.length_eq
    rw [serials, List.length_filterMap_eq_countP, List.countP_filter, List.length_range] at hlength
    rw [← hlength]
    refine List.countP_congr fun e _ => ?_
    simp only [Bool.and_eq_true, beq_iff_eq, iff_and_self]
    intro hkind
    obtain ⟨n, hn⟩ := hserial e hkind
    rw [hn, Option.isSome_some]

theorem Counted.metOnce {made : Counts} {es : List Event} (h : Counted ⟨0, 0, 0, 0, 0⟩ made es)
    {k : Kind} (hk : k ∈ Kind.numbered) : k.MetOnce (made.get k) es := by
  have hzero : (Counts.mk 0 0 0 0 0).get k = 0 := by cases k <;> rfl
  have hperm := (h k).2
  rw [hzero, Nat.sub_zero, ← List.range_eq_range'] at hperm
  exact metOnce_of_perm hk hperm

/-- The nodes of a file are one tree: every node that was made is met exactly once, and types have
lower numbers the further inside they are. -/
theorem file_is_one_tree {source : String} {file : File} {made : Counts}
    (h : File.ofSource source = .ok (file, made)) :
    (∀ k ∈ Kind.numbered, k.MetOnce (made.get k) (file.outline.events fun _ => false)) ∧
      ∀ t : TypeNode, file.HasType t → t.serial < made.types ∧ t.Descends := by
  obtain ⟨run, -, hholds⟩ := holds_ofSource h
  constructor
  · intro k hk
    have hevents : file.outline.events (fun _ => false)
        = .file file.package :: allEvents (file.decls.map Decl.outline) := rfl
    rw [hevents]
    exact (hholds.counted.cons rfl).metOnce hk
  · rintro t ⟨d, hd, u, hu, ht⟩
    have hmade := hholds.typed u (List.mem_flatMap.2 ⟨d, hd, hu⟩) t ht
    exact ⟨hmade.serial, hmade.descends⟩

end GoIface
