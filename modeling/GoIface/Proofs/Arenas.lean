import GoIface.Flat.Arena
import Mathlib.Algebra.Ring.Nat
import Mathlib.Order.Basic

/-!
# Arenas as they grow

An arena that has grown holds what it held at the same numbers and places (`Arena.node?_of_le`,
`Arena.items?_of_le`). As long as nothing is lost of them, the number of a new node is how many
there were (`Arena.holds_alloc`), and the place of a new list is that of its items
(`Arena.items?_push`).
-/

namespace GoIface.Arena

variable {A B F : Arena} {k : NodeKind} {l : ListKind}

/-- Everything that is in the first arena comes first in the second. -/
structure Grows (A B : Arena) : Prop where
  data (k : NodeKind) : (A.nodes k).data.toList <+: (B.nodes k).data.toList
  spans (k : NodeKind) : (A.nodes k).spans.toList <+: (B.nodes k).spans.toList
  items (k : ListKind) : (A.items k).toList <+: (B.items k).toList

instance : Preorder Arena where
  le := Grows
  le_refl _ := ⟨fun _ => List.prefix_rfl, fun _ => List.prefix_rfl, fun _ => List.prefix_rfl⟩
  le_trans _ _ _ h h' := ⟨fun k => (h.data k).trans (h'.data k),
    fun k => (h.spans k).trans (h'.spans k), fun k => (h.items k).trans (h'.items k)⟩

/-- There are no more nodes and items than numbers. -/
structure Fits (A : Arena) : Prop where
  nodes (k : NodeKind) : A.size k < 2 ^ 32
  items (k : ListKind) : (A.items k).size < 2 ^ 32

theorem size_le (h : A ≤ B) (k : NodeKind) : A.size k ≤ B.size k := by
  simpa [size] using (h.data k).length_le

theorem size_items_le (h : A ≤ B) (k : ListKind) : (A.items k).size ≤ (B.items k).size := by
  simpa using (h.items k).length_le

theorem Fits.of_le (hB : B.Fits) (h : A ≤ B) : A.Fits :=
  ⟨fun k => Nat.lt_of_le_of_lt (size_le h k) (hB.nodes k),
    fun k => Nat.lt_of_le_of_lt (size_items_le h k) (hB.items k)⟩

/-! ## Looking up -/

theorem getElem?_of_isPrefix {α : Type} {xs ys : Array α} (h : xs.toList <+: ys.toList) {i : Nat}
    {x : α} (hx : xs[i]? = some x) : ys[i]? = some x := by
  rw [← Array.getElem?_toList, List.getElem?_eq_some_iff] at hx
  obtain ⟨hi, rfl⟩ := hx
  rw [← Array.getElem?_toList]
  exact List.prefix_iff_getElem?.1 h i hi

theorem node?_of_le (h : A ≤ B) {id : NodeId k} {node : Node k} (hid : A.node? id = some node) :
    B.node? id = some node :=
  getElem?_of_isPrefix (h.data k) hid

theorem span?_of_le (h : A ≤ B) {id : NodeId k} {span : Span} (hid : A.span? id = some span) :
    B.span? id = some span :=
  getElem?_of_isPrefix (h.spans k) hid

theorem items?_eq_some_iff {r : ListRef l} {xs : List (Item l)} : A.items? r = some xs ↔
    r.start.toNat ≤ (r.start + r.length).toNat ∧ (r.start + r.length).toNat ≤ (A.items l).size ∧
      xs = ((A.items l).toList.take (r.start + r.length).toNat).drop r.start.toNat := by
  have hitems : ((A.items l).extract r.start.toNat (r.start + r.length).toNat).toList
      = ((A.items l).toList.take (r.start + r.length).toNat).drop r.start.toNat := by
    rw [Array.toList_extract, List.extract_eq_take_drop, List.drop_take]
  rw [items?, ← hitems, ← and_assoc]
  split
  · next h => rw [Option.some_inj, and_iff_right h, eq_comm]
  · next h => exact iff_of_false (by simp) fun h' => h h'.1

theorem items?_of_le (h : A ≤ B) {r : ListRef l} {xs : List (Item l)}
    (hr : A.items? r = some xs) : B.items? r = some xs := by
  obtain ⟨hstart, hstop, rfl⟩ := items?_eq_some_iff.1 hr
  refine items?_eq_some_iff.2 ⟨hstart, Nat.le_trans hstop (size_items_le h l), ?_⟩
  obtain ⟨ys, hys⟩ := h.items l
  rw [← hys, List.take_append_of_le_length (by simpa using hstop)]

/-! ## What a new node changes -/

section

variable (A) (node : Node k) (span : Span)

theorem le_alloc : A ≤ (A.alloc k node span).2 where
  data j := by
    by_cases h : j = k
    · subst h
      simp [alloc, SpannedArena.push]
    · simp [alloc, nodes_setNodes_of_ne A h]
  spans j := by
    by_cases h : j = k
    · subst h
      simp [alloc, SpannedArena.push]
    · simp [alloc, nodes_setNodes_of_ne A h]
  items j := by simp [alloc]

theorem size_alloc_self : (A.alloc k node span).2.size k = A.size k + 1 := by
  simp [alloc, size, SpannedArena.push]

theorem size_alloc_of_ne {j : NodeKind} (h : j ≠ k) :
    (A.alloc k node span).2.size j = A.size j := by
  simp [alloc, size, nodes_setNodes_of_ne A h]

end

/-- The number of a new node leads to the node, in every arena that grows from there. -/
theorem holds_alloc {node : Node k} {span : Span} (h : (A.alloc k node span).2 ≤ F)
    (hF : F.Fits) : (A.alloc k node span).1.raw.toNat = A.size k ∧
      F.node? (A.alloc k node span).1 = some node ∧
      F.span? (A.alloc k node span).1 = some span := by
  have hsize : A.size k < 2 ^ 32 :=
    Nat.lt_of_le_of_lt (size_le (le_trans (A.le_alloc node span) h) k) (hF.nodes k)
  have hraw : (A.alloc k node span).1.raw.toNat = A.size k := UInt32.toNat_ofNat_of_lt hsize
  refine ⟨hraw, node?_of_le h ?_, span?_of_le h ?_⟩
  · rw [node?, hraw]
    simp [alloc, size, SpannedArena.push]
  · rw [span?, hraw, size, ← (A.nodes k).aligned]
    simp [alloc, SpannedArena.push]

/-! ## What a new list changes -/

section

variable (A) (xs : List (Item l))

@[simp]
theorem size_push (k : NodeKind) : (A.push l xs).2.size k = A.size k := by
  simp [push, size]

theorem items_push_self :
    ((A.push l xs).2.items l).toList = (A.items l).toList ++ xs := by
  rw [push, items_setItems_self, Array.toList_appendList]

theorem size_items_push_self :
    ((A.push l xs).2.items l).size = (A.items l).size + xs.length := by
  rw [← Array.length_toList, items_push_self, List.length_append, Array.length_toList]

theorem le_push : A ≤ (A.push l xs).2 where
  data j := by simp [push]
  spans j := by simp [push]
  items j := by
    by_cases h : j = l
    · subst h
      rw [items_push_self]
      exact List.prefix_append _ _
    · simp [push, items_setItems_of_ne A h]

theorem size_items_push_of_ne {j : ListKind} (h : j ≠ l) :
    ((A.push l xs).2.items j).size = (A.items j).size := by
  simp [push, items_setItems_of_ne A h]

@[simp]
theorem items_alloc (k : NodeKind) (node : Node k) (span : Span) :
    (A.alloc k node span).2.items = A.items := by
  simp [alloc]

end

/-- The place of a new list leads to its items, in every arena that grows from there. -/
theorem items?_push {xs : List (Item l)} (h : (A.push l xs).2 ≤ F) (hF : F.Fits) :
    F.items? (A.push l xs).1 = some xs := by
  refine items?_of_le h ?_
  have hroom : (A.items l).size + xs.length < 2 ^ 32 := by
    rw [← size_items_push_self]
    exact (hF.of_le h).items l
  have hbefore : (A.items l).size < 2 ^ 32 := by omega
  have hnew : xs.length < 2 ^ 32 := by omega
  have hstart : (A.push l xs).1.start.toNat = (A.items l).size :=
    UInt32.toNat_ofNat_of_lt hbefore
  have hlength : (A.push l xs).1.length.toNat = xs.length := by
    have hgrown : (A.items l ++ xs).size - (A.items l).size = xs.length := by
      rw [← Array.length_toList, Array.toList_appendList, List.length_append,
        Array.length_toList, Nat.add_sub_cancel_left]
    rw [push, hgrown]
    exact UInt32.toNat_ofNat_of_lt hnew
  have hstop : ((A.push l xs).1.start + (A.push l xs).1.length).toNat
      = (A.items l).size + xs.length := by
    rw [UInt32.toNat_add, hstart, hlength, Nat.mod_eq_of_lt hroom]
  refine items?_eq_some_iff.2 ⟨by omega, ?_, ?_⟩
  · exact Nat.le_of_eq (hstop.trans (size_items_push_self A xs).symm)
  · rw [hstop, hstart, items_push_self, List.take_of_length_le (by simp),
      List.drop_left' (Array.length_toList)]

end GoIface.Arena
