/-!
# Sets of characters as ranges

A property of characters is kept as its code points in ascending order, each range with its first
and its last member. Looking up stops at the first range past the code point, so the members below
`a` cost one comparison each.
-/

namespace GoIface.Text

/-- Ranges of code points, both ends included, in ascending order. -/
abbrev Ranges := List (Nat × Nat)

def Ranges.has : Ranges → Nat → Bool
  | [], _ => false
  | (lo, hi) :: rest, n => if n < lo then false else if n ≤ hi then true else has rest n

theorem Ranges.has_cons (lo hi n : Nat) (rest : Ranges) :
    Ranges.has ((lo, hi) :: rest) n = (decide (lo ≤ n) && (decide (n ≤ hi) || rest.has n)) := by
  by_cases hlo : n < lo
  · simp [Ranges.has, hlo, Nat.not_le.2 hlo]
  · by_cases hhi : n ≤ hi
    · simp [Ranges.has, hlo, hhi, Nat.le_of_not_lt hlo]
    · simp [Ranges.has, hlo, hhi, Nat.le_of_not_lt hlo]

theorem Ranges.mem_of_has {rs : Ranges} {n : Nat} (h : rs.has n = true) :
    n ∈ rs.flatMap fun r => List.range' r.1 (r.2 + 1 - r.1) := by
  induction rs with
  | nil => simp [Ranges.has] at h
  | cons r rs ih =>
    obtain ⟨lo, hi⟩ := r
    rw [Ranges.has_cons, Bool.and_eq_true, Bool.or_eq_true, decide_eq_true_iff,
      decide_eq_true_iff] at h
    rw [List.flatMap_cons, List.mem_append, List.mem_range'_1]
    rcases h.2 with hle | hrest
    · exact .inl ⟨h.1, by omega⟩
    · exact .inr (ih hrest)

end GoIface.Text
