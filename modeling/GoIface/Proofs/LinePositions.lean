import Mathlib.Algebra.Group.Nat.Defs
import Mathlib.Data.List.TakeWhile
import Mathlib.Order.Basic
import GoIface.Position

/-!
# Positions of offsets

A search in ascending items finds where an item is, or else where all that is before it ends and all
that is past it begins (`search_fits`). So the line of an offset is the last that does not start
past it, and there always is one. Its number is that of the line feeds before the offset, and it
starts just after the last of them. Only at the last offset of all may a number not fit
(`position_exact_iff_fits`).
-/

namespace GoIface

/-! ## Searching -/

def Ascending (items : Array UInt32) : Prop :=
  ∀ i j (hij : i < j) (hj : j < items.size), items[i] < items[j]

/-- The items before `lo` are smaller, and those from `hi` on are larger. -/
structure Narrowed (items : Array UInt32) (item : UInt32) (lo hi : Nat) : Prop where
  below : ∀ i (h : i < items.size), i < lo → items[i] < item
  above : ∀ i (h : i < items.size), hi ≤ i → item < items[i]

def SearchResult.Fits (items : Array UInt32) (item : UInt32) : SearchResult → Prop
  | found i => ∃ h : i < items.size, items[i] = item
  | missing next => next ≤ items.size ∧ Narrowed items item next next

section

variable {items : Array UInt32} {item : UInt32} {lo hi n : Nat}

theorem searchWithin_fits (hasc : Ascending items) (hhi : hi ≤ items.size) (hlo : lo ≤ hi)
    (hn : hi - lo ≤ n) (h : Narrowed items item lo hi) :
    (searchWithin items item lo hi hhi n).Fits items item := by
  fun_induction searchWithin items item lo hi hhi n with
  | case1 lo hi hhi =>
    obtain rfl : lo = hi := by omega
    exact ⟨hhi, h⟩
  | case2 lo hi hhi n hlt mid hsmall ih =>
    refine ih (by omega) (by omega) ⟨fun i hsize hi => ?_, h.above⟩
    rcases Nat.lt_or_eq_of_le (Nat.lt_succ_iff.1 hi) with hi | rfl
    · exact UInt32.lt_trans (hasc i mid hi (by omega)) hsmall
    · exact hsmall
  | case3 lo hi hhi n hlt mid _ hlarge ih =>
    refine ih (by omega) (by omega) ⟨h.below, fun i hsize hi => ?_⟩
    rcases Nat.lt_or_eq_of_le hi with hi | rfl
    · exact UInt32.lt_trans hlarge (hasc mid i hi hsize)
    · exact hlarge
  | case4 lo hi hhi n hlt mid hsmall hlarge =>
    exact ⟨by omega, UInt32.le_antisymm (UInt32.not_lt.1 hlarge) (UInt32.not_lt.1 hsmall)⟩
  | case5 lo hi hhi n hlt =>
    obtain rfl : lo = hi := by omega
    exact ⟨hhi, h⟩

theorem search_fits (hasc : Ascending items) : (search items item).Fits items item :=
  searchWithin_fits hasc _ (Nat.zero_le _) (Nat.le_refl _)
    ⟨fun _ _ h => absurd h (Nat.not_lt_zero _), fun _ h hle => absurd h (Nat.not_lt.2 hle)⟩

/-- The line that a search leads to is the last which does not start past the item, if the first
does not. Nothing is looked for before the first. -/
theorem lineIndex_spec (item : UInt32) (hasc : Ascending items) (hzero : items[0]? = some 0) :
    (∀ next, search items item = .missing next → 0 < next) ∧
      ∃ h : lineIndex items item < items.size, items[lineIndex items item] ≤ item ∧
        ∀ j (hj : j < items.size), lineIndex items item < j → item < items[j] := by
  obtain ⟨hsize, hfirst⟩ := Array.getElem?_eq_some_iff.1 hzero
  have hfits : (search items item).Fits items item := search_fits hasc
  unfold lineIndex
  rcases hsearch : search items item with i | next
  · rw [hsearch] at hfits
    obtain ⟨hi, rfl⟩ := hfits
    exact ⟨by simp, hi, UInt32.le_refl _, fun j hj hij => hasc i j hij hj⟩
  · rw [hsearch] at hfits
    obtain ⟨hle, hbelow, habove⟩ := hfits
    have hpos : 0 < next := by
      by_contra hnot
      have hlarge := habove 0 hsize (by omega)
      rw [hfirst] at hlarge
      exact UInt32.not_lt_zero hlarge
    have hlt : next - 1 < items.size := by omega
    refine ⟨by simpa using hpos, hlt, UInt32.le_of_lt (hbelow _ hlt (by omega)), fun j hj hij => ?_⟩
    simp only [SearchResult.line] at hij
    exact habove j hj (by omega)

end

/-! ## Line feeds -/

def lineFeedsBefore (source : String) (offset : Nat) : Nat :=
  ((bytes source).take offset).count lineFeed

/-- Where the bytes before an offset end if those after their last line feed are dropped. -/
def lineStart (source : String) (offset : Nat) : Nat :=
  (((bytes source).take offset).reverse.dropWhile (· != lineFeed)).length

/-- It stays where it is for as long as there is no line feed. -/
theorem lineStart_add {source : String} {start n : Nat}
    (h : lineFeed ∉ ((bytes source).drop start).take n) :
    lineStart source (start + n) = lineStart source start := by
  have hdropped : ∀ b ∈ (((bytes source).drop start).take n).reverse, (b != lineFeed) = true :=
    fun b hb => bne_iff_ne.2 (ne_of_mem_of_not_mem (List.mem_reverse.1 hb) h)
  rw [lineStart, lineStart, List.take_add, List.reverse_append,
    List.dropWhile_append_of_pos hdropped]

theorem lineStart_eq {source : String} {start offset : Nat} (hle : start ≤ offset)
    (hlast : start = 0 ∨ (bytes source)[start - 1]? = some lineFeed)
    (hnone : ∀ i, start ≤ i → i < offset → (bytes source)[i]? ≠ some lineFeed) :
    lineStart source offset = start := by
  obtain ⟨n, rfl⟩ := Nat.exists_eq_add_of_le hle
  have hrest : lineFeed ∉ ((bytes source).drop start).take n := by
    intro hmem
    obtain ⟨i, hfeed⟩ := List.mem_iff_getElem?.1 hmem
    rw [List.getElem?_take] at hfeed
    split at hfeed
    · exact hnone (start + i) (by omega) (by omega) (List.getElem?_drop ▸ hfeed)
    · cases hfeed
  rw [lineStart_add hrest, lineStart]
  rcases hlast with rfl | hfeed
  · simp
  · obtain ⟨hlt, hfeed⟩ := List.getElem?_eq_some_iff.1 hfeed
    cases start with
    | zero => simp
    | succ start =>
      simp only [Nat.add_sub_cancel] at hlt hfeed
      rw [List.take_succ_eq_append_getElem hlt, List.reverse_append, hfeed]
      simp only [List.reverse_singleton, List.singleton_append, bne_self_eq_false,
        Bool.false_eq_true, not_false_eq_true, List.dropWhile_cons_of_neg, List.length_cons,
        List.length_reverse, List.length_take]
      omega

theorem mem_lineStartsFrom {s : Nat} : ∀ {bs : List UInt8} {o : Nat},
    s ∈ lineStartsFrom o bs ↔ ∃ i, bs[i]? = some lineFeed ∧ s = o + i + 1
  | [], o => by simp [lineStartsFrom]
  | b :: bs, o => by
    have ih : s ∈ lineStartsFrom (o + 1) bs ↔ ∃ i, bs[i]? = some lineFeed ∧ s = o + 1 + i + 1 :=
      mem_lineStartsFrom
    rw [← Nat.or_exists_add_one, lineStartsFrom]
    simp only [List.getElem?_cons_zero, List.getElem?_cons_succ, Option.some.injEq, Nat.add_zero,
      ← Nat.add_assoc, Nat.add_right_comm _ _ 1] at ih ⊢
    split
    · next hb => simp [ih, hb]
    · next hb => simp [ih, hb]

theorem pairwise_lineStartsFrom : ∀ (bs : List UInt8) (o : Nat),
    (lineStartsFrom o bs).Pairwise (· < ·)
  | [], _ => .nil
  | b :: bs, o => by
    have ih := pairwise_lineStartsFrom bs (o + 1)
    rw [lineStartsFrom]
    split
    · refine List.pairwise_cons.2 ⟨fun s hs => ?_, ih⟩
      obtain ⟨i, -, rfl⟩ := mem_lineStartsFrom.1 hs
      omega
    · exact ih

theorem countP_lineStartsFrom : ∀ (bs : List UInt8) (o n : Nat),
    (lineStartsFrom o bs).countP (· ≤ o + n) = (bs.take n).count lineFeed
  | [], _, _ => by simp [lineStartsFrom]
  | b :: bs, o, 0 => by
    rw [List.take_zero, List.count_nil, List.countP_eq_zero]
    intro s hs
    obtain ⟨i, -, rfl⟩ := mem_lineStartsFrom.1 hs
    rw [decide_eq_true_eq]
    omega
  | b :: bs, o, n + 1 => by
    have ih := countP_lineStartsFrom bs (o + 1) n
    rw [Nat.add_right_comm, Nat.add_assoc] at ih
    rw [lineStartsFrom, List.take_succ_cons, List.count_cons]
    by_cases hb : b = lineFeed
    · rw [if_pos hb, List.countP_cons, ih]
      simp [hb]
    · rw [if_neg hb, ih]
      simp [hb]

/-! ## The line of an offset -/

/-- In ascending numbers, those that are no larger than `x` end with the last of them. -/
theorem countP_le_of_last {l : List Nat} (hl : l.Pairwise (· < ·)) {x k : Nat} (hk : k < l.length)
    (hle : l[k] ≤ x) (hafter : ∀ j (hj : j < l.length), k < j → x < l[j]) :
    l.countP (· ≤ x) = k + 1 := by
  rw [← List.take_append_drop (k + 1) l, List.countP_append, List.countP_eq_length.2,
    List.countP_eq_zero.2, List.length_take]
  · omega
  · intro s hs
    obtain ⟨j, hj, rfl⟩ := List.mem_iff_getElem.1 hs
    rw [List.length_drop] at hj
    have hlarge := hafter (k + 1 + j) (by omega) (by omega)
    simpa using hlarge
  · intro s hs
    obtain ⟨j, hj, rfl⟩ := List.mem_iff_getElem.1 hs
    rw [List.length_take] at hj
    rw [List.getElem_take, decide_eq_true_eq]
    rcases Nat.lt_or_eq_of_le (Nat.lt_succ_iff.1 (Nat.lt_of_lt_of_le hj (Nat.min_le_left _ _)))
      with hlt | rfl
    · exact Nat.le_trans (Nat.le_of_lt (List.pairwise_iff_getElem.1 hl j k _ hk hlt)) hle
    · exact hle

section

variable {source : String} {offset : Nat}

/-- The line of an offset in a text, counted from zero. -/
def lineOf (source : String) (offset : Nat) : Nat :=
  lineIndex (lineStarts source) (UInt32.ofNat offset)

theorem pairwise_startOffsets (source : String) : (startOffsets source).Pairwise (· < ·) := by
  refine List.pairwise_cons.2 ⟨fun s hs => ?_, pairwise_lineStartsFrom _ _⟩
  obtain ⟨i, -, rfl⟩ := mem_lineStartsFrom.1 hs
  omega

@[simp]
theorem size_lineStarts (source : String) :
    (lineStarts source).size = (startOffsets source).length := by
  simp [lineStarts]

section

variable (h : (bytes source).length < 2 ^ 32)

include h

theorem lt_of_mem_startOffsets {s : Nat} (hs : s ∈ startOffsets source) : s < 2 ^ 32 := by
  rcases List.mem_cons.1 hs with rfl | hs
  · decide
  · obtain ⟨i, hi, rfl⟩ := mem_lineStartsFrom.1 hs
    obtain ⟨hlt, -⟩ := List.getElem?_eq_some_iff.1 hi
    omega

theorem getElem_lineStarts {i : Nat} (hi : i < (lineStarts source).size)
    (hi' : i < (startOffsets source).length) :
    (lineStarts source)[i].toNat = (startOffsets source)[i] := by
  simp only [lineStarts, List.getElem_toArray, List.getElem_map]
  exact UInt32.toNat_ofNat_of_lt' (lt_of_mem_startOffsets h (List.getElem_mem hi'))

theorem ascending_lineStarts : Ascending (lineStarts source) := by
  intro i j hij hj
  have hj' : j < (startOffsets source).length := by rwa [size_lineStarts] at hj
  rw [UInt32.lt_iff_toNat_lt, getElem_lineStarts h _ (Nat.lt_trans hij hj'),
    getElem_lineStarts h _ hj']
  exact List.pairwise_iff_getElem.1 (pairwise_startOffsets source) i j _ _ hij

/-- The line that is found is the last that does not start past the offset. -/
theorem lineOf_last (hoffset : offset < 2 ^ 32) :
    ∃ hline : lineOf source offset < (startOffsets source).length,
      (startOffsets source)[lineOf source offset] ≤ offset ∧
      ((lineStarts source).getD (lineOf source offset) 0).toNat =
        (startOffsets source)[lineOf source offset] ∧
      ∀ j (hj : j < (startOffsets source).length), lineOf source offset < j →
        offset < (startOffsets source)[j] := by
  have hoffset' : (UInt32.ofNat offset).toNat = offset := UInt32.toNat_ofNat_of_lt' hoffset
  obtain ⟨-, hline, hle, hafter⟩ :=
    lineIndex_spec (UInt32.ofNat offset) (ascending_lineStarts h) rfl
  have hline' : lineOf source offset < (startOffsets source).length := by
    rwa [size_lineStarts] at hline
  rw [UInt32.le_iff_toNat_le, hoffset', getElem_lineStarts h hline hline'] at hle
  refine ⟨hline', hle, ?_, fun j hj hlt => ?_⟩
  · unfold lineOf
    rw [Array.getD_eq_getD_getElem?, Array.getElem?_eq_getElem hline, Option.getD_some,
      getElem_lineStarts h hline hline']
  · have hlarge := hafter j (by simpa using hj) hlt
    rwa [UInt32.lt_iff_toNat_lt, hoffset', getElem_lineStarts h _ hj] at hlarge

/-- It has as many lines before it as there are line feeds before the offset. -/
theorem lineOf_eq (hoffset : offset < 2 ^ 32) :
    lineOf source offset = lineFeedsBefore source offset := by
  obtain ⟨hline, hle, -, hafter⟩ := lineOf_last h hoffset
  have hcount := countP_le_of_last (pairwise_startOffsets source) hline hle hafter
  have hfeeds := countP_lineStartsFrom (bytes source) 0 offset
  rw [Nat.zero_add] at hfeeds
  rw [startOffsets, List.countP_cons, hfeeds] at hcount
  simpa [lineFeedsBefore] using hcount.symm

/-- It starts after the last of these line feeds. -/
theorem getD_lineOf (hoffset : offset < 2 ^ 32) :
    ((lineStarts source).getD (lineOf source offset) 0).toNat = lineStart source offset := by
  obtain ⟨hline, hle, hstart, hafter⟩ := lineOf_last h hoffset
  refine hstart.trans (lineStart_eq hle ?_ fun i hi hlt hfeed => ?_).symm
  · rcases List.mem_cons.1 (List.getElem_mem hline) with hzero | hmem
    · exact .inl hzero
    · obtain ⟨i, hi, hs⟩ := mem_lineStartsFrom.1 hmem
      rw [hs]
      exact .inr (by simpa using hi)
  · -- a line feed on the way to the offset would start a line in between
    have hmem : i + 1 ∈ startOffsets source :=
      .tail _ (mem_lineStartsFrom.2 ⟨i, hfeed, by omega⟩)
    obtain ⟨j, hj, hs⟩ := List.mem_iff_getElem.1 hmem
    rcases Nat.lt_trichotomy (lineOf source offset) j with hlt | rfl | hgt
    · have hlarge := hafter j hj hlt
      omega
    · omega
    · have hsmall := List.pairwise_iff_getElem.1 (pairwise_startOffsets source) j _ hj hline hgt
      omega

end

/-! ## Positions -/

/-- The position of an offset as it is counted, whether or not its numbers fit 32 bits. -/
def countedPosition (source : String) (offset : Nat) : Position :=
  ⟨lineFeedsBefore source offset + 1, offset - lineStart source offset + 1⟩

def Position.Fits (p : Position) : Prop := p.line < 2 ^ 32 ∧ p.column < 2 ^ 32

def Position.Before (p q : Position) : Prop :=
  p.line < q.line ∨ p.line = q.line ∧ p.column < q.column

theorem lineFeedsBefore_le (source : String) (offset : Nat) :
    lineFeedsBefore source offset ≤ min offset (bytes source).length :=
  List.count_le_length.trans_eq List.length_take

theorem lineFeedsBefore_of_lineStart (h : lineStart source offset = 0) :
    lineFeedsBefore source offset = 0 := by
  rw [lineStart, List.length_eq_zero_iff, List.dropWhile_eq_nil_iff] at h
  refine List.count_eq_zero.2 fun hmem => ?_
  have hne := h lineFeed (List.mem_reverse.2 hmem)
  simp at hne

/-- A later offset is on a later line, or the two lines start at the same place. -/
theorem lineFeedsBefore_lt_or (source : String) {a b : Nat} (hab : a ≤ b) :
    lineFeedsBefore source a < lineFeedsBefore source b ∨
      lineFeedsBefore source a = lineFeedsBefore source b ∧
        lineStart source a = lineStart source b := by
  obtain ⟨n, rfl⟩ := Nat.exists_eq_add_of_le hab
  rw [lineFeedsBefore, lineFeedsBefore, List.take_add, List.count_append]
  rcases Nat.eq_zero_or_pos ((((bytes source).drop a).take n).count lineFeed) with hzero | hpos
  · exact .inr ⟨by omega, (lineStart_add (List.count_eq_zero.1 hzero)).symm⟩
  · exact .inl (by omega)

theorem countedPosition_before {a b : Nat} (hab : a < b) (ha : lineStart source a ≤ a) :
    (countedPosition source a).Before (countedPosition source b) := by
  rcases lineFeedsBefore_lt_or source (Nat.le_of_lt hab) with hlt | ⟨heq, hstart⟩
  · exact .inl (Nat.add_lt_add_right hlt 1)
  · refine .inr ⟨congrArg (· + 1) heq, ?_⟩
    simp only [countedPosition]
    omega

section

variable (h : (bytes source).length < 2 ^ 32)

include h

theorem lineStart_le (hoffset : offset < 2 ^ 32) : lineStart source offset ≤ offset := by
  obtain ⟨_, hle, hstart, -⟩ := lineOf_last h hoffset
  exact Nat.le_trans (Nat.le_of_eq ((getD_lineOf h hoffset).symm.trans hstart)) hle

theorem positionOf_eq (hoffset : offset < 2 ^ 32) :
    positionOf source offset = ⟨(countedPosition source offset).line % 2 ^ 32,
      (countedPosition source offset).column % 2 ^ 32⟩ := by
  have hstart : ((lineStarts source).getD (lineOf source offset) 0).toNat =
    lineStart source offset := getD_lineOf h hoffset
  have hle : (lineStarts source).getD (lineOf source offset) 0 ≤ UInt32.ofNat offset := by
    rw [UInt32.le_iff_toNat_le, hstart, UInt32.toNat_ofNat_of_lt' hoffset]
    exact lineStart_le h hoffset
  change Position.mk (UInt32.ofNat (lineOf source offset) + 1).toNat
    (UInt32.ofNat offset - (lineStarts source).getD (lineOf source offset) 0 + 1).toNat = _
  rw [UInt32.toNat_add, UInt32.toNat_add, UInt32.toNat_sub_of_le _ _ hle, hstart,
    UInt32.toNat_ofNat_of_lt' hoffset, lineOf_eq h hoffset, UInt32.toNat_ofNat_of_lt']
  · rfl
  · have hfeeds := lineFeedsBefore_le source offset
    exact Nat.lt_of_le_of_lt (hfeeds.trans (Nat.min_le_left _ _)) hoffset

/-- A number that does not fit is the first that does not, and is kept as zero. -/
theorem positionOf_eq_or (hoffset : offset < 2 ^ 32) :
    (countedPosition source offset).Fits ∧
        positionOf source offset = countedPosition source offset ∨
      ¬ (countedPosition source offset).Fits ∧ offset + 1 = 2 ^ 32 ∧
        ((positionOf source offset).line = 0 ∨
          (positionOf source offset).line = 1 ∧ (positionOf source offset).column = 0) := by
  have hfeeds := lineFeedsBefore_le source offset
  have hstart : lineStart source offset = 0 → lineFeedsBefore source offset = 0 :=
    lineFeedsBefore_of_lineStart
  rw [positionOf_eq h hoffset]
  simp only [countedPosition, Position.Fits, Position.mk.injEq]
  omega

/-- What is kept is before what is kept for a later offset if that fits, and only then. -/
theorem before_iff_fits {a b : Nat} (hab : a < b) (hb : b < 2 ^ 32) :
    (positionOf source a).Before (positionOf source b) ↔ (countedPosition source b).Fits := by
  have ha : a < 2 ^ 32 := Nat.lt_trans hab hb
  obtain ⟨-, hpos⟩ | ⟨-, hlast, -⟩ := positionOf_eq_or h ha
  · have hbefore := countedPosition_before hab (lineStart_le h ha)
    rw [hpos]
    obtain ⟨hfits, hposb⟩ | ⟨hfits, -, hcut⟩ := positionOf_eq_or h hb
    · rw [hposb]
      exact iff_of_true hbefore hfits
    · refine iff_of_false (fun hlt => ?_) hfits
      simp only [Position.Before, countedPosition] at hlt
      omega
  · omega

theorem positionOf_ne {a b : Nat} (hab : a < b) (hb : b < 2 ^ 32) :
    positionOf source a ≠ positionOf source b := by
  obtain ⟨-, hpos⟩ | ⟨-, hlast, -⟩ := positionOf_eq_or h (Nat.lt_trans hab hb)
  · obtain ⟨hfits, -⟩ | ⟨-, -, hcut⟩ := positionOf_eq_or h hb
    · intro heq
      have hbefore := (before_iff_fits h hab hb).2 hfits
      simp [heq, Position.Before] at hbefore
    · intro heq
      rw [← heq, hpos] at hcut
      simp [countedPosition] at hcut
  · omega

end

end

/-- No search leads to before the first line, and what is found does not start past the offset. Line
and column are the counted ones whenever these fit 32 bits, so at any offset but the last, and grow
with the offset up to there. Different offsets never have the same. -/
theorem position_exact_iff_fits (source : String) (h : (bytes source).length < 2 ^ 32) :
    (∀ offset : UInt32,
      search (lineStarts source) offset ≠ .missing 0 ∧
      (∃ hline : lineIndex (lineStarts source) offset < (lineStarts source).size,
        (lineStarts source)[lineIndex (lineStarts source) offset] ≤ offset) ∧
      (positionOf source offset.toNat = countedPosition source offset.toNat ↔
        (countedPosition source offset.toNat).Fits) ∧
      (offset.toNat + 1 < 2 ^ 32 → (countedPosition source offset.toNat).Fits)) ∧
    (∀ a b : UInt32, a < b →
      ((positionOf source a.toNat).Before (positionOf source b.toNat) ↔
        (countedPosition source b.toNat).Fits)) ∧
    Function.Injective fun offset : UInt32 => positionOf source offset.toNat := by
  refine ⟨fun offset => ?_, fun a b hab => before_iff_fits h hab b.toNat_lt, ?_⟩
  · obtain ⟨hnext, hline, hle, -⟩ := lineIndex_spec offset (ascending_lineStarts h) rfl
    refine ⟨fun hzero => Nat.lt_irrefl 0 (hnext 0 hzero), ⟨hline, hle⟩, ?_⟩
    obtain ⟨hfits, hpos⟩ | ⟨hfits, hlast, hcut⟩ := positionOf_eq_or h offset.toNat_lt
    · exact ⟨iff_of_true hpos hfits, fun _ => hfits⟩
    · refine ⟨iff_of_false (fun hpos => ?_) hfits, fun hlt => by omega⟩
      rw [hpos] at hcut
      simp only [countedPosition] at hcut
      omega
  · intro a b heq
    rcases Nat.lt_trichotomy a.toNat b.toNat with hab | hab | hab
    · exact absurd heq (positionOf_ne h hab b.toNat_lt)
    · exact UInt32.toNat_inj.1 hab
    · exact absurd heq.symm (positionOf_ne h hab a.toNat_lt)

/-- In a text of one line the last offset has no column, and every offset before has one. -/
theorem position_exact_iff_fits_package :
    positionOf "package p" 4294967294 = ⟨1, 4294967295⟩ ∧
      (positionOf "package p" 8).Before (positionOf "package p" 4294967294) ∧
      positionOf "package p" 4294967295 = ⟨1, 0⟩ ∧
      countedPosition "package p" 4294967295 = ⟨1, 4294967296⟩ ∧
      ¬ (positionOf "package p" 8).Before (positionOf "package p" 4294967295) := by
  obtain ⟨hexact, hbefore, -⟩ := position_exact_iff_fits "package p" (by decide +kernel)
  obtain ⟨-, -, hiff, hfits⟩ := hexact 4294967294
  have hlast : countedPosition "package p" 4294967295 = ⟨1, 4294967296⟩ := by decide +kernel
  refine ⟨(hiff.2 (hfits (by decide))).trans (by decide +kernel),
    (hbefore 8 4294967294 (by decide)).2 (hfits (by decide)), by decide +kernel, hlast,
    fun hlt => ?_⟩
  have hcut : (countedPosition "package p" 4294967295).Fits :=
    (hbefore 8 4294967295 (by decide)).1 hlt
  rw [hlast] at hcut
  exact absurd hcut.2 (by decide)

end GoIface
