import Mathlib.Data.List.DropRight
import GoIface.Files.Header
import GoIface.Proofs.Cuts

/-!
# Lines of a header

The scan of a header goes on past lines that look like part of a comment and ends at the first build
line that names `ignore` or the first other line (`isIgnoredHeader_iff`). How a line looks is told
by how it begins after white space (`trim_append`). A line that is covered is passed over, and a
covered beginning with a star in it stays covered whatever the line goes on with
(`Covered.append`).
-/

namespace GoIface

/-! ## White space at the ends of a line -/

namespace Text

theorem isAlphanumeric_of_isBlank {c : Char} (h : isBlank c = true) : isAlphanumeric c = false := by
  have hall : ∀ n ∈ blankRanges.flatMap fun r => List.range' r.1 (r.2 + 1 - r.1),
      wordRanges.has n = false := by
    decide +kernel
  exact hall _ (Ranges.mem_of_has h)

/-- A text that neither begins nor ends with white space and is not empty. -/
def Solid (s : List Char) : Prop := s.head?.any (!isBlank ·) ∧ s.getLast?.any (!isBlank ·)

instance : DecidablePred Solid := fun _ => instDecidableAnd

variable {pre s more : List Char}

theorem rdropWhile_append (hlast : s.getLast?.any (!isBlank ·)) (more : List Char) :
    (s ++ more).rdropWhile isBlank = s ++ more.rdropWhile isBlank := by
  obtain ⟨init, c, rfl⟩ := List.eq_nil_or_concat' s |>.resolve_left (by rintro rfl; simp at hlast)
  rw [List.rdropWhile, List.reverse_append, List.dropWhile_append]
  split_ifs with hnil
  · rw [List.isEmpty_iff, ← List.reverse_eq_nil_iff] at hnil
    rw [List.rdropWhile, hnil, List.append_nil]
    simpa using hlast
  · simp [List.rdropWhile]

theorem exists_rdropWhile_append (cs : List Char) : ∃ blanks : List Char,
    cs = cs.rdropWhile isBlank ++ blanks ∧ ∀ c ∈ blanks, isBlank c = true := by
  refine ⟨(cs.reverse.takeWhile isBlank).reverse, ?_, fun c hc =>
    List.mem_takeWhile_imp (List.mem_reverse.1 hc)⟩
  rw [List.rdropWhile, ← List.reverse_append, List.takeWhile_append_dropWhile, List.reverse_reverse]

/-- What a line begins with after white space stays, and white space at its end goes. -/
theorem trim_append (hpre : ∀ c ∈ pre, isBlank c = true) (hs : Solid s) :
    trim (pre ++ (s ++ more)) = s ++ more.rdropWhile isBlank := by
  rw [← rdropWhile_append hs.2, trim, trimBy, List.dropWhile_append_of_pos hpre]
  obtain ⟨hhead, -⟩ := hs
  rcases s with _ | ⟨c, s⟩
  · simp at hhead
  · have hc : isBlank c = false := by simpa using hhead
    rw [List.cons_append, List.dropWhile_cons_of_neg (by simp [hc]), List.rdropWhile]

theorem trim_eq_nil_iff {cs : List Char} : trim cs = [] ↔ ∀ c ∈ cs, isBlank c = true := by
  have htrim : trim cs = (cs.dropWhile isBlank).rdropWhile isBlank := rfl
  rw [htrim, List.rdropWhile_eq_nil_iff]
  refine ⟨fun h c hc => ?_, fun h c hc => h c ((List.dropWhile_sublist _).subset hc)⟩
  rw [← List.takeWhile_append_dropWhile (p := isBlank) (l := cs), List.mem_append] at hc
  exact hc.elim List.mem_takeWhile_imp (h c)

/-- A line goes on after the first character that is no white space. -/
theorem dropWhile_append_of_mem {cs : List Char} {c : Char} (hc : c ∈ cs)
    (hblank : isBlank c = false) (more : List Char) : c ∈ cs.dropWhile isBlank ∧
      (cs ++ more).dropWhile isBlank = cs.dropWhile isBlank ++ more := by
  have hkept : c ∈ cs.dropWhile isBlank := by
    rw [← List.takeWhile_append_dropWhile (p := isBlank) (l := cs), List.mem_append] at hc
    exact hc.resolve_left fun htake => by simp [List.mem_takeWhile_imp htake] at hblank
  refine ⟨hkept, ?_⟩
  rw [List.dropWhile_append, if_neg]
  simpa using List.ne_nil_of_mem hkept

end Text

open Text

/-! ## The scan -/

theorem startsWith_iff {cs : List Char} {start : String} :
    startsWith cs start = true ↔ start.toList <+: cs := by
  rw [startsWith, List.isPrefixOf_iff_prefix]

/-- The line is empty or begins like a comment or a later line of one. -/
def LooksLikeComment (line : List Char) : Prop :=
  line = [] ∨ ∃ start ∈ ["/*", "*", "//"], start.toList <+: line

theorem dropStart?_eq_none_iff {start cs : List Char} :
    dropStart? start cs = none ↔ ¬ start <+: cs := by
  rw [Option.eq_none_iff_forall_ne_some, ← not_exists]
  exact not_congr (exists_congr fun rest => dropStart?_eq_some_iff.trans eq_comm)

theorem buildLine?_eq_none_iff {line : List Char} : buildLine? line = none ↔
    ¬ "//go:build".toList <+: line ∧ ¬ "// +build".toList <+: line := by
  rw [buildLine?, Option.or_eq_none_iff, dropStart?_eq_none_iff, dropStart?_eq_none_iff]

theorem buildLine?_eq_some_iff {line rest : List Char} : buildLine? line = some rest ↔
    line = "//go:build".toList ++ rest ∨ line = "// +build".toList ++ rest := by
  rw [buildLine?, Option.or_eq_some_iff, dropStart?_eq_some_iff, dropStart?_eq_some_iff,
    dropStart?_eq_none_iff]
  refine or_congr_right ⟨And.right, fun h => ⟨?_, h⟩⟩
  rintro ⟨other, hother⟩
  rw [h] at hother
  simp at hother

theorem isIgnoredHeader_cons (line : List Char) (rest : List (List Char)) :
    isIgnoredHeader (line :: rest) = true ↔
      (buildLine? line).any namesIgnore = true ∨
        LooksLikeComment line ∧ isIgnoredHeader rest = true := by
  have hlooks : LooksLikeComment line ↔ (line.isEmpty || startsWith line "/*" ||
      startsWith line "*") = true ∨ startsWith line "//" = true := by
    simp [LooksLikeComment, startsWith_iff, or_assoc]
  rw [isIgnoredHeader, hlooks]
  by_cases hany : (buildLine? line).any namesIgnore = true
  · obtain ⟨expr, hexpr, -⟩ := (Option.any_eq_true _ _).1 hany
    obtain ⟨more, rfl⟩ : ∃ more, line = '/' :: '/' :: more := by
      rcases buildLine?_eq_some_iff.1 hexpr with rfl | rfl <;> exact ⟨_, rfl⟩
    simp [hany, startsWith]
  · simp only [hany, Bool.false_eq_true, ↓reduceIte, false_or]
    split_ifs <;> simp_all

theorem isIgnoredHeader_iff {lines : List (List Char)} : isIgnoredHeader lines = true ↔
    ∃ before line after, lines = before ++ line :: after ∧
      (∀ l ∈ before, LooksLikeComment l) ∧ (buildLine? line).any namesIgnore = true := by
  induction lines with
  | nil => simp [isIgnoredHeader]
  | cons line rest ih =>
    rw [isIgnoredHeader_cons, ih]
    constructor
    · rintro (hline | ⟨hlooks, before, found, after, rfl, hbefore, hfound⟩)
      · exact ⟨[], line, rest, rfl, by simp, hline⟩
      · exact ⟨line :: before, found, after, rfl, List.forall_mem_cons.2 ⟨hlooks, hbefore⟩, hfound⟩
    · rintro ⟨before, found, after, heq, hbefore, hfound⟩
      rcases before with _ | ⟨first, before⟩
      · obtain ⟨rfl, rfl⟩ := List.cons.inj heq
        exact .inl hfound
      · obtain ⟨rfl, rfl⟩ := List.cons.inj heq
        obtain ⟨hfirst, hbefore⟩ := List.forall_mem_cons.1 hbefore
        exact .inr ⟨hfirst, before, found, after, rfl, hbefore, hfound⟩

/-! ## Covered lines -/

/-- The line is blank, or it begins like a comment after white space and is no build line. -/
def Covered (line : List Char) : Prop :=
  line.dropWhile isBlank = [] ∨ "*".toList <+: line.dropWhile isBlank ∨
    "/*".toList <+: line.dropWhile isBlank ∨
    "//".toList <+: line.dropWhile isBlank ∧ buildLine? (line.dropWhile isBlank) = none

instance : DecidablePred Covered := fun _ => instDecidableOr

variable {line pre : List Char}

theorem covered_of_forall_isBlank (h : ∀ c ∈ pre, isBlank c = true) : Covered pre :=
  .inl (List.dropWhile_eq_nil_iff.2 h)

theorem covered_of_block (hpre : ∀ c ∈ pre, isBlank c = true) (more : List Char) :
    Covered (pre ++ ("/*".toList ++ more)) := by
  refine .inr (.inr (.inl ?_))
  rw [List.dropWhile_append_of_pos hpre]
  exact List.prefix_append _ _

/-- A covered line is passed over. -/
theorem Covered.isIgnoredHeader_cons (h : Covered line) (rest : List (List Char)) :
    isIgnoredHeader (trim line :: rest) = isIgnoredHeader rest := by
  suffices hpassed : LooksLikeComment (trim line) ∧ buildLine? (trim line) = none by
    rw [Bool.eq_iff_iff, GoIface.isIgnoredHeader_cons, hpassed.2]
    simp [hpassed.1]
  have htrim : trim line = (line.dropWhile isBlank).rdropWhile isBlank := rfl
  have hkept : (line.dropWhile isBlank).rdropWhile isBlank <+: line.dropWhile isBlank :=
    List.rdropWhile_prefix _ _
  rw [htrim]
  unfold Covered at h
  generalize line.dropWhile isBlank = begun at h hkept
  rcases h with rfl | ⟨more, rfl⟩ | ⟨more, rfl⟩ | ⟨⟨more, rfl⟩, hnone⟩
  · exact ⟨.inl rfl, rfl⟩
  · rw [rdropWhile_append (by decide)]
    exact ⟨.inr ⟨"*", by simp, List.prefix_append _ _⟩, rfl⟩
  · rw [rdropWhile_append (by decide)]
    exact ⟨.inr ⟨"/*", by simp, List.prefix_append _ _⟩, rfl⟩
  · rw [buildLine?_eq_none_iff] at hnone ⊢
    refine ⟨.inr ⟨"//", by simp, ?_⟩, fun hmark => hnone.1 (hmark.trans hkept),
      fun hmark => hnone.2 (hmark.trans hkept)⟩
    rw [rdropWhile_append (by decide)]
    exact List.prefix_append _ _

theorem not_prefix_append_of_mem {mark begun : List Char} {c : Char} (hmark : ¬ mark <+: begun)
    (hc : c ∈ begun) (hno : c ∉ mark) (more : List Char) : ¬ mark <+: begun ++ more := by
  intro hpre
  rcases List.prefix_or_prefix_of_prefix hpre (List.prefix_append begun more) with h | h
  · exact hmark h
  · exact hno (h.subset hc)

/-- What a covered line with a star in it goes on with does not matter. -/
theorem Covered.append (h : Covered line) (hstar : '*' ∈ line) (more : List Char) :
    Covered (line ++ more) := by
  obtain ⟨hbegun, happend⟩ := dropWhile_append_of_mem hstar (by decide) more
  unfold Covered at h ⊢
  rw [happend]
  rcases h with hnil | hpre | hpre | ⟨hpre, hnone⟩
  · simp [hnil] at hbegun
  · exact .inr (.inl (hpre.trans (List.prefix_append _ _)))
  · exact .inr (.inr (.inl (hpre.trans (List.prefix_append _ _))))
  · rw [buildLine?_eq_none_iff] at hnone
    refine .inr (.inr (.inr ⟨hpre.trans (List.prefix_append _ _), buildLine?_eq_none_iff.2 ?_⟩))
    exact ⟨not_prefix_append_of_mem hnone.1 hbegun (by decide) more,
      not_prefix_append_of_mem hnone.2 hbegun (by decide) more⟩

/-- The line has something in it and does not begin like a comment. -/
def Ends (line : List Char) : Prop := ¬ LooksLikeComment (line.dropWhile isBlank)

instance : DecidablePred LooksLikeComment := fun _ => instDecidableOr

instance : DecidablePred Ends := fun _ => instDecidableNot

/-- A line that ends the scan does so before any build line. -/
theorem Ends.isIgnoredHeader_cons (h : Ends line) (rest : List (List Char)) :
    isIgnoredHeader (trim line :: rest) = false := by
  have htrim : trim line = (line.dropWhile isBlank).rdropWhile isBlank := rfl
  have hkept : (line.dropWhile isBlank).rdropWhile isBlank <+: line.dropWhile isBlank :=
    List.rdropWhile_prefix _ _
  have hlooks : ¬ LooksLikeComment (trim line) := by
    rintro (hnil | ⟨start, hstart, hpre⟩)
    · exact h (.inl (List.dropWhile_eq_nil_iff.2 (trim_eq_nil_iff.1 hnil)))
    · exact h (.inr ⟨start, hstart, hpre.trans (htrim ▸ hkept)⟩)
  rw [Bool.eq_false_iff, ne_eq, GoIface.isIgnoredHeader_cons]
  rintro (hbuild | ⟨hlook, -⟩)
  · obtain ⟨expr, hexpr, -⟩ := (Option.any_eq_true _ _).1 hbuild
    refine hlooks (.inr ⟨"//", by simp, ?_⟩)
    rcases buildLine?_eq_some_iff.1 hexpr with heq | heq <;> rw [heq] <;> exact ⟨_, rfl⟩
  · exact hlooks hlook

/-- What such a line with a star in it goes on with does not matter. -/
theorem Ends.append (h : Ends line) (hstar : '*' ∈ line) (more : List Char) :
    Ends (line ++ more) := by
  obtain ⟨hbegun, happend⟩ := dropWhile_append_of_mem hstar (by decide) more
  unfold Ends at h ⊢
  rw [happend]
  generalize line.dropWhile isBlank = begun at h hbegun
  have hlong : 2 ≤ begun.length := by
    rcases begun with _ | ⟨c, _ | ⟨d, cs⟩⟩
    · simp at hbegun
    · obtain rfl := List.mem_singleton.1 hbegun
      exact absurd (.inr ⟨"*", by simp, List.prefix_rfl⟩) h
    · simp
  rintro (hnil | ⟨start, hstart, hpre⟩)
  · simp [List.append_eq_nil_iff.1 hnil] at hbegun
  · have hshort : ∀ start ∈ ["/*", "*", "//"], start.toList.length ≤ 2 := by decide
    exact h (.inr ⟨start, hstart, List.prefix_of_prefix_length_le hpre (List.prefix_append _ _)
      ((hshort start hstart).trans hlong)⟩)

/-! ## Texts -/

/-- Whether the lines of a text hold a build line that is reached and names `ignore`. -/
def ignoredIn (cs : List Char) : Bool :=
  isIgnoredHeader ((splitAt (· == '\n') cs).map trim)

theorem isIgnoredHeader_append {init : List (List Char)} (hinit : ∀ l ∈ init, Covered l)
    (lines : List (List Char)) :
    isIgnoredHeader ((init ++ lines).map trim) = isIgnoredHeader (lines.map trim) := by
  induction init with
  | nil => rfl
  | cons line init ih =>
    obtain ⟨hline, hinit⟩ := List.forall_mem_cons.1 hinit
    rw [List.cons_append, List.map_cons, hline.isIgnoredHeader_cons, ih hinit]

theorem ignoredIn_append {cs last : List Char} {init : List (List Char)}
    (hcs : splitAt (· == '\n') cs = init ++ [last]) (rest : List Char) :
    ignoredIn (cs ++ rest)
      = isIgnoredHeader ((init ++ splitAt (· == '\n') (last ++ rest)).map trim) := by
  obtain ⟨init', last', hcs', happend⟩ := exists_splitAt_append (· == '\n') cs
  obtain ⟨rfl, hlast⟩ := List.append_inj' (hcs'.symm.trans hcs) rfl
  obtain rfl : last' = last := by simpa using hlast
  rw [ignoredIn, happend]

theorem ignoredIn_line (hline : '\n' ∉ line) (rest : List Char) :
    ignoredIn (line ++ '\n' :: rest) = isIgnoredHeader
      (trim line :: (splitAt (· == '\n') rest).map trim) := by
  rw [ignoredIn, splitAt_append_cons (by rfl), splitAt_of_not_mem hline]
  rfl

theorem ignoredIn_line_iff (hline : '\n' ∉ line) (rest : List Char) :
    ignoredIn (line ++ '\n' :: rest) = true ↔
      (buildLine? (trim line)).any namesIgnore = true ∨
        LooksLikeComment (trim line) ∧ ignoredIn rest = true := by
  rw [ignoredIn_line hline, isIgnoredHeader_cons, ignoredIn]

theorem Covered.ignoredIn_line (h : Covered line) (hline : '\n' ∉ line) (rest : List Char) :
    ignoredIn (line ++ '\n' :: rest) = ignoredIn rest := by
  rw [GoIface.ignoredIn_line hline, h.isIgnoredHeader_cons, ignoredIn]

/-- A line that begins with a word ends the scan. -/
theorem ignoredIn_package (hline : '\n' ∉ pre) (hpre : ∀ c ∈ pre, isBlank c = true)
    (rest : List Char) : ignoredIn (pre ++ ("package".toList ++ rest)) = false := by
  obtain ⟨first, others, hrest, -⟩ := exists_splitAt_cons (· == '\n') rest
  have hstart : ∀ c ∈ pre ++ "package".toList, (c == '\n') = false := by
    intro c hc
    rcases List.mem_append.1 hc with hc | hc
    · simpa using ne_of_mem_of_not_mem hc hline
    · simpa using ne_of_mem_of_not_mem hc (by decide : '\n' ∉ "package".toList)
  rw [ignoredIn, ← List.append_assoc, splitAt_append_of_forall_not hstart hrest, List.map_cons,
    List.append_assoc, trim_append hpre (by decide), Bool.eq_false_iff, ne_eq,
    isIgnoredHeader_cons]
  rintro (hbuild | ⟨hlooks, -⟩)
  · obtain ⟨expr, hexpr, -⟩ := (Option.any_eq_true _ _).1 hbuild
    rcases buildLine?_eq_some_iff.1 hexpr with heq | heq <;> simp at heq
  · simp [LooksLikeComment] at hlooks

end GoIface
