import GoIface.Proofs.HeaderLines

/-!
# Build lines

A file is left out of the build by a line comment in its header whose build line demands `ignore`
(`Excludes`). The scan of the header reads lines without knowing where comments begin and end, so it
finds these line comments and nothing else only if it sees through the header (`SeesThrough`): the
later lines of block comments look like such or end the scan when nothing is left to find, line
comments and the package clause start their lines, and build lines are tidy
(`ignored_iff_excluded`).
-/

namespace GoIface

open Text

/-! ## Expressions -/

def isWordChar (c : Char) : Bool := isAlphanumeric c || c == '_'

/-- The word `ignore` stands in the expression, and before it, white space apart, no `!`. -/
def Demands (expr : List Char) : Prop :=
  ∃ before after, expr = before ++ "ignore".toList ++ after ∧
    ¬ before.getLast?.any isWordChar ∧ ¬ after.head?.any isWordChar ∧
    (before.rdropWhile isBlank).getLast? ≠ some '!'

/-- No `!` stands before white space or right after a word. -/
def Tight (expr : List Char) : Prop :=
  ∀ before after, expr = before ++ '!' :: after →
    ¬ after.head?.any isBlank ∧ ¬ before.getLast?.any isWordChar

theorem isWordChar_of_isBlank {c : Char} (h : isBlank c = true) : isWordChar c = false := by
  rw [isWordChar, isAlphanumeric_of_isBlank h, Bool.false_or, beq_eq_false_iff_ne]
  rintro rfl
  exact absurd h (by decide)

theorem isConditionChar_eq (c : Char) : isConditionChar c = (isWordChar c || c == '!') := rfl

theorem namesIgnore_iff {expr : List Char} : namesIgnore expr = true ↔
    ∃ before after, expr = before ++ "ignore".toList ++ after ∧
      before.getLast?.all (!isConditionChar ·) ∧ after.head?.all (!isConditionChar ·) := by
  rw [namesIgnore, List.contains_iff_mem, mem_splitAt_iff]
  have hword : "ignore".toList.all isConditionChar = true := by decide
  exact and_iff_right fun c hc => by simpa using List.all_eq_true.1 hword c hc

variable {expr text : List Char}

theorem not_any_isWordChar {o : Option Char} (h : o.all (!isConditionChar ·)) :
    ¬ o.any isWordChar := by
  rcases o with _ | c
  · simp
  · simp_all [isConditionChar_eq]

theorem demands_of_namesIgnore (htight : Tight expr)
    (h : namesIgnore (expr.rdropWhile isBlank) = true) : Demands expr := by
  obtain ⟨before, after, heq, hbefore, hafter⟩ := namesIgnore_iff.1 h
  obtain ⟨blanks, hexpr, hblanks⟩ := exists_rdropWhile_append expr
  rw [heq, List.append_assoc] at hexpr
  refine ⟨before, after ++ blanks, hexpr, not_any_isWordChar hbefore, ?_, fun hneg => ?_⟩
  · rcases after with _ | ⟨c, after⟩
    · rcases blanks with _ | ⟨c, blanks⟩
      · simp
      · simp [isWordChar_of_isBlank (hblanks c List.mem_cons_self)]
    · exact not_any_isWordChar hafter
  · obtain ⟨gap, hgap, hgapBlank⟩ := exists_rdropWhile_append before
    obtain ⟨start, hstart⟩ := List.getLast?_eq_some_iff.1 hneg
    rw [hstart] at hgap
    rcases gap with _ | ⟨c, gap⟩
    · rw [hgap] at hbefore
      simp [isConditionChar_eq] at hbefore
    · refine (htight start (c :: gap ++ "ignore".toList ++ (after ++ blanks)) ?_).1 ?_
      · rw [hexpr, hgap]
        simp
      · simp [hgapBlank c List.mem_cons_self]

theorem namesIgnore_of_demands (htight : Tight expr) (h : Demands expr) :
    namesIgnore (expr.rdropWhile isBlank) = true := by
  obtain ⟨before, after, rfl, hbefore, hafter, hneg⟩ := h
  refine namesIgnore_iff.2 ⟨before, after.rdropWhile isBlank, rdropWhile_append (by simp; decide) _,
    ?_, ?_⟩
  · rcases List.eq_nil_or_concat' before with rfl | ⟨start, c, rfl⟩
    · rfl
    · have hc : c ≠ '!' := by
        rintro rfl
        rw [List.rdropWhile_concat, if_neg (by decide)] at hneg
        simp at hneg
      simp_all [isConditionChar_eq]
  · rcases hkept : after.rdropWhile isBlank with _ | ⟨c, kept⟩
    · rfl
    · obtain ⟨rest, hrest⟩ := List.rdropWhile_prefix isBlank after
      rw [hkept] at hrest
      subst hrest
      have hc : c ≠ '!' := by
        rintro rfl
        exact (htight (before ++ "ignore".toList) (kept ++ rest) (by simp)).2 (by simp; decide)
      simp_all [isConditionChar_eq]

/-! ## Line comments -/

/-- What a line comment says after the mark of a build line. -/
def Sets (text expr : List Char) : Prop :=
  text = "go:build".toList ++ expr ∨ text = " +build".toList ++ expr

/-- The line comment is a build line that demands `ignore`. -/
def Excludes (text : List Char) : Prop :=
  ∃ expr, Sets text expr ∧ expr.head?.any isBlank ∧ Demands expr

/-- If the line comment has the mark of a build line, white space and a tight expression follow. -/
def TidyLine (text : List Char) : Prop :=
  ∀ expr, Sets text expr → expr.head?.all isBlank ∧ Tight expr

theorem buildLine?_slashes {rest : List Char} :
    buildLine? ("//".toList ++ text) = some rest ↔ Sets text rest := by
  have hbuild : "//go:build".toList = "//".toList ++ "go:build".toList := rfl
  have hplus : "// +build".toList = "//".toList ++ " +build".toList := rfl
  rw [buildLine?_eq_some_iff, hbuild, hplus, List.append_assoc, List.append_assoc,
    List.append_cancel_left_eq, List.append_cancel_left_eq, Sets]

theorem sets_rdropWhile_iff {rest : List Char} : Sets (text.rdropWhile isBlank) rest ↔
    ∃ expr, Sets text expr ∧ rest = expr.rdropWhile isBlank := by
  obtain ⟨blanks, htext, -⟩ := exists_rdropWhile_append text
  have heach {mark : List Char} (hmark : mark.getLast?.any (!isBlank ·)) :
      text.rdropWhile isBlank = mark ++ rest ↔
        ∃ expr, text = mark ++ expr ∧ rest = expr.rdropWhile isBlank := by
    constructor
    · intro h
      refine ⟨rest ++ blanks, by rw [← List.append_assoc, ← h, ← htext], ?_⟩
      have hkept := congrArg (List.rdropWhile isBlank) htext
      rw [h, List.append_assoc, rdropWhile_append hmark] at hkept
      exact List.append_cancel_left hkept
    · rintro ⟨expr, rfl, rfl⟩
      exact rdropWhile_append hmark _
  simp only [Sets, heach (by decide : "go:build".toList.getLast?.any (!isBlank ·)),
    heach (by decide : " +build".toList.getLast?.any (!isBlank ·)), or_and_right, exists_or]

/-- Of a tidy line comment the scan reads what it says. -/
theorem any_namesIgnore_iff (h : TidyLine text) :
    (buildLine? ("//".toList ++ text.rdropWhile isBlank)).any namesIgnore = true ↔
      Excludes text := by
  rw [Option.any_eq_true]
  simp only [buildLine?_slashes, sets_rdropWhile_iff, Excludes]
  constructor
  · rintro ⟨_, ⟨expr, hsets, rfl⟩, hnames⟩
    obtain ⟨hhead, htight⟩ := h expr hsets
    refine ⟨expr, hsets, ?_, demands_of_namesIgnore htight hnames⟩
    rcases expr with _ | ⟨c, expr⟩
    · cases hnames
    · exact hhead
  · rintro ⟨expr, hsets, -, hdemands⟩
    exact ⟨_, ⟨expr, hsets, rfl⟩, namesIgnore_of_demands (h expr hsets).2 hdemands⟩

/-! ## Headers -/

/-- White space, a line comment with the end of its line, or a block comment. -/
inductive HeaderPart where
  | blank (c : Char) (isBlank : isBlank c = true)
  | line (text : List Char) (endsLine : '\n' ∉ text)
  | block (text : List Char) (staysOpen : ¬ "*/".toList <:+: text)

namespace HeaderPart

def chars : HeaderPart → List Char
  | blank c _ => [c]
  | line text _ => "//".toList ++ text ++ ['\n']
  | block text _ => "/*".toList ++ text ++ "*/".toList

/-- The part is a line comment that keeps the file out of the build. -/
def Excludes : HeaderPart → Prop
  | line text _ => GoIface.Excludes text
  | _ => False

@[simp] theorem excludes_blank {c : Char} (hc : isBlank c = true) :
    (blank c hc).Excludes ↔ False := Iff.rfl

@[simp] theorem excludes_line {text : List Char} (htext : '\n' ∉ text) :
    (line text htext).Excludes ↔ GoIface.Excludes text := Iff.rfl

@[simp] theorem excludes_block {text : List Char} (htext : ¬ "*/".toList <:+: text) :
    (block text htext).Excludes ↔ False := Iff.rfl

end HeaderPart

def headerText (parts : List HeaderPart) : List Char := parts.flatMap HeaderPart.chars

/-- The lines of a block comment after the one that it begins on. -/
def laterLines (text : List Char) : List (List Char) :=
  (splitAt (· == '\n') (text ++ "*/".toList)).tail

/-- A later line of the block comment ends the scan, those before it being covered. -/
def EndsInside (text : List Char) : Prop :=
  ∃ inner l outer, laterLines text = inner ++ l :: outer ∧ (∀ i ∈ inner, Covered i) ∧ Ends l

/-- Where the scan is: at a line that is blank so far, in a covered line, or at its end. -/
inductive ScanState where
  | fresh | covered | ended
deriving DecidableEq

/-- The scan sees the line comments of the header that keep the file out, and takes nothing else for
one. -/
def SeesThrough : ScanState → List HeaderPart → Prop
  | .ended, parts => ∀ part ∈ parts, ¬ part.Excludes
  | .fresh, [] => True
  | .covered, [] => False
  | state, .blank c _ :: parts => SeesThrough (if c = '\n' then .fresh else state) parts
  | .fresh, .line text _ :: parts =>
    TidyLine text ∧ (Excludes text ∨ SeesThrough .fresh parts)
  | .covered, .line text _ :: parts => ¬ Excludes text ∧ SeesThrough .fresh parts
  | _, .block text _ :: parts =>
    (∀ l ∈ laterLines text, Covered l) ∧ SeesThrough .covered parts ∨
      EndsInside text ∧ ∀ part ∈ parts, ¬ part.Excludes

/-- What the scan has read of a line. -/
def Begun : ScanState → List Char → Prop
  | .fresh, cur => ∀ c ∈ cur, isBlank c = true
  | .covered, cur => Covered cur ∧ '*' ∈ cur
  | .ended, _ => False

theorem Begun.covered_block {state : ScanState} {cur : List Char} (h : Begun state cur)
    (more : List Char) : Covered (cur ++ ("/*".toList ++ more)) := by
  cases state with
  | fresh => exact covered_of_block h more
  | covered => exact h.1.append h.2 _
  | ended => cases h

theorem Begun.covered {state : ScanState} {cur : List Char} (h : Begun state cur) :
    Covered cur := by
  cases state with
  | fresh => exact covered_of_forall_isBlank h
  | covered => exact h.1
  | ended => cases h

theorem Begun.append_blank {state : ScanState} {cur : List Char} (h : Begun state cur) {c : Char}
    (hc : isBlank c = true) : Begun state (cur ++ [c]) := by
  cases state with
  | fresh => simpa [Begun, or_imp, forall_and, hc] using h
  | covered => exact ⟨h.1.append h.2 _, List.mem_append_left _ h.2⟩
  | ended => cases h

/-- The lines that a block comment makes of the begun line. -/
theorem exists_block_lines {cur : List Char} (hcur : '\n' ∉ cur) (text : List Char) :
    ∃ first init last, splitAt (· == '\n') (cur ++ ("/*".toList ++ text ++ "*/".toList))
        = init ++ [last] ∧ init ++ [last] = (cur ++ ("/*".toList ++ first)) :: laterLines text ∧
      '\n' ∉ last ∧ '*' ∈ last := by
  obtain ⟨first, others, hbody, -⟩ := exists_splitAt_cons (· == '\n') (text ++ "*/".toList)
  have hstart : ∀ c ∈ cur ++ "/*".toList, (c == '\n') = false := by
    intro c hc
    rcases List.mem_append.1 hc with hc | hc
    · simpa using ne_of_mem_of_not_mem hc hcur
    · simpa using ne_of_mem_of_not_mem hc (by decide : '\n' ∉ "/*".toList)
  have hlines := splitAt_append_of_forall_not hstart hbody
  obtain ⟨init, last, hopen, happend⟩ := exists_splitAt_append (· == '\n')
    (cur ++ "/*".toList ++ text)
  have hlast : ∀ c ∈ last ++ "*/".toList, (c == '\n') = false := by
    intro c hc
    rcases List.mem_append.1 hc with hc | hc
    · exact not_of_mem_splitAt (hopen ▸ List.mem_append_right _ List.mem_cons_self) c hc
    · simpa using ne_of_mem_of_not_mem hc (by decide : '\n' ∉ "*/".toList)
  have hclosed := happend "*/".toList
  rw [splitAt_of_forall_not hlast] at hclosed
  refine ⟨first, init, last ++ "*/".toList, ?_, ?_, ?_, by simp⟩
  · rw [← hclosed]
    simp only [List.append_assoc]
  · rw [← hclosed, laterLines, hbody, List.append_assoc _ text, hlines, List.append_assoc]
    rfl
  · exact fun hmem => absurd (hlast _ hmem) (by decide)

/-- A block comment on covered lines leaves the scan in a covered line. -/
theorem ignoredIn_block {state : ScanState} {cur text : List Char} (hline : '\n' ∉ cur)
    (hcur : Begun state cur) (hlater : ∀ l ∈ laterLines text, Covered l) :
    ∃ last, '\n' ∉ last ∧ Begun .covered last ∧ ∀ rest,
      ignoredIn (cur ++ ("/*".toList ++ text ++ "*/".toList) ++ rest)
        = ignoredIn (last ++ rest) := by
  obtain ⟨first, init, last, hlines, heq, hlast, hstar⟩ := exists_block_lines hline text
  have hcovered : ∀ l ∈ init ++ [last], Covered l := by
    rw [heq]
    exact List.forall_mem_cons.2 ⟨hcur.covered_block first, hlater⟩
  rw [List.forall_mem_append] at hcovered
  refine ⟨last, hlast, ⟨hcovered.2 last List.mem_cons_self, hstar⟩, fun rest => ?_⟩
  rw [ignoredIn_append hlines, isIgnoredHeader_append hcovered.1, ignoredIn]

/-- A block comment that ends the scan hides everything after it. -/
theorem ignoredIn_of_endsInside {state : ScanState} {cur text : List Char} (hline : '\n' ∉ cur)
    (hcur : Begun state cur) (hends : EndsInside text) (rest : List Char) :
    ignoredIn (cur ++ ("/*".toList ++ text ++ "*/".toList) ++ rest) = false := by
  obtain ⟨inner, l, outer, hlater, hinner, hl⟩ := hends
  obtain ⟨first, init, last, hlines, heq, hlast, hstar⟩ := exists_block_lines hline text
  have hcovered : ∀ i ∈ (cur ++ ("/*".toList ++ first)) :: inner, Covered i :=
    List.forall_mem_cons.2 ⟨hcur.covered_block first, hinner⟩
  rw [hlater, ← List.cons_append] at heq
  rw [ignoredIn_append hlines]
  rcases List.eq_nil_or_concat' outer with rfl | ⟨outer, end', rfl⟩
  · obtain ⟨rfl, hsame⟩ := List.append_inj' heq rfl
    obtain rfl : last = l := by simpa using hsame
    obtain ⟨next, others, hrest, -⟩ := exists_splitAt_cons (· == '\n') rest
    have hno : ∀ c ∈ last, (c == '\n') = false := fun c hc => by
      simpa using ne_of_mem_of_not_mem hc hlast
    rw [isIgnoredHeader_append hcovered, splitAt_append_of_forall_not hno hrest, List.map_cons,
      (hl.append hstar next).isIgnoredHeader_cons]
  · rw [← List.cons_append, ← List.append_assoc] at heq
    obtain ⟨rfl, -⟩ := List.append_inj' heq rfl
    rw [List.append_assoc, isIgnoredHeader_append hcovered, List.cons_append, List.map_cons,
      hl.isIgnoredHeader_cons]

theorem append_line_comment {text : List Char} (htext : '\n' ∉ text) (cur tail : List Char)
    (parts : List HeaderPart) : cur ++ (headerText (.line text htext :: parts) ++ tail)
      = (cur ++ ("//".toList ++ text)) ++ '\n' :: (headerText parts ++ tail) := by
  simp [headerText, HeaderPart.chars]

theorem ignoredIn_iff (tail : List Char) : ∀ (parts : List HeaderPart) (state : ScanState)
    (cur : List Char), '\n' ∉ cur → Begun state cur → SeesThrough state parts →
      (ignoredIn (cur ++ (headerText parts ++ ("package".toList ++ tail))) = true ↔
        ∃ part ∈ parts, part.Excludes)
  | [], .fresh, cur, hline, hcur, _ => by
    rw [headerText, List.flatMap_nil, List.nil_append, ignoredIn_package hline hcur]
    simp
  | .blank c hc :: parts, state, cur, hline, hcur, hsees => by
    have hsees : SeesThrough (if c = '\n' then .fresh else state) parts := by
      cases state with
      | fresh | covered => exact hsees
      | ended => cases hcur
    have hparts : headerText (.blank c hc :: parts) = c :: headerText parts := rfl
    rw [hparts]
    by_cases hc' : c = '\n'
    · subst hc'
      have hrest := ignoredIn_iff tail parts .fresh [] (by simp) (by simp [Begun]) hsees
      rw [List.nil_append] at hrest
      rw [List.cons_append, hcur.covered.ignoredIn_line hline, hrest]
      simp
    · rw [if_neg hc'] at hsees
      have hrest := ignoredIn_iff tail parts state (cur ++ [c]) (by simp [hline, Ne.symm hc'])
        (hcur.append_blank hc) hsees
      rw [List.append_assoc, List.singleton_append] at hrest
      rw [List.cons_append, hrest]
      simp
  | .line text htext :: parts, .fresh, cur, hline, hcur, hsees => by
    obtain ⟨htidy, hsees⟩ := hsees
    have hlooks : LooksLikeComment ("//".toList ++ text.rdropWhile isBlank) :=
      .inr ⟨"//", by simp, List.prefix_append _ _⟩
    rw [append_line_comment, ignoredIn_line_iff (by simpa [hline] using htext),
      trim_append hcur (by decide), any_namesIgnore_iff htidy, and_iff_right hlooks]
    rcases hsees with hexcludes | hsees
    · simp [hexcludes]
    · have hrest := ignoredIn_iff tail parts .fresh [] (by simp) (by simp [Begun]) hsees
      rw [List.nil_append] at hrest
      rw [hrest]
      simp
  | .line text htext :: parts, .covered, cur, hline, hcur, hsees => by
    obtain ⟨hkept, hsees⟩ := hsees
    have hrest := ignoredIn_iff tail parts .fresh [] (by simp) (by simp [Begun]) hsees
    rw [List.nil_append] at hrest
    rw [append_line_comment,
      (hcur.1.append hcur.2 _).ignoredIn_line (by simpa [hline] using htext), hrest]
    simp [hkept]
  | .block text htext :: parts, state, cur, hline, hcur, hsees => by
    have hsees : (∀ l ∈ laterLines text, Covered l) ∧ SeesThrough .covered parts ∨
        EndsInside text ∧ ∀ part ∈ parts, ¬ part.Excludes := by
      cases state with
      | fresh | covered => exact hsees
      | ended => cases hcur
    have hparts : headerText (.block text htext :: parts)
        = "/*".toList ++ text ++ "*/".toList ++ headerText parts := rfl
    rw [hparts, List.append_assoc _ (headerText parts), ← List.append_assoc cur]
    rcases hsees with ⟨hlater, hrest⟩ | ⟨hends, hnone⟩
    · obtain ⟨last, hlast, hbegun, hscan⟩ := ignoredIn_block hline hcur hlater
      rw [hscan, ignoredIn_iff tail parts .covered last hlast hbegun hrest]
      simp
    · rw [ignoredIn_of_endsInside hline hcur hends]
      simpa using hnone

/-- The scan finds the first build line that names `ignore` among lines that look like comments. If
it sees through a header, that is a line comment that keeps the file out of the build, whatever
block comments hold and whatever follows the header. -/
theorem ignored_iff_excluded (text : String) :
    (isIgnored text = true ↔ ∃ before line after,
      (textLines text).map trim = before ++ line :: after ∧
        (∀ l ∈ before, LooksLikeComment l) ∧ (buildLine? line).any namesIgnore = true) ∧
    ∀ parts tail, text = String.ofList (headerText parts ++ ("package".toList ++ tail)) →
      SeesThrough .fresh parts → (isIgnored text = true ↔ ∃ part ∈ parts, part.Excludes) := by
  refine ⟨isIgnoredHeader_iff, ?_⟩
  rintro parts tail rfl hsees
  have hscan := ignoredIn_iff tail parts .fresh [] (by simp) (by simp [Begun]) hsees
  rw [List.nil_append] at hscan
  rw [← hscan, isIgnored, textLines, String.toList_ofList]
  rfl

/-- A license above a build line. -/
def licensed (license : List Char) (h : ¬ "*/".toList <:+: license) : List HeaderPart :=
  [.block license h, .blank '\n' rfl, .line "go:build ignore".toList (by decide)]

/-- With stars the license is seen through, without it hides the build line below it. -/
theorem bare_license_hides_build_line :
    SeesThrough .fresh (licensed "\n * Copyright\n ".toList (by decide +kernel)) ∧
    isIgnored (String.ofList (headerText (licensed "\n * Copyright\n ".toList (by decide +kernel))
      ++ ("package".toList ++ " main\n".toList))) = true ∧
    (∃ part ∈ licensed "\nCopyright\n".toList (by decide +kernel), part.Excludes) ∧
    isIgnored (String.ofList (headerText (licensed "\nCopyright\n".toList (by decide +kernel))
      ++ ("package".toList ++ " main\n".toList))) = false := by
  have hexcludes : Excludes "go:build ignore".toList :=
    ⟨" ignore".toList, .inl rfl, rfl, [' '], [], rfl, by decide, by decide, by decide⟩
  have htidy : TidyLine "go:build ignore".toList := by
    rintro expr (hexpr | hexpr)
    · have hrest : "go:build".toList ++ " ignore".toList = "go:build".toList ++ expr := hexpr
      obtain rfl := List.append_cancel_left hrest
      refine ⟨rfl, fun before after heq => ?_⟩
      have hbang : '!' ∉ " ignore".toList := by decide
      exact absurd (heq ▸ by simp) hbang
    · cases hexpr
  have hsees : SeesThrough .fresh (licensed "\n * Copyright\n ".toList (by decide +kernel)) :=
    .inl ⟨by decide, htidy, .inl hexcludes⟩
  refine ⟨hsees, ((ignored_iff_excluded _).2 _ _ rfl hsees).2 ?_, ?_, by decide +kernel⟩
  all_goals exact ⟨_, List.mem_cons_of_mem _ (List.mem_cons_of_mem _ List.mem_cons_self), hexcludes⟩

end GoIface
