import GoIface.Files.ModuleFile
import GoIface.Proofs.HeaderLines

/-!
# Lines of a module file

What a line says ends at its first two slashes (`says_iff`), and it tells a path if that is the word
`module`, white space and something that is more than quotes (`modulePath?_eq_some_iff`). So the
path of the first such line is read whatever stands around it (`module_path_is_read`), except that a
path with a slash at its end needs something between itself and a comment.
-/

namespace GoIface

open Text

/-! ## Comments -/

/-- What a line says before its comment, which begins at the first two slashes. -/
def Says (line said : List Char) : Prop :=
  (line = said ∧ ¬ "//".toList <:+: said) ∨
    ∃ comment, line = said ++ ("//".toList ++ comment) ∧ ¬ "//".toList <:+: said ++ ['/']

theorem slashes_infix_cons_iff (c : Char) (cs : List Char) :
    "//".toList <:+: c :: cs ↔ (c = '/' ∧ cs.head? = some '/') ∨ "//".toList <:+: cs := by
  have hslashes : "//".toList = ['/', '/'] := rfl
  rw [List.infix_cons_iff, hslashes, List.cons_prefix_cons, eq_comm (a := '/'),
    List.singleton_prefix_iff_head?_eq_some]

theorem beforeComment_cons {c : Char} {cs : List Char}
    (h : ¬ (c = '/' ∧ cs.head? = some '/')) : beforeComment (c :: cs) = c :: beforeComment cs := by
  rw [beforeComment]
  rintro rest rfl rfl
  exact h ⟨rfl, rfl⟩

theorem says_slashes_iff {rest said : List Char} :
    Says ('/' :: '/' :: rest) said ↔ said = [] := by
  constructor
  · rintro (⟨rfl, hnone⟩ | ⟨comment, heq, hnone⟩)
    · exact absurd ⟨[], rest, rfl⟩ hnone
    · rcases said with _ | ⟨c, said⟩
      · rfl
      · obtain ⟨rfl, hrest⟩ := List.cons.inj heq
        refine absurd ((slashes_infix_cons_iff _ _).2 (.inl ⟨rfl, ?_⟩)) hnone
        rcases said with _ | ⟨d, said⟩
        · rfl
        · obtain ⟨rfl, -⟩ := List.cons.inj hrest
          rfl
  · rintro rfl
    exact .inr ⟨rest, rfl, by decide⟩

theorem says_cons_iff {c : Char} {line said : List Char} (h : ¬ (c = '/' ∧ line.head? = some '/')) :
    Says (c :: line) said ↔ ∃ more, said = c :: more ∧ Says line more := by
  constructor
  · rintro (⟨rfl, hnone⟩ | ⟨comment, heq, hnone⟩)
    · exact ⟨line, rfl, .inl ⟨rfl, fun hin => hnone ((slashes_infix_cons_iff _ _).2 (.inr hin))⟩⟩
    · rcases said with _ | ⟨d, said⟩
      · obtain ⟨rfl, rfl⟩ := List.cons.inj heq
        exact absurd ⟨rfl, rfl⟩ h
      · obtain ⟨rfl, rfl⟩ := List.cons.inj heq
        exact ⟨said, rfl, .inr ⟨comment, rfl, fun hin =>
          hnone ((slashes_infix_cons_iff _ _).2 (.inr hin))⟩⟩
  · rintro ⟨more, rfl, ⟨rfl, hnone⟩ | ⟨comment, rfl, hnone⟩⟩
    · exact .inl ⟨rfl, fun hin => ((slashes_infix_cons_iff _ _).1 hin).elim h hnone⟩
    · refine .inr ⟨comment, rfl, fun hin => ((slashes_infix_cons_iff _ _).1 hin).elim ?_ hnone⟩
      rintro ⟨rfl, hhead⟩
      refine h ⟨rfl, ?_⟩
      rcases more with _ | ⟨d, more⟩
      · rfl
      · exact hhead

theorem says_iff {line said : List Char} : Says line said ↔ beforeComment line = said := by
  induction line generalizing said with
  | nil =>
    have hnil : ¬ "//".toList <:+: [] := by decide
    constructor
    · rintro (⟨rfl, -⟩ | ⟨comment, heq, -⟩)
      · rfl
      · simp at heq
    · rintro rfl
      exact .inl ⟨rfl, hnil⟩
  | cons c line ih =>
    by_cases h : c = '/' ∧ line.head? = some '/'
    · obtain ⟨rfl, hhead⟩ := h
      obtain ⟨rest, rfl⟩ := List.head?_eq_some_iff.1 hhead
      rw [says_slashes_iff, beforeComment, eq_comm]
    · rw [says_cons_iff h, beforeComment_cons h]
      simp only [ih, eq_comm (b := said), exists_eq_right']

theorem slashes_infix_append_iff (xs ys : List Char) : "//".toList <:+: xs ++ ys ↔
    "//".toList <:+: xs ∨ "//".toList <:+: ys ∨
      xs.getLast? = some '/' ∧ ys.head? = some '/' := by
  induction xs with
  | nil => simp
  | cons c xs ih =>
    rw [List.cons_append, slashes_infix_cons_iff, slashes_infix_cons_iff, ih]
    rcases xs with _ | ⟨d, xs⟩
    · simp [or_comm]
    · simp [or_assoc]

theorem not_slashes_append {xs ys : List Char} (hxs : '/' ∉ xs) (hys : ¬ "//".toList <:+: ys) :
    ¬ "//".toList <:+: xs ++ ys := by
  rw [slashes_infix_append_iff]
  rintro (hin | hin | ⟨hlast, -⟩)
  · exact hxs (hin.subset (by decide))
  · exact hys hin
  · exact hxs (List.mem_of_getLast? hlast)

/-! ## White space around a text -/

namespace Text

/-- What is left of a text without the white space around it. -/
theorem trim_eq_iff {cs s : List Char} (hs : s ≠ []) : trim cs = s ↔ Solid s ∧
    ∃ pre post, cs = pre ++ (s ++ post) ∧ ∀ c ∈ pre ++ post, isBlank c = true := by
  constructor
  · rintro rfl
    have htrim : trim cs = (cs.dropWhile isBlank).rdropWhile isBlank := rfl
    obtain ⟨post, hpost, hblank⟩ := exists_rdropWhile_append (cs.dropWhile isBlank)
    rw [← htrim] at hpost
    have hcs : cs = cs.takeWhile isBlank ++ (trim cs ++ post) := by
      rw [← hpost, List.takeWhile_append_dropWhile]
    refine ⟨⟨?_, ?_⟩, cs.takeWhile isBlank, post, hcs, fun c hc => ?_⟩
    · obtain ⟨c, rest, hc⟩ := List.exists_cons_of_ne_nil hs
      have hhead := List.head?_dropWhile_not isBlank cs
      rw [hpost, hc] at hhead
      rw [hc]
      simpa using hhead
    · have hlast := List.rdropWhile_last_not isBlank _ (htrim ▸ hs)
      rw [List.getLast?_eq_some_getLast hs]
      simpa [htrim] using hlast
    · exact (List.mem_append.1 hc).elim List.mem_takeWhile_imp (hblank c)
  · rintro ⟨hsolid, pre, post, rfl, hblank⟩
    obtain ⟨hpre, hpost⟩ := List.forall_mem_append.1 hblank
    rw [trim_append hpre hsolid, List.rdropWhile_eq_nil_iff.2 hpost, List.append_nil]

theorem trimBy_append {p : Char → Bool} {cs : List Char} (pre post : List Char)
    (hpre : ∀ c ∈ pre, p c = true) (hcs : ∀ c ∈ cs, p c = false) (hne : cs ≠ [])
    (hpost : ∀ c ∈ post, p c = true) : trimBy p (pre ++ (cs ++ post)) = cs := by
  have hkept : ∀ {ds more : List Char}, (∀ c ∈ ds, p c = false) → ds ≠ [] →
      (ds ++ more).dropWhile p = ds ++ more := by
    rintro (_ | ⟨d, ds⟩) more hds hds_ne
    · exact absurd rfl hds_ne
    · exact List.dropWhile_cons_of_neg (by simp [hds d])
  rw [trimBy, List.dropWhile_append_of_pos hpre, hkept hcs hne, List.reverse_append,
    List.dropWhile_append_of_pos fun c hc => hpost c (List.mem_reverse.1 hc),
    ← List.append_nil cs.reverse,
    hkept (fun c hc => hcs c (List.mem_reverse.1 hc)) (by simpa using hne), List.append_nil,
    List.reverse_reverse]

theorem Solid.ne_nil {s : List Char} (h : Solid s) : s ≠ [] := by
  rintro rfl
  exact absurd h (by decide)

theorem Solid.append {pre s : List Char} (hpre : Solid pre) (hs : Solid s) (gap : List Char) :
    Solid (pre ++ (gap ++ s)) := by
  obtain ⟨c, rest, rfl⟩ := List.exists_cons_of_ne_nil hpre.ne_nil
  refine ⟨hpre.1, ?_⟩
  rw [List.getLast?_append_of_ne_nil _ (by simp [hs.ne_nil]),
    List.getLast?_append_of_ne_nil _ hs.ne_nil]
  exact hs.2

end Text

/-! ## Directives -/

/-- The line tells a path: before its comment it is `module`, white space and something that is more
than quotes. -/
def Directs (line path : List Char) : Prop :=
  ∃ indent gap body tail, Says line (indent ++ ("module".toList ++ (gap ++ (body ++ tail)))) ∧
    (∀ c ∈ indent ++ gap ++ tail, isBlank c = true) ∧ gap ≠ [] ∧ Solid body ∧
    path = trimBy (· == '"') body ∧ path ≠ []

theorem trim_directive {indent gap body tail : List Char}
    (hblank : ∀ c ∈ indent ++ gap ++ tail, isBlank c = true) (hbody : Solid body) :
    trim (indent ++ ("module".toList ++ (gap ++ (body ++ tail)))) =
      "module".toList ++ (gap ++ body) := by
  have hmodule : Solid ("module".toList ++ (gap ++ body)) := Solid.append (by decide) hbody gap
  refine (trim_eq_iff hmodule.ne_nil).2 ⟨hmodule, indent, tail, by simp, fun c hc => hblank c ?_⟩
  simp only [List.mem_append] at hc ⊢
  grind

theorem modulePath?_eq_some_iff {line path : List Char} :
    modulePath? line = some (String.ofList path) ↔ Directs line path := by
  have hread : modulePath? line = some (String.ofList path) ↔ ∃ rest,
      trim (beforeComment line) = "module".toList ++ rest ∧ rest.head?.any isBlank = true ∧
        trimBy (· == '"') (trim rest) = path ∧ path ≠ [] := by
    simp only [modulePath?, Option.bind_eq_bind, Option.bind_eq_some_iff, dropStart?_eq_some_iff]
    refine exists_congr fun rest => and_congr_right fun _ => ?_
    rw [Option.ite_none_right_eq_some, Bool.and_eq_true, Option.some_inj, String.ofList_inj,
      and_assoc]
    refine and_congr_right fun _ => ⟨?_, ?_⟩
    · rintro ⟨hne, rfl⟩
      exact ⟨rfl, by simpa using hne⟩
    · rintro ⟨rfl, hne⟩
      exact ⟨by simpa using hne, rfl⟩
  rw [hread]
  constructor
  · rintro ⟨rest, htrim, hhead, hpath, hne⟩
    obtain ⟨-, indent, post, hsaid, hblank⟩ := (trim_eq_iff (by simp)).1 htrim
    have hrest : trim rest ≠ [] := by
      rintro hnil
      rw [hnil] at hpath
      exact hne hpath.symm
    obtain ⟨hsolid, gap, post', hgap, hblank'⟩ := (trim_eq_iff hrest).1 rfl
    refine ⟨indent, gap, trim rest, post' ++ post, says_iff.2 ?_, ?_, ?_, hsolid, hpath.symm, hne⟩
    · generalize trim rest = body at hgap
      rw [hsaid, hgap]
      simp
    · simp only [List.mem_append] at hblank hblank' ⊢
      grind
    · rintro rfl
      obtain ⟨c, more, hc⟩ := List.exists_cons_of_ne_nil hrest
      obtain ⟨hfirst, -⟩ := hsolid
      rw [hc] at hfirst hgap
      rw [hgap] at hhead
      simp [show isBlank c = true by simpa using hhead] at hfirst
  · rintro ⟨indent, gap, body, tail, htold, hblank, hgap, hsolid, hpath, hne⟩
    refine ⟨gap ++ body, ?_, ?_, ?_, hne⟩
    · rw [says_iff.1 htold, trim_directive hblank hsolid]
    · obtain ⟨c, gap, rfl⟩ := List.exists_cons_of_ne_nil hgap
      exact hblank c (by simp)
    · rw [hpath, (trim_eq_iff hsolid.ne_nil).2 ⟨hsolid, gap, [], by simp, fun c hc => hblank c ?_⟩]
      simp only [List.mem_append] at hc ⊢
      grind

theorem modulePath?_eq_none_iff {line : List Char} :
    modulePath? line = none ↔ ∀ path, ¬ Directs line path := by
  simp only [← modulePath?_eq_some_iff]
  refine ⟨fun h path hpath => by simp [h] at hpath, fun h => ?_⟩
  refine Option.eq_none_iff_forall_ne_some.2 fun path hpath => h path.toList ?_
  rw [hpath, String.ofList_toList]

/-! ## Lines that tell no path -/

/-- What a line begins with after white space, up to the next white space. -/
def firstWord (line : List Char) : List Char :=
  (line.dropWhile isBlank).takeWhile (!isBlank ·)

theorem firstWord_append {pre word more : List Char} (hpre : ∀ c ∈ pre, isBlank c = true)
    (hword : ∀ c ∈ word, isBlank c = false) (hne : word ≠ [])
    (hmore : more.head?.any isBlank = true) : firstWord (pre ++ (word ++ more)) = word := by
  obtain ⟨c, rest, rfl⟩ := List.exists_cons_of_ne_nil hne
  obtain ⟨d, more, rfl⟩ : ∃ d tail, more = d :: tail := by
    rcases more with _ | ⟨d, tail⟩
    · simp at hmore
    · exact ⟨d, tail, rfl⟩
  have hc : isBlank c = false := hword c List.mem_cons_self
  have hd : isBlank d = true := hmore
  rw [firstWord, List.dropWhile_append_of_pos hpre, List.cons_append,
    List.dropWhile_cons_of_neg (by simp [hc]), ← List.cons_append,
    List.takeWhile_append_of_pos fun e he => by simp [hword e he],
    List.takeWhile_cons_of_neg (by simp [hd]), List.append_nil]

theorem Directs.firstWord_eq {line path : List Char} (h : Directs line path) :
    firstWord line = "module".toList := by
  obtain ⟨indent, gap, body, tail, htold, hblank, hgap, -⟩ := h
  obtain ⟨g, gap, rfl⟩ := List.exists_cons_of_ne_nil hgap
  obtain ⟨more, rfl⟩ : ∃ more, line = indent ++ ("module".toList ++ g :: more) := by
    rcases htold with ⟨rfl, -⟩ | ⟨comment, rfl, -⟩
    · exact ⟨gap ++ (body ++ tail), by simp⟩
    · exact ⟨gap ++ (body ++ tail) ++ ("//".toList ++ comment), by simp⟩
  exact firstWord_append (fun c hc => hblank c (by simp [hc])) (by simp; decide) (by decide)
    (hblank g (by simp))

theorem beforeComment_append (said comment : List Char) :
    beforeComment (said ++ ("//".toList ++ comment)) <+: said := by
  induction said with
  | nil => exact List.prefix_rfl
  | cons c said ih =>
    by_cases h : c = '/' ∧ (said ++ ("//".toList ++ comment)).head? = some '/'
    · obtain ⟨rfl, hhead⟩ := h
      obtain ⟨rest, hrest⟩ := List.head?_eq_some_iff.1 hhead
      rw [List.cons_append, hrest, beforeComment]
      exact List.nil_prefix
    · rw [List.cons_append, beforeComment_cons h, List.cons_prefix_cons]
      exact ⟨rfl, ih⟩

/-- The ways in which a line with the word `module` in it tells no path: the word is part of a
longer one or comes after another, it stands in a comment, or nothing follows it. -/
inductive NoDirective (line : List Char) : Prop
  | otherWord (hword : firstWord line ≠ "module".toList)
  | commented (said comment : List Char) (hline : line = said ++ ("//".toList ++ comment))
      (hsaid : ¬ "module".toList <:+: said)
  | nothing (indent tail : List Char) (hblank : ∀ c ∈ indent ++ tail, isBlank c = true)
      (htold : Says line (indent ++ ("module".toList ++ tail)))

theorem NoDirective.not_directs {line : List Char} (h : NoDirective line) (path : List Char) :
    ¬ Directs line path := by
  intro hdirects
  obtain ⟨indent, gap, body, tail, htold, hblank, -, hsolid, -⟩ := id hdirects
  cases h with
  | otherWord hword => exact hword hdirects.firstWord_eq
  | commented said comment hline hsaid =>
    have hpre := beforeComment_append said comment
    rw [← hline, says_iff.1 htold] at hpre
    exact hsaid ((List.infix_append' ..).trans hpre.isInfix)
  | nothing indent' tail' hblank' htold' =>
    -- Without the white space around it this line is the bare word, and a directive is longer.
    have hsaid := (says_iff.1 htold).symm.trans (says_iff.1 htold')
    have hword : trim (indent' ++ ("module".toList ++ tail')) = "module".toList :=
      (trim_eq_iff (by decide)).2 ⟨by decide, indent', tail', rfl, hblank'⟩
    rw [← hsaid, trim_directive hblank hsolid] at hword
    exact hsolid.ne_nil (List.append_eq_nil_iff.1 (List.append_right_eq_self.1 hword)).2

/-! ## Whole files -/

/-- A line that tells the path of its module. -/
structure ModuleLine where
  indent : List Char
  gap : List Char
  quoted : Bool
  path : List Char
  tail : List Char
  comment : Option (List Char)
  blank : ∀ c ∈ indent ++ gap ++ tail, isBlank c = true
  gap_ne_nil : gap ≠ []
  path_ne_nil : path ≠ []
  path_plain : ∀ c ∈ path, isBlank c = false ∧ c ≠ '"'
  path_slashes : ¬ "//".toList <:+: path
  one_line : '\n' ∉ indent ++ gap ++ tail ++ comment.getD []

namespace ModuleLine

/-- The path as it is written. -/
def body (m : ModuleLine) : List Char := if m.quoted then '"' :: (m.path ++ ['"']) else m.path

def said (m : ModuleLine) : List Char :=
  m.indent ++ ("module".toList ++ (m.gap ++ (m.body ++ m.tail)))

def chars (m : ModuleLine) : List Char := m.said ++ m.comment.elim [] ("//".toList ++ ·)

/-- The comment does not begin with the slash at the end of the path. -/
def Clear (m : ModuleLine) : Prop :=
  m.comment = none ∨ m.quoted = true ∨ m.tail ≠ [] ∨ m.path.getLast? ≠ some '/'

instance : DecidablePred Clear := fun _ => instDecidableOr

variable {m : ModuleLine}

theorem solid_body : Solid m.body := by
  have hpath : ∀ c ∈ m.path, (!isBlank c) = true := fun c hc => by simp [m.path_plain c hc]
  obtain ⟨c, rest, hc⟩ := List.exists_cons_of_ne_nil m.path_ne_nil
  obtain ⟨init, d, hd⟩ := List.eq_nil_or_concat' m.path |>.resolve_left m.path_ne_nil
  unfold body
  split_ifs
  · have hquote : (!isBlank '"') = true := by decide
    refine ⟨hquote, ?_⟩
    rw [← List.cons_append, List.getLast?_concat]
    exact hquote
  · constructor
    · rw [hc]
      exact hpath c (by simp [hc])
    · rw [hd, List.getLast?_concat]
      exact hpath d (by simp [hd])

theorem trimBy_body : trimBy (· == '"') m.body = m.path := by
  have hpath : ∀ c ∈ m.path, (c == '"') = false := fun c hc => by simp [m.path_plain c hc]
  unfold body
  split_ifs
  · exact trimBy_append ['"'] ['"'] (by simp) hpath m.path_ne_nil (by simp)
  · simpa using trimBy_append [] [] (by simp) hpath m.path_ne_nil (by simp)

theorem slash_not_mem {cs : List Char} (h : ∀ c ∈ cs, isBlank c = true) : '/' ∉ cs :=
  fun hc => absurd (h _ hc) (by decide)

/-- No comment begins in what is said, nor with its last slash and one that comes next. -/
theorem not_slashes_said {next : List Char} (hnext : ¬ "//".toList <:+: next)
    (hclear : next.head? = some '/' → m.quoted = true ∨ m.tail ≠ [] ∨ m.path.getLast? ≠ some '/') :
    ¬ "//".toList <:+: m.said ++ next := by
  have hblank : ∀ c ∈ m.indent ++ m.gap ++ m.tail, isBlank c = true := m.blank
  simp only [List.forall_mem_append] at hblank
  obtain ⟨⟨hindent, hgap⟩, htail⟩ := hblank
  have hrest : ¬ "//".toList <:+: m.tail ++ next := not_slashes_append (slash_not_mem htail) hnext
  suffices hbody : ¬ "//".toList <:+: m.body ++ (m.tail ++ next) by
    simpa [said] using not_slashes_append (slash_not_mem hindent)
      (not_slashes_append (show '/' ∉ "module".toList by decide)
        (not_slashes_append (slash_not_mem hgap) hbody))
  have hpath (more : List Char) (hmore : ¬ "//".toList <:+: more)
      (hjoint : more.head? = some '/' → m.path.getLast? ≠ some '/') :
      ¬ "//".toList <:+: m.path ++ more := by
    rw [slashes_infix_append_iff]
    rintro (hin | hin | ⟨hlast, hhead⟩)
    · exact m.path_slashes hin
    · exact hmore hin
    · exact hjoint hhead hlast
  have hquote : '/' ∉ ['"'] := by decide
  unfold body
  split_ifs with hquoted
  · have hclose := hpath ('"' :: (m.tail ++ next))
      (not_slashes_append hquote hrest) (by simp)
    simpa using not_slashes_append hquote hclose
  · refine hpath _ hrest fun hhead => ?_
    rcases htail_eq : m.tail with _ | ⟨c, more⟩
    · rw [htail_eq] at hhead
      exact ((hclear hhead).resolve_left hquoted).resolve_left (by simp [htail_eq])
    · rw [htail_eq] at hhead htail
      obtain rfl : c = '/' := by simpa using hhead
      exact absurd (htail '/' List.mem_cons_self) (by decide)

theorem says_said (h : m.Clear) : Says m.chars m.said := by
  unfold chars
  rcases hcomment : m.comment with _ | comment
  · have hend : ¬ "//".toList <:+: m.said ++ [] := not_slashes_said (by decide) (by simp)
    exact .inl ⟨by simp, by simpa using hend⟩
  · have hclear := h.resolve_left (by simp [hcomment])
    exact .inr ⟨comment, by simp, not_slashes_said (by decide) fun _ => hclear⟩

theorem directs_chars (h : m.Clear) : Directs m.chars m.path :=
  ⟨m.indent, m.gap, m.body, m.tail, says_said h, m.blank, m.gap_ne_nil, solid_body,
    trimBy_body.symm, m.path_ne_nil⟩

theorem not_mem_chars : '\n' ∉ m.chars := by
  have hline := m.one_line
  have hpath : '\n' ∉ m.path := fun hc => absurd (m.path_plain _ hc).1 (by decide)
  have hbody : '\n' ∉ m.body := by
    unfold body
    split_ifs
    · simpa using hpath
    · exact hpath
  have hmodule : '\n' ∉ "module".toList := by decide
  have hcomment : '\n' ∉ m.comment.elim [] ("//".toList ++ ·) := by
    rcases hc : m.comment with _ | comment
    · exact List.not_mem_nil
    · simp only [List.mem_append, hc, Option.getD_some, not_or] at hline
      simpa using hline.2
  simp only [List.mem_append, not_or] at hline
  simp only [chars, said, List.mem_append, not_or]
  exact ⟨⟨hline.1.1.1, hmodule, hline.1.1.2, hbody, hline.1.2⟩, hcomment⟩

end ModuleLine

theorem splitAt_line_append {line : List Char} (hline : '\n' ∉ line) (after : List Char) :
    splitAt (· == '\n') (line ++ '\n' :: after) = line :: splitAt (· == '\n') after := by
  rw [splitAt_append_cons (by decide), splitAt_of_not_mem hline, List.singleton_append]

theorem textLines_append {before : List (List Char)} (hbefore : ∀ l ∈ before, '\n' ∉ l)
    {line after : List Char} (hline : '\n' ∉ line) (hafter : after.head?.all (· == '\n') = true) :
    ∃ others, textLines (String.ofList (before.flatMap (· ++ ['\n']) ++ (line ++ after))) =
      before ++ line :: others := by
  rw [textLines, String.toList_ofList]
  induction before with
  | nil =>
    rcases after with _ | ⟨c, after⟩
    · exact ⟨[], by simpa using splitAt_of_not_mem hline⟩
    · obtain rfl : c = '\n' := by simpa using hafter
      exact ⟨_, splitAt_line_append hline after⟩
  | cons l before ih =>
    obtain ⟨hl, hbefore⟩ := List.forall_mem_cons.1 hbefore
    obtain ⟨others, hothers⟩ := ih hbefore
    refine ⟨others, ?_⟩
    rw [List.cons_append, ← hothers, ← splitAt_line_append hl]
    simp

/-- A line tells a path if it is `module`, white space and more than quotes before its comment, so
not where the word is part of a longer one, stands in the comment or is followed by nothing. The
path of a file is that of its first such line, whatever lines stand around it. -/
theorem module_path_is_read :
    (∀ line path, modulePath? line = some (String.ofList path) ↔ Directs line path) ∧
    (∀ line, NoDirective line → modulePath? line = none) ∧
    ∀ (before : List (List Char)) (m : ModuleLine) (after : List Char),
      (∀ l ∈ before, '\n' ∉ l ∧ ∀ path, ¬ Directs l path) → m.Clear →
      after.head?.all (· == '\n') = true →
        moduleDirective (String.ofList (before.flatMap (· ++ ['\n']) ++ (m.chars ++ after))) =
          some (String.ofList m.path) := by
  refine ⟨fun _ _ => modulePath?_eq_some_iff,
    fun line h => modulePath?_eq_none_iff.2 h.not_directs, ?_⟩
  intro before m after hbefore hclear hafter
  obtain ⟨others, hlines⟩ := textLines_append (fun l hl => (hbefore l hl).1) m.not_mem_chars hafter
  have hnone : before.findSome? modulePath? = none :=
    List.findSome?_eq_none_iff.2 fun l hl => modulePath?_eq_none_iff.2 (hbefore l hl).2
  have hfound : modulePath? m.chars = some (String.ofList m.path) :=
    modulePath?_eq_some_iff.2 (ModuleLine.directs_chars hclear)
  rw [moduleDirective, hlines, List.findSome?_append, hnone, Option.none_or, List.findSome?_cons,
    hfound]

namespace ModuleLine

/-- Quotes stand between the path and what follows. -/
def quotedPath : ModuleLine where
  indent := []
  gap := [' ']
  quoted := true
  path := "example.com/m/".toList
  tail := []
  comment := some " trailing".toList
  blank := by simp; decide
  gap_ne_nil := by decide
  path_ne_nil := by decide +kernel
  path_plain := by simp; decide
  path_slashes := by decide +kernel
  one_line := by decide +kernel

/-- Nothing stands between the slash at the end of the path and those of the comment. -/
def joined : ModuleLine where
  indent := []
  gap := [' ']
  quoted := false
  path := "a/".toList
  tail := []
  comment := some "x".toList
  blank := by simp; decide
  gap_ne_nil := by decide
  path_ne_nil := by decide +kernel
  path_plain := by simp; decide
  path_slashes := by decide +kernel
  one_line := by decide +kernel

end ModuleLine

theorem module_path_after_other_lines :
    modulePath? "module // m".toList = none ∧
      moduleDirective "// comment\nmodules x\nmodule \"example.com/m/\"// trailing\n\ngo 1.22\n" =
        some "example.com/m/" := by
  obtain ⟨-, hnone, hread⟩ := module_path_is_read
  refine ⟨hnone _ (.nothing [] [' '] (by simp; decide) (says_iff.2 (by decide +kernel))), ?_⟩
  have hothers : ∀ l ∈ ["// comment".toList, "modules x".toList],
      '\n' ∉ l ∧ modulePath? l = none := by
    decide +kernel
  have htext : "// comment\nmodules x\nmodule \"example.com/m/\"// trailing\n\ngo 1.22\n" =
      String.ofList (["// comment".toList, "modules x".toList].flatMap (· ++ ['\n']) ++
        (ModuleLine.quotedPath.chars ++ "\n\ngo 1.22\n".toList)) := by
    decide +kernel
  rw [htext, hread _ _ _
    (fun l hl => ⟨(hothers l hl).1, modulePath?_eq_none_iff.1 (hothers l hl).2⟩)
    (by decide) (by decide +kernel)]
  rfl

/-- The slash at the end of a path is read as one of the comment's. -/
theorem slash_read_as_comment : ∃ m : ModuleLine, m.chars = "module a///x".toList ∧
    moduleDirective (String.ofList (m.chars ++ ['\n'])) ≠ some (String.ofList m.path) :=
  ⟨ModuleLine.joined, by decide +kernel, by decide +kernel⟩

end GoIface
