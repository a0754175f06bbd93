import Mathlib.Data.List.DropRight
import GoIface.Files.Platform
import GoIface.Proofs.Cuts

/-!
# Names for a platform

By the rule of the build a file name demands of the host what its last elements tell, and only what
stands before the first point counts. The host reads what stands after the last point before the
ending (`accepts_iff_metBy`). The two are the same for names without another point, and in all they
agree on a name if both parts demand the same, and only then (`platform_rule_followed_iff`).
-/

namespace GoIface

/-! ## Demands -/

/-- What the name of a file demands of the host. -/
structure Demand where
  os : Option String
  arch : Option String
deriving DecidableEq

/-- A file for a system suits the hosts of that system and of those that are built on it. -/
def Suits (os hostOs : String) : Prop :=
  os = hostOs ∨ (os, hostOs) ∈ [("linux", "android"), ("solaris", "illumos"), ("darwin", "ios")]

namespace Demand

structure MetBy (d : Demand) (host : Platform) : Prop where
  os : ∀ os ∈ d.os, Suits os host.os
  arch : ∀ arch ∈ d.arch, arch = host.arch

/-- What the last element demands if it is not taken together with the one before. -/
def ofLast (last : String) : Demand :=
  if last ∈ knownSystems then ⟨last, none⟩
  else if last ∈ knownArchitectures then ⟨none, last⟩
  else ⟨none, none⟩

/-- If the last two elements are a system and an architecture, both are demanded, else the last one
if it is either. -/
def ofElements (elements : List String) : Demand :=
  match elements.dropLast.getLast?, elements.getLast? with
  | some os, some arch =>
    if os ∈ knownSystems ∧ arch ∈ knownArchitectures then ⟨os, arch⟩ else ofLast arch
  | none, some last => ofLast last
  | _, none => ⟨none, none⟩

def lessTest (elements : List String) : List String :=
  if elements.getLast? = some "test" then elements.dropLast else elements

/-- The elements from the first underscore on, less a last `test`. -/
def elementsOf (part : List Char) : List String :=
  lessTest ((splitAt (· == '_') (part.dropWhile (· != '_'))).map String.ofList)

/-- What a part of a name demands. -/
def ofPart (part : List Char) : Demand := ofElements (elementsOf part)

end Demand

/-- What stands before the first point. -/
def firstPart (cs : List Char) : List Char := cs.takeWhile (· != '.')

/-- What stands after the last point. -/
def lastPart (cs : List Char) : List Char := cs.rtakeWhile (· != '.')

/-! ## Telling demands apart -/

theorem not_suits_append (os : String) : ¬ Suits os (os ++ "?") := by
  rintro (heq | hbuilt)
  · have hlen := congrArg String.length heq
    rw [String.length_append, show "?".length = 1 from rfl] at hlen
    omega
  · simp only [List.mem_cons, Prod.mk.injEq, List.not_mem_nil, or_false] at hbuilt
    rcases hbuilt with ⟨rfl, heq⟩ | ⟨rfl, heq⟩ | ⟨rfl, heq⟩ <;> exact absurd heq (by decide)

theorem suits_antisymm {os os' : String} (h : Suits os os') (h' : Suits os' os) : os = os' := by
  rcases h with heq | hbuilt
  · exact heq
  · simp only [List.mem_cons, Prod.mk.injEq, List.not_mem_nil, or_false] at hbuilt
    rcases hbuilt with ⟨rfl, rfl⟩ | ⟨rfl, rfl⟩ | ⟨rfl, rfl⟩ <;>
      exact absurd h' (by unfold Suits; decide)

/-- What some relation demands of all is told by what meets it, if it tells any two apart. -/
theorem eq_of_forall_mem_iff {r : String → String → Prop} (hrefl : ∀ s, r s s)
    (hanti : ∀ s t, r s t → r t s → s = t) (hsome : ∀ s, ∃ t, ¬ r s t) {o o' : Option String}
    (h : ∀ t, (∀ s ∈ o, r s t) ↔ ∀ s ∈ o', r s t) : o = o' := by
  rcases o with _ | s <;> rcases o' with _ | s'
  · rfl
  · obtain ⟨t, ht⟩ := hsome s'
    exact absurd ((h t).1 (by simp) s' rfl) ht
  · obtain ⟨t, ht⟩ := hsome s
    exact absurd ((h t).2 (by simp) s rfl) ht
  · have hs := (h s).1 (by simpa using hrefl s) s' rfl
    have hs' := (h s').2 (by simpa using hrefl s') s rfl
    rw [hanti s s' hs' hs]

namespace Demand

variable {d d' : Demand}

/-- Different demands are told apart by some host. -/
theorem eq_of_metBy_iff (h : ∀ host, d.MetBy host ↔ d'.MetBy host) : d = d' := by
  have hrefl (s : String) : Suits s s := .inl rfl
  have hos (e : Demand) : ∃ os, ∀ s ∈ e.os, Suits s os := by
    rcases e with ⟨_ | s, _⟩
    · exact ⟨"", by simp⟩
    · exact ⟨s, by simpa using hrefl s⟩
  have harch (e : Demand) : ∃ arch, ∀ s ∈ e.arch, s = arch := by
    rcases e with ⟨_, _ | s⟩
    · exact ⟨"", by simp⟩
    · exact ⟨s, by simp⟩
  have hsystems : d.os = d'.os := by
    refine eq_of_forall_mem_iff hrefl (fun _ _ => suits_antisymm)
      (fun s => ⟨_, not_suits_append s⟩) fun t => ⟨fun hmet => ?_, fun hmet => ?_⟩
    · obtain ⟨arch, ha⟩ := harch d
      exact ((h ⟨t, arch⟩).1 ⟨hmet, ha⟩).os
    · obtain ⟨arch, ha⟩ := harch d'
      exact ((h ⟨t, arch⟩).2 ⟨hmet, ha⟩).os
  have harchitectures : d.arch = d'.arch := by
    have hother (s : String) : ∃ t, ¬ s = t := ⟨s ++ "?", fun heq => by
      simpa using congrArg String.length heq⟩
    refine eq_of_forall_mem_iff (fun _ => rfl) (fun _ _ heq _ => heq) hother
      fun t => ⟨fun hmet => ?_, fun hmet => ?_⟩
    · obtain ⟨os, ho⟩ := hos d
      exact ((h ⟨os, t⟩).1 ⟨ho, hmet⟩).arch
    · obtain ⟨os, ho⟩ := hos d'
      exact ((h ⟨os, t⟩).2 ⟨ho, hmet⟩).arch
  cases d
  cases d'
  simp_all

/-! ## Elements that matter -/

theorem ofElements_singleton (last : String) : ofElements [last] = ofLast last := rfl

theorem ofElements_pair (init : List String) (os arch : String) :
    ofElements (init ++ [os, arch])
      = if os ∈ knownSystems ∧ arch ∈ knownArchitectures then ⟨os, arch⟩ else ofLast arch := by
  have hsplit : init ++ [os, arch] = init ++ [os] ++ [arch] := by simp
  rw [ofElements, hsplit, List.dropLast_concat, List.getLast?_concat, List.getLast?_concat]

def NamesNoPlatform (e : String) : Prop := e ∉ knownSystems ∧ e ∉ knownArchitectures

/-- What stands up to an element that names no platform does not matter. -/
theorem ofElements_append {pre : List String} (hpre : ∀ e ∈ pre.getLast?, NamesNoPlatform e)
    (es : List String) : ofElements (pre ++ es) = ofElements es := by
  rcases List.eq_nil_or_concat' pre with rfl | ⟨pre, e, rfl⟩
  · rw [List.nil_append]
  · obtain ⟨hsystem, harch⟩ := hpre e (by simp)
    rcases es with _ | ⟨last, _ | ⟨second, es⟩⟩
    · rw [List.append_nil]
      rcases List.eq_nil_or_concat' pre with rfl | ⟨pre, before, rfl⟩
      · rw [List.nil_append, ofElements_singleton, ofLast, if_neg hsystem, if_neg harch]
        rfl
      · rw [List.append_assoc, List.singleton_append, ofElements_pair, if_neg (by simp [harch]),
          ofLast, if_neg hsystem, if_neg harch]
        rfl
    · rw [List.append_assoc, List.singleton_append, ofElements_pair, if_neg (by simp [hsystem]),
        ofElements_singleton]
    · obtain ⟨init, before, arch, hes⟩ : ∃ init before arch,
          last :: second :: es = init ++ [before, arch] := by
        obtain h | ⟨init, arch, h⟩ := List.eq_nil_or_concat' (last :: second :: es)
        · cases h
        · rcases List.eq_nil_or_concat' init with rfl | ⟨init, before, rfl⟩
          · cases h
          · exact ⟨init, before, arch, by rw [h]; simp⟩
      rw [hes, ← List.append_assoc, ofElements_pair, ofElements_pair]

end Demand

namespace Platform

variable (host : Platform)

theorem runsFor_iff (os : String) : host.runsFor os = true ↔ Suits os host.os := by
  simp [runsFor, Suits, or_assoc]

theorem suitsOne_iff (last : String) :
    suits.suitsOne host last = true ↔ (Demand.ofLast last).MetBy host := by
  rw [suits.suitsOne, Demand.ofLast]
  simp only [List.contains_iff_mem]
  split_ifs
  · rw [runsFor_iff]
    exact ⟨fun h => ⟨by simpa using h, by simp⟩, fun h => h.os last rfl⟩
  · rw [beq_iff_eq]
    exact ⟨fun h => ⟨by simp, by simpa using h⟩, fun h => h.arch last rfl⟩
  · exact iff_of_true rfl ⟨by simp, by simp⟩

theorem suits_iff (es : List String) :
    host.suits es.reverse = true ↔ (Demand.ofElements es).MetBy host := by
  rcases List.eq_nil_or_concat' es with rfl | ⟨init, last, rfl⟩
  · exact iff_of_true rfl ⟨by simp [Demand.ofElements], by simp [Demand.ofElements]⟩
  · rcases List.eq_nil_or_concat' init with rfl | ⟨init, before, rfl⟩
    · exact host.suitsOne_iff last
    · have hsplit : init ++ [before] ++ [last] = init ++ [before, last] := by simp
      rw [hsplit, Demand.ofElements_pair, List.reverse_append]
      simp only [List.reverse_cons, List.reverse_nil, List.nil_append, List.cons_append, suits,
        Bool.and_eq_true, List.contains_iff_mem]
      split_ifs
      · rw [Bool.and_eq_true, runsFor_iff, beq_iff_eq]
        exact ⟨fun h => ⟨by simpa using h.1, by simpa using h.2⟩,
          fun h => ⟨h.os before rfl, h.arch last rfl⟩⟩
      · exact host.suitsOne_iff last

end Platform

/-! ## Elements of a name -/

theorem bne_of_not_mem {c : Char} {cs : List Char} (h : c ∉ cs) : ∀ d ∈ cs, (d != c) = true :=
  fun _ hd => bne_iff_ne.2 (ne_of_mem_of_not_mem hd h)

theorem exists_last_of_mem {c : Char} {cs : List Char} (h : c ∈ cs) :
    ∃ before after, cs = before ++ c :: after ∧ c ∉ after := by
  obtain ⟨after, before, hcs, hafter⟩ := List.eq_append_cons_of_mem (List.mem_reverse.2 h)
  refine ⟨before.reverse, after.reverse, ?_, by simpa using hafter⟩
  rw [← List.reverse_reverse cs, hcs]
  simp

/-- The elements after the first underscore. -/
def laterElements (cs : List Char) : List String :=
  ((splitAt (· == '_') cs).drop 1).map String.ofList

theorem splitAt_underscore {before last : List Char} (hlast : '_' ∉ last) :
    splitAt (· == '_') (before ++ '_' :: last) = splitAt (· == '_') before ++ [last] := by
  rw [splitAt_append_cons (by rfl), splitAt_of_not_mem hlast]

theorem laterElements_underscore {before last : List Char} (hlast : '_' ∉ last) :
    laterElements (before ++ '_' :: last) = laterElements before ++ [String.ofList last] := by
  obtain ⟨first, others, hsplit, -⟩ := exists_splitAt_cons (· == '_') before
  simp [laterElements, splitAt_underscore hlast, hsplit]

theorem laterElements_of_not_mem {cs : List Char} (h : '_' ∉ cs) : laterElements cs = [] := by
  rw [laterElements, splitAt_of_not_mem h]
  rfl

theorem getD_dropEnd?_test (cs : List Char) :
    laterElements ((Text.dropEnd? "_test".toList cs).getD cs)
      = Demand.lessTest (laterElements cs) := by
  rcases hdrop : Text.dropEnd? "_test".toList cs with _ | before
  · rw [Option.getD_none, Demand.lessTest, if_neg]
    intro hlast
    by_cases hmem : '_' ∈ cs
    · obtain ⟨before, last, rfl, hno⟩ := exists_last_of_mem hmem
      rw [laterElements_underscore hno, List.getLast?_concat, Option.some_inj] at hlast
      have hlast : last = "test".toList := by simpa using congrArg String.toList hlast
      have hsome := Text.dropEnd?_eq_some_iff.2
        (show before ++ '_' :: last = before ++ "_test".toList by rw [hlast]; rfl)
      rw [hsome] at hdrop
      cases hdrop
    · rw [laterElements_of_not_mem hmem] at hlast
      cases hlast
  · obtain rfl := Text.dropEnd?_eq_some_iff.1 hdrop
    have htest : "_test".toList = '_' :: "test".toList := rfl
    rw [Option.getD_some, htest, laterElements_underscore (by decide), String.ofList_toList,
      Demand.lessTest, List.getLast?_concat, if_pos rfl, List.dropLast_concat]

theorem Platform.elements_eq {name : String} {stem : List Char}
    (hname : name.toList = stem ++ ".go".toList) :
    Platform.elements name = Demand.lessTest (laterElements stem) := by
  rw [Platform.elements, Text.dropEnd?_eq_some_iff.2 hname, Option.getD_some,
    ← getD_dropEnd?_test]
  rfl

namespace Demand

/-- The rule takes an empty element before those after the first underscore. -/
theorem elementsOf_eq (part : List Char) :
    elementsOf part = "" :: lessTest (laterElements part) := by
  rw [elementsOf]
  by_cases hmem : '_' ∈ part
  · obtain ⟨first, rest, rfl, hfirst⟩ := List.eq_append_cons_of_mem hmem
    have hlater : laterElements (first ++ '_' :: rest)
        = (splitAt (· == '_') rest).map String.ofList := by
      rw [laterElements, splitAt_append_cons (by rfl), splitAt_of_not_mem hfirst]
      rfl
    have hcons : splitAt (· == '_') ('_' :: rest) = [] :: splitAt (· == '_') rest := by
      simp [splitAt]
    rw [List.dropWhile_append_of_pos (bne_of_not_mem hfirst),
      List.dropWhile_cons_of_neg (by simp), hcons, hlater]
    obtain ⟨second, others, hsplit, -⟩ := exists_splitAt_cons (· == '_') rest
    simp only [lessTest, hsplit, List.map_cons, List.getLast?_cons_cons, List.dropLast_cons_cons]
    split_ifs <;> rfl
  · rw [laterElements_of_not_mem hmem, List.dropWhile_eq_nil_iff.2 (bne_of_not_mem hmem)]
    rfl

theorem namesNoPlatform_of_mem {e : String} (h : '.' ∈ e.toList) :
    NamesNoPlatform e ∧ e ≠ "test" := by
  have hplain : ∀ known ∈ "test" :: (knownSystems ++ knownArchitectures),
      '.' ∉ known.toList := by
    decide +kernel
  refine ⟨⟨fun hmem => hplain e ?_ h, fun hmem => hplain e ?_ h⟩, fun heq => hplain e ?_ h⟩
  · exact List.mem_cons_of_mem _ (List.mem_append_left _ hmem)
  · exact List.mem_cons_of_mem _ (List.mem_append_right _ hmem)
  · exact heq ▸ List.mem_cons_self

theorem lessTest_append {pre : List String} (hpre : ∀ e ∈ pre.getLast?, e ≠ "test")
    (es : List String) : lessTest (pre ++ es) = pre ++ lessTest es := by
  rcases List.eq_nil_or_concat' es with rfl | ⟨init, last, rfl⟩
  · have hlast : ¬ pre.getLast? = some "test" := fun hlast => hpre "test" hlast rfl
    simp [lessTest, hlast]
  · have hinit : pre ++ (init ++ [last]) = pre ++ init ++ [last] := by simp
    simp only [lessTest, hinit, List.getLast?_concat, List.dropLast_concat]
    split_ifs
    · rfl
    · rw [hinit]

/-- What elements demand is told by those after the last point. -/
theorem ofElements_point (before : List Char) (after : List Char) :
    ofElements (lessTest (laterElements (before ++ '.' :: after)))
      = ofElements (lessTest (laterElements after)) := by
  obtain ⟨init, last, hbefore, happend⟩ := exists_splitAt_append (· == '_') before
  obtain ⟨first, others, hafter, -⟩ := exists_splitAt_cons (· == '_') after
  have hjoined : ∀ c ∈ last ++ ['.'], (c == '_') = false := by
    intro c hc
    rcases List.mem_append.1 hc with hc | hc
    · exact not_of_mem_splitAt (hbefore ▸ List.mem_append_right _ List.mem_cons_self) c hc
    · obtain rfl := List.mem_singleton.1 hc
      rfl
  have hrest : before ++ '.' :: after = before ++ (['.'] ++ after) := rfl
  have hlater : laterElements (before ++ '.' :: after)
      = ((init ++ [last ++ ['.'] ++ first]).drop 1).map String.ofList ++ laterElements after := by
    rw [laterElements, laterElements, hrest, happend, ← List.append_assoc,
      splitAt_append_of_forall_not hjoined hafter, hafter]
    rcases init with _ | ⟨_, init⟩ <;> simp
  have hpointed : ∀ e ∈ (((init ++ [last ++ ['.'] ++ first]).drop 1).map String.ofList).getLast?,
      '.' ∈ e.toList := by
    intro e he
    rcases init with _ | ⟨_, init⟩
    · cases he
    · simp only [List.cons_append, List.drop_succ_cons, List.drop_zero, List.map_append,
        List.map_cons, List.map_nil, List.getLast?_concat, Option.mem_some] at he
      simp [← he]
  rw [hlater, lessTest_append fun e he => (namesNoPlatform_of_mem (hpointed e he)).2,
    ofElements_append fun e he => (namesNoPlatform_of_mem (hpointed e he)).1]

theorem ofPart_eq (part : List Char) :
    ofPart part = ofElements (lessTest (laterElements part)) := by
  have hempty : NamesNoPlatform "" := by
    unfold NamesNoPlatform
    decide
  rw [ofPart, elementsOf_eq, ← List.singleton_append]
  exact ofElements_append (by simpa using hempty) _

end Demand

theorem lastPart_of_not_mem {cs : List Char} (h : '.' ∉ cs) : lastPart cs = cs :=
  List.rtakeWhile_eq_self_iff.2 (bne_of_not_mem h)

theorem firstPart_of_not_mem {cs : List Char} (h : '.' ∉ cs) : firstPart cs = cs :=
  List.takeWhile_eq_self_iff.2 (bne_of_not_mem h)

theorem lastPart_point {before after : List Char} (h : '.' ∉ after) :
    lastPart (before ++ '.' :: after) = after := by
  have hpass := bne_of_not_mem (mt List.mem_reverse.1 h)
  rw [lastPart, List.rtakeWhile, List.reverse_append, List.reverse_cons, List.append_assoc,
    List.takeWhile_append_of_pos hpass]
  simp

theorem firstPart_append {stem : List Char} (ending : List Char) :
    firstPart (stem ++ '.' :: ending) = firstPart stem := by
  unfold firstPart
  induction stem with
  | nil => rfl
  | cons c stem ih => rw [List.cons_append, List.takeWhile_cons, List.takeWhile_cons, ih]

/-! ## Accepting a name -/

section

variable {name : String} {stem : List Char} (hname : name.toList = stem ++ ".go".toList)

include hname

/-- A host accepts the files whose names demand of it, after the last point before the ending, what
it meets. -/
theorem Platform.accepts_iff_metBy (host : Platform) :
    host.accepts name = true ↔ (Demand.ofPart (lastPart stem)).MetBy host := by
  rw [Platform.accepts, Platform.suits_iff, Platform.elements_eq hname, Demand.ofPart_eq]
  by_cases hmem : '.' ∈ stem
  · obtain ⟨before, after, rfl, hafter⟩ := exists_last_of_mem hmem
    rw [Demand.ofElements_point, lastPart_point hafter]
  · rw [lastPart_of_not_mem hmem]

/-- The part of a name after its last point, the ending apart, tells whether a host accepts it. So
the rule of the build, which goes by the part before the first point, is followed if there is no
point, and in all by every host if and only if both parts demand the same. -/
theorem platform_rule_followed_iff :
    (∀ host : Platform,
      host.accepts name = true ↔ (Demand.ofPart (lastPart stem)).MetBy host) ∧
    ((∀ host : Platform,
        host.accepts name = true ↔ (Demand.ofPart (firstPart name.toList)).MetBy host) ↔
      Demand.ofPart (lastPart stem) = Demand.ofPart (firstPart name.toList)) ∧
    ('.' ∉ stem → ∀ host : Platform,
      host.accepts name = true ↔ (Demand.ofPart (firstPart name.toList)).MetBy host) := by
  have haccepts := Platform.accepts_iff_metBy hname
  refine ⟨haccepts, ⟨fun hrule => Demand.eq_of_metBy_iff fun host => ?_, fun heq host => ?_⟩,
    fun hno host => ?_⟩
  · rw [← haccepts, hrule]
  · rw [haccepts, heq]
  · rw [haccepts, hname, show ".go".toList = '.' :: "go".toList from rfl, firstPart_append,
      firstPart_of_not_mem hno, lastPart_of_not_mem hno]

end

/-- A point after the system hides it, so that a file for one system is taken for every host, and a
point before the first underscore shows a system that the rule would not look at. -/
theorem point_hides_platform :
    (Demand.ofPart (firstPart "a_linux.x.go".toList) = ⟨"linux", none⟩ ∧
      ¬ (⟨"linux", none⟩ : Demand).MetBy ⟨"windows", "amd64"⟩ ∧
      (⟨"windows", "amd64"⟩ : Platform).accepts "a_linux.x.go" = true) ∧
    (Demand.ofPart (firstPart "a.b_linux.go".toList) = ⟨none, none⟩ ∧
      (⟨"windows", "amd64"⟩ : Platform).accepts "a.b_linux.go" = false) ∧
    ((⟨"android", "arm64"⟩ : Platform).accepts "a_linux_arm64_test.go" = true ↔
      (Demand.ofPart (firstPart "a_linux_arm64_test.go".toList)).MetBy ⟨"android", "arm64"⟩) := by
  obtain ⟨hhidden, -, -⟩ := platform_rule_followed_iff
    (show "a_linux.x.go".toList = "a_linux.x".toList ++ ".go".toList from rfl)
  obtain ⟨hshown, -, -⟩ := platform_rule_followed_iff
    (show "a.b_linux.go".toList = "a.b_linux".toList ++ ".go".toList from rfl)
  obtain ⟨-, -, hplain⟩ := platform_rule_followed_iff
    (show "a_linux_arm64_test.go".toList = "a_linux_arm64_test".toList ++ ".go".toList from rfl)
  have hsuits : ¬ Suits "linux" "windows" := by
    unfold Suits
    decide
  have hnothing : Demand.ofPart (lastPart "a_linux.x".toList) = ⟨none, none⟩ := by decide +kernel
  have hlinux : Demand.ofPart (lastPart "a.b_linux".toList) = ⟨"linux", none⟩ := by decide +kernel
  rw [hnothing] at hhidden
  rw [hlinux] at hshown
  refine ⟨⟨by decide +kernel, fun h => hsuits (h.os _ rfl), (hhidden _).2 ⟨by simp, by simp⟩⟩,
    ⟨by decide +kernel, ?_⟩, hplain (by decide) _⟩
  rw [Bool.eq_false_iff]
  exact fun h => hsuits (((hshown _).1 h).os _ rfl)

end GoIface
