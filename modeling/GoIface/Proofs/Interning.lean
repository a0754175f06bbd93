import Mathlib.Algebra.Ring.Nat
import Mathlib.Data.List.Induction
import Mathlib.Data.List.Nodup
import GoIface.Symbols

/-!
# Names and their symbols

A table is sound if it holds no name twice, has a number for each, and each bucket holds just the
symbols of the names with its hash. However many names share a hash, looking through its bucket then
finds the symbol of a name if it has one (`Sound.intern_cases`), so a name is added only if it is
new, behind all others, and the table stays sound while there are numbers left (`Sound.add`). After
a run of names the table holds them in the order of their first appearance, and the symbol of a name
is its place there (`sound_internAll`).

Once all numbers are given out, the next name gets the symbol of the first one
(`intern_of_full`). So symbols stand for names just while there are no more different names than
numbers (`interning_is_faithful_iff`).
-/

namespace GoIface

/-! ## Lists without what comes again -/

section EraseDups

variable {α β : Type} [BEq α] [LawfulBEq α] [BEq β] [LawfulBEq β]

theorem eraseDups_concat_of_mem {xs : List α} {x : α} (h : x ∈ xs) :
    (xs ++ [x]).eraseDups = xs.eraseDups := by
  simp [List.eraseDups_append, List.removeAll, h]

theorem eraseDups_concat_of_not_mem {xs : List α} {x : α} (h : x ∉ xs) :
    (xs ++ [x]).eraseDups = xs.eraseDups ++ [x] := by
  simp [List.eraseDups_append, List.removeAll, h, List.eraseDups_cons]

theorem eraseDups_map {f : α → β} {xs : List α}
    (hf : ∀ x ∈ xs, ∀ y ∈ xs, f x = f y → x = y) :
    (xs.map f).eraseDups = xs.eraseDups.map f := by
  induction xs using List.reverseRecOn with
  | nil => rfl
  | append_singleton xs x ih =>
    have ih := ih fun y hy z hz => hf y (List.mem_append_left _ hy) z (List.mem_append_left _ hz)
    rw [List.map_append, List.map_singleton]
    by_cases h : x ∈ xs
    · rw [eraseDups_concat_of_mem h, eraseDups_concat_of_mem (List.mem_map_of_mem h), ih]
    · have hfx : f x ∉ xs.map f := by
        intro hmem
        obtain ⟨y, hy, hyx⟩ := List.mem_map.1 hmem
        obtain rfl := hf y (List.mem_append_left _ hy) x (by simp) hyx
        exact h hy
      rw [eraseDups_concat_of_not_mem h, eraseDups_concat_of_not_mem hfx, ih, List.map_append,
        List.map_singleton]

theorem map_idxOf_self {xs : List α} (h : xs.Nodup) :
    xs.map (xs.idxOf ·) = List.range xs.length := by
  refine List.ext_getElem (by simp) fun i hi _ => ?_
  rw [List.getElem_map, h.idxOf_getElem, List.getElem_range]

theorem eraseDups_of_nodup {xs : List α} (h : xs.Nodup) : xs.eraseDups = xs := by
  induction xs using List.reverseRecOn with
  | nil => rfl
  | append_singleton xs x ih =>
    obtain ⟨hxs, -, hdisjoint⟩ := List.nodup_append.1 h
    have hx : x ∉ xs := fun hmem => hdisjoint x hmem x (List.mem_singleton_self x) rfl
    rw [eraseDups_concat_of_not_mem hx, ih hxs]

theorem length_eraseDups_le_concat (xs : List α) (x : α) :
    xs.eraseDups.length ≤ (xs ++ [x]).eraseDups.length := by
  by_cases h : x ∈ xs
  · exact Nat.le_of_eq (by rw [eraseDups_concat_of_mem h])
  · simp [eraseDups_concat_of_not_mem h]

/-- Where a list has more than `n` different members, one of them is the first after `n` others. -/
theorem exists_first_beyond {n : Nat} {xs : List α} (h : n < xs.eraseDups.length) :
    ∃ before x after, xs = before ++ x :: after ∧ x ∉ before ∧ before.eraseDups.length = n := by
  induction xs using List.reverseRecOn with
  | nil => cases h
  | append_singleton xs x ih =>
    by_cases hn : n < xs.eraseDups.length
    · obtain ⟨before, y, after, hxs, hy, hlength⟩ := ih hn
      exact ⟨before, y, after ++ [x], by simp [hxs], hy, hlength⟩
    · have hx : x ∉ xs := fun hmem => hn (by rwa [eraseDups_concat_of_mem hmem] at h)
      have hlength : (xs ++ [x]).eraseDups.length = xs.eraseDups.length + 1 := by
        simp [eraseDups_concat_of_not_mem hx]
      exact ⟨xs, x, [], rfl, hx, by omega⟩

end EraseDups

namespace Symbols

variable {hash : String → UInt64} {s : Symbols hash} {name : String} {x : Symbol}

/-! ## What a symbol stands for -/

theorem resolve?_eq_some_iff :
    s.resolve? x = some name ↔ ∃ h : x.index.toNat < s.names.toList.length,
      s.names.toList[x.index.toNat] = name := by
  rw [resolve?, ← Array.getElem?_toList, List.getElem?_eq_some_iff]

theorem exists_resolve?_iff (hfits : s.names.size ≤ room) :
    (∃ x, s.resolve? x = some name) ↔ name ∈ s.names.toList := by
  rw [List.mem_iff_getElem]
  constructor
  · rintro ⟨x, hx⟩
    exact ⟨x.index.toNat, resolve?_eq_some_iff.1 hx⟩
  · rintro ⟨i, h, hi⟩
    have hroom : i < room := Nat.lt_of_lt_of_le h hfits
    refine ⟨⟨i.toUInt32⟩, resolve?_eq_some_iff.2 ?_⟩
    simp only [toNat_toUInt32 hroom]
    exact ⟨h, hi⟩

/-- The table with a new name, which gets the next number. -/
def add (s : Symbols hash) (name : String) : Symbols hash :=
  ⟨s.names.push name,
    s.buckets.insert (hash name) (s.buckets.getD (hash name) [] ++ [⟨s.names.size.toUInt32⟩])⟩

theorem resolve?_add (hroom : s.names.size < room) : (s.add name).resolve? x
    = if x = ⟨s.names.size.toUInt32⟩ then some name else s.resolve? x := by
  have hx : x = ⟨s.names.size.toUInt32⟩ ↔ x.index.toNat = s.names.size := by
    obtain ⟨n⟩ := x
    rw [Symbol.mk.injEq, ← UInt32.toNat_inj, toNat_toUInt32 hroom]
  rw [resolve?, add, Array.getElem?_push]
  simp only [hx]
  rfl

theorem resolve?_size (hroom : s.names.size < room) :
    s.resolve? ⟨s.names.size.toUInt32⟩ = none := by
  simp [resolve?, toNat_toUInt32 hroom]

/-! ## Sound tables -/

structure Sound (s : Symbols hash) : Prop where
  nodup : s.names.toList.Nodup
  fits : s.names.size ≤ room
  mem_bucket : ∀ h x, x ∈ s.buckets.getD h [] ↔ ∃ name, s.resolve? x = some name ∧ hash name = h

theorem sound_empty : (empty : Symbols hash).Sound where
  nodup := .nil
  fits := Nat.zero_le room
  mem_bucket h x := by simp [empty, resolve?]

namespace Sound

theorem index_eq (hs : s.Sound) (h : s.resolve? x = some name) :
    x.index.toNat = s.names.toList.idxOf name := by
  obtain ⟨hlt, rfl⟩ := resolve?_eq_some_iff.1 h
  exact (hs.nodup.idxOf_getElem _ hlt).symm

/-- Names that have a symbol get it and change nothing, and others are added. -/
theorem intern_cases (hs : s.Sound) (name : String) :
    (name ∈ s.names.toList ∧ (s.intern name).2 = s ∧ s.resolve? (s.intern name).1 = some name) ∨
      (name ∉ s.names.toList ∧ s.intern name = (⟨s.names.size.toUInt32⟩, s.add name)) := by
  rw [intern]
  split
  · next x hfind =>
    have hx : s.resolve? x = some name := by simpa using List.find?_some hfind
    exact .inl ⟨(exists_resolve?_iff hs.fits).1 ⟨x, hx⟩, rfl, hx⟩
  · next hfind =>
    refine .inr ⟨fun hmem => ?_, rfl⟩
    -- its symbol would be in the bucket
    obtain ⟨x, hx⟩ := (exists_resolve?_iff hs.fits).2 hmem
    have hbucket := (hs.mem_bucket (hash name) x).2 ⟨name, hx, rfl⟩
    exact List.find?_eq_none.1 hfind x hbucket (by simpa using hx)

theorem add (hs : s.Sound) (hnew : name ∉ s.names.toList) (hroom : s.names.size < room) :
    (s.add name).Sound where
  nodup := by
    rw [Symbols.add, Array.toList_push, ← List.concat_eq_append]
    exact hs.nodup.concat hnew
  fits := by
    rw [Symbols.add, Array.size_push]
    exact hroom
  mem_bucket h x := by
    have hbucket : x ∈ (s.add name).buckets.getD h [] ↔
        x ∈ s.buckets.getD h [] ∨ (hash name = h ∧ x = ⟨s.names.size.toUInt32⟩) := by
      rw [Symbols.add, Std.HashMap.getD_insert]
      by_cases hh : hash name = h
      · simp [hh]
      · simp [hh]
    rw [hbucket, hs.mem_bucket, resolve?_add hroom]
    by_cases hx : x = ⟨s.names.size.toUInt32⟩
    · simp [hx, resolve?_size hroom]
    · simp [hx]

end Sound

/-! ## Runs of names -/

theorem internAll_append (s : Symbols hash) (names later : List String) :
    s.internAll (names ++ later) = (s.internAll names).internAll later :=
  List.foldl_append

/-- The table of some names. -/
def ofNames (hash : String → UInt64) (names : List String) : Symbols hash := empty.internAll names

theorem ofNames_concat (hash : String → UInt64) (names : List String) (name : String) :
    ofNames hash (names ++ [name]) = ((ofNames hash names).intern name).2 :=
  internAll_append _ _ _

/-- As long as there are numbers for all names, the table holds each of them where it first
appears. -/
theorem sound_ofNames (hash : String → UInt64) {names : List String}
    (h : names.eraseDups.length ≤ room) :
    (ofNames hash names).Sound ∧ (ofNames hash names).names.toList = names.eraseDups := by
  induction names using List.reverseRecOn with
  | nil => exact ⟨sound_empty, rfl⟩
  | append_singleton names name ih =>
    obtain ⟨hs, ih⟩ := ih (Nat.le_trans (length_eraseDups_le_concat names name) h)
    have hmem := List.mem_eraseDups (a := name) (l := names)
    rw [← ih] at hmem
    rw [ofNames_concat]
    rcases hs.intern_cases name with ⟨hold, hintern, -⟩ | ⟨hnew, hintern⟩
    · rw [hintern, eraseDups_concat_of_mem (hmem.1 hold)]
      exact ⟨hs, ih⟩
    · rw [eraseDups_concat_of_not_mem (mt hmem.2 hnew)] at h ⊢
      have hroom : (ofNames hash names).names.size < room := by
        rw [← Array.length_toList, ih]
        rwa [List.length_append, List.length_singleton] at h
      rw [hintern]
      refine ⟨hs.add hnew hroom, ?_⟩
      rw [add, Array.toList_push, ih]

/-- A new name after others gets the next number, cut to its 32 bits. -/
theorem intern_of_not_mem (hash : String → UInt64) (names : List String)
    (h : names.eraseDups.length ≤ room) (hname : name ∉ names) :
    ((ofNames hash names).intern name).1 = ⟨names.eraseDups.length.toUInt32⟩ := by
  obtain ⟨hs, hnames⟩ := sound_ofNames hash h
  rcases hs.intern_cases name with ⟨hold, -⟩ | ⟨-, hintern⟩
  · rw [hnames] at hold
    exact absurd (List.mem_eraseDups.1 hold) hname
  · rw [hintern, ← hnames, Array.length_toList]

theorem resolve?_intern_ofNames (hash : String → UInt64) {names : List String}
    (h : (names ++ [name]).eraseDups.length ≤ room) :
    (ofNames hash (names ++ [name])).resolve? ((ofNames hash names).intern name).1
      = some name := by
  have hle := Nat.le_trans (length_eraseDups_le_concat names name) h
  obtain ⟨hs, hnames⟩ := sound_ofNames hash hle
  rw [ofNames_concat]
  rcases hs.intern_cases name with ⟨-, hintern, hname⟩ | ⟨hnew, -⟩
  · rw [hintern, hname]
  · rw [hnames] at hnew
    rw [eraseDups_concat_of_not_mem (mt List.mem_eraseDups.2 hnew), ← hnames] at h
    rw [List.length_append, List.length_singleton, Array.length_toList] at h
    exact resolve?_intern h name

/-- The names that a table is given one after the other, each with the symbol that it gets. -/
def calls (s : Symbols hash) : List String → List (String × Symbol)
  | [] => []
  | name :: names => (name, (s.intern name).1) :: (s.intern name).2.calls names

theorem map_fst_calls (s : Symbols hash) (names : List String) :
    (s.calls names).map Prod.fst = names := by
  induction names generalizing s with
  | nil => rfl
  | cons name names ih => rw [calls, List.map_cons, ih]

theorem calls_append (s : Symbols hash) (names later : List String) :
    s.calls (names ++ later) = s.calls names ++ (s.internAll names).calls later := by
  induction names generalizing s with
  | nil => rfl
  | cons name names ih =>
    rw [List.cons_append, calls, ih]
    rfl

/-- Symbols are told apart by the names they were given to and are numbered in the order in which
these first appear. Each stands for its name, whatever names come after. -/
structure Faithful (hash : String → UInt64) (names : List String) : Prop where
  same_iff : ∀ p ∈ (empty : Symbols hash).calls names, ∀ q ∈ (empty : Symbols hash).calls names,
    p.2 = q.2 ↔ p.1 = q.1
  numbered : (((empty : Symbols hash).calls names).map (·.2.index.toNat)).eraseDups
    = List.range names.eraseDups.length
  kept : ∀ p ∈ (empty : Symbols hash).calls names, ∀ later,
    (ofNames hash (names ++ later)).resolve? p.2 = some p.1

/-! ## As many names as there are numbers -/

section

variable {names : List String}

theorem resolve?_of_mem_calls (h : names.eraseDups.length ≤ room) {p : String × Symbol}
    (hp : p ∈ (empty : Symbols hash).calls names) :
    (ofNames hash names).resolve? p.2 = some p.1 := by
  induction names using List.reverseRecOn with
  | nil => cases hp
  | append_singleton names name ih =>
    rw [calls_append, List.mem_append] at hp
    rcases hp with hp | hp
    · rw [ofNames, internAll_append]
      exact resolve?_internAll (ih (Nat.le_trans (length_eraseDups_le_concat names name) h) hp) _
    · obtain rfl := List.mem_singleton.1 hp
      exact resolve?_intern_ofNames hash h

/-- The symbol of a name is its place among the different names. -/
theorem index_of_mem_calls (h : names.eraseDups.length ≤ room) {p : String × Symbol}
    (hp : p ∈ (empty : Symbols hash).calls names) :
    p.2.index.toNat = names.eraseDups.idxOf p.1 := by
  obtain ⟨hs, hnames⟩ := sound_ofNames hash h
  rw [hs.index_eq (resolve?_of_mem_calls h hp), hnames]

/-- The symbols, each where it first appears, have the numbers from 0 on. -/
theorem eraseDups_indices (hash : String → UInt64) (h : names.eraseDups.length ≤ room) :
    (((empty : Symbols hash).calls names).map (·.2.index.toNat)).eraseDups
      = List.range names.eraseDups.length := by
  obtain ⟨hs, hnames⟩ := sound_ofNames hash h
  have hnodup := hs.nodup
  rw [hnames] at hnodup
  have hplaces :=
    calc ((empty : Symbols hash).calls names).map (·.2.index.toNat)
      _ = ((empty : Symbols hash).calls names).map fun p => names.eraseDups.idxOf p.1 :=
        List.map_congr_left fun p hp => index_of_mem_calls h hp
      _ = (((empty : Symbols hash).calls names).map Prod.fst).map (names.eraseDups.idxOf ·) := by
        rw [List.map_map]
        rfl
      _ = names.map (names.eraseDups.idxOf ·) := by rw [map_fst_calls]
  rw [hplaces, eraseDups_map, map_idxOf_self hnodup]
  intro name hname other _ heq
  exact (List.idxOf_inj (List.mem_eraseDups.2 hname)).1 heq

theorem faithful_of_le (hash : String → UInt64) (h : names.eraseDups.length ≤ room) :
    Faithful hash names where
  same_iff p hp q hq := by
    constructor
    · intro heq
      have hname := resolve?_of_mem_calls h hp
      rw [heq, resolve?_of_mem_calls h hq] at hname
      exact (Option.some.inj hname).symm
    · intro heq
      have hindex := index_of_mem_calls h hp
      rw [heq, ← index_of_mem_calls h hq] at hindex
      exact congrArg Symbol.mk (UInt32.toNat_inj.1 hindex)
  numbered := eraseDups_indices hash h
  kept p hp later := by
    rw [ofNames, internAll_append]
    exact resolve?_internAll (resolve?_of_mem_calls h hp) later

/-! ## More names than numbers -/

/-- When all numbers are given out, they start again: a new name gets the symbol of the first. -/
theorem intern_of_full (hash : String → UInt64) (h : names.eraseDups.length = room)
    (hname : name ∉ names) : ((ofNames hash names).intern name).1 = ⟨0⟩ := by
  rw [intern_of_not_mem hash _ (Nat.le_of_eq h) hname, h]
  rfl

theorem not_faithful_of_lt (hash : String → UInt64) (h : room < names.eraseDups.length) :
    ¬ Faithful hash names := by
  intro hfaithful
  obtain ⟨before, name, after, rfl, hname, hfull⟩ := exists_first_beyond h
  rcases before with _ | ⟨first, rest⟩
  · cases hfull
  · have hfirst : ((empty : Symbols hash).intern first).1 = ⟨0⟩ :=
      intern_of_not_mem hash [] (Nat.zero_le room) List.not_mem_nil
    have hlast := intern_of_full hash hfull hname
    have hsame := hfaithful.same_iff (first, ⟨0⟩) (by rw [← hfirst]; exact .head _)
        (name, ⟨0⟩) <| by
      rw [calls_append, List.mem_append, ← hlast]
      exact .inr (.head _)
    have heq : first = name := hsame.1 rfl
    exact hname (heq ▸ .head _)

end

/-- Whatever the hashes, symbols stand for names just if there are no more different names than
numbers. -/
theorem interning_is_faithful_iff (hash : String → UInt64) (names : List String) :
    Faithful hash names ↔ names.eraseDups.length ≤ 2 ^ 32 := by
  refine ⟨fun h => ?_, faithful_of_le hash⟩
  by_contra hlt
  exact not_faithful_of_lt hash (Nat.lt_of_not_le hlt) h

/-- The names of no letter, one letter and so on. -/
def growingNames (n : Nat) : List String :=
  (List.range n).map fun i => String.ofList (List.replicate i 'a')

theorem nodup_growingNames (n : Nat) : (growingNames n).Nodup := by
  refine List.Nodup.map (fun i j h => ?_) List.nodup_range
  simpa using congrArg (·.toList.length) h

/-- One name more than there are numbers. -/
theorem growing_names_unfaithful : ¬ Faithful (fun _ => 0) (growingNames (2 ^ 32 + 1)) := by
  refine not_faithful_of_lt _ ?_
  rw [eraseDups_of_nodup (nodup_growingNames _), growingNames, List.length_map, List.length_range]
  exact Nat.lt_succ_self _

-- all in one bucket
example : ((empty : Symbols fun _ => 0).calls ["b", "a", "b"]).map (·.2.index) = [0, 1, 0] := by
  cbv

end Symbols

end GoIface
