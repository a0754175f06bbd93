import Mathlib.Data.List.Sort
import Mathlib.Data.String.Basic
import GoIface.Proofs.WrittenTypes

/-!
# What the text of a type depends on

The packages of a type are those of the named types at any depth inside it (`TypeExpr.Refers`), and
a set gets these added and nothing else (`refers_iff`). What is written for the type depends on the
names these packages go by, and on no other (`render_congr`). It depends on each of them: where two
tables differ on one package, the texts are the same up to the first place where this package is
named, and there the two names stand, each before a point (`render_parts`). A name without a point
can be told from the text then, so the texts differ.
-/

namespace GoIface

/-- A named type that the package declares is inside the type, or is the type itself. -/
inductive TypeExpr.Refers (package : String) : TypeExpr → Prop
  | named {name : String} (h : package ≠ "") : Refers package (.named package name)
  | array {length : Nat} {elem : TypeExpr} (h : elem.Refers package) :
      Refers package (.array length elem)
  | slice {elem : TypeExpr} (h : elem.Refers package) : Refers package (.slice elem)
  | pointer {elem : TypeExpr} (h : elem.Refers package) : Refers package (.pointer elem)
  | key {key value : TypeExpr} (h : key.Refers package) : Refers package (.mapping key value)
  | value {key value : TypeExpr} (h : value.Refers package) : Refers package (.mapping key value)
  | chan {direction : Direction} {elem : TypeExpr} (h : elem.Refers package) :
      Refers package (.chan direction elem)
  | arg {args results : List Param} {x : Param} (hx : x ∈ args) (h : x.type.Refers package) :
      Refers package (.func args results)
  | result {args results : List Param} {x : Param} (hx : x ∈ results) (h : x.type.Refers package) :
      Refers package (.func args results)

/-! ## Induction over types -/

/-- It holds of a type of each form if it holds of the types right inside. -/
structure TypeExpr.Inherited (motive : TypeExpr → Prop) : Prop where
  array : ∀ length elem, motive elem → motive (.array length elem)
  slice : ∀ elem, motive elem → motive (.slice elem)
  pointer : ∀ elem, motive elem → motive (.pointer elem)
  mapping : ∀ key value, motive key → motive value → motive (.mapping key value)
  chan : ∀ direction elem, motive elem → motive (.chan direction elem)
  func : ∀ args results, (∀ x ∈ args, motive x.type) → (∀ x ∈ results, motive x.type) →
    motive (.func args results)
  named : ∀ package name, motive (.named package name)
  predeclared : ∀ name, motive (.predeclared name)

section

variable {motive : TypeExpr → Prop}

namespace TypeExpr.Inherited

mutual

theorem type (h : Inherited motive) : ∀ t : TypeExpr, motive t
  | .array length elem => h.array length elem (h.type elem)
  | .slice elem => h.slice elem (h.type elem)
  | .pointer elem => h.pointer elem (h.type elem)
  | .mapping key value => h.mapping key value (h.type key) (h.type value)
  | .chan direction elem => h.chan direction elem (h.type elem)
  | .func args results => h.func args results (h.params args) (h.params results)
  | .named package name => h.named package name
  | .predeclared name => h.predeclared name

theorem params (h : Inherited motive) : ∀ xs : List Param, ∀ x ∈ xs, motive x.type
  | [] => by simp
  | ⟨_, _, t⟩ :: xs => List.forall_mem_cons.2 ⟨h.type t, h.params xs⟩

end

end TypeExpr.Inherited

variable (array : ∀ length elem, motive elem → motive (.array length elem))
  (slice : ∀ elem, motive elem → motive (.slice elem))
  (pointer : ∀ elem, motive elem → motive (.pointer elem))
  (mapping : ∀ key value, motive key → motive value → motive (.mapping key value))
  (chan : ∀ direction elem, motive elem → motive (.chan direction elem))
  (named : ∀ package name, motive (.named package name))
  (predeclared : ∀ name, motive (.predeclared name))

include array slice pointer mapping chan named predeclared

@[elab_as_elim]
theorem TypeExpr.induct
    (func : ∀ args results, (∀ x ∈ args, motive x.type) → (∀ x ∈ results, motive x.type) →
      motive (.func args results)) (t : TypeExpr) : motive t :=
  Inherited.type ⟨array, slice, pointer, mapping, chan, func, named, predeclared⟩ t

/-- Induction where the types of parameters are those that are written for them. -/
@[elab_as_elim]
theorem TypeExpr.inductShown
    (func : ∀ args results, (∀ x ∈ args, motive x.shown) → (∀ x ∈ results, motive x.shown) →
      motive (.func args results)) (t : TypeExpr) : motive t := by
  have hshown {xs : List Param}
      (h : ∀ x ∈ xs, motive x.type ∧ ∀ elem, x.type = .slice elem → motive elem) :
      ∀ x ∈ xs, motive x.shown := by
    rintro ⟨_, _ | _, type⟩ hx
    · exact (h _ hx).1
    · cases type with
      | slice elem => exact (h _ hx).2 elem rfl
      | _ => exact (h _ hx).1
  suffices h : motive t ∧ ∀ elem, t = .slice elem → motive elem from h.1
  induction t using TypeExpr.induct with
  | array length elem ih => exact ⟨array _ _ ih.1, by simp⟩
  | slice elem ih => exact ⟨slice _ ih.1, by rintro _ ⟨⟩; exact ih.1⟩
  | pointer elem ih => exact ⟨pointer _ ih.1, by simp⟩
  | mapping key value ihkey ihvalue => exact ⟨mapping _ _ ihkey.1 ihvalue.1, by simp⟩
  | chan direction elem ih => exact ⟨chan _ _ ih.1, by simp⟩
  | func args results ihargs ihresults =>
    exact ⟨func _ _ (hshown ihargs) (hshown ihresults), by simp⟩
  | named package name => exact ⟨named _ _, by simp⟩
  | predeclared name => exact ⟨predeclared _, by simp⟩

end

/-! ## Packages -/

variable {p : String} {table table' : AliasTable}

theorem mem_packages_func {args results : List Param} :
    p ∈ (TypeExpr.func args results).packages ↔
      (∃ x ∈ args, p ∈ x.type.packages) ∨ ∃ x ∈ results, p ∈ x.type.packages := by
  simp only [TypeExpr.packages, packagesOfAll_eq_flatMap, List.mem_append, List.mem_flatMap,
    packagesOfParam_eq]

/-- The packages that are gathered from a type are the ones it refers to. -/
theorem refers_iff {t : TypeExpr} : t.Refers p ↔ p ∈ t.packages := by
  constructor
  · intro h
    induction h with
    | named h => simp [TypeExpr.packages, h]
    | array _ ih | slice _ ih | pointer _ ih | chan _ ih => exact ih
    | key _ ih => exact List.mem_append_left _ ih
    | value _ ih => exact List.mem_append_right _ ih
    | arg hx _ ih => exact mem_packages_func.2 (.inl ⟨_, hx, ih⟩)
    | result hx _ ih => exact mem_packages_func.2 (.inr ⟨_, hx, ih⟩)
  · intro h
    induction t using TypeExpr.induct with
    | array length elem ih => exact .array (ih h)
    | slice elem ih => exact .slice (ih h)
    | pointer elem ih => exact .pointer (ih h)
    | mapping key value ihkey ihvalue =>
      exact (List.mem_append.1 h).elim (fun h => .key (ihkey h)) fun h => .value (ihvalue h)
    | chan direction elem ih => exact .chan (ih h)
    | func args results ihargs ihresults =>
      rcases mem_packages_func.1 h with ⟨x, hx, h⟩ | ⟨x, hx, h⟩
      · exact .arg hx (ihargs x hx h)
      · exact .result hx (ihresults x hx h)
    | named package name =>
      by_cases hpackage : package = ""
      · simp [TypeExpr.packages, hpackage] at h
      · obtain rfl : p = package := by simpa [TypeExpr.packages, hpackage] using h
        exact .named hpackage
    | predeclared name => simp [TypeExpr.packages] at h

/-! ## Sets of packages -/

theorem pairwise_insertPath {path : String} {set : PathSet} (h : set.Pairwise (· < ·)) :
    (insertPath path set).Pairwise (· < ·) := by
  induction set with
  | nil => exact List.pairwise_singleton _ _
  | cons q set ih =>
    obtain ⟨hq, hset⟩ := List.pairwise_cons.1 h
    unfold insertPath
    split
    · next hlt =>
      refine List.pairwise_cons.2 ⟨fun r hr => ?_, h⟩
      rcases List.mem_cons.1 hr with rfl | hr
      · exact hlt
      · exact hlt.trans (hq r hr)
    · next hnot =>
      split
      · exact h
      · next hne =>
        refine List.pairwise_cons.2 ⟨fun r hr => ?_, ih hset⟩
        rcases mem_insertPath.1 hr with rfl | hr
        · exact lt_of_le_of_ne (not_lt.1 hnot) (Ne.symm hne)
        · exact hq r hr

theorem PathSet.pairwise_addAll {set : PathSet} {paths : List String}
    (h : set.Pairwise (· < ·)) : (set.addAll paths).Pairwise (· < ·) := by
  induction paths generalizing set with
  | nil => exact h
  | cons q paths ih => exact ih (pairwise_insertPath h)

/-- Sets with the same members are the same. -/
theorem PathSet.addAll_congr {set set' : PathSet} {paths paths' : List String}
    (h : set.Pairwise (· < ·)) (h' : set'.Pairwise (· < ·))
    (hmem : ∀ p, p ∈ set ∨ p ∈ paths ↔ p ∈ set' ∨ p ∈ paths') :
    set.addAll paths = set'.addAll paths' :=
  (pairwise_addAll h).eq_of_mem_iff (pairwise_addAll h') fun p => by
    rw [mem_addAll, mem_addAll, hmem]

/-! ## Texts -/

/-- What is written for a type does not depend on what other packages go by. -/
theorem TypeExpr.render_congr {t : TypeExpr}
    (h : ∀ p ∈ t.packages, table.qualifier p = table'.qualifier p) :
    t.render table = t.render table' := by
  induction t using TypeExpr.inductShown with
  | array length elem ih | slice elem ih | pointer elem ih | chan direction elem ih =>
    rw [render, render, ih h]
  | mapping key value ihkey ihvalue =>
    rw [render, render, ihkey fun p hp => h p (List.mem_append_left _ hp),
      ihvalue fun p hp => h p (List.mem_append_right _ hp)]
  | func args results ihargs ihresults =>
    have hparams {xs : List Param} (ih : ∀ x ∈ xs,
          (∀ p ∈ x.shown.packages, table.qualifier p = table'.qualifier p) →
            x.shown.render table = x.shown.render table')
        (hxs : ∀ x ∈ xs, ∀ p ∈ x.type.packages, table.qualifier p = table'.qualifier p) :
        renderAll table xs = renderAll table' xs := by
      rw [renderAll_eq_map, renderAll_eq_map]
      refine List.map_congr_left fun x hx => ?_
      rw [renderParam_eq, renderParam_eq, ih x hx]
      intro p hp
      exact hxs x hx p (by rwa [← packagesOfParam_eq, ← packagesOfParam_shown])
    rw [render, render,
      hparams ihargs fun x hx p hp => h p (mem_packages_func.2 (.inl ⟨x, hx, hp⟩)),
      hparams ihresults fun x hx p hp => h p (mem_packages_func.2 (.inr ⟨x, hx, hp⟩))]
  | named package name =>
    by_cases hpackage : package = ""
    · simp [render, hpackage]
    · rw [render, render, h package (by simp [packages, hpackage])]
  | predeclared name => rfl

/-- The two texts are the same up to where `a` stands in one and `b` in the other, each before a
point. -/
def PartsAt (a b x y : String) : Prop :=
  ∃ before after after', x = before ++ a ++ "." ++ after ∧ y = before ++ b ++ "." ++ after'

namespace PartsAt

variable {a b x y : String}

theorem prepend (h : PartsAt a b x y) (s : String) : PartsAt a b (s ++ x) (s ++ y) := by
  obtain ⟨before, after, after', rfl, rfl⟩ := h
  exact ⟨s ++ before, after, after', by simp only [String.append_assoc],
    by simp only [String.append_assoc]⟩

theorem append (h : PartsAt a b x y) (s s' : String) : PartsAt a b (x ++ s) (y ++ s') := by
  obtain ⟨before, after, after', rfl, rfl⟩ := h
  exact ⟨before, after ++ s, after' ++ s', by simp only [String.append_assoc],
    by simp only [String.append_assoc]⟩

/-- Names without a point can be told from the texts. -/
theorem ne (h : PartsAt a b x y) (ha : '.' ∉ a.toList) (hb : '.' ∉ b.toList) (hab : a ≠ b) :
    x ≠ y := by
  obtain ⟨before, after, after', rfl, rfl⟩ := h
  intro heq
  have hlists := congrArg String.toList heq
  simp only [String.toList_append, List.append_assoc, List.append_cancel_left_eq] at hlists
  have hname {s : String} (hs : '.' ∉ s.toList) (rest : List Char) :
      (s.toList ++ (".".toList ++ rest)).takeWhile (· != '.') = s.toList := by
    have hpos : ∀ c ∈ s.toList, (c != '.') = true := fun c hc =>
      bne_iff_ne.2 (ne_of_mem_of_not_mem hc hs)
    rw [List.takeWhile_append_of_pos hpos]
    simp
  refine hab (String.toList_inj.1 ?_)
  rw [← hname ha after.toList, hlists, hname hb]

section

variable {γ : Type} {f g : γ → String}

/-- Of texts with commas between them the first pair that is not the same decides. -/
theorem commaSeparated : ∀ {xs : List γ}, (∀ x ∈ xs, f x = g x ∨ PartsAt a b (f x) (g x)) →
    (∃ x ∈ xs, PartsAt a b (f x) (g x)) →
      PartsAt a b (commaSeparated (xs.map f)) (commaSeparated (xs.map g))
  | [], _, h => by simp at h
  | [x], _, h => by simpa [GoIface.commaSeparated] using h
  | x :: y :: ys, hall, h => by
    have hsplit (k : γ → String) : GoIface.commaSeparated ((x :: y :: ys).map k)
        = k x ++ (", " ++ GoIface.commaSeparated ((y :: ys).map k)) := by
      simp [GoIface.commaSeparated, String.append_assoc]
    rw [hsplit, hsplit]
    obtain ⟨hx, hys⟩ := List.forall_mem_cons.1 hall
    by_cases hparts : PartsAt a b (f x) (g x)
    · exact hparts.append _ _
    · rw [hx.resolve_right hparts]
      refine prepend (prepend (commaSeparated hys ?_) _) _
      simpa [hparts] using h

theorem resultsText {xs : List γ} (hall : ∀ x ∈ xs, f x = g x ∨ PartsAt a b (f x) (g x))
    (h : ∃ x ∈ xs, PartsAt a b (f x) (g x)) :
    PartsAt a b (resultsText (xs.map f)) (resultsText (xs.map g)) := by
  have hlist := commaSeparated hall h
  match xs with
  | [] => simp at h
  | [x] => simpa [GoIface.commaSeparated, GoIface.resultsText] using hlist.prepend " "
  | x :: y :: ys => exact (hlist.prepend " (").append ")" ")"

end

end PartsAt

/-- All other packages go by the same names. -/
def AgreeBut (p : String) (table table' : AliasTable) (paths : List String) : Prop :=
  ∀ q ∈ paths, q ≠ p → table.qualifier q = table'.qualifier q

theorem TypeExpr.render_agreeBut {t : TypeExpr} (h : AgreeBut p table table' t.packages)
    (hp : p ∉ t.packages) : t.render table = t.render table' :=
  render_congr fun q hq => h q hq (ne_of_mem_of_not_mem hq hp)

section

variable {x : Param} {xs : List Param}
  (ih : ∀ x ∈ xs, p ∈ x.shown.packages → AgreeBut p table table' x.shown.packages →
    PartsAt (table.qualifier p) (table'.qualifier p) (x.shown.render table)
      (x.shown.render table'))
  (h : ∀ x ∈ xs, AgreeBut p table table' x.type.packages)

include ih h

theorem renderParam_parts (hx : x ∈ xs) (hp : p ∈ x.type.packages) :
    PartsAt (table.qualifier p) (table'.qualifier p) (renderParam table x)
      (renderParam table' x) := by
  have hagree := h x hx
  rw [← packagesOfParam_eq, ← packagesOfParam_shown] at hp hagree
  rw [renderParam_eq, renderParam_eq]
  exact (ih x hx hp hagree).prepend _

omit ih in
theorem renderParam_same (hx : x ∈ xs) (hp : p ∉ x.type.packages) :
    renderParam table x = renderParam table' x := by
  have hagree := h x hx
  rw [← packagesOfParam_eq, ← packagesOfParam_shown] at hp hagree
  rw [renderParam_eq, renderParam_eq, TypeExpr.render_agreeBut hagree hp]

theorem renderParam_same_or_parts (hx : x ∈ xs) :
    renderParam table x = renderParam table' x ∨
      PartsAt (table.qualifier p) (table'.qualifier p) (renderParam table x)
        (renderParam table' x) := by
  by_cases hp : p ∈ x.type.packages
  · exact .inr (renderParam_parts ih h hx hp)
  · exact .inl (renderParam_same h hx hp)

end

/-- Where all other packages go by the same names, the texts part where the package is named
first. -/
theorem TypeExpr.render_parts {t : TypeExpr} (hp : p ∈ t.packages)
    (h : AgreeBut p table table' t.packages) :
    PartsAt (table.qualifier p) (table'.qualifier p) (t.render table) (t.render table') := by
  induction t using TypeExpr.inductShown with
  | array length elem ih | slice elem ih | pointer elem ih | chan direction elem ih =>
    exact (ih hp h).prepend _
  | mapping key value ihkey ihvalue =>
    have hkey : AgreeBut p table table' key.packages :=
      fun q hq => h q (List.mem_append_left _ hq)
    have hvalue : AgreeBut p table table' value.packages :=
      fun q hq => h q (List.mem_append_right _ hq)
    by_cases hpkey : p ∈ key.packages
    · exact (((ihkey hpkey hkey).prepend _).append _ _).append _ _
    · have hpvalue := (List.mem_append.1 hp).resolve_left hpkey
      rw [render, render, render_agreeBut hkey hpkey]
      exact (ihvalue hpvalue hvalue).prepend _
  | func args results ihargs ihresults =>
    have hargs : ∀ x ∈ args, AgreeBut p table table' x.type.packages :=
      fun x hx q hq => h q (mem_packages_func.2 (.inl ⟨x, hx, hq⟩))
    have hresults : ∀ x ∈ results, AgreeBut p table table' x.type.packages :=
      fun x hx q hq => h q (mem_packages_func.2 (.inr ⟨x, hx, hq⟩))
    simp only [render, renderAll_eq_map]
    by_cases hpargs : ∃ x ∈ args, p ∈ x.type.packages
    · obtain ⟨x, hx, hpx⟩ := hpargs
      have hlist := PartsAt.commaSeparated (fun x => renderParam_same_or_parts ihargs hargs)
        ⟨x, hx, renderParam_parts ihargs hargs hx hpx⟩
      exact ((hlist.prepend _).append _ _).append _ _
    · obtain ⟨x, hx, hpx⟩ := (mem_packages_func.1 hp).resolve_left hpargs
      have hsame : args.map (renderParam table) = args.map (renderParam table') :=
        List.map_congr_left fun x hx =>
          renderParam_same hargs hx fun hpx => hpargs ⟨x, hx, hpx⟩
      rw [hsame]
      exact (PartsAt.resultsText (fun x => renderParam_same_or_parts ihresults hresults)
        ⟨x, hx, renderParam_parts ihresults hresults hx hpx⟩).prepend _
  | named package name =>
    obtain ⟨hpackage, rfl⟩ : package ≠ "" ∧ p = package := by
      by_cases hpackage : package = ""
      · simp [packages, hpackage] at hp
      · exact ⟨hpackage, by simpa [packages, hpackage] using hp⟩
    exact ⟨"", name, name, by simp [render, hpackage], by simp [render, hpackage]⟩
  | predeclared name => simp [packages] at hp

/-- The packages that a type refers to are gathered, and no others, whatever is gathered already
and in whatever order. Tables in which they go by the same names give the same text, and tables in
which one of them goes by another name without a point give another text. -/
theorem text_depends_on_packages (t : TypeExpr) {seed : PathSet} (hseed : seed.Pairwise (· < ·)) :
    ((seed.addAll t.packages).Pairwise (· < ·) ∧
      ∀ p, p ∈ seed.addAll t.packages ↔ p ∈ seed ∨ t.Refers p) ∧
    (seed.addAll t.packages).addAll t.packages = seed.addAll t.packages ∧
    (∀ u : TypeExpr, (seed.addAll t.packages).addAll u.packages
      = (seed.addAll u.packages).addAll t.packages) ∧
    (∀ table table' : AliasTable, (∀ p, t.Refers p → table.qualifier p = table'.qualifier p) →
      t.render table = t.render table') ∧
    ∀ (table table' : AliasTable) (p : String), t.Refers p →
      table.qualifier p ≠ table'.qualifier p →
      (∀ q, t.Refers q → q ≠ p → table.qualifier q = table'.qualifier q) →
      '.' ∉ (table.qualifier p).toList → '.' ∉ (table'.qualifier p).toList →
      t.render table ≠ t.render table' := by
  have hadded (u : TypeExpr) : (seed.addAll u.packages).Pairwise (· < ·) :=
    PathSet.pairwise_addAll hseed
  simp only [refers_iff]
  refine ⟨⟨hadded t, fun p => PathSet.mem_addAll⟩, ?_, fun u => ?_,
    fun table table' h => TypeExpr.render_congr h, fun table table' p hp hne h hdot hdot' => ?_⟩
  · refine PathSet.addAll_congr (hadded t) hseed fun p => ?_
    rw [PathSet.mem_addAll, or_assoc, or_self]
  · refine PathSet.addAll_congr (hadded t) (hadded u) fun p => ?_
    rw [PathSet.mem_addAll, PathSet.mem_addAll, or_right_comm]
  · exact (TypeExpr.render_parts hp h).ne hdot hdot' hne

/-- A package inside a result and a key, with a name from the table and without. -/
theorem handlers_depend_on_http :
    let handler : TypeExpr := .func [⟨"bodies", true, .slice (.named "io" "Reader")⟩]
      [⟨"", false, .pointer (.named "net/http" "Response")⟩]
    let t : TypeExpr := .mapping (.named "net/http" "ConnState") handler
    (["fmt"] : PathSet).Pairwise (· < ·) ∧
      (∀ p, p ∈ PathSet.addAll ["fmt"] t.packages ↔ p ∈ ["fmt"] ∨ t.Refers p) ∧
      t.render [("net/http", "web")] ≠ t.render [] := by
  intro handler t
  have hseed : (["fmt"] : PathSet).Pairwise (· < ·) := List.pairwise_singleton _ _
  obtain ⟨⟨-, hmem⟩, -, -, -, hne⟩ := text_depends_on_packages t hseed
  refine ⟨hseed, hmem, hne _ _ "net/http" (.key (.named (by decide))) (by decide) ?_ (by decide)
    (by decide)⟩
  intro q hq hqne
  have hq : q = "io" := by
    simpa [t, handler, TypeExpr.packages, packagesOfAll, packagesOfParam, hqne]
      using refers_iff.1 hq
  rw [hq]
  decide

end GoIface
