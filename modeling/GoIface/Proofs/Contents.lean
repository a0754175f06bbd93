import GoIface.Proofs.Levels
import GoIface.Tree.Declarations
import GoIface.Tree.Outline

/-!
# What trees hold

A tree holds the spans it keeps (`places`), the nodes a reader meets (`outline`) and the types in
it. A content gathers the three, so that what is put together of parts has the contents of the
parts one after the other.

The nodes of a content are laid out in a run of lexemes (`LaidAll`) when each covers a stretch of
the run and its inside is laid out in that stretch, from left to right. They are counted from `a`
to `b` (`Counted`) when the numbers in between are their serial numbers, each of them once.
-/

namespace GoIface

/-! ## Places -/

def Field.places (x : Field (List Span)) : List Span :=
  x.span :: (x.names.map Ident.span ++
    (x.ellipsis.toList ++ (x.type ++ (x.tag.map StringLiteral.span).toList)))

def FieldList.places (l : FieldList (List Span)) : List Span :=
  l.lparen :: (l.fields.flatMap Field.places ++ [l.rparen])

def Results.places : Results (List Span) → List Span
  | .absent => []
  | .single t => t
  | .list l => l.places

def Signature.places (s : Signature (List Span)) : List Span :=
  s.span :: (s.params.places ++ s.results.places)

def Term.places (t : Term (List Span)) : List Span := t.tilde.toList ++ t.type

def Element.places : Element (List Span) → List Span
  | .method name s => name.span :: s.places
  | .union terms => terms.flatMap Term.places

def TypeForm.places : TypeForm (List Span) → List Span
  | .named q n args => (q.map Ident.span).toList ++ n.span :: args.flatten
  | .pointer p t | .array p t | .slice p t | .chan _ p t | .paren p t => p :: t
  | .mapping p k v => p :: (k ++ v)
  | .struct p fields => p :: fields.flatMap Field.places
  | .interface p elements => p :: elements.flatMap Element.places
  | .func p s => p :: s.places

/-- Every span that a type keeps, its own and those of its parts. -/
def TypeNode.places (t : TypeNode) : List Span := t.fold fun _ span form => span :: form.places

def ValueSpec.places (s : ValueSpec) : List Span :=
  s.names.map Ident.span ++ (s.type.toList.flatMap TypeNode.places ++ s.values.toList)

def TypeSpec.places (s : TypeSpec) : List Span :=
  s.name.span :: (s.params.toList ++ (s.assign.toList ++ s.type.places))

def Specs.places : Specs → List Span
  | .consts specs | .vars specs => specs.flatMap ValueSpec.places
  | .types specs => specs.flatMap TypeSpec.places

def Parens.places (p : Parens) : List Span := [p.left, p.right]

def Decl.places : Decl → List Span
  | .specs d => d.span :: d.keyword :: (d.parens.toList.flatMap Parens.places ++ d.specs.places)
  | .func d =>
    d.span :: d.keyword :: (d.receiver.toList.flatMap (fun l => (l.map TypeNode.places).places) ++
      d.name.span :: (d.typeParams.toList ++
        ((d.signature.map TypeNode.places).places ++ d.body.toList)))

def ImportName.place : ImportName → Span
  | .dot s | .blank s => s
  | .name x => x.span

def ImportSpec.places (i : ImportSpec) : List Span :=
  (i.name.map ImportName.place).toList ++ [i.path.span]

/-- Every span that a file keeps. -/
def File.places (f : File) : List Span :=
  f.package :: f.name.span :: (f.imports.flatMap ImportSpec.places ++ f.decls.flatMap Decl.places)

theorem TypeNode.span_mem_places (t : TypeNode) : t.span ∈ t.places := by
  cases t with
  | mk serial span form =>
    rw [places, fold_mk]
    exact .head _

/-! ## Types -/

/-- The first type is the second one or a part of it. -/
inductive TypeNode.Within : TypeNode → TypeNode → Prop
  | self {t : TypeNode} : Within t t
  | child {t u v : TypeNode} (hv : v ∈ t.form.children) (h : Within u v) : Within u t

/-- The types that stand in no other. -/
def Specs.roots : Specs → List TypeNode
  | .consts specs | .vars specs => specs.flatMap (·.type.toList)
  | .types specs => specs.map (·.type)

def Decl.roots : Decl → List TypeNode
  | .specs d => d.specs.roots
  | .func d => d.receiver.toList.flatMap FieldList.children ++ d.signature.children

/-- The type is somewhere in the file. -/
def File.HasType (f : File) (t : TypeNode) : Prop :=
  ∃ d ∈ f.decls, ∃ u ∈ d.roots, t.Within u

/-- The types inside were made before it. -/
def TypeNode.Descends (t : TypeNode) : Prop :=
  ∀ u ∈ t.form.children, ∀ v : TypeNode, v.Within u → v.serial < t.serial

/-! ## Contents -/

@[ext]
structure Content where
  places : List Span
  outlines : List Outline
  types : List TypeNode

namespace Content

def none : Content := ⟨[], [], []⟩

def append (y z : Content) : Content :=
  ⟨y.places ++ z.places, y.outlines ++ z.outlines, y.types ++ z.types⟩

instance : Append Content := ⟨append⟩

def ofPlaces (ss : List Span) : Content := ⟨ss, [], []⟩

def concat (ys : List Content) : Content := ys.foldr append none

/-- The same nodes and types, and no more places. -/
def Sub (z y : Content) : Prop :=
  z.places ⊆ y.places ∧ z.outlines = y.outlines ∧ z.types = y.types

@[simp] theorem places_append (y z : Content) : (y ++ z).places = y.places ++ z.places := rfl

@[simp] theorem outlines_append (y z : Content) : (y ++ z).outlines = y.outlines ++ z.outlines :=
  rfl

@[simp] theorem types_append (y z : Content) : (y ++ z).types = y.types ++ z.types := rfl

section

variable {α : Type} (f : α → Content)

theorem places_concat : ∀ xs : List α, (concat (xs.map f)).places = xs.flatMap fun x => (f x).places
  | [] => rfl
  | x :: xs => congrArg ((f x).places ++ ·) (places_concat xs)

theorem outlines_concat : ∀ xs : List α,
    (concat (xs.map f)).outlines = xs.flatMap fun x => (f x).outlines
  | [] => rfl
  | x :: xs => congrArg ((f x).outlines ++ ·) (outlines_concat xs)

theorem types_concat : ∀ xs : List α, (concat (xs.map f)).types = xs.flatMap fun x => (f x).types
  | [] => rfl
  | x :: xs => congrArg ((f x).types ++ ·) (types_concat xs)

end

end Content

def TypeNode.content (t : TypeNode) : Content := ⟨t.places, [t.outline], [t]⟩

def TypeForm.content (form : TypeForm TypeNode) : Content :=
  ⟨(form.map TypeNode.places).places, (form.map TypeNode.outline).outlines, form.children⟩

def Field.content (x : Field TypeNode) : Content :=
  ⟨(x.map TypeNode.places).places, [(x.map TypeNode.outline).outline], [x.type]⟩

def FieldList.content (l : FieldList TypeNode) : Content :=
  ⟨(l.map TypeNode.places).places, (l.map TypeNode.outline).outlines, l.children⟩

def Results.content (r : Results TypeNode) : Content :=
  ⟨(r.map TypeNode.places).places, (r.map TypeNode.outline).outlines, r.children⟩

def Signature.content (s : Signature TypeNode) : Content :=
  ⟨(s.map TypeNode.places).places, [(s.map TypeNode.outline).outline], s.children⟩

def Term.content (t : Term TypeNode) : Content :=
  ⟨(t.map TypeNode.places).places, [t.type.outline], [t.type]⟩

def Element.content (e : Element TypeNode) : Content :=
  ⟨(e.map TypeNode.places).places, (e.map TypeNode.outline).outlines, e.children⟩

def ValueSpec.content (s : ValueSpec) : Content := ⟨s.places, s.outlines, s.type.toList⟩

def TypeSpec.content (s : TypeSpec) : Content := ⟨s.places, [s.outline], [s.type]⟩

def Specs.content (s : Specs) : Content := ⟨s.places, s.outlines, s.roots⟩

def Decl.content (d : Decl) : Content := ⟨d.places, [d.outline], d.roots⟩

/-! ## Serial numbers -/

def Event.serial? : Event → Option Nat
  | .file _ | .typeSpec _ => none
  | .decl n _ | .func n _ | .type n _ | .field n _ | .signature n _ => some n

/-- The span of a node. That of a file is not its node's. -/
def Event.span? : Event → Option Span
  | .file _ | .typeSpec _ => none
  | .decl _ s | .func _ s | .type _ s | .field _ s | .signature _ s => some s

/-- How many nodes of a kind were made. -/
def Counts.get (c : Counts) : Kind → Nat
  | .decl => c.decls
  | .func => c.funcs
  | .type => c.types
  | .field => c.fields
  | .signature => c.signatures
  | .file | .typeSpec => 0

/-- The serial numbers of the nodes of a kind, in the order they are met. -/
def serials (k : Kind) (es : List Event) : List Nat :=
  (es.filter (·.kind == k)).filterMap Event.serial?

@[simp] theorem serials_append (k : Kind) (es fs : List Event) :
    serials k (es ++ fs) = serials k es ++ serials k fs := by
  simp [serials]

/-- Every event of what is met, with nothing left out. -/
def allEvents (os : List Outline) : List Event := eventsOfAll (fun _ => false) os

@[simp] theorem allEvents_nil : allEvents [] = [] := rfl

@[simp] theorem allEvents_append (os ps : List Outline) :
    allEvents (os ++ ps) = allEvents os ++ allEvents ps := by
  simp [allEvents, eventsOfAll_eq_flatMap]

theorem allEvents_node (event : Event) (inside os : List Outline) :
    allEvents (.node event inside :: os) = event :: (allEvents inside ++ allEvents os) := rfl

/-- The nodes of each kind have the serial numbers from `a` up to `b`, each of them once. -/
def Counted (a b : Counts) (es : List Event) : Prop :=
  ∀ k, a.get k ≤ b.get k ∧ (serials k es).Perm (List.range' (a.get k) (b.get k - a.get k))

namespace Counted

variable {a b c : Counts} {es fs : List Event}

theorem nil (a : Counts) : Counted a a [] := fun k => ⟨Nat.le_refl _, by simp [serials]⟩

theorem append (h : Counted a b es) (h' : Counted b c fs) : Counted a c (es ++ fs) := by
  intro k
  obtain ⟨hle, hperm⟩ := h k
  obtain ⟨hle', hperm'⟩ := h' k
  refine ⟨Nat.le_trans hle hle', ?_⟩
  rw [serials_append, ← Nat.sub_add_sub_cancel hle' hle, Nat.add_comm, ← List.range'_append]
  refine hperm.append ?_
  rwa [Nat.one_mul, Nat.add_sub_cancel' hle]

theorem perm (h : Counted a b es) (hperm : es.Perm fs) : Counted a b fs :=
  fun k => ⟨(h k).1, (((hperm.filter _).filterMap _).symm).trans (h k).2⟩

/-- Nodes of one kind, numbered as they come. -/
theorem row {k : Kind} (hkind : ∀ e ∈ es, e.kind = k)
    (hserial : ∀ i (hi : i < es.length), es[i].serial? = some (a.get k + i))
    (h : ∀ j, b.get j = a.get j + if k == j then es.length else 0) : Counted a b es := by
  intro j
  rw [h j]
  refine ⟨Nat.le_add_right _ _, ?_⟩
  rw [Nat.add_sub_cancel_left, serials]
  cases hj : k == j with
  | false =>
    have hnone : es.filter (·.kind == j) = [] :=
      List.filter_eq_nil_iff.2 fun e he => by simp [hkind e he, hj]
    simp [hnone]
  | true =>
    obtain rfl := eq_of_beq hj
    have hall : es.filter (·.kind == k) = es :=
      List.filter_eq_self.2 fun e he => by simp [hkind e he]
    have hmap : es.map Event.serial? = (List.range' (a.get k) es.length).map some :=
      List.ext_getElem (by simp) fun i hi _ => by simpa using hserial i (by simpa using hi)
    have hfilter := congrArg (List.filterMap id) hmap
    simp only [List.filterMap_map, Function.comp_def, id, List.filterMap_some] at hfilter
    rw [hall, if_pos rfl]
    exact hfilter ▸ .refl _

/-- One more node. -/
theorem one {e : Event} (he : e.serial? = some (a.get e.kind))
    (h : ∀ k, b.get k = a.get k + if e.kind == k then 1 else 0) : Counted a b [e] :=
  row (k := e.kind) (by simp) (by simp [he]) h

/-- What has no number is not counted. -/
theorem cons {e : Event} (h : Counted a b es) (he : e.serial? = none) : Counted a b (e :: es) := by
  intro k
  have hserials : serials k (e :: es) = serials k es := by
    rw [serials, List.filter_cons]
    split
    · rw [List.filterMap_cons_none he, serials]
    · rfl
  rw [hserials]
  exact h k

theorem get_le (h : Counted a b es) (k : Kind) : a.get k ≤ b.get k := (h k).1

end Counted

end GoIface
