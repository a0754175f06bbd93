import GoIface.Tree.Grouping

/-!
# Grouping goes along with changes

Grouping asks of an entry whether it has a type, and of names only whether there are any. So it
goes along with any change of names, types and spans (`groupEntries_change`, `mixedAt?_change`):
the text that is moved, what moves when a part of the text is replaced, and names that are renamed.
-/

namespace GoIface

/-- A change of what parameter lists hold, in which a name is changed along with its span and a
span along with where it starts. -/
structure EntryChange where
  name : Ident → Ident
  type : TypeNode → TypeNode
  span : Span → Span
  start : Nat → Nat
  span_name : ∀ x, (name x).span = span x.span
  start_span : ∀ s, (span s).start = start s.start

namespace EntryChange

def entry (C : EntryChange) (e : ParamEntry TypeNode) : ParamEntry TypeNode :=
  ⟨e.names.map C.name, e.ellipsis.map C.span, e.type.map C.type, C.span e.span⟩

def group (C : EntryChange) (g : ParamGroup TypeNode) : ParamGroup TypeNode :=
  ⟨g.waiting.map C.name, g.names.map C.name, g.ellipsis.map C.span, C.type g.type,
    C.start g.start, C.span g.span⟩

variable (C : EntryChange)

@[simp] theorem allNames_group (g : ParamGroup TypeNode) :
    (C.group g).allNames = g.allNames.map C.name := by
  simp [group, ParamGroup.allNames]

end EntryChange

section

variable (C : EntryChange)

theorem groupEntries_change (waiting : List Ident) (start : Option Nat)
    (es : List (ParamEntry TypeNode)) :
    groupEntries (waiting.map C.name) (start.map C.start) (es.map C.entry)
      = (groupEntries waiting start es).map (List.map C.group) (List.map C.name) := by
  induction es generalizing waiting start with
  | nil => rfl
  | cons e es ih =>
    rcases htype : e.type with _ | type
    · have ih := ih (waiting ++ e.names) (if waiting.isEmpty then some e.span.start else start)
      rw [List.map_append] at ih
      simp only [List.map_cons, groupEntries, EntryChange.entry, htype, Option.map_none,
        List.isEmpty_map, ← ih, C.start_span]
      congr 1
      split <;> rfl
    · have ih := ih [] none
      simp only [List.map_nil, Option.map_none] at ih
      simp only [List.map_cons, groupEntries, EntryChange.entry, htype, Option.map_some, ih,
        Prod.map, EntryChange.group, C.start_span]
      congr 3
      cases start <;> rfl

theorem mixedAt?_change (groups : List (ParamGroup TypeNode)) (left : List Ident) :
    mixedAt? (groups.map C.group) (left.map C.name) = (mixedAt? groups left).map C.span := by
  unfold mixedAt?
  rw [List.any_map, List.filter_map]
  simp only [Function.comp_def, EntryChange.allNames_group, List.isEmpty_map]
  split
  · rw [← List.head?_map]
    simp [EntryChange.group, C.span_name, Function.comp_def]
  · rfl

end

end GoIface
