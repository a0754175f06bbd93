import GoIface.Proofs.Excerpts
import GoIface.Proofs.GroupingChanges
import GoIface.Proofs.ParamContents

/-!
# Trees at another place

A tree that was moved has all its spans moved by as much (`TypeNode.moved`). It has lost its serial
numbers, since a tree that is made again is made after other nodes. The fields of a parameter list
are made of its entries alone, so moved entries make the moved fields (`resolveEntries_moved`).
-/

namespace GoIface

variable {α : Type}

@[simp] theorem Span.shift_zero (s : Span) : s.shift 0 = s := by
  simp [shift]

@[simp] theorem Span.hull_shift (n : Nat) (s t : Span) :
    (s.shift n).hull (t.shift n) = (s.hull t).shift n := by
  simp [hull, shift, Nat.add_min_add_left, Nat.add_max_add_left]

/-! ## Trees moved on

A tree is moved on with all its spans, and loses its serial numbers. -/

def Ident.moved (n : Nat) (x : Ident) : Ident := ⟨x.name, x.span.shift n⟩

def StringLiteral.moved (n : Nat) (l : StringLiteral) : StringLiteral := ⟨l.span.shift n⟩

def Field.moved (n : Nat) (x : Field α) : Field α :=
  ⟨0, x.span.shift n, x.names.map (Ident.moved n), x.ellipsis.map (Span.shift n), x.type,
    x.tag.map (StringLiteral.moved n), x.embedded⟩

def FieldList.moved (n : Nat) (l : FieldList α) : FieldList α :=
  ⟨l.lparen.shift n, l.fields.map (Field.moved n), l.rparen.shift n⟩

def Results.moved (n : Nat) : Results α → Results α
  | .absent => .absent
  | .single t => .single t
  | .list l => .list (l.moved n)

def Signature.moved (n : Nat) (s : Signature α) : Signature α :=
  ⟨0, s.span.shift n, s.params.moved n, s.results.moved n⟩

def Term.moved (n : Nat) (t : Term α) : Term α := ⟨t.tilde.map (Span.shift n), t.type⟩

def Element.moved (n : Nat) : Element α → Element α
  | .method name s => .method (name.moved n) (s.moved n)
  | .union terms => .union (terms.map (Term.moved n))

def TypeForm.moved (n : Nat) : TypeForm α → TypeForm α
  | .named q name args => .named (q.map (Ident.moved n)) (name.moved n) args
  | .pointer star t => .pointer (star.shift n) t
  | .array length t => .array (length.shift n) t
  | .slice lbrack t => .slice (lbrack.shift n) t
  | .mapping keyword k v => .mapping (keyword.shift n) k v
  | .chan d keyword t => .chan d (keyword.shift n) t
  | .struct keyword fields => .struct (keyword.shift n) (fields.map (Field.moved n))
  | .interface keyword elements => .interface (keyword.shift n) (elements.map (Element.moved n))
  | .func keyword s => .func (keyword.shift n) (s.moved n)
  | .paren lparen t => .paren (lparen.shift n) t

/-- The type with every span in it moved `n` bytes on and every serial number forgotten. -/
def TypeNode.moved (n : Nat) (t : TypeNode) : TypeNode :=
  t.fold fun _ span form => .mk 0 (span.shift n) (form.moved n)

theorem TypeNode.moved_mk (n serial : Nat) (span : Span) (form : TypeForm TypeNode) :
    (TypeNode.mk serial span form).moved n
      = .mk 0 (span.shift n) ((form.map (TypeNode.moved n)).moved n) :=
  fold_mk _ _ _ _

/-! With the types inside it. -/

def Field.movedWhole (n : Nat) (x : Field TypeNode) : Field TypeNode :=
  (x.map (TypeNode.moved n)).moved n

def FieldList.movedWhole (n : Nat) (l : FieldList TypeNode) : FieldList TypeNode :=
  (l.map (TypeNode.moved n)).moved n

def Results.movedWhole (n : Nat) (r : Results TypeNode) : Results TypeNode :=
  (r.map (TypeNode.moved n)).moved n

def Signature.movedWhole (n : Nat) (s : Signature TypeNode) : Signature TypeNode :=
  (s.map (TypeNode.moved n)).moved n

def Term.movedWhole (n : Nat) (t : Term TypeNode) : Term TypeNode :=
  (t.map (TypeNode.moved n)).moved n

def Element.movedWhole (n : Nat) (e : Element TypeNode) : Element TypeNode :=
  (e.map (TypeNode.moved n)).moved n

def TypeForm.movedWhole (n : Nat) (f : TypeForm TypeNode) : TypeForm TypeNode :=
  (f.map (TypeNode.moved n)).moved n

theorem FieldList.movedWhole_mk (n : Nat) (l r : Span) (xs : List (Field TypeNode)) :
    FieldList.movedWhole n ⟨l, xs, r⟩
      = ⟨l.shift n, xs.map (Field.movedWhole n), r.shift n⟩ := by
  simp [movedWhole, map, moved, Field.movedWhole, Function.comp_def]

theorem Signature.movedWhole_mk (n serial : Nat) (s : Span) (ps : FieldList TypeNode)
    (rs : Results TypeNode) : Signature.movedWhole n ⟨serial, s, ps, rs⟩
      = ⟨0, s.shift n, ps.movedWhole n, rs.movedWhole n⟩ :=
  rfl

theorem Element.movedWhole_union (n : Nat) (ts : List (Term TypeNode)) :
    (Element.union ts).movedWhole n = .union (ts.map (Term.movedWhole n)) := by
  simp [movedWhole, map, moved, Term.movedWhole, Function.comp_def]

theorem TypeForm.movedWhole_struct (n : Nat) (p : Span) (xs : List (Field TypeNode)) :
    (TypeForm.struct p xs).movedWhole n = .struct (p.shift n) (xs.map (Field.movedWhole n)) := by
  simp [movedWhole, map, moved, Field.movedWhole, Function.comp_def]

theorem TypeForm.movedWhole_interface (n : Nat) (p : Span) (es : List (Element TypeNode)) :
    (TypeForm.interface p es).movedWhole n
      = .interface (p.shift n) (es.map (Element.movedWhole n)) := by
  simp [movedWhole, map, moved, Element.movedWhole, Function.comp_def]

def ParamEntry.movedWhole (n : Nat) (e : ParamEntry TypeNode) : ParamEntry TypeNode :=
  ⟨e.names.map (Ident.moved n), e.ellipsis.map (Span.shift n), e.type.map (TypeNode.moved n),
    e.span.shift n⟩

def ParamGroup.movedWhole (n : Nat) (g : ParamGroup TypeNode) : ParamGroup TypeNode :=
  ⟨g.waiting.map (Ident.moved n), g.names.map (Ident.moved n), g.ellipsis.map (Span.shift n),
    g.type.moved n, n + g.start, g.span.shift n⟩

/-! ## Grouping -/

def EntryChange.moved (n : Nat) : EntryChange :=
  ⟨Ident.moved n, TypeNode.moved n, Span.shift n, (n + ·), fun _ => rfl, fun _ => rfl⟩

section

variable (n : Nat)

theorem groupEntries_moved (waiting : List Ident) (start : Option Nat)
    (es : List (ParamEntry TypeNode)) :
    groupEntries (waiting.map (Ident.moved n)) (start.map (n + ·))
        (es.map (ParamEntry.movedWhole n))
      = (groupEntries waiting start es).map (List.map (ParamGroup.movedWhole n))
        (List.map (Ident.moved n)) :=
  groupEntries_change (.moved n) waiting start es

theorem mixedAt?_moved (groups : List (ParamGroup TypeNode)) (left : List Ident) :
    mixedAt? (groups.map (ParamGroup.movedWhole n)) (left.map (Ident.moved n))
      = (mixedAt? groups left).map (Span.shift n) :=
  mixedAt?_change (.moved n) groups left

theorem ParamGroup.field_moved (g : ParamGroup TypeNode) (serial : Nat) :
    (g.field serial).movedWhole n = (g.movedWhole n).field 0 := by
  simp [field, movedWhole, Field.movedWhole, Field.moved, Field.map, allNames, Span.shift]

theorem Ident.field_moved (x : Ident) (serial typeSerial : Nat) :
    (x.field serial typeSerial).movedWhole n = (x.moved n).field 0 0 := by
  simp [field, moved, Field.movedWhole, Field.moved, Field.map, TypeNode.moved_mk, TypeForm.moved,
    TypeForm.map]

/-- But for their numbers, the fields of a list are made of each group or identifier alone. -/
theorem fieldsOf_moved (made : Counts) (groups : List (ParamGroup TypeNode)) (left : List Ident) :
    (LexedText.fieldsOf made groups left).map (Field.movedWhole n)
      = (groups.map (ParamGroup.movedWhole n)).map (ParamGroup.field 0)
        ++ (left.map (Ident.moved n)).map (Ident.field 0 0) := by
  rw [LexedText.fieldsOf, List.map_append]
  congr 1 <;>
  exact List.ext_getElem (by simp) fun i _ _ => by simp [ParamGroup.field_moved, Ident.field_moved]

/-- The fields of a list depend on the entries alone, but for their numbers. -/
theorem resolveEntries_moved {es es' : List (ParamEntry TypeNode)}
    (h : es.map (ParamEntry.movedWhole 0) = es'.map (ParamEntry.movedWhole n)) {made : Counts}
    (made' : Counts) {fields : List (Field TypeNode)} {after : Counts}
    (hok : resolveEntries es made = .ok (fields, after)) :
    ∃ fields' after', resolveEntries es' made' = .ok (fields', after') ∧
      fields.map (Field.movedWhole 0) = fields'.map (Field.movedWhole n) := by
  have hgroups := groupEntries_moved 0 [] none es
  rw [h] at hgroups
  have hgroups := hgroups.symm.trans (groupEntries_moved n [] none es')
  unfold resolveEntries at hok ⊢
  generalize groupEntries [] none es = p at hok hgroups
  generalize groupEntries [] none es' = p' at hgroups ⊢
  obtain ⟨groups, left⟩ := p
  obtain ⟨groups', left'⟩ := p'
  obtain ⟨hgroups, hleft⟩ := Prod.mk.inj hgroups
  have hmixed := mixedAt?_moved 0 groups left
  rw [hgroups, hleft, mixedAt?_moved n groups' left'] at hmixed
  simp only at hok ⊢
  rcases hm : mixedAt? groups left with _ | s
  · rw [hm, Option.map_none, Option.map_eq_none_iff] at hmixed
    simp only [hm, Except.ok.injEq, Prod.mk.injEq] at hok
    obtain ⟨rfl, -⟩ := hok
    refine ⟨LexedText.fieldsOf made' groups' left', _, by simp only [hmixed]; rfl, ?_⟩
    exact (fieldsOf_moved 0 made groups left).trans
      ((hgroups ▸ hleft ▸ rfl : _ = _).trans (fieldsOf_moved n made' groups' left').symm)
  · simp [hm] at hok

end

end GoIface
