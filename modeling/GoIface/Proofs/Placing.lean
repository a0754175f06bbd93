import GoIface.Proofs.GroupingChanges
import GoIface.Proofs.ParamContents
import GoIface.Tree.Declarations
import Mathlib.Order.MinMax

/-!
# Trees at other places

The places of a text may be moved without changing their order, as they are where a text is laid
out in another way or written after another one, and nodes may be made after others. A tree goes
along with its spans and its serial numbers (`TypeNode.placed`, `File.placed`), and nothing else
of it changes. The fields of a parameter list go along with the entries (`resolveEntries_placed`).
-/

namespace GoIface

variable {α β γ : Type}

/-- Where the places of a text go, and what is made before its nodes. -/
structure Placement where
  place : Nat → Nat
  mono : Monotone place
  made : Counts

/-- The span with the places it goes from and to. -/
def Span.placed (P : Placement) (s : Span) : Span := ⟨P.place s.start, P.place s.stop⟩

/-- Being monotone, a placement keeps the smallest span over both. -/
theorem Span.hull_placed (P : Placement) (s t : Span) :
    (s.placed P).hull (t.placed P) = (s.hull t).placed P := by
  simp only [hull, placed, P.mono.map_min, P.mono.map_max]

def Lexeme.placed (P : Placement) (l : Lexeme) : Lexeme := ⟨l.token, l.span.placed P⟩

@[simp] theorem Lexeme.placed_token (P : Placement) (l : Lexeme) : (l.placed P).token = l.token :=
  rfl

@[simp] theorem Lexeme.placed_span (P : Placement) (l : Lexeme) :
    (l.placed P).span = l.span.placed P :=
  rfl

def Located.placed {ε : Type} (P : Placement) (e : Located ε) : Located ε :=
  ⟨e.fault, e.span.placed P⟩

def Counts.after (made m : Counts) : Counts :=
  ⟨made.decls + m.decls, made.funcs + m.funcs, made.types + m.types, made.fields + m.fields,
    made.signatures + m.signatures⟩

/-! ## Types

What stands at the places of types goes along in the way that is given. -/

def Ident.placed (P : Placement) (x : Ident) : Ident := ⟨x.name, x.span.placed P⟩

def StringLiteral.placed (P : Placement) (l : StringLiteral) : StringLiteral := ⟨l.span.placed P⟩

def Field.placed (P : Placement) (f : α → β) (x : Field α) : Field β :=
  ⟨P.made.fields + x.serial, x.span.placed P, x.names.map (Ident.placed P),
    x.ellipsis.map (Span.placed P), f x.type, x.tag.map (StringLiteral.placed P), x.embedded⟩

def FieldList.placed (P : Placement) (f : α → β) (l : FieldList α) : FieldList β :=
  ⟨l.lparen.placed P, l.fields.map (Field.placed P f), l.rparen.placed P⟩

def Results.placed (P : Placement) (f : α → β) : Results α → Results β
  | .absent => .absent
  | .single t => .single (f t)
  | .list l => .list (l.placed P f)

def Signature.placed (P : Placement) (f : α → β) (s : Signature α) : Signature β :=
  ⟨P.made.signatures + s.serial, s.span.placed P, s.params.placed P f, s.results.placed P f⟩

def Term.placed (P : Placement) (f : α → β) (t : Term α) : Term β :=
  ⟨t.tilde.map (Span.placed P), f t.type⟩

def Element.placed (P : Placement) (f : α → β) : Element α → Element β
  | .method name s => .method (name.placed P) (s.placed P f)
  | .union terms => .union (terms.map (Term.placed P f))

def TypeForm.placed (P : Placement) (f : α → β) : TypeForm α → TypeForm β
  | .named q name args => .named (q.map (Ident.placed P)) (name.placed P) (args.map f)
  | .pointer star t => .pointer (star.placed P) (f t)
  | .array length t => .array (length.placed P) (f t)
  | .slice lbrack t => .slice (lbrack.placed P) (f t)
  | .mapping keyword k v => .mapping (keyword.placed P) (f k) (f v)
  | .chan d keyword t => .chan d (keyword.placed P) (f t)
  | .struct keyword fields => .struct (keyword.placed P) (fields.map (Field.placed P f))
  | .interface keyword elements =>
    .interface (keyword.placed P) (elements.map (Element.placed P f))
  | .func keyword s => .func (keyword.placed P) (s.placed P f)
  | .paren lparen t => .paren (lparen.placed P) (f t)

/-- The type at its places and with its numbers there. -/
def TypeNode.placed (P : Placement) (t : TypeNode) : TypeNode :=
  t.fold fun serial span form => .mk (P.made.types + serial) (span.placed P) (form.placed P id)

section

variable (P : Placement) (f : α → β) (g : β → γ)

theorem Field.placed_map (x : Field α) : (x.map f).placed P g = x.placed P (g ∘ f) := rfl

theorem FieldList.placed_map (l : FieldList α) : (l.map f).placed P g = l.placed P (g ∘ f) := by
  simp [FieldList.placed, FieldList.map, Field.placed_map]

theorem Signature.placed_map (s : Signature α) : (s.map f).placed P g = s.placed P (g ∘ f) := by
  rcases s with ⟨_, _, _, _ | _ | _⟩ <;>
    simp [Signature.placed, Signature.map, Results.placed, Results.map, FieldList.placed_map]

theorem Element.placed_map (e : Element α) : (e.map f).placed P g = e.placed P (g ∘ f) := by
  cases e <;> simp [Element.placed, Element.map, Signature.placed_map, Term.placed, Term.map]

theorem TypeForm.placed_map (form : TypeForm α) :
    (form.map f).placed P g = form.placed P (g ∘ f) := by
  cases form <;>
    simp [TypeForm.placed, TypeForm.map, Field.placed_map, Element.placed_map, Signature.placed_map]

theorem FieldList.map_placed (l : FieldList α) : (l.placed P f).map g = l.placed P (g ∘ f) := by
  simp [FieldList.placed, FieldList.map, Field.placed, Field.map]

theorem Signature.map_placed (s : Signature α) : (s.placed P f).map g = s.placed P (g ∘ f) := by
  rcases s with ⟨_, _, _, _ | _ | _⟩ <;>
    simp [Signature.placed, Signature.map, Results.placed, Results.map, FieldList.map_placed]

theorem TypeForm.map_placed (form : TypeForm α) :
    (form.placed P f).map g = form.placed P (g ∘ f) := by
  have helement (e : Element α) : (e.placed P f).map g = e.placed P (g ∘ f) := by
    cases e <;> simp [Element.placed, Element.map, Signature.map_placed, Term.placed, Term.map]
  cases form <;>
    simp [TypeForm.placed, TypeForm.map, Field.placed, Field.map, helement, Signature.map_placed]

end

theorem TypeNode.placed_mk (P : Placement) (serial : Nat) (span : Span)
    (form : TypeForm TypeNode) : (TypeNode.mk serial span form).placed P
      = .mk (P.made.types + serial) (span.placed P) (form.placed P (TypeNode.placed P)) := by
  rw [TypeNode.placed, fold_mk, TypeForm.placed_map]
  rfl

/-! ## Files -/

def ImportName.placed (P : Placement) : ImportName → ImportName
  | .dot s => .dot (s.placed P)
  | .blank s => .blank (s.placed P)
  | .name x => .name (x.placed P)

def ImportSpec.placed (P : Placement) (i : ImportSpec) : ImportSpec :=
  ⟨i.name.map (ImportName.placed P), i.path.placed P⟩

def ValueSpec.placed (P : Placement) (s : ValueSpec) : ValueSpec :=
  ⟨s.names.map (Ident.placed P), s.type.map (TypeNode.placed P), s.values.map (Span.placed P)⟩

def TypeSpec.placed (P : Placement) (s : TypeSpec) : TypeSpec :=
  ⟨s.name.placed P, s.params.map (Span.placed P), s.assign.map (Span.placed P), s.type.placed P⟩

def Specs.placed (P : Placement) : Specs → Specs
  | .consts xs => .consts (xs.map (ValueSpec.placed P))
  | .types xs => .types (xs.map (TypeSpec.placed P))
  | .vars xs => .vars (xs.map (ValueSpec.placed P))

def Parens.placed (P : Placement) (p : Parens) : Parens := ⟨p.left.placed P, p.right.placed P⟩

def Decl.placed (P : Placement) : Decl → Decl
  | .specs d => .specs ⟨P.made.decls + d.serial, d.span.placed P, d.keyword.placed P,
      d.parens.map (Parens.placed P), d.specs.placed P⟩
  | .func d => .func ⟨P.made.funcs + d.serial, d.span.placed P, d.keyword.placed P,
      d.receiver.map (FieldList.placed P (TypeNode.placed P)), d.name.placed P,
      d.typeParams.map (Span.placed P), d.signature.placed P (TypeNode.placed P),
      d.body.map (Span.placed P)⟩

def File.placed (P : Placement) (f : File) : File :=
  ⟨f.package.placed P, f.name.placed P, f.imports.map (ImportSpec.placed P),
    f.decls.map (Decl.placed P)⟩

/-! ## One placement after another -/

/-- First `P`, then `Q`. -/
def Placement.andThen (P Q : Placement) : Placement :=
  ⟨Q.place ∘ P.place, Q.mono.comp P.mono, Q.made.after P.made⟩

section

variable (P Q : Placement)

theorem Span.placed_placed (s : Span) : (s.placed P).placed Q = s.placed (P.andThen Q) := rfl

theorem Span.placed_comp : Span.placed Q ∘ Span.placed P = Span.placed (P.andThen Q) := rfl

theorem Ident.placed_placed (x : Ident) : (x.placed P).placed Q = x.placed (P.andThen Q) := rfl

theorem Ident.placed_comp : Ident.placed Q ∘ Ident.placed P = Ident.placed (P.andThen Q) := rfl

theorem StringLiteral.placed_comp :
    StringLiteral.placed Q ∘ StringLiteral.placed P = StringLiteral.placed (P.andThen Q) :=
  rfl

theorem Parens.placed_comp : Parens.placed Q ∘ Parens.placed P = Parens.placed (P.andThen Q) := rfl

attribute [local simp] Span.placed_placed Span.placed_comp Ident.placed_placed Ident.placed_comp
  StringLiteral.placed_comp Parens.placed_comp

section

variable (f : α → β) (g : β → γ)

theorem Field.placed_comp : Field.placed Q g ∘ Field.placed P f
    = Field.placed (P.andThen Q) (g ∘ f) := by
  funext x
  simp [Field.placed, Placement.andThen, Counts.after, Nat.add_assoc]

theorem FieldList.placed_placed (l : FieldList α) :
    (l.placed P f).placed Q g = l.placed (P.andThen Q) (g ∘ f) := by
  simp [FieldList.placed, Field.placed_comp]

theorem Signature.placed_placed (s : Signature α) :
    (s.placed P f).placed Q g = s.placed (P.andThen Q) (g ∘ f) := by
  have hmade : (P.andThen Q).made.signatures = Q.made.signatures + P.made.signatures := rfl
  have hresults (rs : Results α) :
      (rs.placed P f).placed Q g = rs.placed (P.andThen Q) (g ∘ f) := by
    cases rs <;> simp [Results.placed, FieldList.placed_placed]
  simp [Signature.placed, FieldList.placed_placed, hresults, hmade, Nat.add_assoc]

theorem Element.placed_comp : Element.placed Q g ∘ Element.placed P f
    = Element.placed (P.andThen Q) (g ∘ f) := by
  have hterm : Term.placed Q g ∘ Term.placed P f = Term.placed (P.andThen Q) (g ∘ f) := by
    funext t
    simp [Term.placed]
  funext e
  cases e <;> simp [Element.placed, Signature.placed_placed, hterm]

theorem TypeForm.placed_placed (form : TypeForm α) :
    (form.placed P f).placed Q g = form.placed (P.andThen Q) (g ∘ f) := by
  cases form <;>
    simp [TypeForm.placed, Field.placed_comp, Element.placed_comp, Signature.placed_placed]

theorem TypeForm.placed_congr {form : TypeForm α} {f g : α → β}
    (h : ∀ t ∈ form.children, f t = g t) : form.placed P f = form.placed P g := by
  have hmap := congrArg (·.placed P id) (TypeForm.map_congr h)
  simpa only [TypeForm.placed_map, Function.id_comp] using hmap

end

theorem TypeNode.placed_comp :
    TypeNode.placed Q ∘ TypeNode.placed P = TypeNode.placed (P.andThen Q) := by
  funext t
  rw [Function.comp_apply]
  induction t using TypeNode.induct with
  | h serial span form ih =>
    have hmade : (P.andThen Q).made.types = Q.made.types + P.made.types := rfl
    have hform := TypeForm.placed_congr (P.andThen Q) (g := TypeNode.placed (P.andThen Q)) ih
    rw [placed_mk, placed_mk, placed_mk, TypeForm.placed_placed, hmade, Nat.add_assoc, ← hform]
    rfl

theorem Decl.placed_comp : Decl.placed Q ∘ Decl.placed P = Decl.placed (P.andThen Q) := by
  have hvalues : ValueSpec.placed Q ∘ ValueSpec.placed P = ValueSpec.placed (P.andThen Q) := by
    funext s
    simp [ValueSpec.placed, TypeNode.placed_comp]
  have htypes : TypeSpec.placed Q ∘ TypeSpec.placed P = TypeSpec.placed (P.andThen Q) := by
    funext s
    simp [TypeSpec.placed, ← TypeNode.placed_comp]
  have hspecs (s : Specs) : (s.placed P).placed Q = s.placed (P.andThen Q) := by
    cases s <;> simp [Specs.placed, hvalues, htypes]
  have hlist : FieldList.placed Q (TypeNode.placed Q) ∘ FieldList.placed P (TypeNode.placed P)
      = FieldList.placed (P.andThen Q) (TypeNode.placed (P.andThen Q)) := by
    funext l
    simp [FieldList.placed_placed, TypeNode.placed_comp]
  have hdecls : (P.andThen Q).made.decls = Q.made.decls + P.made.decls := rfl
  have hfuncs : (P.andThen Q).made.funcs = Q.made.funcs + P.made.funcs := rfl
  funext d
  cases d <;>
    simp [Decl.placed, hspecs, hlist, Signature.placed_placed, TypeNode.placed_comp, hdecls, hfuncs,
      Nat.add_assoc]

theorem File.placed_placed (f : File) : (f.placed P).placed Q = f.placed (P.andThen Q) := by
  have hname : ImportName.placed Q ∘ ImportName.placed P = ImportName.placed (P.andThen Q) := by
    funext x
    cases x <;> rfl
  have himport : ImportSpec.placed Q ∘ ImportSpec.placed P = ImportSpec.placed (P.andThen Q) := by
    funext i
    simp [ImportSpec.placed, hname, StringLiteral.placed]
  simp [File.placed, himport, Decl.placed_comp]

end

/-! ## Nothing moved -/

/-- Places stay, and nothing is made before. -/
def Placement.stay : Placement := ⟨id, monotone_id, ⟨0, 0, 0, 0, 0⟩⟩

section

theorem Span.placed_stay : Span.placed .stay = id := rfl

theorem Ident.placed_stay : Ident.placed .stay = id := rfl

theorem StringLiteral.placed_stay : StringLiteral.placed .stay = id := rfl

theorem Parens.placed_stay : Parens.placed .stay = id := rfl

theorem Placement.made_stay : stay.made = ⟨0, 0, 0, 0, 0⟩ := rfl

attribute [local simp] Span.placed_stay Ident.placed_stay StringLiteral.placed_stay
  Parens.placed_stay Placement.made_stay

theorem Field.placed_stay : Field.placed .stay (id : α → α) = id := by
  funext x
  simp [Field.placed]

theorem FieldList.placed_stay : FieldList.placed .stay (id : α → α) = id := by
  funext l
  simp [FieldList.placed, Field.placed_stay]

theorem Signature.placed_stay : Signature.placed .stay (id : α → α) = id := by
  funext s
  rcases s with ⟨_, _, _, _ | _ | _⟩ <;>
    simp [Signature.placed, Results.placed, FieldList.placed_stay]

theorem TypeForm.placed_stay (form : TypeForm α) : form.placed .stay id = form := by
  have hterm : Term.placed .stay (id : α → α) = id := by
    funext t
    simp [Term.placed]
  have helement : Element.placed .stay (id : α → α) = id := by
    funext e
    cases e <;> simp [Element.placed, Signature.placed_stay, hterm]
  cases form <;> simp [TypeForm.placed, Field.placed_stay, helement, Signature.placed_stay]

theorem TypeNode.placed_stay : TypeNode.placed .stay = id := by
  funext t
  induction t using TypeNode.induct with
  | h serial span form ih =>
    rw [placed_mk, TypeForm.placed_congr .stay ih, TypeForm.placed_stay]
    simp

theorem Decl.placed_stay : Decl.placed .stay = id := by
  have hvalues : ValueSpec.placed .stay = id := by
    funext s
    simp [ValueSpec.placed, TypeNode.placed_stay]
  have htypes : TypeSpec.placed .stay = id := by
    funext s
    simp [TypeSpec.placed, TypeNode.placed_stay]
  have hspecs (s : Specs) : s.placed .stay = s := by
    cases s <;> simp [Specs.placed, hvalues, htypes]
  funext d
  cases d <;>
    simp [Decl.placed, hspecs, TypeNode.placed_stay, FieldList.placed_stay, Signature.placed_stay]

theorem ImportSpec.placed_stay : ImportSpec.placed .stay = id := by
  have hname : ImportName.placed .stay = id := by
    funext x
    cases x <;> rfl
  funext i
  simp [ImportSpec.placed, hname]

end

/-! ## Grouping -/

def ParamEntry.placed (P : Placement) (e : ParamEntry TypeNode) : ParamEntry TypeNode :=
  ⟨e.names.map (Ident.placed P), e.ellipsis.map (Span.placed P), e.type.map (TypeNode.placed P),
    e.span.placed P⟩

def ParamGroup.placed (P : Placement) (g : ParamGroup TypeNode) : ParamGroup TypeNode :=
  ⟨g.waiting.map (Ident.placed P), g.names.map (Ident.placed P), g.ellipsis.map (Span.placed P),
    g.type.placed P, P.place g.start, g.span.placed P⟩

def EntryChange.placed (P : Placement) : EntryChange :=
  ⟨Ident.placed P, TypeNode.placed P, Span.placed P, P.place, fun _ => rfl, fun _ => rfl⟩

section

variable (P : Placement)

theorem groupEntries_placed (waiting : List Ident) (start : Option Nat)
    (es : List (ParamEntry TypeNode)) :
    groupEntries (waiting.map (Ident.placed P)) (start.map P.place)
        (es.map (ParamEntry.placed P))
      = (groupEntries waiting start es).map (List.map (ParamGroup.placed P))
        (List.map (Ident.placed P)) :=
  groupEntries_change (.placed P) waiting start es

theorem mixedAt?_placed (groups : List (ParamGroup TypeNode)) (left : List Ident) :
    mixedAt? (groups.map (ParamGroup.placed P)) (left.map (Ident.placed P))
      = (mixedAt? groups left).map (Span.placed P) :=
  mixedAt?_change (.placed P) groups left

theorem ParamGroup.field_placed (g : ParamGroup TypeNode) (serial : Nat) :
    (g.placed P).field (P.made.fields + serial)
      = (g.field serial).placed P (TypeNode.placed P) := by
  simp [field, placed, Field.placed, allNames, Span.placed]

theorem Ident.field_placed (x : Ident) (serial typeSerial : Nat) :
    (x.placed P).field (P.made.fields + serial) (P.made.types + typeSerial)
      = (x.field serial typeSerial).placed P (TypeNode.placed P) := by
  simp [field, placed, Field.placed, TypeNode.placed_mk, TypeForm.placed]

theorem mapIdx_comm {δ : Type} {f : Nat → β → γ} {g : Nat → α → δ} {h : α → β} {k : δ → γ}
    (hfg : ∀ i x, f i (h x) = k (g i x)) (xs : List α) :
    (xs.map h).mapIdx f = (xs.mapIdx g).map k :=
  List.ext_getElem (by simp) fun i _ _ => by simp [hfg]

/-- The fields of a list go along with its entries, and so does what is wrong with it. -/
theorem resolveEntries_placed (es : List (ParamEntry TypeNode)) (made : Counts) :
    resolveEntries (es.map (ParamEntry.placed P)) (P.made.after made)
      = ((resolveEntries es made).map (·.map (List.map (Field.placed P (TypeNode.placed P)))
          P.made.after)).mapError (Located.placed P) := by
  have hgroups := groupEntries_placed P [] none es
  simp only [List.map_nil, Option.map_none] at hgroups
  simp only [resolveEntries, hgroups]
  generalize groupEntries [] none es = p
  obtain ⟨groups, left⟩ := p
  simp only [Prod.map, mixedAt?_placed]
  cases mixedAt? groups left with
  | some s => rfl
  | none =>
    have hgroups := mapIdx_comm
      (fun i g => ParamGroup.field_placed P g (made.fields + i)) groups
    have hleft := mapIdx_comm (fun i x => Ident.field_placed P x
      (made.fields + groups.length + i) (made.types + i)) left
    simp only [← Nat.add_assoc] at hgroups hleft
    simp only [Option.map_none, Except.map, Except.mapError, Counts.after,
      List.length_append, List.length_mapIdx, List.length_map, List.map_append, ← Nat.add_assoc,
      hgroups, hleft]

end

end GoIface
