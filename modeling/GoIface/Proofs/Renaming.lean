import GoIface.Proofs.Placing

/-!
# Trees under other names

The identifiers of a text may be renamed, each by its name and its place. A tree goes along
(`TypeNode.renamed`, `File.renamed`), and nothing but the names of its identifiers changes. The
fields of a parameter list go along with the entries (`resolveEntries_renamed`).
-/

namespace GoIface

variable {α β γ : Type}

/-- Other names for identifiers. Those that are blank stay blank, and no others become so. -/
structure Renaming where
  name : Ident → String
  blank (x : Ident) : name x = "_" ↔ x.name = "_"

def Ident.renamed (ρ : Renaming) (x : Ident) : Ident := ⟨ρ.name x, x.span⟩

def Lexeme.renamed (ρ : Renaming) (l : Lexeme) : Lexeme :=
  match l.token with
  | .ident x => ⟨.ident (ρ.name ⟨x, l.span⟩), l.span⟩
  | _ => l

@[simp] theorem Lexeme.renamed_span (ρ : Renaming) (l : Lexeme) : (l.renamed ρ).span = l.span := by
  unfold renamed
  split <;> rfl

/-! ## Types

What stands at the places of types goes along in the way that is given. -/

def Field.renamed (ρ : Renaming) (f : α → β) (x : Field α) : Field β :=
  ⟨x.serial, x.span, x.names.map (Ident.renamed ρ), x.ellipsis, f x.type, x.tag, x.embedded⟩

def FieldList.renamed (ρ : Renaming) (f : α → β) (l : FieldList α) : FieldList β :=
  ⟨l.lparen, l.fields.map (Field.renamed ρ f), l.rparen⟩

def Results.renamed (ρ : Renaming) (f : α → β) : Results α → Results β
  | .absent => .absent
  | .single t => .single (f t)
  | .list l => .list (l.renamed ρ f)

def Signature.renamed (ρ : Renaming) (f : α → β) (s : Signature α) : Signature β :=
  ⟨s.serial, s.span, s.params.renamed ρ f, s.results.renamed ρ f⟩

def Element.renamed (ρ : Renaming) (f : α → β) : Element α → Element β
  | .method name s => .method (name.renamed ρ) (s.renamed ρ f)
  | .union terms => .union (terms.map (Term.map f))

def TypeForm.renamed (ρ : Renaming) (f : α → β) : TypeForm α → TypeForm β
  | .named q name args => .named (q.map (Ident.renamed ρ)) (name.renamed ρ) (args.map f)
  | .pointer star t => .pointer star (f t)
  | .array length t => .array length (f t)
  | .slice lbrack t => .slice lbrack (f t)
  | .mapping keyword k v => .mapping keyword (f k) (f v)
  | .chan d keyword t => .chan d keyword (f t)
  | .struct keyword fields => .struct keyword (fields.map (Field.renamed ρ f))
  | .interface keyword elements => .interface keyword (elements.map (Element.renamed ρ f))
  | .func keyword s => .func keyword (s.renamed ρ f)
  | .paren lparen t => .paren lparen (f t)

/-- The type with the new names in it. -/
def TypeNode.renamed (ρ : Renaming) (t : TypeNode) : TypeNode :=
  t.fold fun serial span form => .mk serial span (form.renamed ρ id)

section

variable (ρ : Renaming) (f : α → β) (g : β → γ)

theorem FieldList.renamed_map (l : FieldList α) :
    (l.map f).renamed ρ g = l.renamed ρ (g ∘ f) := by
  simp [FieldList.renamed, FieldList.map, Field.renamed, Field.map]

theorem Signature.renamed_map (s : Signature α) :
    (s.map f).renamed ρ g = s.renamed ρ (g ∘ f) := by
  rcases s with ⟨_, _, _, _ | _ | _⟩ <;>
    simp [Signature.renamed, Signature.map, Results.renamed, Results.map, FieldList.renamed_map]

theorem TypeForm.renamed_map (form : TypeForm α) :
    (form.map f).renamed ρ g = form.renamed ρ (g ∘ f) := by
  have helement (e : Element α) : (e.map f).renamed ρ g = e.renamed ρ (g ∘ f) := by
    cases e <;> simp [Element.renamed, Element.map, Signature.renamed_map, Term.map]
  cases form <;>
    simp [TypeForm.renamed, TypeForm.map, Field.renamed, Field.map, helement,
      Signature.renamed_map]

theorem FieldList.map_renamed (l : FieldList α) :
    (l.renamed ρ f).map g = l.renamed ρ (g ∘ f) := by
  simp [FieldList.renamed, FieldList.map, Field.renamed, Field.map]

theorem Signature.map_renamed (s : Signature α) :
    (s.renamed ρ f).map g = s.renamed ρ (g ∘ f) := by
  rcases s with ⟨_, _, _, _ | _ | _⟩ <;>
    simp [Signature.renamed, Signature.map, Results.renamed, Results.map, FieldList.map_renamed]

theorem TypeForm.map_renamed (form : TypeForm α) :
    (form.renamed ρ f).map g = form.renamed ρ (g ∘ f) := by
  have helement (e : Element α) : (e.renamed ρ f).map g = e.renamed ρ (g ∘ f) := by
    cases e <;> simp [Element.renamed, Element.map, Signature.map_renamed, Term.map]
  cases form <;>
    simp [TypeForm.renamed, TypeForm.map, Field.renamed, Field.map, helement,
      Signature.map_renamed]

end

theorem TypeNode.renamed_mk (ρ : Renaming) (serial : Nat) (span : Span)
    (form : TypeForm TypeNode) : (TypeNode.mk serial span form).renamed ρ
      = .mk serial span (form.renamed ρ (TypeNode.renamed ρ)) := by
  rw [TypeNode.renamed, fold_mk, TypeForm.renamed_map]
  rfl

/-! ## Files -/

def ImportName.renamed (ρ : Renaming) : ImportName → ImportName
  | .dot s => .dot s
  | .blank s => .blank s
  | .name x => .name (x.renamed ρ)

def ImportSpec.renamed (ρ : Renaming) (i : ImportSpec) : ImportSpec :=
  ⟨i.name.map (ImportName.renamed ρ), i.path⟩

def ValueSpec.renamed (ρ : Renaming) (s : ValueSpec) : ValueSpec :=
  ⟨s.names.map (Ident.renamed ρ), s.type.map (TypeNode.renamed ρ), s.values⟩

def TypeSpec.renamed (ρ : Renaming) (s : TypeSpec) : TypeSpec :=
  ⟨s.name.renamed ρ, s.params, s.assign, s.type.renamed ρ⟩

def Specs.renamed (ρ : Renaming) : Specs → Specs
  | .consts xs => .consts (xs.map (ValueSpec.renamed ρ))
  | .types xs => .types (xs.map (TypeSpec.renamed ρ))
  | .vars xs => .vars (xs.map (ValueSpec.renamed ρ))

def Decl.renamed (ρ : Renaming) : Decl → Decl
  | .specs d => .specs ⟨d.serial, d.span, d.keyword, d.parens, d.specs.renamed ρ⟩
  | .func d => .func ⟨d.serial, d.span, d.keyword,
      d.receiver.map (FieldList.renamed ρ (TypeNode.renamed ρ)), d.name.renamed ρ, d.typeParams,
      d.signature.renamed ρ (TypeNode.renamed ρ), d.body⟩

def File.renamed (ρ : Renaming) (f : File) : File :=
  ⟨f.package, f.name.renamed ρ, f.imports.map (ImportSpec.renamed ρ),
    f.decls.map (Decl.renamed ρ)⟩

/-! ## Names that stay -/

/-- All identifiers keep their names. -/
def Renaming.keep : Renaming := ⟨Ident.name, fun _ => .rfl⟩

section

theorem Ident.renamed_keep : Ident.renamed .keep = id := rfl

attribute [local simp] Ident.renamed_keep

theorem Field.renamed_keep : Field.renamed .keep (id : α → α) = id := by
  funext x
  simp [Field.renamed]

theorem FieldList.renamed_keep : FieldList.renamed .keep (id : α → α) = id := by
  funext l
  simp [FieldList.renamed, Field.renamed_keep]

theorem Signature.renamed_keep : Signature.renamed .keep (id : α → α) = id := by
  funext s
  rcases s with ⟨_, _, _, _ | _ | _⟩ <;>
    simp [Signature.renamed, Results.renamed, FieldList.renamed_keep]

theorem TypeForm.renamed_keep (form : TypeForm α) : form.renamed .keep id = form := by
  have hterm : Term.map (id : α → α) = id := by
    funext t
    simp [Term.map]
  have helement : Element.renamed .keep (id : α → α) = id := by
    funext e
    cases e <;> simp [Element.renamed, Signature.renamed_keep, hterm]
  cases form <;> simp [TypeForm.renamed, Field.renamed_keep, helement, Signature.renamed_keep]

theorem TypeNode.renamed_keep : TypeNode.renamed .keep = id := by
  funext t
  induction t using TypeNode.induct with
  | h serial span form ih =>
    have hform := congrArg (TypeForm.renamed .keep id) (TypeForm.map_congr (g := id) ih)
    rw [TypeForm.renamed_map, TypeForm.renamed_map, Function.id_comp, Function.id_comp,
      TypeForm.renamed_keep] at hform
    rw [renamed_mk, hform]
    rfl

theorem Decl.renamed_keep : Decl.renamed .keep = id := by
  have hvalues : ValueSpec.renamed .keep = id := by
    funext s
    simp [ValueSpec.renamed, TypeNode.renamed_keep]
  have htypes : TypeSpec.renamed .keep = id := by
    funext s
    simp [TypeSpec.renamed, TypeNode.renamed_keep]
  have hspecs (s : Specs) : s.renamed .keep = s := by
    cases s <;> simp [Specs.renamed, hvalues, htypes]
  funext d
  cases d <;>
    simp [Decl.renamed, hspecs, TypeNode.renamed_keep, FieldList.renamed_keep,
      Signature.renamed_keep]

end

/-! ## Grouping -/

def ParamEntry.renamed (ρ : Renaming) (e : ParamEntry TypeNode) : ParamEntry TypeNode :=
  ⟨e.names.map (Ident.renamed ρ), e.ellipsis, e.type.map (TypeNode.renamed ρ), e.span⟩

def ParamGroup.renamed (ρ : Renaming) (g : ParamGroup TypeNode) : ParamGroup TypeNode :=
  ⟨g.waiting.map (Ident.renamed ρ), g.names.map (Ident.renamed ρ), g.ellipsis, g.type.renamed ρ,
    g.start, g.span⟩

/-- A renaming leaves all spans where they are. -/
def EntryChange.renamed (ρ : Renaming) : EntryChange :=
  ⟨Ident.renamed ρ, TypeNode.renamed ρ, id, id, fun _ => rfl, fun _ => rfl⟩

section

variable (ρ : Renaming)

theorem EntryChange.entry_renamed : (renamed ρ).entry = ParamEntry.renamed ρ := by
  funext e
  simp [entry, renamed, ParamEntry.renamed]

theorem EntryChange.group_renamed : (renamed ρ).group = ParamGroup.renamed ρ := by
  funext g
  simp [group, renamed, ParamGroup.renamed]

theorem groupEntries_renamed (waiting : List Ident) (start : Option Nat)
    (es : List (ParamEntry TypeNode)) :
    groupEntries (waiting.map (Ident.renamed ρ)) start (es.map (ParamEntry.renamed ρ))
      = (groupEntries waiting start es).map (List.map (ParamGroup.renamed ρ))
        (List.map (Ident.renamed ρ)) := by
  have hchange := groupEntries_change (.renamed ρ) waiting start es
  rwa [EntryChange.entry_renamed, EntryChange.group_renamed,
    show start.map (EntryChange.renamed ρ).start = start from Option.map_id_apply ..] at hchange

theorem mixedAt?_renamed (groups : List (ParamGroup TypeNode)) (left : List Ident) :
    mixedAt? (groups.map (ParamGroup.renamed ρ)) (left.map (Ident.renamed ρ))
      = mixedAt? groups left := by
  have hchange := mixedAt?_change (.renamed ρ) groups left
  rwa [EntryChange.group_renamed,
    show Option.map (EntryChange.renamed ρ).span = id from Option.map_id] at hchange

theorem ParamGroup.allNames_renamed (g : ParamGroup TypeNode) :
    (g.renamed ρ).allNames = g.allNames.map (Ident.renamed ρ) := by
  simp [renamed, allNames]

theorem ParamGroup.field_renamed (g : ParamGroup TypeNode) (serial : Nat) :
    (g.renamed ρ).field serial = (g.field serial).renamed ρ (TypeNode.renamed ρ) := by
  rw [field, allNames_renamed]
  rfl

theorem Ident.field_renamed (x : Ident) (serial typeSerial : Nat) :
    (x.renamed ρ).field serial typeSerial
      = (x.field serial typeSerial).renamed ρ (TypeNode.renamed ρ) := by
  rw [field, field, Field.renamed, TypeNode.renamed_mk]
  rfl

/-- The fields of a list go along with its entries, which are mixed as they were. -/
theorem resolveEntries_renamed (es : List (ParamEntry TypeNode)) (made : Counts) :
    resolveEntries (es.map (ParamEntry.renamed ρ)) made
      = (resolveEntries es made).map
        (·.map (List.map (Field.renamed ρ (TypeNode.renamed ρ))) id) := by
  have hgroups := groupEntries_renamed ρ [] none es
  rw [List.map_nil] at hgroups
  simp only [resolveEntries, hgroups]
  generalize groupEntries [] none es = p
  obtain ⟨groups, left⟩ := p
  simp only [Prod.map, mixedAt?_renamed]
  cases mixedAt? groups left with
  | some s => rfl
  | none =>
    have hgroups := mapIdx_comm
      (fun i g => ParamGroup.field_renamed ρ g (made.fields + i)) groups
    have hleft := mapIdx_comm (fun i x => Ident.field_renamed ρ x
      (made.fields + groups.length + i) (made.types + i)) left
    simp only [Except.map, List.length_append, List.length_mapIdx, List.length_map,
      List.map_append, hgroups, hleft, id]

end

end GoIface
