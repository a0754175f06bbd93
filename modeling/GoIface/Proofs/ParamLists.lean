import GoIface.Proofs.Entries

/-!
# Parameter lists as they are written

A well grouped list of fields is written as the entries of its fields in a row, one for each name
of a field and one for a field without names (`joined_paramTokens`). Such entries are not mixed and
make up the fields again (`fieldsOf_entries`), so the list that is read back is the one that was
written (`Takes.fieldList`).

A meaning is what is made of the types that are read and of those that were written. The two have
to be the same for the types that a parameter list makes of bare identifiers.
-/

namespace GoIface

variable {α β τ : Type}

structure Meaning (α : Type) where
  read : TypeNode → α
  written : TypeNode → α
  named : String → α
  read_ident : ∀ serial span x, read (.mk serial span (.named none x [])) = named x.name
  written_ident : ∀ serial span x, written (.mk serial span (.named none x [])) = named x.name

/-- The reader takes the type as it is written. -/
def Meaning.Takes (V : Meaning α) (L : Legend) (type : Parse TypeNode) (t : TypeNode)
    (F : Follow) : Prop :=
  Parse.Takes L type (t.tokens L.spell) F fun x => V.read x = V.written t

/-- The name that a type is, if it is an identifier. -/
def TypeNode.name (t : TypeNode) : String :=
  match t.form with
  | .named _ name _ => name.name
  | _ => ""

/-- The entries of a type with the names before it. -/
def entriesOf (variadic : Bool) (type : τ) : List String → List (ListEntry τ)
  | [] => [.typed none variadic type]
  | [name] => [.typed (some name) variadic type]
  | name :: names => .bare name :: entriesOf variadic type names

def Field.entries (x : Field TypeNode) : List (ListEntry TypeNode) :=
  if x.isBare then [.bare x.type.name]
  else entriesOf x.ellipsis.isSome x.type (x.names.map (·.name))

def FieldList.entries (l : FieldList TypeNode) : List (ListEntry TypeNode) :=
  l.fields.flatMap Field.entries

/-! ## The tokens of the entries -/

theorem TypeNode.isIdent_iff {t : TypeNode} :
    t.isIdent = true ↔ ∃ serial span x, t = .mk serial span (.named none x []) := by
  obtain ⟨serial, span, form⟩ := t
  constructor
  · intro h
    unfold isIdent at h
    split at h
    · next x heq =>
      obtain rfl : form = .named none x [] := heq
      exact ⟨serial, span, x, rfl⟩
    · simp at h
  · rintro ⟨_, _, x, h⟩
    injection h with _ _ hform
    rw [hform]
    rfl

theorem TypeNode.tokens_of_isIdent {t : TypeNode} (h : t.isIdent = true)
    (spell : Span → List Token) : t.tokens spell = [.ident t.name] := by
  obtain ⟨serial, span, x, rfl⟩ := isIdent_iff.1 h
  rw [tokens_mk]
  rfl

theorem Meaning.written_of_isIdent (V : Meaning α) {t : TypeNode} (h : t.isIdent = true) :
    V.written t = V.named t.name := by
  obtain ⟨serial, span, x, rfl⟩ := TypeNode.isIdent_iff.1 h
  exact V.written_ident serial span x

theorem Field.isBare_iff {x : Field TypeNode} :
    x.isBare = true ↔ x.names = [] ∧ x.ellipsis = none ∧ x.type.isIdent = true := by
  simp [isBare, and_assoc]

theorem entriesOf_ne_nil {variadic : Bool} {type : τ} :
    ∀ names : List String, entriesOf variadic type names ≠ []
  | [] | [_] | _ :: _ :: _ => by simp [entriesOf]

theorem map_entriesOf (f : τ → α) {variadic : Bool} {type : τ} : ∀ names : List String,
    (entriesOf variadic type names).map (ListEntry.map f) = entriesOf variadic (f type) names
  | [] | [_] => rfl
  | _ :: m :: names => by simp [entriesOf, ListEntry.map, map_entriesOf f (m :: names)]

/-- Names are separated as entries are. -/
theorem joined_entriesOf (variadic : Bool) (type : List Token) :
    ∀ names : List String, joined .comma ((entriesOf variadic type names).map ListEntry.tokens)
      = joined .comma (names.map fun n => [.ident n])
        ++ ((if variadic then [Token.mark .ellipsis] else []) ++ type)
  | [] => by simp [entriesOf, ListEntry.tokens]
  | [name] => by simp [entriesOf, ListEntry.tokens]
  | name :: m :: names => by
    have ih := joined_entriesOf variadic type (m :: names)
    have hne : (entriesOf variadic type (m :: names)).map ListEntry.tokens ≠ [] := by
      simpa using entriesOf_ne_nil _
    have hstep : entriesOf variadic type (name :: m :: names)
        = .bare name :: entriesOf variadic type (m :: names) := rfl
    rw [hstep, List.map_cons, joined_cons _ _ hne, ih, List.map_cons (l := m :: names),
      joined_cons _ _ (by simp)]
    simp [ListEntry.tokens]

theorem Field.entries_ne_nil (x : Field TypeNode) : x.entries ≠ [] := by
  unfold entries
  split
  · simp
  · exact entriesOf_ne_nil _

theorem Field.joined_entries (spell : Span → List Token) (x : Field TypeNode) :
    joined .comma (x.entries.map fun e => (e.map (TypeNode.tokens spell)).tokens)
      = (x.map (TypeNode.tokens spell)).paramTokens := by
  unfold entries
  split
  · next h =>
    obtain ⟨hnames, hellipsis, hident⟩ := isBare_iff.1 h
    simp [ListEntry.tokens, ListEntry.map, paramTokens, Field.map, hnames, hellipsis, namesTokens,
      TypeNode.tokens_of_isIdent hident]
  · show joined .comma (List.map (ListEntry.tokens ∘ ListEntry.map _) _) = _
    rw [← List.map_map, map_entriesOf, joined_entriesOf, List.map_map]
    rfl

/-- A list of fields is written as the entries of its fields in a row. -/
theorem joined_paramTokens (spell : Span → List Token) (l : FieldList TypeNode) :
    joined .comma ((l.fields.map (Field.map (TypeNode.tokens spell))).map Field.paramTokens)
      = joined .comma (l.entries.map fun e => (e.map (TypeNode.tokens spell)).tokens) := by
  have hne : ∀ x ∈ l.fields,
      (x.entries.map fun e => (e.map (TypeNode.tokens spell)).tokens) ≠ [] := by
    intro x _
    simpa using x.entries_ne_nil
  rw [FieldList.entries, List.map_flatMap, joined_flatMap .comma hne, List.map_map]
  simp only [Field.joined_entries, Function.comp_def]

/-! ## The fields of the entries -/

theorem sharings_entriesOf (variadic : Bool) (type : τ) (es : List (ListEntry τ)) :
    ∀ names waiting : List String, sharings waiting (entriesOf variadic type names ++ es)
      = ⟨waiting ++ names, variadic, type⟩ :: sharings [] es
  | [], waiting => by simp [entriesOf, sharings]
  | [name], waiting => by simp [entriesOf, sharings]
  | name :: m :: names, waiting => by
    have ih := sharings_entriesOf variadic type es (m :: names) (waiting ++ [name])
    simpa [entriesOf, sharings] using ih

theorem unshared_entriesOf (variadic : Bool) (type : τ) (es : List (ListEntry τ)) :
    ∀ names waiting : List String,
      unshared waiting (entriesOf variadic type names ++ es) = unshared [] es
  | [], waiting => by simp [entriesOf, unshared]
  | [name], waiting => by simp [entriesOf, unshared]
  | name :: m :: names, waiting => by
    have ih := unshared_entriesOf variadic type es (m :: names) (waiting ++ [name])
    simpa [entriesOf, unshared] using ih

theorem sharings_bare {name : β → String} : ∀ (xs : List β) (waiting : List String),
    sharings waiting (xs.map fun x => (.bare (name x) : ListEntry τ)) = []
  | [], _ => rfl
  | _ :: xs, _ => sharings_bare xs _

theorem unshared_bare {name : β → String} : ∀ (xs : List β) (waiting : List String),
    unshared waiting (xs.map fun x => (.bare (name x) : ListEntry τ)) = waiting ++ xs.map name
  | [], waiting => by simp [unshared]
  | x :: xs, waiting => by
    rw [List.map_cons, unshared, unshared_bare xs]
    simp

theorem map_entries_of_isBare (H : TypeNode → α) : ∀ {zs : List (Field TypeNode)},
    (∀ z ∈ zs, z.isBare = true) →
      (zs.flatMap Field.entries).map (ListEntry.map H) = zs.map fun z => .bare z.type.name
  | [], _ => rfl
  | z :: zs, h => by
    have ih := map_entries_of_isBare H fun x hx => h x (List.mem_cons_of_mem _ hx)
    have hz : z.entries = [.bare z.type.name] := by
      rw [Field.entries, if_pos (h z (by simp))]
    rw [List.flatMap_cons, List.map_append, ih, hz]
    rfl

/-- Fields that are not bare identifiers share, those that are wait to the end. -/
theorem shared_entries (H : TypeNode → α) {zs : List (Field TypeNode)}
    (hzs : ∀ z ∈ zs, z.isBare = true) : ∀ {ys : List (Field TypeNode)},
      (∀ y ∈ ys, y.isBare = false) →
        let es := ((ys ++ zs).flatMap Field.entries).map (ListEntry.map H)
        sharings [] es = ys.map (Field.sharing H) ∧ unshared [] es = zs.map (·.type.name)
  | [], _ => by
    rw [List.nil_append, map_entries_of_isBare H hzs]
    exact ⟨sharings_bare zs [], unshared_bare zs []⟩
  | y :: ys, h => by
    obtain ⟨ihs, ihu⟩ := shared_entries H hzs fun x hx => h x (List.mem_cons_of_mem _ hx)
    have hy : y.entries = entriesOf y.ellipsis.isSome y.type (y.names.map (·.name)) := by
      rw [Field.entries, if_neg (by simp [h y (by simp)])]
    simp only [List.cons_append, List.flatMap_cons, List.map_append, hy, map_entriesOf,
      sharings_entriesOf, unshared_entriesOf]
    rw [ihs, ihu]
    exact ⟨rfl, rfl⟩

/-- A well grouped list is one of named fields, or the bare identifiers stand at its end. -/
theorem WellGrouped.split {xs : List (Field TypeNode)} (h : WellGrouped xs) :
    ∃ ys zs, xs = ys ++ zs ∧ (∀ y ∈ ys, y.isBare = false) ∧ (∀ z ∈ zs, z.isBare = true) ∧
      ((∀ y ∈ ys, y.names ≠ []) ∧ zs = [] ∨ ∀ y ∈ ys, y.names = []) := by
  rcases h with hnamed | ⟨hnone, hlast⟩
  · refine ⟨xs, [], by simp, fun y hy => ?_, by simp, .inl ⟨hnamed, rfl⟩⟩
    simp [Field.isBare, hnamed y hy]
  · induction xs with
    | nil => exact ⟨[], [], rfl, by simp, by simp, .inr (by simp)⟩
    | cons x xs ih =>
      obtain ⟨hx, hlast⟩ := List.pairwise_cons.1 hlast
      cases hbare : x.isBare with
      | true =>
        refine ⟨[], x :: xs, rfl, by simp, ?_, .inr (by simp)⟩
        simpa [hbare] using fun z hz => hx z hz hbare
      | false =>
        obtain ⟨hxnone, hnone⟩ := List.forall_mem_cons.1 hnone
        obtain ⟨ys, zs, rfl, hys, hzs, -⟩ := ih hnone hlast
        refine ⟨x :: ys, zs, rfl, by simpa [hbare] using hys, hzs, .inr ?_⟩
        simpa [hxnone] using fun y hy => hnone y (List.mem_append_left _ hy)

theorem WellGrouped.not_mixed {l : FieldList TypeNode} (h : WellGrouped l.fields)
    (H : TypeNode → α) : ¬ Mixed (l.entries.map (ListEntry.map H)) := by
  obtain ⟨ys, zs, hxs, hys, hzs, hcase⟩ := h.split
  obtain ⟨hshared, hunshared⟩ := shared_entries H hzs hys
  rw [FieldList.entries, hxs, Mixed, hshared, hunshared]
  rintro ⟨⟨s, hs, hsnames⟩, hrest⟩
  obtain ⟨y, hy, rfl⟩ := List.mem_map.1 hs
  rcases hcase with ⟨hnamed, rfl⟩ | hnone
  · rcases hrest with ⟨s, hs, hsnames⟩ | hrest
    · obtain ⟨y, hy, rfl⟩ := List.mem_map.1 hs
      exact hnamed y hy (List.map_eq_nil_iff.1 hsnames)
    · exact hrest rfl
  · exact hsnames (by rw [Field.sharing, hnone y hy]; rfl)

/-- The entries of a well grouped list make up its fields. -/
theorem fieldsOf_entries (V : Meaning α) {l : FieldList TypeNode} (h : l.Printable) :
    fieldsOf V.named (l.entries.map (ListEntry.map V.written))
      = l.fields.map fun x => (x.map V.written).bare := by
  obtain ⟨ys, zs, hxs, hys, hzs, -⟩ := h.2.split
  obtain ⟨hshared, hunshared⟩ := shared_entries V.written hzs hys
  rw [fieldsOf, FieldList.entries, hxs, hshared, hunshared, List.map_append, List.map_append]
  have hplain : ∀ x ∈ ys ++ zs, x.tag = none ∧ x.embedded = false := hxs ▸ h.1
  refine congr (congrArg _ ?_) ?_
  · rw [List.map_map]
    refine List.map_congr_left fun y hy => ?_
    obtain ⟨htag, hembedded⟩ := hplain y (List.mem_append_left _ hy)
    exact (y.bare_map V.written htag hembedded).symm
  · rw [List.map_map, List.map_map]
    refine List.map_congr_left fun z hz => ?_
    obtain ⟨htag, hembedded⟩ := hplain z (List.mem_append_right _ hz)
    obtain ⟨hnames, hellipsis, hident⟩ := Field.isBare_iff.1 (hzs z hz)
    simp [Sharing.field, Field.map, Field.bare, htag, hembedded, hnames, hellipsis,
      V.written_of_isIdent hident]

/-! ## Reading a list -/

section

variable {L : Legend} {F : Follow} {type : Parse TypeNode}

theorem TypeForm.looksLikeType {form : TypeForm TypeNode} (hform : form.Printable L.spell)
    (h : ∀ t ∈ form.children, Balanced (t.tokens L.spell)) :
    LooksLikeType ((form.map (TypeNode.tokens L.spell)).tokens L.spell) where
  starts := TypeForm.tokens_starts _ _
  bracket us hus := by
    cases form with
    | array n t =>
      obtain ⟨u, vs, ht, hu⟩ := t.tokens_starts L.spell
      refine ⟨L.spell n, u, vs, ?_, hform.balanced.level, hu⟩
      rw [← ht]
      exact (List.cons_eq_cons.1 hus).2.symm
    | slice _ t =>
      obtain ⟨u, vs, ht, hu⟩ := t.tokens_starts L.spell
      refine ⟨[], u, vs, ?_, rfl, hu⟩
      rw [← ht]
      exact (List.cons_eq_cons.1 hus).2.symm
    | named q n args => cases q <;> simp [TypeForm.map, TypeForm.tokens] at hus
    | chan d _ t => cases d <;> simp [TypeForm.map, TypeForm.tokens] at hus
    | _ => simp [TypeForm.map, TypeForm.tokens] at hus
  name m us hus := by
    cases form with
    | named q n args =>
      cases q with
      | none =>
        obtain ⟨-, rfl⟩ := List.cons_eq_cons.1 hus
        rcases args with _ | ⟨t, args⟩
        · exact .inl rfl
        · refine .inr (.inr ⟨_, rfl, (Balanced.joined rfl rfl fun ts hts => ?_).level⟩)
          obtain ⟨t, ht, rfl⟩ := List.mem_map.1 hts
          exact h t ht
      | some q =>
        obtain ⟨-, rfl⟩ := List.cons_eq_cons.1 hus
        exact .inr (.inl rfl)
    | chan d _ t => cases d <;> simp [TypeForm.map, TypeForm.tokens] at hus
    | _ => simp [TypeForm.map, TypeForm.tokens] at hus

theorem TypeNode.Printable.looksLikeType {t : TypeNode} (h : t.Printable L.spell) :
    LooksLikeType (t.tokens L.spell) := by
  obtain ⟨hform, hparts⟩ := h
  rw [TypeNode.tokens_mk]
  exact TypeForm.looksLikeType hform fun t ht => (hparts t ht).balanced_tokens

/-- Only an identifier is written as one. -/
theorem TypeNode.isIdent_of_tokens {t : TypeNode} {n : String}
    (h : t.tokens L.spell = [.ident n]) : t.isIdent = true := by
  obtain ⟨serial, span, form⟩ := t
  rw [TypeNode.tokens_mk] at h
  cases form with
  | named q m args =>
    cases q with
    | none =>
      cases args with
      | nil => rfl
      | cons t args => simp [TypeForm.map, TypeForm.tokens, typeArgsTokens] at h
    | some q => simp [TypeForm.map, TypeForm.tokens] at h
  | chan d _ t => cases d <;> simp [TypeForm.map, TypeForm.tokens] at h
  | _ => simp [TypeForm.map, TypeForm.tokens] at h

theorem mem_entriesOf {e : ListEntry τ} {variadic : Bool} {type : τ} :
    ∀ {names : List String}, e ∈ entriesOf variadic type names →
      (∃ name, e = .bare name) ∨ ∃ name : Option String,
        e = .typed name variadic type ∧ (name = none → names = [])
  | [], h => .inr ⟨none, by simpa [entriesOf] using h⟩
  | [name], h => .inr ⟨some name, by simpa [entriesOf] using h⟩
  | name :: m :: names, h => by
    rcases List.mem_cons.1 h with rfl | h
    · exact .inl ⟨name, rfl⟩
    · rcases mem_entriesOf h with h | ⟨name, h, hnone⟩
      · exact .inl h
      · exact .inr ⟨name, h, fun hn => absurd (hnone hn) (by simp)⟩

/-- An entry of a field is a bare identifier or has the type of the field. -/
theorem Field.mem_entries {x : Field TypeNode} {e : ListEntry TypeNode} (h : e ∈ x.entries) :
    (∃ name, e = .bare name) ∨ x.isBare = false ∧ ∃ name : Option String,
      e = .typed name x.ellipsis.isSome x.type ∧ (name = none → x.names = []) := by
  unfold entries at h
  split at h
  · exact .inl ⟨_, List.mem_singleton.1 h⟩
  · next hbare =>
    rcases mem_entriesOf h with h | ⟨name, h, hnone⟩
    · exact .inl h
    · exact .inr ⟨by simpa using hbare, name, h, by simpa using hnone⟩

theorem Field.readable_entries {x : Field TypeNode} (h : x.type.Printable L.spell) :
    ∀ e ∈ x.entries, (e.map (TypeNode.tokens L.spell)).Readable := by
  intro e he
  rcases mem_entries he with ⟨name, rfl⟩ | ⟨hbare, name, rfl, hnone⟩
  · trivial
  · refine ⟨h.looksLikeType, fun hname hvariadic n htokens => ?_⟩
    have hident := TypeNode.isIdent_of_tokens htokens
    simp [isBare, hnone hname, hident] at hbare
    simp [hbare] at hvariadic

namespace Parse.Takes

theorem fieldList (V : Meaning α) {l : FieldList TypeNode} (h : l.Printable)
    (hparts : ∀ t ∈ l.children, t.Printable L.spell)
    (htype : ∀ t ∈ l.inside, V.Takes L type t (afterItem .rparen)) :
    Takes L (Parse.params type) (l.map (TypeNode.tokens L.spell)).tokens F
      fun x => (x.map V.read).bare = (l.map V.written).bare := by
  have hreadable : ∀ e ∈ l.entries, (e.map (TypeNode.tokens L.spell)).Readable := by
    intro e he
    obtain ⟨x, hx, he⟩ := List.mem_flatMap.1 he
    exact x.readable_entries (hparts _ (List.mem_map_of_mem hx)) e he
  have htypes : ∀ e ∈ l.entries, ∀ t ∈ e.type?, V.Takes L type t (afterItem .rparen) := by
    intro e he t ht
    obtain ⟨x, hx, he⟩ := List.mem_flatMap.1 he
    rcases x.mem_entries he with ⟨name, rfl⟩ | ⟨hbare, name, rfl, -⟩
    · simp [ListEntry.type?] at ht
    · obtain rfl : x.type = t := by simpa [ListEntry.type?] using ht
      exact htype _ (List.mem_map_of_mem (List.mem_filter.2 ⟨hx, by simp [hbare]⟩))
  have htokens : (l.map (TypeNode.tokens L.spell)).tokens
      = paramsTokens false (l.entries.map fun e => (e.map (TypeNode.tokens L.spell)).tokens) := by
    rw [paramsTokens, listing_false, ← joined_paramTokens]
    rfl
  have hparams := params (F := F) hreadable htypes V.read_ident (h.2.not_mixed V.written) false
  rw [htokens]
  refine hparams.mono (fun _ h => h) fun x hx => ?_
  rw [fieldsOf_entries V h] at hx
  simp only [FieldList.bare, FieldList.map, List.map_map, Function.comp_def, hx]

end Parse.Takes

end

end GoIface
