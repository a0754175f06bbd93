import GoIface.Proofs.Balance
import GoIface.Tree.Fold

/-!
# How trees are written

A tree is written token by token, with commas and semicolons only between items. The tree does not
hold what is written at the spans it keeps for lengths and tags, so that is given beside it. A tree
is bare when it has no places and no serial numbers: what is left is what was written.

`Printable` trees are those that can be told from their tokens again. Written, they start as types
do (`tokens_starts`) and are balanced (`balanced_tokens`).
-/

namespace GoIface

variable {α β : Type}

/-! ## Trees without places -/

def Span.nowhere : Span := .point 0

def Ident.bare (x : Ident) : Ident := ⟨x.name, .nowhere⟩

theorem Ident.bare_eq_iff {x y : Ident} : x.bare = y.bare ↔ x.name = y.name := by
  simp [bare]

def Field.bare (x : Field α) : Field α :=
  ⟨0, .nowhere, x.names.map Ident.bare, x.ellipsis.map fun _ => .nowhere, x.type,
    x.tag.map fun _ => ⟨.nowhere⟩, x.embedded⟩

def FieldList.bare (l : FieldList α) : FieldList α :=
  ⟨.nowhere, l.fields.map Field.bare, .nowhere⟩

def Results.bare : Results α → Results α
  | .absent => .absent
  | .single t => .single t
  | .list l => .list l.bare

def Signature.bare (s : Signature α) : Signature α := ⟨0, .nowhere, s.params.bare, s.results.bare⟩

def Term.bare (t : Term α) : Term α := ⟨t.tilde.map fun _ => .nowhere, t.type⟩

def Element.bare : Element α → Element α
  | .method name s => .method name.bare s.bare
  | .union terms => .union (terms.map Term.bare)

def TypeForm.bare : TypeForm α → TypeForm α
  | .named q n args => .named (q.map Ident.bare) n.bare args
  | .pointer _ t => .pointer .nowhere t
  | .array _ t => .array .nowhere t
  | .slice _ t => .slice .nowhere t
  | .mapping _ k v => .mapping .nowhere k v
  | .chan d _ t => .chan d .nowhere t
  | .struct _ fields => .struct .nowhere (fields.map Field.bare)
  | .interface _ elements => .interface .nowhere (elements.map Element.bare)
  | .func _ s => .func .nowhere s.bare
  | .paren _ t => .paren .nowhere t

/-- The tree without spans and serial numbers. -/
def TypeNode.bare (t : TypeNode) : TypeNode := t.fold fun _ _ form => .mk 0 .nowhere form.bare

def TypeForm.length? : TypeForm α → Option Span
  | .array n _ => some n
  | _ => none

/-- The forms differ in places only, and if they have a length, it is the same one. -/
def TypeForm.Alike (same : Span → Span → Prop) (f g : TypeForm α) : Prop :=
  f.bare = g.bare ∧ ∀ n ∈ f.length?, ∀ m ∈ g.length?, same n m

/-! ## Tokens -/

def namesTokens (names : List Ident) : List Token :=
  joined .comma (names.map fun x => [.ident x.name])

def Field.paramTokens (x : Field (List Token)) : List Token :=
  namesTokens x.names ++ ((if x.ellipsis.isSome then [Token.mark .ellipsis] else []) ++ x.type)

def FieldList.tokens (l : FieldList (List Token)) : List Token :=
  .mark .lparen :: (joined .comma (l.fields.map Field.paramTokens) ++ [Token.mark .rparen])

def Results.tokens : Results (List Token) → List Token
  | .absent => []
  | .single t => t
  | .list l => l.tokens

def Signature.tokens (s : Signature (List Token)) : List Token :=
  s.params.tokens ++ s.results.tokens

def Term.tokens (t : Term (List Token)) : List Token :=
  (if t.tilde.isSome then [Token.mark .tilde] else []) ++ t.type

def Element.tokens : Element (List Token) → List Token
  | .method name s => .ident name.name :: s.tokens
  | .union terms => joined .pipe (terms.map Term.tokens)

def Field.structTokens (spell : Span → List Token) (x : Field (List Token)) : List Token :=
  namesTokens x.names ++ (x.type ++ (x.tag.map fun l => spell l.span).getD [])

def inBraces (items : List (List Token)) : List Token :=
  .mark .lbrace :: (joined .semi items ++ [Token.mark .rbrace])

def typeArgsTokens : List (List Token) → List Token
  | [] => []
  | args => .mark .lbrack :: (joined .comma args ++ [Token.mark .rbrack])

def TypeForm.tokens (spell : Span → List Token) : TypeForm (List Token) → List Token
  | .named none n args => .ident n.name :: typeArgsTokens args
  | .named (some q) n args => .ident q.name :: .mark .dot :: .ident n.name :: typeArgsTokens args
  | .pointer _ t => .mark .star :: t
  | .array n t => .mark .lbrack :: (spell n ++ .mark .rbrack :: t)
  | .slice _ t => .mark .lbrack :: .mark .rbrack :: t
  | .mapping _ k v => .keyword .mapKw :: .mark .lbrack :: (k ++ .mark .rbrack :: v)
  | .chan .both _ t => .keyword .chanKw :: t
  | .chan .send _ t => .keyword .chanKw :: .mark .arrow :: t
  | .chan .receive _ t => .mark .arrow :: .keyword .chanKw :: t
  | .struct _ fields => .keyword .structKw :: inBraces (fields.map (Field.structTokens spell))
  | .interface _ elements => .keyword .interfaceKw :: inBraces (elements.map Element.tokens)
  | .func _ s => .keyword .funcKw :: s.tokens
  | .paren _ t => .mark .lparen :: (t ++ [Token.mark .rparen])

/-- A tree as it is written, where `spell` tells what is written at the spans it keeps. -/
def TypeNode.tokens (spell : Span → List Token) (t : TypeNode) : List Token :=
  t.fold fun _ _ form => form.tokens spell

theorem TypeNode.tokens_mk (spell : Span → List Token) (serial : Nat) (span : Span)
    (form : TypeForm TypeNode) :
    (TypeNode.mk serial span form).tokens spell = (form.map (TypeNode.tokens spell)).tokens spell :=
  TypeNode.fold_mk _ _ _ _

/-! ## Trees that can be told from their tokens -/

/-- Something, with its brackets closed, and not left open. -/
structure IsLength (ts : List Token) : Prop where
  ne_nil : ts ≠ []
  balanced : Balanced ts
  not_open : ts.head? ≠ some (.mark .ellipsis)

def IsTag (ts : List Token) : Prop :=
  ∃ kind text, ts = [.literal kind text] ∧ (kind = .string ∨ kind = .rawString)

def TypeNode.isIdent (t : TypeNode) : Bool :=
  match t.form with
  | .named none _ [] => true
  | _ => false

def TypeNode.isParen (t : TypeNode) : Bool := t.form matches .paren _ _

/-- Anonymous, and written as an identifier alone. -/
def Field.isBare (x : Field TypeNode) : Bool :=
  x.names.isEmpty && x.ellipsis.isNone && x.type.isIdent

/-- All parameters have names, or none has, with bare identifiers after all others. -/
def WellGrouped (xs : List (Field TypeNode)) : Prop :=
  (∀ x ∈ xs, x.names ≠ []) ∨
    (∀ x ∈ xs, x.names = []) ∧ xs.Pairwise fun x y => x.isBare → y.isBare

def FieldList.Printable (l : FieldList TypeNode) : Prop :=
  (∀ x ∈ l.fields, x.tag = none ∧ x.embedded = false) ∧ WellGrouped l.fields

/-- A single result in parentheses would be a list. -/
def Results.Printable : Results TypeNode → Prop
  | .absent => True
  | .single t => t.isParen = false
  | .list l => l.Printable

def Signature.Printable (s : Signature TypeNode) : Prop :=
  s.params.Printable ∧ s.results.Printable

def Element.Printable : Element TypeNode → Prop
  | .method _ s => s.Printable
  | .union terms => terms ≠ []

/-- The name of a type or a pointer. -/
def TypeNode.isEmbeddable (t : TypeNode) : Bool :=
  t.form matches .named _ _ _ | .pointer _ _

/-- A field of a struct has names or embeds a type. -/
structure Field.InStruct (spell : Span → List Token) (x : Field TypeNode) : Prop where
  ellipsis : x.ellipsis = none
  tag : ∀ l ∈ x.tag, IsTag (spell l.span)
  embedded : if x.embedded then x.names = [] ∧ x.type.isEmbeddable = true else x.names ≠ []

/-- The arrow of a channel that is received from would join the keyword before it. -/
def TypeForm.Printable (spell : Span → List Token) : TypeForm TypeNode → Prop
  | .array n _ => IsLength (spell n)
  | .chan .both _ t => (t.tokens spell).head? ≠ some (.mark .arrow)
  | .struct _ fields => ∀ x ∈ fields, x.InStruct spell
  | .interface _ elements => ∀ e ∈ elements, e.Printable
  | .func _ s => s.Printable
  | _ => True

inductive TypeNode.Printable (spell : Span → List Token) : TypeNode → Prop
  | mk {serial : Nat} {span : Span} {form : TypeForm TypeNode} (hform : form.Printable spell)
      (hparts : ∀ t ∈ form.children, TypeNode.Printable spell t) :
      TypeNode.Printable spell (.mk serial span form)

/-! ## Nesting -/

def FieldList.inside (l : FieldList TypeNode) : List TypeNode :=
  (l.fields.filter (!·.isBare)).map (·.type)

def Results.inside : Results TypeNode → List TypeNode
  | .absent => []
  | .single t => [t]
  | .list l => l.inside

def Signature.inside (s : Signature TypeNode) : List TypeNode := s.params.inside ++ s.results.inside

def Element.inside : Element TypeNode → List TypeNode
  | .method _ s => s.inside
  | .union terms => terms.map (·.type)

/-- The types inside a form that are read as types. A bare identifier in a parameter list is not:
that it is a type shows only when the whole list is read. -/
def TypeForm.inside : TypeForm TypeNode → List TypeNode
  | .interface _ elements => elements.flatMap (·.inside)
  | .func _ s => s.inside
  | form => form.children

/-- At most `n` types are nested in one another. -/
inductive TypeNode.NestsWithin : Nat → TypeNode → Prop
  | mk {n serial : Nat} {span : Span} {form : TypeForm TypeNode}
      (h : ∀ t ∈ form.inside, TypeNode.NestsWithin n t) :
      TypeNode.NestsWithin (n + 1) (.mk serial span form)

theorem TypeNode.NestsWithin.mono {t : TypeNode} {n m : Nat} (h : t.NestsWithin n) (hle : n ≤ m) :
    t.NestsWithin m := by
  induction h generalizing m with
  | @mk n serial span form _ ih =>
    obtain ⟨k, rfl⟩ : ∃ k, m = k + 1 := ⟨m - 1, by omega⟩
    exact ⟨fun u hu => ih u hu (by omega)⟩

/-! ## What is written -/

theorem Signature.children_map (f : α → β) (s : Signature α) :
    (s.map f).children = s.children.map f := by
  rcases s with ⟨_, _, ⟨_, params, _⟩, _ | _ | ⟨_, results, _⟩⟩ <;>
    simp [Signature.children, Signature.map, FieldList.children, FieldList.map, Results.children,
      Results.map, Field.map, Function.comp_def]

theorem Element.children_map (f : α → β) (e : Element α) :
    (e.map f).children = e.children.map f := by
  cases e <;> simp [Element.children, Element.map, Signature.children_map, Term.map]

theorem TypeForm.children_map (f : α → β) (form : TypeForm α) :
    (form.map f).children = form.children.map f := by
  cases form <;>
    simp [TypeForm.children, TypeForm.map, Field.map, Signature.children_map, List.map_flatMap,
      List.flatMap_map, Element.children_map]

theorem TypeForm.tokens_starts (spell : Span → List Token) (form : TypeForm (List Token)) :
    ∃ t us, form.tokens spell = t :: us ∧ t.startsType = true := by
  cases form with
  | named q n args => cases q <;> exact ⟨_, _, rfl, rfl⟩
  | chan d _ t => cases d <;> exact ⟨_, _, rfl, rfl⟩
  | _ => exact ⟨_, _, rfl, rfl⟩

/-- What is written for a type starts as types do. -/
theorem TypeNode.tokens_starts (spell : Span → List Token) (t : TypeNode) :
    ∃ u us, t.tokens spell = u :: us ∧ u.startsType = true := by
  obtain ⟨serial, span, form⟩ := t
  rw [TypeNode.tokens_mk]
  exact TypeForm.tokens_starts spell _

section Balance

variable {spell : Span → List Token}

theorem balanced_namesTokens (names : List Ident) : Balanced (namesTokens names) := by
  refine .joined rfl rfl fun ts hts => ?_
  obtain ⟨x, -, rfl⟩ := List.mem_map.1 hts
  exact .plain rfl rfl .nil

theorem Field.balanced_paramTokens {x : Field (List Token)} (h : Balanced x.type) :
    Balanced x.paramTokens := by
  refine (balanced_namesTokens _).append (.append ?_ h)
  split
  · exact .plain rfl rfl .nil
  · exact .nil

theorem FieldList.balanced_tokens {l : FieldList (List Token)}
    (h : ∀ ts ∈ l.children, Balanced ts) : Balanced l.tokens := by
  refine .enclosed rfl rfl (.joined rfl rfl fun ts hts => ?_)
  obtain ⟨x, hx, rfl⟩ := List.mem_map.1 hts
  exact x.balanced_paramTokens (h _ (List.mem_map_of_mem hx))

theorem Signature.balanced_tokens {s : Signature (List Token)}
    (h : ∀ ts ∈ s.children, Balanced ts) : Balanced s.tokens := by
  obtain ⟨hp, hr⟩ := List.forall_mem_append.1 h
  refine (FieldList.balanced_tokens hp).append ?_
  rcases hres : s.results with _ | t | l <;> rw [hres] at hr
  · exact .nil
  · exact hr t (by simp [Results.children])
  · exact FieldList.balanced_tokens hr

theorem Term.balanced_tokens {t : Term (List Token)} (h : Balanced t.type) :
    Balanced t.tokens := by
  refine .append ?_ h
  split
  · exact .plain rfl rfl .nil
  · exact .nil

theorem Element.balanced_tokens {e : Element (List Token)}
    (h : ∀ ts ∈ e.children, Balanced ts) : Balanced e.tokens := by
  cases e with
  | method name s => exact .plain rfl rfl (s.balanced_tokens h)
  | union terms =>
    refine .joined rfl rfl fun ts hts => ?_
    obtain ⟨t, ht, rfl⟩ := List.mem_map.1 hts
    exact t.balanced_tokens (h _ (List.mem_map_of_mem ht))

theorem IsTag.balanced {ts : List Token} (h : IsTag ts) : Balanced ts := by
  obtain ⟨kind, text, rfl, -⟩ := h
  exact .plain rfl rfl .nil

theorem Field.balanced_structTokens {x : Field (List Token)} (h : Balanced x.type)
    (htag : ∀ l ∈ x.tag, IsTag (spell l.span)) : Balanced (x.structTokens spell) := by
  refine (balanced_namesTokens _).append (.append h ?_)
  rcases ht : x.tag with _ | l
  · exact .nil
  · exact (htag l ht).balanced

theorem balanced_inBraces {items : List (List Token)} (h : ∀ ts ∈ items, Balanced ts) :
    Balanced (inBraces items) :=
  .enclosed rfl rfl (.joined rfl rfl h)

theorem balanced_typeArgsTokens {args : List (List Token)} (h : ∀ ts ∈ args, Balanced ts) :
    Balanced (typeArgsTokens args) := by
  cases args with
  | nil => exact .nil
  | cons ts args => exact .enclosed rfl rfl (.joined rfl rfl h)

theorem TypeForm.balanced_tokens {form : TypeForm TypeNode} (hform : form.Printable spell)
    (h : ∀ t ∈ form.children, Balanced (t.tokens spell)) :
    Balanced ((form.map (TypeNode.tokens spell)).tokens spell) := by
  have hmap : ∀ ts ∈ (form.map (TypeNode.tokens spell)).children, Balanced ts := by
    rw [TypeForm.children_map]
    rintro _ hts
    obtain ⟨t, ht, rfl⟩ := List.mem_map.1 hts
    exact h t ht
  cases form with
  | named q n args =>
    have hargs := balanced_typeArgsTokens hmap
    cases q with
    | none => exact .plain rfl rfl hargs
    | some q => exact .plain rfl rfl (.plain rfl rfl (.plain rfl rfl hargs))
  | pointer _ t => exact .plain rfl rfl (h t (by simp [TypeForm.children]))
  | array n t => exact .nested rfl rfl hform.balanced (h t (by simp [TypeForm.children]))
  | slice _ t => exact .nested rfl rfl .nil (h t (by simp [TypeForm.children]))
  | mapping _ k v =>
    have hk := h k (by simp [TypeForm.children])
    exact .plain rfl rfl (.nested rfl rfl hk (h v (by simp [TypeForm.children])))
  | chan d _ t =>
    have ht := h t (by simp [TypeForm.children])
    cases d with
    | both => exact .plain rfl rfl ht
    | send | receive => exact .plain rfl rfl (.plain rfl rfl ht)
  | struct _ fields =>
    refine .plain rfl rfl (balanced_inBraces fun ts hts => ?_)
    obtain ⟨_, hy, rfl⟩ := List.mem_map.1 hts
    obtain ⟨x, hx, rfl⟩ := List.mem_map.1 hy
    exact Field.balanced_structTokens (h _ (List.mem_map_of_mem hx)) (hform x hx).tag
  | interface _ elements =>
    refine .plain rfl rfl (balanced_inBraces fun ts hts => ?_)
    obtain ⟨e, he, rfl⟩ := List.mem_map.1 hts
    exact e.balanced_tokens fun ts hts => hmap ts (List.mem_flatMap.2 ⟨e, he, hts⟩)
  | func _ s => exact .plain rfl rfl (Signature.balanced_tokens hmap)
  | paren _ t => exact .enclosed rfl rfl (h t (by simp [TypeForm.children]))

/-- The brackets of a type are closed where it ends. -/
theorem TypeNode.Printable.balanced_tokens {t : TypeNode} (h : t.Printable spell) :
    Balanced (t.tokens spell) := by
  induction h with
  | mk hform _ ih =>
    rw [TypeNode.tokens_mk]
    exact TypeForm.balanced_tokens hform ih

end Balance

end GoIface
