import GoIface.Proofs.Building

/-!
# The arena of a file

Each reader of a part of a file puts into the arena what it makes as a tree (`Follows.typeWithin`,
`Follows.decl`, `Follows.file`). The fields of a parameter list are made one by one, while a tree
takes them all at once, so a reader of trees that makes them one by one stands in between
(`Parse.resolve_eq_mapM`). What decides how a reader goes on may not depend on the size of the
arena, so entries and receivers are alike in shape even where what they hold is lost
(`ParamEntry.Alike`).
-/

namespace GoIface

open Arena

variable {α β τ υ : Type}

theorem isNone_of_rel {R : α → β → Prop} {x : Option α} {y : Option β} (h : Option.Rel R x y) :
    x.isNone = y.isNone := by
  cases h <;> rfl

theorem forall₂_exists_map {R : α → β → Prop} {f : β → τ} {xs : List α} {zs : List τ}
    (h : List.Forall₂ (fun x z => ∃ y, f y = z ∧ R x y) xs zs) :
    ∃ ys, ys.map f = zs ∧ List.Forall₂ R xs ys := by
  induction h with
  | nil => exact ⟨[], rfl, .nil⟩
  | cons hxz _ ih =>
    obtain ⟨y, rfl, hxy⟩ := hxz
    obtain ⟨ys, rfl, hxys⟩ := ih
    exact ⟨y :: ys, rfl, .cons hxy hxys⟩

/-! ## Entries and groups -/

inductive ParamEntry.Alike (P : τ → υ → Prop) : ParamEntry τ → ParamEntry υ → Prop
  | mk {names : List Ident} {ellipsis : Option Span} {type : Option τ} {type' : Option υ}
      {span : Span} (h : Option.Rel P type type') :
      Alike P ⟨names, ellipsis, type, span⟩ ⟨names, ellipsis, type', span⟩

inductive ParamGroup.Alike (P : τ → υ → Prop) : ParamGroup τ → ParamGroup υ → Prop
  | mk {waiting names : List Ident} {ellipsis : Option Span} {type : τ} {type' : υ} {start : Nat}
      {span : Span} (h : P type type') :
      Alike P ⟨waiting, names, ellipsis, type, start, span⟩
        ⟨waiting, names, ellipsis, type', start, span⟩

theorem monotone_rel {R : Arena → α → β → Prop} (hR : Monotone R) :
    Monotone fun A => Option.Rel (R A) := by
  rintro A B hle _ _ (h | -)
  · exact .some (hR hle _ _ h)
  · exact .none

theorem rel_of_held {R : Arena → α → β → Prop} {A F : Arena} {x : Option α} {y : Option β}
    (h : Option.Rel (Held R A) x y) (hF : A ≤ F) (hfits : F.Fits) : Option.Rel (R F) x y := by
  cases h with
  | none => exact .none
  | some h => exact .some (h F hF hfits)

theorem ParamEntry.monotone_alike {R : Arena → τ → υ → Prop} (hR : Monotone R) :
    Monotone fun A => ParamEntry.Alike (R A) := by
  rintro A B hle _ _ ⟨h⟩
  exact ⟨monotone_rel hR hle _ _ h⟩

theorem ParamGroup.monotone_alike {R : Arena → τ → υ → Prop} (hR : Monotone R) :
    Monotone fun A => ParamGroup.Alike (R A) := by
  rintro A B hle _ _ ⟨h⟩
  exact ⟨hR hle _ _ h⟩

theorem groupEntries_alike {P : τ → υ → Prop} {es : List (ParamEntry τ)}
    {es' : List (ParamEntry υ)} (h : List.Forall₂ (ParamEntry.Alike P) es es') :
    ∀ (waiting : List Ident) (start : Option Nat),
      List.Forall₂ (ParamGroup.Alike P) (groupEntries waiting start es).1
        (groupEntries waiting start es').1 ∧
      (groupEntries waiting start es).2 = (groupEntries waiting start es').2 := by
  induction h with
  | nil => exact fun _ _ => ⟨.nil, rfl⟩
  | cons he _ ih =>
    intro waiting start
    obtain ⟨h | -⟩ := he
    · obtain ⟨hgroups, hleft⟩ := ih [] none
      exact ⟨.cons ⟨h⟩ hgroups, hleft⟩
    · exact ih _ _

theorem mixedAt?_alike {P : τ → υ → Prop} {gs : List (ParamGroup τ)} {gs' : List (ParamGroup υ)}
    (h : List.Forall₂ (ParamGroup.Alike P) gs gs') (left : List Ident) :
    mixedAt? gs left = mixedAt? gs' left := by
  have hany : gs.any (!·.allNames.isEmpty) = gs'.any (!·.allNames.isEmpty) ∧
      (gs.filter (·.allNames.isEmpty)).map (·.span)
        = (gs'.filter (·.allNames.isEmpty)).map (·.span) := by
    induction h with
    | nil => exact ⟨rfl, rfl⟩
    | @cons g g' _ _ hg _ ih =>
      have hnames : g.allNames = g'.allNames := by
        obtain ⟨-⟩ := hg
        rfl
      have hspan : g.span = g'.span := by
        obtain ⟨-⟩ := hg
        rfl
      rw [List.any_cons, List.any_cons, List.filter_cons, List.filter_cons, hnames, ih.1]
      refine ⟨rfl, ?_⟩
      split
      · rw [List.map_cons, List.map_cons, ih.2, hspan]
      · exact ih.2
  rw [mixedAt?, mixedAt?, hany.1, hany.2]

namespace Parse

/-- Makes a type of the given span. -/
def addType (span : Span) (form : TypeForm TypeNode) : Parse TypeNode := fun c =>
  .ok (.mk c.made.types span form, { c with made := { c.made with types := c.made.types + 1 } })

def addField (span : Span) (names : List Ident) (ellipsis : Option Span) (type : TypeNode)
    (tag : Option StringLiteral) (embedded : Bool) : Parse (Field TypeNode) := fun c =>
  .ok (⟨c.made.fields, span, names, ellipsis, type, tag, embedded⟩,
    { c with made := { c.made with fields := c.made.fields + 1 } })

def addGroup (g : ParamGroup TypeNode) : Parse (Field TypeNode) :=
  addField ⟨g.start, g.span.stop⟩ g.allNames g.ellipsis g.type none false

def addIdent (x : Ident) : Parse (Field TypeNode) := do
  let type ← addType x.span (.named none x [])
  addField x.span [] none type none false

theorem mapM_addGroup (gs : List (ParamGroup TypeNode)) (c : Cursor) :
    gs.mapM addGroup c = .ok (gs.mapIdx fun i g => g.field (c.made.fields + i),
      { c with made := { c.made with fields := c.made.fields + gs.length } }) := by
  induction gs generalizing c with
  | nil => rfl
  | cons g gs ih =>
    have hadd : addGroup g c = .ok (g.field c.made.fields,
        { c with made := { c.made with fields := c.made.fields + 1 } }) := rfl
    rw [List.mapM_cons, bind_of_ok hadd, bind_of_ok (ih _)]
    simp only [List.mapIdx_cons, List.length_cons, Nat.add_assoc, Nat.add_comm 1]
    rfl

theorem mapM_addIdent (xs : List Ident) (c : Cursor) :
    xs.mapM addIdent c
      = .ok (xs.mapIdx fun i x => x.field (c.made.fields + i) (c.made.types + i),
        { c with made := { c.made with
          fields := c.made.fields + xs.length, types := c.made.types + xs.length } }) := by
  induction xs generalizing c with
  | nil => rfl
  | cons x xs ih =>
    have hadd : addIdent x c = .ok (x.field c.made.fields c.made.types, { c with made :=
        { c.made with fields := c.made.fields + 1, types := c.made.types + 1 } }) := rfl
    rw [List.mapM_cons, bind_of_ok hadd, bind_of_ok (ih _)]
    simp only [List.mapIdx_cons, List.length_cons, Nat.add_assoc, Nat.add_comm 1]
    rfl

/-- The fields of a list of entries could as well be made one by one. -/
theorem resolve_eq_mapM (es : List (ParamEntry TypeNode)) : resolve es = do
    let named ← (groupEntries [] none es).1.mapM addGroup
    let unnamed ← (groupEntries [] none es).2.mapM addIdent
    match mixedAt? (groupEntries [] none es).1 (groupEntries [] none es).2 with
    | some span => fail .mixedParameters span
    | none => return named ++ unnamed := by
  funext c
  rw [bind_of_ok (mapM_addGroup _ c), bind_of_ok (mapM_addIdent _ _)]
  rcases hgroups : groupEntries [] none es with ⟨groups, left⟩
  simp only [resolve, resolveEntries, hgroups]
  cases mixedAt? groups left with
  | some span => rfl
  | none =>
    simp only [List.length_append, List.length_mapIdx, Nat.add_assoc]
    rfl

end Parse

namespace Build.Follows

open Parse (embeds? stringLiteral? importName? importSpec group importDecl declEnd declsWhile)

variable {d : Cursor Arena}

/-! ## Nodes -/

theorem addType {span : Span} {form : TypeForm TypeNode} {flat : Flat.TypeForm}
    (h : Held (fun F => TypeForm.Stored F (TypeNode.Stored F)) d.made form flat) :
    Follows (Held TypeNode.Stored) (Parse.addType span form) (Build.alloc .type flat span) d := by
  refine alloc (x := .mk (d.made.size .type) span form) ?_ (fun hfits => ?_) ?_
  · simp [Parse.addType, Cursor.counted, counts, size_alloc_self, size_alloc_of_ne]
  · exact (h _ (le_refl _) hfits).resolves fun _ _ => TypeNode.Stored.resolves
  · intro F id hF hfits hid hnode hspan
    exact .mk hid hspan hnode (h F hF hfits)

theorem makeType {start : Span} {form : TypeForm TypeNode} {flat : Flat.TypeForm}
    (h : Held (fun F => TypeForm.Stored F (TypeNode.Stored F)) d.made form flat) :
    Follows (Held TypeNode.Stored) (Parse.makeType start form) (Build.make .type start flat) d :=
  ⟨(addType h).made, (addType h).failed⟩

theorem addField {span : Span} {names : List Ident} {ellipsis : Option Span} {type : TypeNode}
    {tag : Option StringLiteral} {embedded : Bool} {r : ListRef .names} {id : NodeId .type}
    (hnames : Held Lists d.made r names) (htype : Held TypeNode.Stored d.made type id) :
    Follows (Held fun F => Field.Stored F (TypeNode.Stored F))
      (Parse.addField span names ellipsis type tag embedded)
      (Build.alloc .field ⟨r, ellipsis, id, tag, embedded⟩ span) d := by
  refine alloc (x := ⟨d.made.size .field, span, names, ellipsis, type, tag, embedded⟩) ?_
    (fun hfits => ?_) ?_
  · simp [Parse.addField, Cursor.counted, counts, size_alloc_self, size_alloc_of_ne]
  · have hresolves := (htype _ (le_refl _) hfits).resolves
    simpa [Node.refs] using ⟨⟨names, hnames _ (le_refl _) hfits⟩, hresolves⟩
  · intro F id hF hfits hid hnode hspan
    exact .mk hid hspan hnode (hnames F hF hfits) (htype F hF hfits)

theorem makeField {start : Span} {names : List Ident} {type : TypeNode}
    {tag : Option StringLiteral} {embedded : Bool} {r : ListRef .names} {id : NodeId .type}
    (hnames : Held Lists d.made r names) (htype : Held TypeNode.Stored d.made type id) :
    Follows (Held fun F => Field.Stored F (TypeNode.Stored F))
      (Parse.makeField start names type tag embedded)
      (Build.make .field start ⟨r, none, id, tag, embedded⟩) d :=
  ⟨(addField hnames htype).made, (addField hnames htype).failed⟩

theorem makeSignature {params : FieldList TypeNode} {params' : Flat.FieldList}
    {results : Results TypeNode} {results' : Flat.Results}
    (hparams : Held (fun F => FieldList.Stored F (TypeNode.Stored F)) d.made params params')
    (hresults : Held (fun F => Results.Stored F (TypeNode.Stored F)) d.made results results') :
    Follows (Held fun F => Signature.Stored F (TypeNode.Stored F))
      (Parse.makeSignature params results)
      (Build.make .signature params.lparen ⟨params', results'⟩) d := by
  suffices h : Follows (Held fun F => Signature.Stored F (TypeNode.Stored F))
      (Parse.makeSignature params results)
      (Build.alloc .signature ⟨params', results'⟩ (params.lparen.hull d.last)) d from
    ⟨h.made, h.failed⟩
  refine alloc (x := ⟨d.made.size .signature, params.lparen.hull d.last, params, results⟩) ?_
    (fun hfits => ?_) ?_
  · simp [Parse.makeSignature, Cursor.counted, counts, size_alloc_self, size_alloc_of_ne]
  · have hresolves := (hparams _ (le_refl _) hfits).resolves
    have hresolves' := (hresults _ (le_refl _) hfits).resolves fun _ _ => TypeNode.Stored.resolves
    exact List.forall_mem_append.2 ⟨hresolves, hresolves'⟩
  · intro F id hF hfits hid hnode hspan
    exact .mk hid hspan hnode (hparams F hF hfits) (hresults F hF hfits)

theorem makeSpecDecl {keyword : Span} {parens : Option Parens} {specs : Specs}
    {kind : Flat.SpecKind} {r : ListRef .specs}
    (h : ∀ F, d.made ≤ F → F.Fits → ∃ items, F.items? r = some items ∧ specs.Stored F kind items) :
    Follows (Held Decl.Stored) (Parse.makeSpecDecl keyword parens specs)
      (do return .specs (← Build.make .decl keyword ⟨keyword, kind, parens, r⟩)) d := by
  suffices halloc : Follows (Held fun F decl id => Decl.Stored F decl (.specs id))
      (Parse.makeSpecDecl keyword parens specs)
      (Build.alloc .decl ⟨keyword, kind, parens, r⟩ (keyword.hull d.last)) d from
    wrap ⟨halloc.made, halloc.failed⟩
  refine alloc
    (x := .specs ⟨d.made.size .decl, keyword.hull d.last, keyword, parens, specs⟩) ?_
    (fun hfits => ?_) ?_
  · simp [Parse.makeSpecDecl, Cursor.counted, counts, size_alloc_self, size_alloc_of_ne]
  · obtain ⟨items, hr, -⟩ := h _ (le_refl _) hfits
    simpa [Node.refs] using ⟨items, hr⟩
  · intro F id hF hfits hid hnode hspan
    obtain ⟨items, hr, hitems⟩ := h F hF hfits
    exact .specs ⟨hid, hspan, hnode, hr, hitems⟩

theorem makeFunc {keyword : Span} {receiver : Option (FieldList TypeNode)}
    {receiver' : Option Flat.FieldList} {name : Ident} {typeParams : Option Span}
    {signature : Signature TypeNode} {id : NodeId .signature} {body : Option Span}
    (hreceiver : Option.Rel (Held (fun F => FieldList.Stored F (TypeNode.Stored F)) d.made)
      receiver receiver')
    (hsignature : Held (fun F => Signature.Stored F (TypeNode.Stored F)) d.made signature id) :
    Follows (Held Decl.Stored) (Parse.makeFunc keyword receiver name typeParams signature body)
      (do return .func (← Build.make .func keyword
        ⟨keyword, receiver', name, typeParams, id, body⟩)) d := by
  suffices halloc : Follows (Held fun F decl id => Decl.Stored F decl (.func id))
      (Parse.makeFunc keyword receiver name typeParams signature body)
      (Build.alloc .func ⟨keyword, receiver', name, typeParams, id, body⟩
        (keyword.hull d.last)) d from wrap ⟨halloc.made, halloc.failed⟩
  refine alloc (x := .func ⟨d.made.size .func, keyword.hull d.last, keyword, receiver, name,
    typeParams, signature, body⟩) ?_ (fun hfits => ?_) ?_
  · simp [Parse.makeFunc, Cursor.counted, counts, size_alloc_self, size_alloc_of_ne]
  · refine List.forall_mem_append.2 ⟨?_, ?_⟩
    · cases hreceiver with
      | none => simp
      | some h => simpa using (h _ (le_refl _) hfits).resolves
    · simpa using (hsignature _ (le_refl _) hfits).resolves
  · intro F id' hF hfits hid hnode hspan
    exact .func ⟨hid, hspan, hnode, rel_of_held hreceiver hF hfits, hsignature F hF hfits⟩

/-! ## Types -/

theorem stringLiteral? : Follows Equals stringLiteral? stringLiteral? d := by
  refine look ?_
  rw [Cursor.next?_counted]
  split
  · exact bump.finish fun _ h => by rw [h]
  · exact bump.finish fun _ h => by rw [h]
  · exact .pure rfl

theorem addGroup {g : ParamGroup TypeNode} {g' : ParamGroup (NodeId .type)}
    (h : ParamGroup.Alike (Held TypeNode.Stored d.made) g g') :
    Follows (Held fun F => Field.Stored F (TypeNode.Stored F)) (Parse.addGroup g)
      (Build.groupField g') d := by
  obtain ⟨htype⟩ := h
  rw [Build.groupField]
  split
  · next hempty =>
    rw [pure_bind]
    refine addField (fun _ _ _ => ?_) htype
    exact List.isEmpty_iff.1 hempty ▸ items?_empty
  · exact push (by simp [Item.refs]) fun hle hnames =>
      addField hnames (monotone_held _ hle _ _ htype)

theorem addIdent (x : Ident) : Follows (Held fun F => Field.Stored F (TypeNode.Stored F))
    (Parse.addIdent x) (Build.identField x) d :=
  (addType fun _ _ _ => .named items?_empty .nil).bind fun _ htype =>
    addField (fun _ _ _ => items?_empty) htype

theorem resolve {es : List (ParamEntry TypeNode)} {es' : List (ParamEntry (NodeId .type))}
    (h : List.Forall₂ (ParamEntry.Alike (Held TypeNode.Stored d.made)) es es') :
    Follows (fun A => List.Forall₂ (Held (fun F => Field.Stored F (TypeNode.Stored F)) A))
      (Parse.resolve es) (Build.resolve es') d := by
  obtain ⟨hgroups, hleft⟩ := groupEntries_alike h [] none
  rw [Parse.resolve_eq_mapM, mixedAt?_alike hgroups, hleft]
  have hmono := monotone_held fun F => Field.Stored F (TypeNode.Stored F)
  refine (mapM (ParamGroup.monotone_alike (monotone_held _)) hmono addGroup hgroups).bind
    fun _ hnamed => (mapM monotone_equals hmono (fun h => h ▸ addIdent _)
      (List.forall₂_eq_eq_eq ▸ rfl)).bind fun hle hunnamed => ?_
  cases mixedAt? (groupEntries [] none es').1 (groupEntries [] none es').2 with
  | some span => exact fail
  | none => exact .pure (List.rel_append (monotone_forall₂ hmono hle _ _ hnamed) hunnamed)

section Types

variable {type : Parse TypeNode} {type' : Build (NodeId .type)}
  (htype : ∀ d, Follows (Held TypeNode.Stored) type type' d)

include htype

theorem paramEntry : Follows (fun A => ParamEntry.Alike (Held TypeNode.Stored A))
    (Parse.paramEntry type) (Parse.paramEntry type') d := by
  have hrest (names : List Ident) (start : Span) (d : Cursor Arena) :
      Follows (fun A => ParamEntry.Alike (Held TypeNode.Stored A)) (do
          let ellipsis ← Parse.eat .ellipsis
          let type ← type
          return (⟨names, ellipsis, some type, ← Parse.spanFrom start⟩ : ParamEntry TypeNode))
        (do
          let ellipsis ← Parse.eat .ellipsis
          let type ← type'
          return (⟨names, ellipsis, some type, ← Parse.spanFrom start⟩ : ParamEntry _)) d :=
    (eat .ellipsis).step fun _ _ => (htype _).bind fun _ ht => spanFrom.finish fun hle hspan =>
      hspan ▸ .mk (.some (monotone_held _ hle _ _ ht))
  refine look ?_
  rw [Cursor.counted_rest]
  split
  · exact ident.finish fun _ hname => hname ▸ .mk .none
  · split
    · exact (ident.map (S := Equals) fun _ hname => hname ▸ rfl).step fun names _ => hrest names _ _
    · exact hrest [] _ _

theorem params : Follows
    (fun A x y => x.lparen = y.lparen ∧
      Held (fun F => FieldList.Stored F (TypeNode.Stored F)) A x y)
    (Parse.params type) (Build.params type') d := by
  refine (expect _).step fun l _ => (listed (fun _ => paramEntry htype)
    (ParamEntry.monotone_alike (monotone_held _)) fun _ => rfl).bind fun _ hes =>
    (expect _).step fun r hle => (resolve (hes.imp fun _ _ =>
      ParamEntry.monotone_alike (monotone_held _) hle _ _)).bind fun _ hfields =>
    pushStored hfields (fun h => by simpa [Item.refs] using h.resolves) fun _ hstored =>
    .pure ⟨rfl, fun F hF hfits => .mk (hstored F hF hfits).1 (hstored F hF hfits).2⟩

theorem results : Follows (Held fun F => Results.Stored F (TypeNode.Stored F))
    (Parse.results type) (Build.results type') d := by
  refine look ?_
  rw [Cursor.isAt_counted, Cursor.next?_counted]
  split
  · exact (params htype).map fun _ h F hF hfits => .list (h.2 F hF hfits)
  · split
    · exact (htype _).map fun _ h F hF hfits => .single (h F hF hfits)
    · exact .pure fun _ _ _ => .absent

theorem signature : Follows (Held fun F => Signature.Stored F (TypeNode.Stored F))
    (Parse.signature type) (Build.signature type') d := by
  refine (params htype).bind fun _ hparams => (results htype).bind fun hle hresults => ?_
  rw [← hparams.1]
  exact makeSignature (monotone_held _ hle _ _ hparams.2) hresults

theorem typeArgs : Follows (fun A => List.Forall₂ (Held TypeNode.Stored A))
    (Parse.typeArgs type) (Parse.typeArgs type') d := by
  refine (eat _).step fun s _ => ?_
  cases s with
  | none => exact .pure .nil
  | some s =>
    refine (listed htype (monotone_held _) fun _ => rfl).bind fun _ hargs =>
      (expect _).step fun rbrack hle => ?_
    cases hargs with
    | nil => exact fail
    | cons harg hargs =>
      exact .pure (monotone_forall₂ (monotone_held _) hle _ _ (.cons harg hargs))

theorem typeName : Follows (Held fun F => TypeForm.Stored F (TypeNode.Stored F))
    (Parse.typeName type) (Build.typeName type') d := by
  have hargs (q : Option Ident) (x : Ident) (d : Cursor Arena) :
      Follows (Held fun F => TypeForm.Stored F (TypeNode.Stored F))
        (do return .named q x (← Parse.typeArgs type))
        (do
          let args ← Parse.typeArgs type'
          return .named q x (← Build.push .types args)) d :=
    (typeArgs htype).bind fun _ hargs =>
      pushStored hargs (fun h => by simpa [Item.refs] using h.resolves) fun _ h =>
        .pure fun F hF hfits => .named (h F hF hfits).1 (h F hF hfits).2
  refine ident.step fun first _ => (eat _).step fun s _ => ?_
  cases s with
  | none => exact hargs none first _
  | some s => exact ident.step fun name _ => hargs (some first) name _

theorem arrayOrSlice : Follows (Held fun F => TypeForm.Stored F (TypeNode.Stored F))
    (Parse.arrayOrSlice type) (Build.arrayOrSlice type') d := by
  refine bump.step fun lbrack _ => (eat _).step fun s _ => ?_
  cases s with
  | some s => exact (htype _).finish fun _ h F hF hfits => .slice (h F hF hfits)
  | none =>
    refine look ?_
    rw [Cursor.isAt_counted]
    split
    · exact failHere
    · exact (through _ _).step fun _ _ => (expect _).step fun _ _ =>
        (htype _).finish fun _ h F hF hfits => .array (h F hF hfits)

theorem mapType : Follows (Held fun F => TypeForm.Stored F (TypeNode.Stored F))
    (Parse.mapType type) (Build.mapType type') d :=
  bump.step fun _ _ => (expect _).step fun _ _ => (htype _).bind fun _ hkey =>
    (expect _).step fun _ hle => (htype _).finish fun hle' hvalue F hF hfits =>
      .mapping (hkey F (le_trans (le_trans hle hle') hF) hfits) (hvalue F hF hfits)

theorem chanType : Follows (Held fun F => TypeForm.Stored F (TypeNode.Stored F))
    (Parse.chanType type) (Build.chanType type') d :=
  bump.step fun _ _ => (eat _).step fun _ _ =>
    (htype _).finish fun _ h F hF hfits => .chan (h F hF hfits)

theorem receiveType : Follows (Held fun F => TypeForm.Stored F (TypeNode.Stored F))
    (Parse.receiveType type) (Build.receiveType type') d :=
  bump.step fun _ _ => (expect _).step fun _ _ =>
    (htype _).finish fun _ h F hF hfits => .chan (h F hF hfits)

theorem term : Follows (Held fun F => Term.Stored (TypeNode.Stored F)) (Parse.term type)
    (Parse.term type') d :=
  (eat _).step fun _ _ => (htype _).finish fun _ h F hF hfits => .mk (h F hF hfits)

theorem element : Follows (Held fun F => Element.Stored F (TypeNode.Stored F))
    (Parse.element type) (Build.element type') d := by
  refine look ?_
  rw [Cursor.counted_rest]
  split
  · exact ident.step fun x _ => (signature htype).finish fun _ h F hF hfits =>
      .method (h F hF hfits)
  · exact (separated (fun _ => term htype) (monotone_held _) _).bind fun _ hterms =>
      pushStored hterms (fun h => by
        simpa [Item.refs] using h.resolves fun _ _ => TypeNode.Stored.resolves) fun _ h =>
        .pure fun F hF hfits => .union (h F hF hfits).1 (h F hF hfits).2

theorem interfaceType : Follows (Held fun F => TypeForm.Stored F (TypeNode.Stored F))
    (Parse.interfaceType type) (Build.interfaceType type') d :=
  bump.step fun _ _ => (expect _).step fun _ _ =>
    (block (fun _ => element htype) (monotone_held _) _).bind fun _ h =>
      pushStored h.1 (fun h => h.resolves) fun _ h =>
        .pure fun F hF hfits => .interface (h F hF hfits).1 (h F hF hfits).2

theorem structField : Follows (Held fun F => Field.Stored F (TypeNode.Stored F))
    (Parse.structField type) (Build.structField type') d := by
  have hrest (names : List Ident) (embedded : Bool) (start : Span) (d : Cursor Arena) :
      Follows (Held fun F => Field.Stored F (TypeNode.Stored F)) (do
          let type ← type
          let tag ← Parse.stringLiteral?
          Parse.makeField start names type tag embedded)
        (do
          let type ← type'
          let tag ← Parse.stringLiteral?
          let names ← Build.push .names names
          Build.make .field start ⟨names, none, type, tag, embedded⟩) d :=
    (htype _).bind fun _ ht => stringLiteral?.step fun tag hle =>
      push (by simp [Item.refs]) fun hle' hnames =>
        makeField hnames (monotone_held _ (le_trans hle hle') _ _ ht)
  refine look ?_
  rw [Cursor.counted_rest]
  cases embeds? d.rest with
  | none => exact expected
  | some embedded =>
    cases embedded with
    | true => exact hrest [] true _ _
    | false =>
      exact (same (separated (fun _ => ident) monotone_equals _)).step
        fun names _ => hrest names false _ _

theorem structType : Follows (Held fun F => TypeForm.Stored F (TypeNode.Stored F))
    (Parse.structType type) (Build.structType type') d :=
  bump.step fun _ _ => (expect _).step fun _ _ =>
    (block (fun _ => structField htype) (monotone_held _) _).bind fun _ h =>
      pushStored h.1 (fun h => by simpa [Item.refs] using h.resolves) fun _ h =>
        .pure fun F hF hfits => .struct (h F hF hfits).1 (h F hF hfits).2

theorem parenType : Follows (Held fun F => TypeForm.Stored F (TypeNode.Stored F))
    (Parse.parenType type) (Build.parenType type') d :=
  bump.step fun _ _ => (htype _).bind fun _ ht => (expect _).finish
    fun hle _ F hF hfits => .paren (ht F (le_trans hle hF) hfits)

theorem typeForm : Follows (Held fun F => TypeForm.Stored F (TypeNode.Stored F))
    (Parse.typeForm type) (Build.typeForm type') d := by
  refine look ?_
  rw [Cursor.next?_counted]
  generalize d.next? = next
  split
  · exact typeName htype
  · exact bump.step fun _ _ => (htype _).finish fun _ h F hF hfits => .pointer (h F hF hfits)
  · exact arrayOrSlice htype
  · exact mapType htype
  · exact chanType htype
  · exact receiveType htype
  · exact bump.step fun _ _ => (signature htype).finish
      fun _ h F hF hfits => .func (h F hF hfits)
  · exact interfaceType htype
  · exact structType htype
  · exact parenType htype
  -- what neither reader goes on with is a fault for both
  · first | exact expected | split <;> first | exact expected | simp_all

end Types

theorem typeWithin : ∀ (room : Nat) (d : Cursor Arena),
    Follows (Held TypeNode.Stored) (Parse.typeWithin room) (Build.typeWithin room) d
  | 0, _ => failHere
  | room + 1, _ =>
    look <| (typeForm (typeWithin room)).bind fun _ hform => makeType hform

theorem type : Follows (Held TypeNode.Stored) Parse.type Build.type d :=
  typeWithin Parse.nestingLimit d

/-! ## Declarations -/

theorem importName? : Follows Equals importName? importName? d := by
  refine look ?_
  rw [Cursor.next?_counted]
  split
  · exact bump.finish fun _ h => by rw [h]
  · exact bump.finish fun _ h => by rw [h]
  · exact ident.finish fun _ h => by rw [h]
  · exact .pure rfl

theorem importSpec : Follows Equals importSpec importSpec d := by
  refine importName?.step fun name _ => stringLiteral?.step fun path _ => ?_
  cases path with
  | none => exact expected
  | some path => exact .pure rfl

theorem group {R : Arena → α → β → Prop} {spec : Parse α} {spec' : Build β}
    (hspec : ∀ d, Follows R spec spec' d) (hR : Monotone R) :
    Follows (fun A x y => List.Forall₂ (R A) x.1 y.1 ∧ x.2 = y.2) (group spec) (group spec') d := by
  refine (eat _).step fun left _ => ?_
  cases left with
  | none => exact (hspec _).finish fun _ h => ⟨.cons h .nil, rfl⟩
  | some left => exact (block hspec hR _).finish fun _ h => ⟨h.1, by rw [h.2]⟩

theorem importDecl : Follows Equals importDecl importDecl d :=
  bump.step fun _ _ => (group (fun _ => importSpec) monotone_equals).finish
    fun _ h => by simpa [List.forall₂_eq_eq_eq] using h.1

theorem typeSpec : Follows (Held TypeSpec.Stored) Parse.typeSpec Build.typeSpec d := by
  refine ident.step fun name _ => look ?_
  rw [Cursor.counted_rest]
  exact optionalStep bracketed fun params _ => (eat _).step fun assign _ => type.finish
    fun _ h F hF hfits => .mk (h F hF hfits)

theorem valueSpec : Follows (Held ValueSpec.Stored) Parse.valueSpec Build.valueSpec d := by
  refine (same (separated (fun _ => ident) monotone_equals _)).step fun names _ => look ?_
  rw [Cursor.next?_counted]
  refine optional type fun _ ht => (eat _).step fun assign h₁ => ?_
  cases assign with
  | none =>
    exact push (by simp [Item.refs]) fun h₂ hnames => .pure fun F hF hfits =>
      .mk (hnames F hF hfits) (rel_of_held ht (le_trans (le_trans h₁ h₂) hF) hfits)
  | some s =>
    exact (through _ _).step fun values h₂ => push (by simp [Item.refs]) fun h₃ hnames =>
      .pure fun F hF hfits => .mk (hnames F hF hfits)
        (rel_of_held ht (le_trans (le_trans (le_trans h₁ h₂) h₃) hF) hfits)

theorem specDecl {R : Arena → α → β → Prop} {spec : Parse α} {spec' : Build β}
    {specs : List α → Specs} {kind : Flat.SpecKind} {item : β → Flat.Spec}
    (hspec : ∀ d, Follows (Held R) spec spec' d)
    (hrefs : ∀ {A x y}, R A x y → ∀ s ∈ (item y).refs, A.Resolves s)
    (hspecs : ∀ {F xs ys}, List.Forall₂ (R F) xs ys → (specs xs).Stored F kind (ys.map item)) :
    Follows (Held Decl.Stored) (Parse.specDecl spec specs)
      (Build.specDecl kind (item <$> spec')) d := by
  have hitem (d : Cursor Arena) :
      Follows (Held fun F x s => ∃ y, item y = s ∧ R F x y) spec (item <$> spec') d :=
    wrap ((hspec d).mono fun _ _ y h F hF hfits => ⟨y, rfl, h F hF hfits⟩)
  refine bump.step fun keyword _ => (group hitem (monotone_held _)).bind
    fun _ ⟨hitems, hparens⟩ => pushStored hitems ?_ fun _ hstored => ?_
  · rintro A x _ ⟨y, rfl, hxy⟩
    exact hrefs hxy
  · rw [← hparens]
    refine makeSpecDecl fun F hF hfits => ⟨_, (hstored F hF hfits).1, ?_⟩
    obtain ⟨ys, hys, h⟩ := forall₂_exists_map (hstored F hF hfits).2
    rw [← hys]
    exact hspecs h

theorem funcDecl : Follows (Held Decl.Stored) Parse.funcDecl Build.funcDecl d := by
  refine bump.step fun keyword _ => look ?_
  rw [Cursor.isAt_counted]
  refine optional ((params fun _ => type).mono fun _ _ _ h => h.2) fun _ hreceiver =>
    ident.step fun name h₁ => look ?_
  rw [Cursor.isAt_counted, isNone_of_rel hreceiver]
  refine optionalStep bracketed fun typeParams h₂ => (signature fun _ => type).bind
    fun h₃ hsignature => look ?_
  rw [Cursor.isAt_counted]
  exact optionalStep bracketed fun body h₄ => makeFunc
    (monotone_rel (monotone_held _) (le_trans (le_trans h₁ h₂) (le_trans h₃ h₄)) _ _ hreceiver)
    (monotone_held _ h₄ _ _ hsignature)

theorem decl : Follows (Held Decl.Stored) Parse.decl Build.decl d := by
  refine look ?_
  rw [Cursor.next?_counted]
  generalize d.next? = next
  split
  · exact specDecl (fun _ => valueSpec) ValueSpec.Stored.resolves .consts
  · exact specDecl (fun _ => typeSpec) TypeSpec.Stored.resolves .types
  · exact specDecl (fun _ => valueSpec) ValueSpec.Stored.resolves .vars
  · exact funcDecl
  · exact failHere
  -- what neither reader goes on with is a fault for both
  · first | exact expected | split <;> first | exact expected | simp_all

theorem declEnd : Follows Equals declEnd declEnd d := by
  refine look ((eat _).step fun s _ => ?_)
  rw [Cursor.atEnd_counted]
  split
  · exact .pure rfl
  · exact expected

theorem declsWhile {R : Arena → α → β → Prop} {more : Cursor → Bool}
    {more' : Cursor Arena → Bool} (hmore : ∀ d : Cursor Arena, more d.counted = more' d)
    {item : Parse α} {item' : Build β} (hitem : ∀ d, Follows R item item' d) (hR : Monotone R) :
    ∀ (n : Nat) (d : Cursor Arena), Follows (fun A => List.Forall₂ (R A))
      (declsWhile more item n) (declsWhile more' item' n) d
  | 0, _ => .pure .nil
  | n + 1, _ => by
    refine look ?_
    rw [hmore]
    split
    · exact (hitem _).bind fun _ hx => declEnd.step fun _ hle =>
        (declsWhile hmore hitem hR n _).finish
          fun hle' hxs => .cons (hR (le_trans hle hle') _ _ hx) hxs
    · exact .pure .nil

theorem file : Follows (Held File.Stored) Parse.file Build.file d := by
  refine (expect _).step fun package _ => ident.step fun name _ => (eat _).step fun semi _ => ?_
  split
  · exact expected_bind
  · refine look ((same (declsWhile (fun _ => rfl) (fun _ => importDecl) monotone_equals _ _)).step
      fun imports _ => look ((declsWhile (fun _ => rfl) (fun _ => decl) (monotone_held _) _ _).bind
        fun _ hdecls => push (by simp [Item.refs]) fun hle himports =>
          pushStored (monotone_forall₂ (monotone_held _) hle _ _ hdecls) Decl.Stored.resolves
            fun hle' hstored => .pure fun F hF hfits => ?_))
    exact .mk (himports F (le_trans hle' hF) hfits) (hstored F hF hfits).1 (hstored F hF hfits).2

end Build.Follows

end GoIface
