import GoIface.Proofs.Discovery
import GoIface.Proofs.Writing

/-!
# What is read for the types inside

The types inside a form are those that the reader for them makes (`Ensures.insides`), but for bare
identifiers in parameter lists: these become types when the list is complete. So types are nested
within the room that they are read with (`nestsWithin_of_typeWithin`).
-/

namespace GoIface

variable {α β : Type} {P : TypeNode → Prop}

/-! ## Grouped parameters -/

theorem type_of_groupEntries {waiting : List Ident} {start : Option Nat}
    {es : List (ParamEntry TypeNode)} {g : ParamGroup TypeNode}
    (hg : g ∈ (groupEntries waiting start es).1) :
    ∃ e ∈ es, e.type = some g.type := by
  induction es generalizing waiting start with
  | nil => cases hg
  | cons e es ih =>
    unfold groupEntries at hg
    split at hg
    · obtain ⟨e', he', htype⟩ := ih hg
      exact ⟨e', by simp [he'], htype⟩
    · next type htype =>
      rcases List.mem_cons.1 hg with rfl | hg
      · exact ⟨e, by simp, htype⟩
      · obtain ⟨e', he', htype⟩ := ih hg
        exact ⟨e', by simp [he'], htype⟩

/-- The fields of a list have the types of its entries, but for the bare ones. -/
theorem type_of_resolveEntries {es : List (ParamEntry TypeNode)} {made made' : Counts}
    {fields : List (Field TypeNode)} (h : resolveEntries es made = .ok (fields, made')) :
    ∀ x ∈ fields, x.isBare = false → ∃ e ∈ es, e.type = some x.type := by
  rcases hgroups : groupEntries [] none es with ⟨groups, left⟩
  rw [resolveEntries, hgroups] at h
  dsimp only at h
  split at h
  · cases h
  cases h
  intro x hx hbare
  rcases List.mem_append.1 hx with hx | hx
  · obtain ⟨i, hi, rfl⟩ := List.mem_mapIdx.1 hx
    have hmem : groups[i] ∈ (groupEntries [] none es).1 := by
      rw [hgroups]
      exact List.getElem_mem hi
    exact type_of_groupEntries hmem
  · obtain ⟨i, hi, rfl⟩ := List.mem_mapIdx.1 hx
    cases hbare

namespace Parse.Ensures

variable {p : Parse α} {f : α → Parse β} {Q : α → Prop} {Q' : β → Prop} {c : Cursor}

theorem seq (hp : Ensures p c Q) (hf : ∀ x c', Q x → Ensures (f x) c' Q') :
    Ensures (p >>= f) c Q' := by
  intro y c' hok
  obtain ⟨x, c₁, hx, hy⟩ := ok_of_bind hok
  exact hf x c₁ (hp x c₁ hx) y c' hy

theorem finish {g : α → β} (hp : Ensures p c Q) (h : ∀ x, Q x → Q' (g x)) :
    Ensures (p >>= fun x => Pure.pure (g x)) c Q' :=
  hp.seq fun x _ hx => pure (h x hx)

theorem map {g : α → β} (hp : Ensures p c Q) (h : ∀ x, Q x → Q' (g x)) : Ensures (g <$> p) c Q' :=
  hp.finish h

theorem fail {fault : ParseFault} {span : Span} : Ensures (fail fault span) c Q := by
  rintro x c' ⟨⟩

/-! ## Sequences -/

section Sequence

variable {item : Parse α} (hitem : ∀ c, Ensures item c Q)

include hitem

theorem moreItems (separator : Mark) : ∀ (n : Nat) (c : Cursor),
    Ensures (moreItems separator item n) c fun xs => ∀ x ∈ xs, Q x
  | 0, _ => pure (by simp)
  | n + 1, _ => bind fun s c => by
    cases s with
    | none => exact pure (by simp)
    | some s =>
      exact (hitem c).seq fun x c hx => (moreItems separator n c).finish fun xs hxs =>
        List.forall_mem_cons.2 ⟨hx, hxs⟩

theorem separated (separator : Mark) (c : Cursor) :
    Ensures (separated separator item) c fun xs => ∀ x ∈ xs, Q x :=
  (hitem c).seq fun _ _ hx => look ((moreItems hitem separator _ _).finish fun _ hxs =>
    List.forall_mem_cons.2 ⟨hx, hxs⟩)

theorem listedItems (stop : Cursor → Bool) : ∀ (n : Nat) (c : Cursor),
    Ensures (listedItems stop item n) c fun xs => ∀ x ∈ xs, Q x
  | 0, c => by
    refine look ?_
    split
    · exact pure (by simp)
    · exact (hitem c).finish fun x hx => by simpa using hx
  | n + 1, c => by
    refine look ?_
    split
    · exact pure (by simp)
    · refine (hitem c).seq fun x c hx => bind fun s c => ?_
      cases s with
      | none => exact pure (by simpa using hx)
      | some s =>
        exact (listedItems stop n c).finish fun xs hxs => List.forall_mem_cons.2 ⟨hx, hxs⟩

theorem listed (stop : Cursor → Bool) (c : Cursor) :
    Ensures (listed stop item) c fun xs => ∀ x ∈ xs, Q x :=
  look (listedItems hitem stop _ c)

theorem blockItems (close : Mark) : ∀ (n : Nat) (c : Cursor),
    Ensures (blockItems close item n) c fun xs => ∀ x ∈ xs, Q x
  | 0, _ => pure (by simp)
  | n + 1, c => by
    refine look ?_
    split
    · exact pure (by simp)
    · exact (hitem c).seq fun x _ hx => bind fun _ c => (blockItems close n c).finish fun xs hxs =>
        List.forall_mem_cons.2 ⟨hx, hxs⟩

theorem block (close : Mark) (c : Cursor) :
    Ensures (block close item) c fun r => ∀ x ∈ r.1, Q x :=
  look ((blockItems hitem close _ c).seq fun _ _ hxs => bind fun _ _ => pure hxs)

end Sequence

/-! ## Types -/

section Types

variable {type : Parse TypeNode} (htype : ∀ c, Ensures type c P)

include htype

theorem paramEntry (c : Cursor) : Ensures (paramEntry type) c fun e => ∀ t ∈ e.type, P t := by
  have hrest (names : List Ident) (c₁ c : Cursor) : Ensures (do
      let ellipsis ← Parse.eat .ellipsis
      let type ← type
      return (⟨names, ellipsis, some type, ← Parse.spanFrom c₁.here⟩ : ParamEntry TypeNode)) c
        fun e => ∀ t ∈ e.type, P t :=
    bind fun _ c => (htype c).seq fun t _ ht => bind fun _ _ => pure (by simpa using ht)
  refine look ?_
  split
  · exact bind fun _ _ => pure (by simp)
  · split <;> exact bind fun names c' => hrest names c c'

theorem params (c : Cursor) : Ensures (params type) c fun l => ∀ t ∈ l.inside, P t := by
  refine bind fun _ c => (listed (paramEntry htype) _ c).seq fun es _ hes => bind fun _ c => ?_
  refine (show Ensures (Parse.resolve es) c fun fields =>
    ∀ x ∈ fields, x.isBare = false → P x.type from ?_).finish fun fields hfields t ht => ?_
  · intro fields c' hok
    unfold Parse.resolve at hok
    split at hok
    · next hresolve =>
      cases hok
      intro x hx hbare
      obtain ⟨e, he, htype⟩ := type_of_resolveEntries hresolve x hx hbare
      exact hes e he _ htype
    · cases hok
  · obtain ⟨x, hx, rfl⟩ := List.mem_map.1 ht
    obtain ⟨hx, hbare⟩ := List.mem_filter.1 hx
    exact hfields x hx (by simpa using hbare)

theorem results (c : Cursor) : Ensures (results type) c fun rs => ∀ t ∈ rs.inside, P t := by
  refine look ?_
  split
  · exact (params htype c).map fun _ h => h
  · split
    · exact (htype c).map fun t ht => by simpa [Results.inside] using ht
    · exact pure (by simp [Results.inside])

theorem signature (c : Cursor) : Ensures (signature type) c fun s => ∀ t ∈ s.inside, P t := by
  refine (params htype c).seq fun ps c hps => (results htype c).seq fun rs c hrs => ?_
  rintro _ _ ⟨⟩
  exact List.forall_mem_append.2 ⟨hps, hrs⟩

theorem typeArgs (c : Cursor) : Ensures (typeArgs type) c fun ts => ∀ t ∈ ts, P t := by
  refine bind fun s c => ?_
  cases s with
  | none => exact pure (by simp)
  | some s =>
    refine (listed htype _ c).seq fun ts _ hts => bind fun _ _ => ?_
    split
    · exact fail
    · exact pure hts

theorem structField (c : Cursor) : Ensures (structField type) c fun x => P x.type := by
  have hrest (names : List Ident) (embedded : Bool) (c₁ c : Cursor) : Ensures (do
      let type ← type
      let tag ← Parse.stringLiteral?
      Parse.makeField c₁.here names type tag embedded) c fun x => P x.type := by
    refine (htype c).seq fun t _ ht => bind fun tag _ => ?_
    rintro _ _ ⟨⟩
    exact ht
  refine look ?_
  split
  · exact expected
  · split
    · exact hrest [] _ c c
    · exact bind fun names c' => hrest names _ c c'

theorem element (c : Cursor) : Ensures (element type) c fun e => ∀ t ∈ e.inside, P t := by
  have hterm (c : Cursor) : Ensures (term type) c fun t => P t.type :=
    bind fun _ c => (htype c).finish fun _ ht => ht
  refine look ?_
  split
  · exact bind fun _ c => (signature htype c).finish fun _ hs => hs
  · exact (separated hterm .pipe c).map fun ts hts => List.forall_mem_map.2 hts

/-- The types inside the form that is read are made by the reader for them. -/
theorem insides (c : Cursor) : Ensures (Parse.typeForm type) c
    fun form => ∀ t ∈ form.inside, P t := by
  have hone {form : TypeNode → TypeForm TypeNode} (hform : ∀ t, (form t).inside = [t])
      (c : Cursor) : Ensures (type >>= fun t => Pure.pure (form t)) c
        fun form => ∀ t ∈ form.inside, P t :=
    (htype c).finish fun t ht => by simpa [hform] using ht
  refine look ?_
  split
  · refine bind fun _ _ => bind fun s c => ?_
    cases s with
    | none => exact (typeArgs htype c).finish fun _ hts => hts
    | some s => exact bind fun _ c => (typeArgs htype c).finish fun _ hts => hts
  · exact bind fun _ c => hone (fun _ => rfl) c
  · refine bind fun _ _ => bind fun s c => ?_
    cases s with
    | some s => exact hone (fun _ => rfl) c
    | none =>
      refine look ?_
      split
      · exact failHere
      · exact bind fun _ _ => bind fun _ c => hone (fun _ => rfl) c
  · refine bind fun _ _ => bind fun _ c => (htype c).seq fun k _ hk => bind fun _ c => ?_
    refine (htype c).finish fun v hv => ?_
    simpa [TypeForm.inside, TypeForm.children] using ⟨hk, hv⟩
  · exact bind fun _ _ => bind fun _ c => hone (fun _ => rfl) c
  · exact bind fun _ _ => bind fun _ c => hone (fun _ => rfl) c
  · exact bind fun _ c => (signature htype c).finish fun _ hs => hs
  · refine bind fun _ _ => bind fun _ c => (block (element htype) .rbrace c).finish fun r hr => ?_
    exact List.forall_mem_flatMap.2 hr
  · refine bind fun _ _ => bind fun _ c =>
      (block (structField htype) .rbrace c).finish fun r hr => ?_
    exact List.forall_mem_map.2 hr
  · exact bind fun _ c => (htype c).seq fun t _ ht => bind fun _ _ => pure (by
      simpa [TypeForm.inside, TypeForm.children] using ht)
  · exact expected

end Types

end Parse.Ensures

/-- Types are nested at most as deep as there was room for. -/
theorem nestsWithin_of_typeWithin : ∀ (room : Nat) (c : Cursor),
    Parse.Ensures (Parse.typeWithin room) c (·.NestsWithin room)
  | 0, _ => .failHere
  | room + 1, c => .look ((Parse.Ensures.insides (nestsWithin_of_typeWithin room) c).seq
      fun form _ hform => by rintro _ _ ⟨⟩; exact ⟨hform⟩)

end GoIface
