import GoIface.Proofs.Levels

/-!
# Where types end

A line may end after any type (`Consumes.typeWithin_endsLine`): the last token of a type is an
identifier or a closing bracket. So may it after an entry of a parameter list, an element of an
interface and a field of a struct, and each of them is at least one token long.
-/

namespace GoIface

variable {α β : Type}

/-- A line may end after the tokens. -/
def EndsLine (ts : List Token) : Prop := ∃ init t, ts = init ++ [t] ∧ t.endsStatement = true

theorem EndsLine.ne_nil {ts : List Token} (h : EndsLine ts) : ts ≠ [] := by
  obtain ⟨init, t, rfl, -⟩ := h
  simp

theorem EndsLine.after {us : List Token} (h : EndsLine us) (ts : List Token) :
    EndsLine (ts ++ us) := by
  obtain ⟨init, t, rfl, ht⟩ := h
  exact ⟨ts ++ init, t, (List.append_assoc ..).symm, ht⟩

theorem endsLine_singleton {t : Token} (h : t.endsStatement = true) : EndsLine [t] :=
  ⟨[], t, rfl, h⟩

/-- After tokens that a line may end after, so it may after these. -/
def KeepsLine (us : List Token) : Prop := us = [] ∨ EndsLine us

theorem EndsLine.append {ts us : List Token} (hts : EndsLine ts) (hus : KeepsLine us) :
    EndsLine (ts ++ us) := by
  rcases hus with rfl | hus
  · rwa [List.append_nil]
  · exact hus.after ts

theorem KeepsLine.append {ts us : List Token} (hts : KeepsLine ts) (hus : KeepsLine us) :
    KeepsLine (ts ++ us) := by
  rcases hts with rfl | hts
  · exact hus
  · exact .inr (hts.append hus)

namespace Parse

/-- A reader that succeeds goes on in the text or stays where it is. -/
abbrev Advances (p : Parse α) (c : Cursor) : Prop := Consumes p (fun _ => True) c

namespace Consumes

variable {c : Cursor} {p : Parse α} {f : α → Parse β} {Q : List Token → Prop}

theorem advances (hp : Consumes p Q c) : Advances p c := hp.mono fun _ _ => trivial

theorem takes (hp : Consumes p EndsLine c) : Consumes p (· ≠ []) c :=
  hp.mono fun _ h => h.ne_nil

theorem bump_advances : Advances Parse.bump c := by
  intro x c' hx
  unfold Parse.bump at hx
  split at hx
  · next hrest =>
    cases hx
    exact ⟨[], rfl, trivial⟩
  · next l ls hrest =>
    cases hx
    exact ⟨[l], hrest, trivial⟩

theorem eat_advances (m : Mark) : Advances (Parse.eat m) c := by
  refine look ?_
  split
  · exact bump_advances.map
  · exact pure trivial

/-- It is what is read last that counts. -/
theorem ending (hp : Advances p c) (hf : ∀ x c', Consumes (f x) EndsLine c') :
    Consumes (p >>= f) EndsLine c :=
  hp.bind (fun x c' _ => hf x c') fun ts _ _ h => h.after ts

/-- What is read last may be nothing. -/
theorem ended (hp : Consumes p EndsLine c) (hf : ∀ x c', Consumes (f x) KeepsLine c') :
    Consumes (p >>= f) EndsLine c :=
  hp.bind (fun x c' _ => hf x c') fun _ _ hts hus => hts.append hus

theorem keeping (hp : Consumes p KeepsLine c) (hf : ∀ x c', Consumes (f x) KeepsLine c') :
    Consumes (p >>= f) KeepsLine c :=
  hp.bind (fun x c' _ => hf x c') fun _ _ hts hus => hts.append hus

theorem pure_keeps {x : α} : Consumes (Pure.pure x) KeepsLine c := pure (.inl rfl)

theorem expect_endsLine {t : Token} (ht : t.endsStatement = true) :
    Consumes (Parse.expect t) EndsLine c :=
  (expect t).mono fun _ h => h ▸ endsLine_singleton ht

theorem ident_endsLine : Consumes Parse.ident EndsLine c :=
  ident.mono fun _ ⟨_, h⟩ => h ▸ endsLine_singleton rfl

theorem stringLiteral?_keeps : Consumes Parse.stringLiteral? KeepsLine c := by
  refine look ?_
  split
  · next h => exact ((bump h).mono fun ts hts => .inr (hts ▸ endsLine_singleton rfl)).finish
  · next h => exact ((bump h).mono fun ts hts => .inr (hts ▸ endsLine_singleton rfl)).finish
  · exact pure_keeps

theorem separated_endsLine {item : Parse α} (hitem : ∀ c, Consumes item EndsLine c)
    (separator : Mark) (c : Cursor) : Consumes (Parse.separated separator item) EndsLine c := by
  have hmore (n : Nat) :
      ∀ c : Cursor, Consumes (Parse.moreItems separator item n) KeepsLine c := by
    induction n with
    | zero => exact fun _ => pure_keeps
    | succ n ih =>
      intro c
      refine eat (Q := EndsLine) (R := (· = [])) (fun s c => ?_) (pure rfl)
        (fun ts h => .inr (h.after [_])) fun _ h => .inl h
      exact (hitem c).ended fun _ c => (ih c).finish
  exact (hitem c).ended fun _ _ => look (hmore _ _).finish

theorem block_endsLine {close : Mark} (hclose : (Token.mark close).endsStatement = true)
    {item : Parse α} (hitem : ∀ c, Consumes item Level c) (c : Cursor) :
    Consumes (Parse.block close item) EndsLine c :=
  look ((blockItems hitem _ _ c).advances.ending fun _ _ => (expect_endsLine hclose).finish)

/-! ## Parts of types -/

section Types

variable {type : Parse TypeNode} (hlevel : ∀ c, Consumes type Level c)
  (htype : ∀ c, Consumes type EndsLine c)

include htype in
theorem paramEntry_endsLine : Consumes (Parse.paramEntry type) EndsLine c := by
  have hrest (names : List Ident) (c₀ c : Cursor) :
      Consumes (do
        let ellipsis ← Parse.eat .ellipsis
        let type ← type
        return (⟨names, ellipsis, some type, ← spanFrom c₀.here⟩ : ParamEntry TypeNode))
      EndsLine c :=
    (eat_advances _).ending fun _ c => (htype c).ended fun _ _ => look pure_keeps
  refine look ?_
  split
  · exact ident_endsLine.finish
  · split
    · exact ident_endsLine.map.advances.ending fun names c' => hrest names c c'
    · exact hrest [] c c

include hlevel

theorem params_endsLine : Consumes (Parse.params type) EndsLine c := by
  have hresolve (entries : List (ParamEntry TypeNode)) (c : Cursor) :
      Consumes (resolve entries) KeepsLine c := by
    intro fields c' hok
    unfold resolve at hok
    split at hok
    · cases hok
      exact ⟨[], rfl, .inl rfl⟩
    · simp at hok
  refine (expect _).advances.ending fun _ c => ?_
  refine (listed (fun c => paramEntry hlevel) _ c).advances.ending fun entries c => ?_
  exact (expect_endsLine rfl).ended fun _ c => (hresolve entries c).finish

theorem typeArgs_keeps : Consumes (Parse.typeArgs type) KeepsLine c := by
  refine (typeArgs hlevel).mono ?_
  rintro _ (rfl | ⟨inner, rfl, -⟩)
  · exact .inl rfl
  · exact .inr ((endsLine_singleton rfl).after (.mark .lbrack :: inner))

theorem typeName_endsLine : Consumes (Parse.typeName type) EndsLine c := by
  refine ident_endsLine.ended fun x c => ?_
  refine eat (Q := EndsLine) (R := KeepsLine) (fun s c => ?_) (typeArgs_keeps hlevel).finish
    (fun ts h => .inr (h.after [_])) fun _ h => h
  exact ident_endsLine.ended fun _ c => (typeArgs_keeps hlevel).finish

include htype

theorem signature_endsLine : Consumes (Parse.signature type) EndsLine c := by
  have hresults (c : Cursor) : Consumes (Parse.results type) KeepsLine c := by
    refine look ?_
    split
    · exact ((params_endsLine hlevel).mono fun _ => .inr).map
    · split
      · exact ((htype c).mono fun _ => .inr).map
      · exact pure_keeps
  refine (params_endsLine hlevel).ended fun ps c => (hresults c).keeping fun rs c => ?_
  rintro _ _ ⟨⟩
  exact ⟨[], rfl, .inl rfl⟩

omit hlevel in
theorem arrayOrSlice_endsLine : Consumes (Parse.arrayOrSlice type) EndsLine c := by
  refine bump_advances.ending fun s c => (eat_advances _).ending fun o c => ?_
  cases o with
  | some s => exact (htype c).finish
  | none =>
    refine look ?_
    split
    · exact error fun _ => rfl
    · exact through.advances.ending fun _ c => (expect _).advances.ending fun _ c =>
        (htype c).finish

theorem element_endsLine (c : Cursor) : Consumes (Parse.element type) EndsLine c := by
  refine look ?_
  split
  · exact ident.advances.ending fun _ c => (signature_endsLine hlevel htype).finish
  · have hterm (c : Cursor) : Consumes (term type) EndsLine c :=
      (eat_advances _).ending fun _ c => (htype c).finish
    exact (separated_endsLine hterm _ _).map

omit hlevel in
theorem structField_endsLine (c : Cursor) : Consumes (Parse.structField type) EndsLine c := by
  have hrest (names : List Ident) (embedded : Bool) (c₀ c : Cursor) :
      Consumes (do
        let type ← type
        let tag ← Parse.stringLiteral?
        makeField c₀.here names type tag embedded) EndsLine c := by
    refine (htype c).ended fun t c => stringLiteral?_keeps.keeping fun tag c => ?_
    rintro _ _ ⟨⟩
    exact ⟨[], rfl, .inl rfl⟩
  refine look ?_
  split
  · exact error fun _ => rfl
  · next embedded _ =>
    split
    · exact hrest [] embedded c c
    · have hcomma : Level [.mark .comma] := rfl
      refine (separated (fun _ => level_ident) hcomma _).advances.ending fun names c' => ?_
      exact hrest names embedded c c'

end Types

theorem typeForm_endsLine {type : Parse TypeNode} (hlike : ∀ c, Consumes type IsType c)
    (htype : ∀ c, Consumes type EndsLine c) : Consumes (Parse.typeForm type) EndsLine c := by
  have hlevel := level hlike
  refine look ?_
  split
  · exact typeName_endsLine hlevel
  · exact bump_advances.ending fun _ c => (htype c).finish
  · exact arrayOrSlice_endsLine htype
  · exact bump_advances.ending fun _ c => (expect _).advances.ending fun _ c =>
      (htype c).advances.ending fun _ c => (expect _).advances.ending fun _ c => (htype c).finish
  · exact bump_advances.ending fun _ c => (eat_advances _).ending fun _ c => (htype c).finish
  · exact bump_advances.ending fun _ c => (expect _).advances.ending fun _ c => (htype c).finish
  · exact bump_advances.ending fun _ c => (signature_endsLine hlevel htype).finish
  · exact bump_advances.ending fun _ c => (expect _).advances.ending fun _ c =>
      (block_endsLine rfl (element hlike) c).finish
  · exact bump_advances.ending fun _ c => (expect _).advances.ending fun _ c =>
      (block_endsLine rfl (structField hlike) c).finish
  · exact bump_advances.ending fun _ c => (htype c).advances.ending fun _ c =>
      (expect_endsLine rfl).finish
  · exact error fun _ => rfl

/-- A line may end after a type. -/
theorem typeWithin_endsLine : ∀ (room : Nat) (c : Cursor),
    Consumes (Parse.typeWithin room) EndsLine c
  | 0, _ => error fun _ => rfl
  | room + 1, c => by
    refine look ((typeForm_endsLine (typeWithin room) (typeWithin_endsLine room)).ended
      fun form c => ?_)
    rintro _ _ ⟨⟩
    exact ⟨[], rfl, .inl rfl⟩

end Consumes

end Parse

end GoIface
