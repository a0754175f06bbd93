import GoIface.Proofs.LexemeChanges
import GoIface.Proofs.MovedTrees

/-!
# Reading a text that was moved

What is read does not depend on where it is written or on what was made before: from the same
lexemes at another place a reader makes the same, with all spans moved and other serial numbers
(`Parse.Mirrors`). Readers put together of such readers are such readers, and there may be more
room for types around one another on the other side (`Mirrors.typeWithin`).
-/

namespace GoIface

variable {α β γ : Type}

/-! ## Cursors -/

/-- The one cursor stands in a text like the other one, `n` bytes on. -/
structure Cursor.MovedFrom (n : Nat) (c d : Cursor) : Prop where
  rest : c.rest = d.rest.map (Lexeme.shift n)
  last : c.last = d.last.shift n
  textEnd : c.textEnd = n + d.textEnd

namespace Cursor.MovedFrom

variable {n : Nat} {c d : Cursor}

theorem next? (h : c.MovedFrom n d) : c.next? = d.next? := by
  rw [Cursor.next?, Cursor.next?, h.rest]
  cases d.rest <;> rfl

theorem isAt (h : c.MovedFrom n d) (m : Mark) : c.isAt m = d.isAt m := by
  rw [Cursor.isAt, Cursor.isAt, h.next?]

theorem atEnd (h : c.MovedFrom n d) : c.atEnd = d.atEnd := by
  rw [Cursor.atEnd, Cursor.atEnd, h.rest]
  cases d.rest <;> rfl

theorem here (h : c.MovedFrom n d) : c.here = d.here.shift n := by
  rw [Cursor.here, Cursor.here, h.rest, h.textEnd]
  cases d.rest <;> rfl

theorem length (h : c.MovedFrom n d) : c.rest.length = d.rest.length := by
  rw [h.rest, List.length_map]

end Cursor.MovedFrom

/-! ## Looking ahead -/

section

variable {n : Nat}

def LexemeChange.shift (n : Nat) : LexemeChange :=
  ⟨Lexeme.shift n, Span.shift n, fun _ => rfl, fun _ => .refl _⟩

theorem Parse.entryStart_shift (ls : List Lexeme) :
    entryStart (ls.map (Lexeme.shift n)) = entryStart ls :=
  entryStart_change (.shift n) ls

theorem Parse.embeds?_shift (ls : List Lexeme) :
    embeds? (ls.map (Lexeme.shift n)) = embeds? ls :=
  embeds?_change (.shift n) ls

theorem Parse.declaresMethod_shift (ls : List Lexeme) :
    declaresMethod (ls.map (Lexeme.shift n)) = declaresMethod ls :=
  declaresMethod_change (.shift n) ls

/-- What is passed over is passed over elsewhere, and what is not is not. -/
theorem passOver_shift (stop : Token → Bool) (bs : List Bracket) (opener : Span)
    (ls : List Lexeme) :
    passOver stop bs (opener.shift n) (ls.map (Lexeme.shift n))
      = ((passOver stop bs opener ls).map (·.map (·.map (Lexeme.shift n)) (·.map (Lexeme.shift n)))
        ).mapError (Located.shift n) :=
  passOver_change (.shift n) (fun _ => rfl) bs opener ls

end

namespace Parse

/-- Where the first reader succeeds, so does the second on the same text `n` bytes before, and by
the view `v` of a value at a place they make the same. -/
def Mirrors (n : Nat) (p p' : Parse α) (v : Nat → α → β) : Prop :=
  ∀ c d : Cursor, c.MovedFrom n d → ∀ x c', p c = .ok (x, c') →
    ∃ y d', p' d = .ok (y, d') ∧ c'.MovedFrom n d' ∧ v 0 x = v n y

namespace Mirrors

variable {n : Nat} {p p' : Parse α} {f f' : α → Parse β} {v : Nat → α → γ} {δ : Type}
  {w : Nat → β → δ}

theorem pure {x y : α} (h : v 0 x = v n y) : Mirrors n (pure x) (pure y) v := by
  rintro c d hcd _ _ ⟨⟩
  exact ⟨y, d, rfl, hcd, h⟩

theorem bind (hp : Mirrors n p p' v)
    (hf : ∀ x y, v 0 x = v n y → Mirrors n (f x) (f' y) w) : Mirrors n (p >>= f) (p' >>= f') w := by
  intro c d hcd z c₂ hok
  obtain ⟨x, c₁, hx, hz⟩ := ok_of_bind hok
  obtain ⟨y, d₁, hy, hcd₁, hv⟩ := hp c d hcd x c₁ hx
  obtain ⟨z', d₂, hz', hcd₂, hw⟩ := hf x y hv c₁ d₁ hcd₁ z c₂ hz
  exact ⟨z', d₂, by rw [bind_of_ok hy, hz'], hcd₂, hw⟩

/-- The last step makes something of what was read. -/
theorem finish {g g' : α → β} (hp : Mirrors n p p' v)
    (hg : ∀ x y, v 0 x = v n y → w 0 (g x) = w n (g' y)) :
    Mirrors n (p >>= fun x => Pure.pure (g x)) (p' >>= fun y => Pure.pure (g' y)) w :=
  hp.bind fun x y h => .pure (hg x y h)

theorem map {g : α → β} (hp : Mirrors n p p' v)
    (hg : ∀ x y, v 0 x = v n y → w 0 (g x) = w n (g y)) : Mirrors n (g <$> p) (g <$> p') w :=
  hp.finish hg

theorem look {g g' : Cursor → Parse α} (h : ∀ c d, c.MovedFrom n d → Mirrors n (g c) (g' d) v) :
    Mirrors n (get >>= g) (get >>= g') v :=
  fun c d hcd => h c d hcd c d hcd

/-- The first reader always fails. -/
theorem error {e : Cursor → Located ParseFault} (h : ∀ c, p c = .error (e c)) :
    Mirrors n p p' v := by
  intro c d _ x c' hx
  simp [h] at hx

theorem bump : Mirrors n bump bump Span.shift := by
  intro c d hcd x c' hx
  rcases hrest : d.rest with _ | ⟨l, ls⟩
  · have hnil : c.rest = [] := by rw [hcd.rest, hrest]; rfl
    simp only [Parse.bump, hnil] at hx
    cases hx
    exact ⟨d.here, d, by simp only [Parse.bump, hrest], hcd, by rw [Span.shift_zero, hcd.here]⟩
  · have hcons : c.rest = l.shift n :: ls.map (Lexeme.shift n) := by rw [hcd.rest, hrest]; rfl
    simp only [Parse.bump, hcons] at hx
    cases hx
    exact ⟨l.span, { d with rest := ls, last := l.span }, by simp only [Parse.bump, hrest],
      ⟨rfl, rfl, hcd.textEnd⟩, Span.shift_zero _⟩

theorem expect (t : Token) : Mirrors n (expect t) (expect t) Span.shift := by
  refine look fun c d hcd => ?_
  rw [hcd.next?]
  split
  · exact bump
  · exact error fun _ => rfl

theorem eat (m : Mark) : Mirrors n (eat m) (eat m) fun k => Option.map (Span.shift k) := by
  refine look fun c d hcd => ?_
  rw [hcd.isAt]
  split
  · exact map bump fun x y h => congrArg some h
  · exact .pure rfl

/-- A mark that is there or not, for both. -/
theorem eat_bind {m : Mark} {f f' : Option Span → Parse β}
    (hsome : ∀ s s', s.shift 0 = s'.shift n → Mirrors n (f (some s)) (f' (some s')) w)
    (hnone : Mirrors n (f none) (f' none) w) :
    Mirrors n (Parse.eat m >>= f) (Parse.eat m >>= f') w := by
  refine (eat m).bind fun s s' h => ?_
  rcases s with _ | s <;> rcases s' with _ | s'
  · exact hnone
  · simp at h
  · simp at h
  · exact hsome s s' (Option.some.inj h)

theorem ident : Mirrors n ident ident Ident.moved := by
  refine look fun c d hcd => ?_
  rw [hcd.next?]
  split
  · exact bump.bind fun s s' h => .pure (congrArg (Ident.mk _) h)
  · exact error fun _ => rfl

theorem spanFrom {start start' : Span} (h : start.shift 0 = start'.shift n) :
    Mirrors n (spanFrom start) (spanFrom start') Span.shift := by
  refine look fun c d hcd => .pure ?_
  rw [Span.shift_zero] at h ⊢
  rw [h, hcd.last, Span.hull_shift]

/-! ## Sequences -/

section Sequence

variable {item item' : Parse α} (hitem : Mirrors n item item' v)

include hitem

theorem moreItems (separator : Mark) : ∀ m : Nat, Mirrors n (moreItems separator item m)
    (moreItems separator item' m) fun k => List.map (v k)
  | 0 => .pure rfl
  | m + 1 => eat_bind
      (fun _ _ _ => hitem.bind fun x y hx => finish (moreItems separator m) fun xs ys hxs => by
        rw [List.map_cons, List.map_cons, hx, hxs])
      (.pure rfl)

theorem separated (separator : Mark) : Mirrors n (separated separator item)
    (separated separator item') fun k => List.map (v k) := by
  refine hitem.bind fun x y hx => look fun c d hcd => ?_
  rw [hcd.length]
  exact finish (moreItems hitem separator _) fun xs ys hxs => by
    rw [List.map_cons, List.map_cons, hx, hxs]

theorem listedItems {stop : Cursor → Bool}
    (hstop : ∀ c d : Cursor, c.MovedFrom n d → stop c = stop d) :
    ∀ m : Nat, Mirrors n (listedItems stop item m) (listedItems stop item' m)
      fun k => List.map (v k)
  | 0 => by
    refine look fun c d hcd => ?_
    rw [hstop c d hcd]
    split
    · exact .pure rfl
    · exact finish hitem fun x y hx => congrArg (fun z => [z]) hx
  | m + 1 => by
    refine look fun c d hcd => ?_
    rw [hstop c d hcd]
    split
    · exact .pure rfl
    · refine hitem.bind fun x y hx => eat_bind (fun _ _ _ => ?_) ?_
      · exact finish (listedItems hstop m) fun xs ys hxs => by
          rw [List.map_cons, List.map_cons, hx, hxs]
      · exact .pure (congrArg (fun z => [z]) hx)

theorem listed {stop : Cursor → Bool}
    (hstop : ∀ c d : Cursor, c.MovedFrom n d → stop c = stop d) :
    Mirrors n (listed stop item) (listed stop item') fun k => List.map (v k) := by
  refine look fun c d hcd => ?_
  rw [hcd.length]
  exact listedItems hitem hstop _

theorem blockItems (close : Mark) : ∀ m : Nat, Mirrors n (blockItems close item m)
    (blockItems close item' m) fun k => List.map (v k)
  | 0 => .pure rfl
  | m + 1 => by
    have hsemi : Mirrors n (semiBefore close) (semiBefore close) fun _ => id := by
      refine look fun c d hcd => (eat .semi).bind fun s s' hs => ?_
      rw [hcd.isAt, ← Option.isSome_map, hs, Option.isSome_map]
      split
      · exact .pure rfl
      · exact error fun _ => rfl
    refine look fun c d hcd => ?_
    rw [hcd.isAt, hcd.atEnd]
    split
    · exact .pure rfl
    · refine hitem.bind fun x y hx => hsemi.bind fun _ _ _ => ?_
      exact finish (blockItems close m) fun xs ys hxs => by
        rw [List.map_cons, List.map_cons, hx, hxs]

theorem block (close : Mark) : Mirrors n (block close item) (block close item')
    fun k p => p.1.map (v k) := by
  refine look fun c d hcd => ?_
  rw [hcd.length]
  exact (blockItems hitem close _).bind fun xs ys hxs => (expect _).bind fun _ _ _ => .pure hxs

end Sequence

/-! ## Parts of types -/

theorem pass {stop : Token → Bool} {start start' : Span} (h : start = start'.shift n)
    (open? : Option Bracket) : Mirrors n (pass stop start open?) (pass stop start' open?)
      fun k => List.map (Lexeme.shift k) := by
  intro c d hcd passed c' hok
  have hpass := passOver_shift (n := n) stop open?.toList start' d.rest
  rw [← h, ← hcd.rest] at hpass
  unfold Parse.pass at hok ⊢
  rcases hd : passOver stop open?.toList start' d.rest with e | ⟨before, after⟩
  · rw [hpass, hd] at hok
    cases hok
  · rw [hpass, hd] at hok
    cases hok
    refine ⟨before, _, rfl, ⟨rfl, ?_, hcd.textEnd⟩, ?_⟩
    · rw [List.getLast?_map, hcd.last]
      cases before.getLast? <;> rfl
    · simp [Lexeme.shift]

theorem through (wanted : Wanted) (stop : Token → Bool) :
    Mirrors n (through wanted stop) (through wanted stop) Span.shift := by
  refine look fun c d hcd => (pass hcd.here none).bind fun passed passed' h => ?_
  have hempty : passed.isEmpty = passed'.isEmpty := by
    rw [← List.isEmpty_map, h, List.isEmpty_map]
  rw [hempty]
  split
  · exact error fun _ => rfl
  · exact spanFrom (by rw [Span.shift_zero, hcd.here])

theorem stringLiteral? : Mirrors n stringLiteral? stringLiteral?
    fun k => Option.map (StringLiteral.moved k) := by
  refine look fun c d hcd => ?_
  rw [hcd.next?]
  split
  · exact bump.finish fun s s' h => congrArg (some ∘ StringLiteral.mk) h
  · exact bump.finish fun s s' h => congrArg (some ∘ StringLiteral.mk) h
  · exact .pure rfl

theorem resolve {es es' : List (ParamEntry TypeNode)}
    (h : es.map (ParamEntry.movedWhole 0) = es'.map (ParamEntry.movedWhole n)) :
    Mirrors n (resolve es) (resolve es') fun k => List.map (Field.movedWhole k) := by
  intro c d hcd fields c' hok
  unfold Parse.resolve at hok ⊢
  split at hok
  · next hfields =>
    cases hok
    obtain ⟨fields', after', hfields', hmoved⟩ := resolveEntries_moved n h d.made hfields
    exact ⟨fields', { d with made := after' }, by simp only [hfields'],
      ⟨hcd.rest, hcd.last, hcd.textEnd⟩, hmoved⟩
  · simp at hok

section Types

variable {type type' : Parse TypeNode} (htype : Mirrors n type type' TypeNode.moved)

attribute [local simp] TypeForm.movedWhole TypeForm.map TypeForm.moved FieldList.movedWhole
  FieldList.map FieldList.moved Field.movedWhole Field.map Field.moved Results.movedWhole
  Results.map Results.moved Signature.movedWhole Signature.map Signature.moved Term.movedWhole
  Term.map Term.moved Element.movedWhole Element.map Element.moved ParamEntry.movedWhole

include htype

theorem paramEntry : Mirrors n (paramEntry type) (paramEntry type') ParamEntry.movedWhole := by
  have hrest {names names' : List Ident}
      (hnames : names.map (Ident.moved 0) = names'.map (Ident.moved n)) {start start' : Span}
      (hstart : start.shift 0 = start'.shift n) :
      Mirrors n (do
          let ellipsis ← Parse.eat .ellipsis
          let t ← type
          return (⟨names, ellipsis, some t, ← Parse.spanFrom start⟩ : ParamEntry TypeNode))
        (do
          let ellipsis ← Parse.eat .ellipsis
          let t ← type'
          return (⟨names', ellipsis, some t, ← Parse.spanFrom start'⟩ : ParamEntry TypeNode))
        ParamEntry.movedWhole :=
    (eat _).bind fun e e' he => htype.bind fun t t' ht => (spanFrom hstart).finish fun s s' hs => by
      simp_all
  refine look fun c d hcd => ?_
  have hhere : c.here.shift 0 = d.here.shift n := by rw [Span.shift_zero, hcd.here]
  rw [hcd.rest, entryStart_shift]
  split
  · refine ident.finish fun x x' hx => ?_
    have hspan := (Ident.mk.inj hx).2
    simp_all
  · split
    · refine (map (w := fun k => List.map (Ident.moved k)) ident fun x x' hx => ?_).bind
        fun names names' hnames => hrest hnames hhere
      simpa [List.singleton] using hx
    · exact hrest rfl hhere

theorem params : Mirrors n (params type) (params type') FieldList.movedWhole := by
  refine (expect _).bind fun l l' hl => ?_
  refine (listed (paramEntry htype) fun c d hcd => ?_).bind fun es es' hes => ?_
  · rw [hcd.isAt, hcd.atEnd]
  · refine (expect _).bind fun r r' hr => (resolve hes).finish fun xs xs' hxs => ?_
    rw [FieldList.movedWhole_mk, FieldList.movedWhole_mk, hl, hr, hxs]

theorem results : Mirrors n (results type) (results type') Results.movedWhole := by
  refine look fun c d hcd => ?_
  rw [hcd.isAt, hcd.next?]
  split
  · exact map (params htype) fun ps ps' h => congrArg Results.list h
  · split
    · exact map htype fun t t' h => congrArg Results.single h
    · exact .pure rfl

theorem signature : Mirrors n (signature type) (signature type') Signature.movedWhole := by
  refine (params htype).bind fun ps ps' hps => (results htype).bind fun rs rs' hrs => ?_
  have hlparen : ps.lparen = ps'.lparen.shift n := by
    simpa using congrArg FieldList.lparen hps
  rintro c d hcd _ _ ⟨⟩
  refine ⟨_, _, rfl, ⟨hcd.rest, hcd.last, hcd.textEnd⟩, ?_⟩
  have hspan : (ps.lparen.hull c.last).shift 0 = (ps'.lparen.hull d.last).shift n := by
    rw [Span.shift_zero, hlparen, hcd.last, Span.hull_shift]
  rw [Signature.movedWhole_mk, Signature.movedWhole_mk, hspan, hps, hrs]

theorem typeArgs :
    Mirrors n (typeArgs type) (typeArgs type') fun k => List.map (TypeNode.moved k) := by
  refine eat_bind (fun _ _ _ => ?_) (.pure rfl)
  refine (listed htype fun c d hcd => hcd.isAt _).bind fun ts ts' hts => ?_
  refine (expect _).bind fun _ _ _ => ?_
  rw [← List.isEmpty_map, hts, List.isEmpty_map]
  split
  · exact error fun _ => rfl
  · exact .pure hts

theorem typeName : Mirrors n (typeName type) (typeName type') TypeForm.movedWhole := by
  refine ident.bind fun x x' hx => eat_bind (fun _ _ _ => ?_) ?_
  · exact ident.bind fun y y' hy => (typeArgs htype).finish fun ts ts' hts => by simp_all
  · exact (typeArgs htype).finish fun ts ts' hts => by simp_all

theorem arrayOrSlice : Mirrors n (arrayOrSlice type) (arrayOrSlice type') TypeForm.movedWhole := by
  refine bump.bind fun s s' hs => eat_bind (fun _ _ _ => ?_) ?_
  · exact htype.finish fun t t' ht => by simp_all
  · refine look fun c d hcd => ?_
    rw [hcd.isAt]
    split
    · exact error fun _ => rfl
    · exact (through _ _).bind fun l l' hl => (expect _).bind fun _ _ _ =>
        htype.finish fun t t' ht => by simp_all

theorem mapType : Mirrors n (mapType type) (mapType type') TypeForm.movedWhole :=
  bump.bind fun _ _ hs => (expect _).bind fun _ _ _ => htype.bind fun _ _ hk =>
    (expect _).bind fun _ _ _ => htype.finish fun _ _ hv => by simp_all

theorem chanType : Mirrors n (chanType type) (chanType type') TypeForm.movedWhole :=
  bump.bind fun _ _ hs => eat_bind (fun _ _ _ => htype.finish fun _ _ ht => by simp_all)
    (htype.finish fun _ _ ht => by simp_all)

theorem receiveType : Mirrors n (receiveType type) (receiveType type') TypeForm.movedWhole :=
  bump.bind fun _ _ _ => (expect _).bind fun _ _ hs => htype.finish fun _ _ ht => by simp_all

theorem term : Mirrors n (term type) (term type') Term.movedWhole :=
  (eat _).bind fun _ _ hs => htype.finish fun _ _ ht => by simp_all

theorem element : Mirrors n (element type) (element type') Element.movedWhole := by
  refine look fun c d hcd => ?_
  rw [hcd.rest, declaresMethod_shift]
  split
  · exact ident.bind fun x x' hx => (signature htype).finish fun s s' hs => by
      simpa [hx] using hs
  · refine map (separated (term htype) _) fun ts ts' hts => ?_
    rw [Element.movedWhole_union, Element.movedWhole_union, hts]

theorem interfaceType : Mirrors n (interfaceType type) (interfaceType type') TypeForm.movedWhole :=
  bump.bind fun _ _ hs => (expect _).bind fun _ _ _ =>
    (block (element htype) _).finish fun _ _ hes => by
      rw [TypeForm.movedWhole_interface, TypeForm.movedWhole_interface, hs, hes]

theorem structField : Mirrors n (structField type) (structField type') Field.movedWhole := by
  have hrest {names names' : List Ident}
      (hnames : names.map (Ident.moved 0) = names'.map (Ident.moved n)) (embedded : Bool)
      {start start' : Span} (hstart : start = start'.shift n) :
      Mirrors n (do
          let t ← type
          let tag ← Parse.stringLiteral?
          makeField start names t tag embedded)
        (do
          let t ← type'
          let tag ← Parse.stringLiteral?
          makeField start' names' t tag embedded)
        Field.movedWhole := by
    refine htype.bind fun t t' ht => stringLiteral?.bind fun tag tag' htag => ?_
    rintro c d hcd _ _ ⟨⟩
    refine ⟨_, _, rfl, ⟨hcd.rest, hcd.last, hcd.textEnd⟩, ?_⟩
    have hspan : (start.hull c.last).shift 0 = (start'.hull d.last).shift n := by
      rw [Span.shift_zero, hstart, hcd.last, Span.hull_shift]
    simp_all
  refine look fun c d hcd => ?_
  rw [hcd.rest, embeds?_shift]
  split
  · exact error fun _ => rfl
  · next embedded _ =>
    split
    · exact hrest rfl embedded hcd.here
    · exact (separated ident _).bind fun names names' hnames => hrest hnames embedded hcd.here

theorem structType : Mirrors n (structType type) (structType type') TypeForm.movedWhole :=
  bump.bind fun _ _ hs => (expect _).bind fun _ _ _ =>
    (block (structField htype) _).finish fun _ _ hxs => by
      rw [TypeForm.movedWhole_struct, TypeForm.movedWhole_struct, hs, hxs]

theorem parenType : Mirrors n (parenType type) (parenType type') TypeForm.movedWhole :=
  bump.bind fun _ _ hs => htype.bind fun _ _ ht => (expect _).finish fun _ _ _ => by simp_all

theorem typeForm : Mirrors n (typeForm type) (typeForm type') TypeForm.movedWhole := by
  refine look fun c d hcd => ?_
  rw [hcd.next?]
  split
  · exact typeName htype
  · exact bump.bind fun _ _ hs => htype.finish fun _ _ ht => by simp_all
  · exact arrayOrSlice htype
  · exact mapType htype
  · exact chanType htype
  · exact receiveType htype
  · refine bump.bind fun s s' hs => (signature htype).finish fun x x' h => ?_
    show TypeForm.func (s.shift 0) (x.movedWhole 0) = .func (s'.shift n) (x'.movedWhole n)
    rw [hs, h]
  · exact interfaceType htype
  · exact structType htype
  · exact parenType htype
  · exact error fun _ => rfl

end Types

/-- A type is the same elsewhere, also if there may be more types around it. -/
theorem typeWithin : ∀ {room room' : Nat}, room ≤ room' →
    Mirrors n (typeWithin room) (typeWithin room') TypeNode.moved
  | 0, _, _ => error fun _ => rfl
  | room + 1, room' + 1, h => by
    refine look fun c d hcd => (typeForm (typeWithin (Nat.le_of_succ_le_succ h))).bind
      fun form form' hform => ?_
    rintro c₁ d₁ hcd₁ _ _ ⟨⟩
    refine ⟨_, _, rfl, ⟨hcd₁.rest, hcd₁.last, hcd₁.textEnd⟩, ?_⟩
    rw [TypeNode.moved_mk, TypeNode.moved_mk, Span.shift_zero, hcd.here, hcd₁.last, Span.hull_shift]
    exact congrArg (TypeNode.mk 0 _) hform

end Mirrors

end Parse

end GoIface
