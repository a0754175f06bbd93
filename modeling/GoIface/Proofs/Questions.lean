import GoIface.Proofs.Discovery

/-!
# What readers ask for

A reader of types is given one for the types inside, and all it does with that is to ask it for
types at one cursor after the other (`Reading`). It goes on from the type and the cursor that it is
given, and fails where it is given none. What it asks for lies further on in the text each time
(`Reading.Forward`), and for the form of a type not before the second lexeme (`Asking.typeForm`).
-/

namespace GoIface.Parse

variable {α β : Type}

/-- A reading that asks for types: it is done, or it asks for the type at a cursor and goes on from
what it is given. -/
inductive Reading (α : Type) where
  | done (result : Except (Located ParseFault) (α × Cursor))
  | ask (c : Cursor) (next : TypeNode → Cursor → Reading α)

namespace Reading

/-- What comes of the reading with the answers of `type`. -/
def run (type : Parse TypeNode) : Reading α → Except (Located ParseFault) (α × Cursor)
  | done result => result
  | ask c next => (type c).bind fun answer => (next answer.1 answer.2).run type

def bind (f : α → Cursor → Reading β) : Reading α → Reading β
  | done (.error e) => done (.error e)
  | done (.ok (x, c)) => f x c
  | ask c next => ask c fun t c' => (next t c').bind f

theorem run_bind (type : Parse TypeNode) (f : α → Cursor → Reading β) (R : Reading α) :
    (R.bind f).run type = (R.run type).bind fun r => (f r.1 r.2).run type := by
  induction R with
  | done result => rcases result with e | ⟨x, c⟩ <;> rfl
  | ask c next ih =>
    rw [bind, run, run]
    rcases type c with e | ⟨t, c'⟩
    · rfl
    · exact ih t c'

/-- Each question, and the end, lies at a later place than the one before. -/
inductive Forward : List Lexeme → Reading α → Prop
  | done {ls : List Lexeme} {result : Except (Located ParseFault) (α × Cursor)}
      (h : ∀ x c', result = .ok (x, c') → c'.rest <:+ ls) : Forward ls (.done result)
  | ask {ls : List Lexeme} {c : Cursor} {next : TypeNode → Cursor → Reading α}
      (hc : c.rest <:+ ls) (h : ∀ t c', c'.rest <:+ c.rest → Forward c'.rest (next t c')) :
      Forward ls (.ask c next)

namespace Forward

variable {ls ms : List Lexeme} {R : Reading α}

theorem mono (h : R.Forward ls) (hls : ls <:+ ms) : R.Forward ms := by
  cases h with
  | done h => exact .done fun x c' hok => (h x c' hok).trans hls
  | ask hc h => exact .ask (hc.trans hls) h

theorem bind {f : α → Cursor → Reading β} (h : R.Forward ls)
    (hf : ∀ x c, (f x c).Forward c.rest) : (R.bind f).Forward ls := by
  induction h with
  | @done ls result h =>
    rcases result with e | ⟨x, c⟩
    · exact .done fun _ _ hok => nomatch hok
    · exact (hf x c).mono (h x c rfl)
  | ask hc _ ih => exact .ask hc ih

end Forward

end Reading

/-- At the cursor the reader asks for types in the run, and that is all it does with the one that it
is given. -/
def Asking (p : Parse TypeNode → Parse α) (ls : List Lexeme) (c : Cursor) : Prop :=
  ∃ R : Reading α, (∀ type, p type c = R.run type) ∧ R.Forward ls

namespace Asking

variable {p q : Parse TypeNode → Parse α} {f : α → Parse TypeNode → Parse β} {ls ms : List Lexeme}
  {c : Cursor}

theorem congr (hq : Asking q ls c) (h : ∀ type, p type c = q type c) : Asking p ls c := by
  obtain ⟨R, hR, hforward⟩ := hq
  exact ⟨R, fun type => (h type).trans (hR type), hforward⟩

theorem mono (h : Asking p ls c) (hls : ls <:+ ms) : Asking p ms c := by
  obtain ⟨R, hR, hforward⟩ := h
  exact ⟨R, hR, hforward.mono hls⟩

/-- A reader that asks for nothing. -/
theorem plain {p : Parse α} (h : ∀ x c', p c = .ok (x, c') → c'.rest <:+ ls) :
    Asking (fun _ => p) ls c :=
  ⟨.done (p c), fun _ => rfl, .done h⟩

theorem of_error {e : Located ParseFault} (h : ∀ type, p type c = .error e) : Asking p ls c :=
  ⟨.done (.error e), h, .done fun _ _ hok => nomatch hok⟩

/-- One that asks for a type here. -/
theorem here : Asking (fun type => type) c.rest c := by
  refine ⟨.ask c fun t c' => .done (.ok (t, c')), fun type => ?_, .ask (List.suffix_refl _) ?_⟩
  · show type c = (type c).bind Except.ok
    rcases type c with e | ⟨t, c'⟩ <;> rfl
  · rintro t c' -
    exact .done fun _ _ hok => by cases hok; exact List.suffix_refl _

theorem bind (hp : Asking p ls c) (hf : ∀ x c', Asking (f x) c'.rest c') :
    Asking (fun type => p type >>= fun x => f x type) ls c := by
  obtain ⟨R, hR, hforward⟩ := hp
  choose S hS hnext using hf
  refine ⟨R.bind S, fun type => ?_, hforward.bind hnext⟩
  show Except.bind (p type c) (fun r => f r.1 type r.2) = _
  rw [R.run_bind, hR]
  congr 1
  funext r
  exact hS r.1 r.2 type

theorem look {g : Cursor → Parse TypeNode → Parse α} (h : Asking (g c) ls c) :
    Asking (fun type => get >>= fun c => g c type) ls c := h

theorem pure {x : α} : Asking (fun _ => Pure.pure x) c.rest c :=
  plain fun _ _ hok => by cases hok; exact List.suffix_refl _

theorem finish {g : α → β} (hp : Asking p ls c) :
    Asking (fun type => p type >>= fun x => Pure.pure (g x)) ls c :=
  hp.bind fun _ _ => pure

theorem map {g : α → β} (hp : Asking p ls c) : Asking (fun type => g <$> p type) ls c :=
  hp.finish

theorem of_consumes {p : Parse α} {Q : List Token → Prop} (h : Consumes p Q c) :
    Asking (fun _ => p) c.rest c :=
  plain fun x c' hok => by
    obtain ⟨ls, hls, -⟩ := h x c' hok
    exact ⟨ls, hls.symm⟩

/-! ## Readers that ask for nothing -/

theorem bump : Asking (fun _ => bump) c.rest.tail c :=
  plain fun x c' hok => by
    rcases hrest : c.rest with _ | ⟨l, ls⟩ <;> simp only [Parse.bump, hrest] at hok <;> cases hok
    · rw [hrest]
      exact List.suffix_refl _
    · exact List.suffix_refl _

theorem step : Asking (fun _ => Parse.bump) c.rest c := bump.mono (List.tail_suffix _)

theorem eat (m : Mark) : Asking (fun _ => eat m) c.rest c := by
  refine look ?_
  cases c.isAt m
  · exact pure
  · exact step.map

theorem expect (t : Token) : Asking (fun _ => expect t) c.rest c := of_consumes (.expect t)

theorem name : Asking (fun _ => ident) c.rest.tail c :=
  plain fun x c' hok => by
    obtain ⟨ls, hls, x, hx⟩ := Consumes.ident x c' hok
    obtain ⟨l, rfl, -⟩ := List.map_eq_singleton_iff.1 hx
    rw [hls]
    exact List.suffix_refl _

theorem ident : Asking (fun _ => Parse.ident) c.rest c := name.mono (List.tail_suffix _)

theorem spanFrom (s : Span) : Asking (fun _ => spanFrom s) c.rest c := look pure

theorem through (wanted : Wanted) (stop : Token → Bool) :
    Asking (fun _ => through wanted stop) c.rest c := of_consumes .through

theorem stringLiteral? : Asking (fun _ => stringLiteral?) c.rest c := of_consumes .stringLiteral?

theorem resolve (entries : List (ParamEntry TypeNode)) :
    Asking (fun _ => resolve entries) c.rest c := by
  refine plain fun x c' hok => ?_
  unfold Parse.resolve at hok
  split at hok
  · cases hok
    exact List.suffix_refl _
  · cases hok

theorem makeSignature (params : FieldList TypeNode) (results : Results TypeNode) :
    Asking (fun _ => makeSignature params results) c.rest c :=
  plain fun _ _ hok => by cases hok; exact List.suffix_refl _

theorem makeField (start : Span) (names : List Ident) (type : TypeNode) (tag : Option StringLiteral)
    (embedded : Bool) : Asking (fun _ => makeField start names type tag embedded) c.rest c :=
  plain fun _ _ hok => by cases hok; exact List.suffix_refl _

theorem semiBefore (close : Mark) : Asking (fun _ => semiBefore close) c.rest c := by
  refine look ((eat .semi).bind fun s _ => ?_)
  cases c.isAt close || s.isSome
  · exact of_error fun _ => rfl
  · exact pure

/-! ## Sequences -/

section Sequence

variable {item : Parse TypeNode → Parse α} (hitem : ∀ c, Asking item c.rest c)

include hitem

theorem moreItems (separator : Mark) : ∀ (n : Nat) (c : Cursor),
    Asking (fun type => moreItems separator (item type) n) c.rest c
  | 0, _ => pure
  | n + 1, _ => (eat separator).bind fun s c => by
    cases s with
    | none => exact pure
    | some s => exact (hitem c).bind fun _ c => (moreItems separator n c).finish

theorem separated (separator : Mark) (c : Cursor) :
    Asking (fun type => separated separator (item type)) c.rest c :=
  (hitem c).bind fun _ _ => look (moreItems hitem separator _ _).finish

theorem listedItems (stop : Cursor → Bool) : ∀ (n : Nat) (c : Cursor),
    Asking (fun type => listedItems stop (item type) n) c.rest c
  | 0, c => by
    refine look ?_
    cases stop c
    · exact (hitem c).finish
    · exact pure
  | n + 1, c => by
    refine look ?_
    cases stop c
    · refine (hitem c).bind fun _ c => (eat .comma).bind fun s c => ?_
      cases s with
      | none => exact pure
      | some s => exact (listedItems stop n c).finish
    · exact pure

theorem listed (stop : Cursor → Bool) (c : Cursor) :
    Asking (fun type => listed stop (item type)) c.rest c :=
  look (listedItems hitem stop _ c)

theorem blockItems (close : Mark) : ∀ (n : Nat) (c : Cursor),
    Asking (fun type => blockItems close (item type) n) c.rest c
  | 0, _ => pure
  | n + 1, c => by
    refine look ?_
    cases c.isAt close || c.atEnd
    · exact (hitem c).bind fun _ c => (semiBefore close).bind fun _ c =>
        (blockItems close n c).finish
    · exact pure

theorem block (close : Mark) (c : Cursor) :
    Asking (fun type => block close (item type)) c.rest c :=
  look ((blockItems hitem close _ c).bind fun _ _ => (expect _).finish)

end Sequence

/-! ## Types -/

theorem paramEntry (c : Cursor) : Asking paramEntry c.rest c := by
  have hrest (names : List Ident) (c₁ c : Cursor) :
      Asking (fun type => do
        let ellipsis ← Parse.eat .ellipsis
        let type ← type
        return (⟨names, ellipsis, some type, ← Parse.spanFrom c₁.here⟩ : ParamEntry TypeNode))
      c.rest c :=
    (eat .ellipsis).bind fun _ _ => here.bind fun _ _ => (spanFrom _).finish
  refine look ?_
  cases entryStart c.rest with
  | bare => exact ident.finish
  | named => exact ident.map.bind fun names c' => hrest names c c'
  | unnamed => exact pure.bind fun names c' => hrest names c c'

theorem params (c : Cursor) : Asking params c.rest c :=
  (expect _).bind fun _ _ => (listed paramEntry _ _).bind fun entries _ =>
    (expect _).bind fun _ _ => (resolve entries).finish

theorem results (c : Cursor) : Asking results c.rest c := by
  refine look ?_
  cases c.isAt .lparen
  · cases c.next?.any Token.startsType
    · exact pure
    · exact here.map
  · exact (params c).map

theorem signature (c : Cursor) : Asking signature c.rest c :=
  (params c).bind fun ps c => (results c).bind fun rs _ => makeSignature ps rs

theorem typeArgs (c : Cursor) : Asking typeArgs c.rest c := by
  refine (eat .lbrack).bind fun s c => ?_
  cases s with
  | none => exact pure
  | some s =>
    refine (listed (fun _ => here) _ c).bind fun args c => (expect _).bind fun rbrack c => ?_
    cases args.isEmpty
    · exact pure
    · exact of_error fun _ => rfl

theorem typeName : Asking typeName c.rest.tail c := by
  refine name.bind fun first c => (eat .dot).bind fun s c => ?_
  cases s with
  | none => exact (typeArgs c).finish
  | some s => exact ident.bind fun name c => (typeArgs c).finish

theorem arrayOrSlice : Asking arrayOrSlice c.rest.tail c := by
  refine bump.bind fun lbrack c => (eat .rbrack).bind fun s c => ?_
  cases s with
  | some s => exact here.finish
  | none =>
    refine look ?_
    cases c.isAt .ellipsis
    · exact (through _ _).bind fun _ _ => (expect _).bind fun _ _ => here.finish
    · exact of_error fun _ => rfl

theorem mapType : Asking mapType c.rest.tail c :=
  bump.bind fun _ _ => (expect _).bind fun _ _ => here.bind fun _ _ => (expect _).bind fun _ _ =>
    here.finish

theorem chanType : Asking chanType c.rest.tail c :=
  bump.bind fun _ _ => (eat .arrow).bind fun _ _ => here.finish

theorem receiveType : Asking receiveType c.rest.tail c :=
  bump.bind fun _ _ => (expect _).bind fun _ _ => here.finish

theorem element (c : Cursor) : Asking element c.rest c := by
  have hterm (c : Cursor) : Asking term c.rest c := (eat .tilde).bind fun _ _ => here.finish
  refine look ?_
  cases declaresMethod c.rest
  · exact (separated hterm .pipe c).map
  · exact ident.bind fun _ c => (signature c).finish

theorem interfaceType : Asking interfaceType c.rest.tail c :=
  bump.bind fun _ _ => (expect _).bind fun _ _ => (block element .rbrace _).finish

theorem structField (c : Cursor) : Asking structField c.rest c := by
  have hrest (names : List Ident) (embedded : Bool) (c₁ c : Cursor) :
      Asking (fun type => do
        let type ← type
        let tag ← Parse.stringLiteral?
        Parse.makeField c₁.here names type tag embedded) c.rest c :=
    here.bind fun t _ => stringLiteral?.bind fun tag _ => makeField _ names t tag embedded
  refine look ?_
  cases embeds? c.rest with
  | none => exact of_error fun _ => rfl
  | some embedded =>
    cases embedded
    · exact (separated (fun _ => ident) .comma c).bind fun names c' => hrest names false c c'
    · exact pure.bind fun names c' => hrest names true c c'

theorem structType : Asking structType c.rest.tail c :=
  bump.bind fun _ _ => (expect _).bind fun _ _ => (block structField .rbrace _).finish

theorem parenType : Asking parenType c.rest.tail c :=
  bump.bind fun _ _ => here.bind fun _ _ => (expect _).finish

/-- The form of a type asks for types after its first lexeme. -/
theorem typeForm (c : Cursor) : Asking typeForm c.rest.tail c := by
  obtain ⟨_ | ⟨⟨t, s⟩, ls⟩, last, textEnd, made⟩ := c
  · exact of_error fun _ => rfl
  cases t with
  | ident x => exact typeName.congr fun _ => rfl
  | mark m =>
    cases m with
    | star => exact (bump.bind fun _ _ => here.finish).congr fun _ => rfl
    | lbrack => exact arrayOrSlice.congr fun _ => rfl
    | arrow => exact receiveType.congr fun _ => rfl
    | lparen => exact parenType.congr fun _ => rfl
    | _ => exact of_error fun _ => rfl
  | keyword k =>
    cases k with
    | mapKw => exact mapType.congr fun _ => rfl
    | chanKw => exact chanType.congr fun _ => rfl
    | funcKw => exact (bump.bind fun _ c => (signature c).finish).congr fun _ => rfl
    | interfaceKw => exact interfaceType.congr fun _ => rfl
    | structKw => exact structType.congr fun _ => rfl
    | _ => exact of_error fun _ => rfl
  | _ => exact of_error fun _ => rfl

end Asking

/-- Reading the form of a type is asking for the types inside it. -/
theorem exists_reading : ∃ R : Cursor → Reading (TypeForm TypeNode),
    (∀ type c, typeForm type c = (R c).run type) ∧ ∀ c, (R c).Forward c.rest.tail := by
  choose R hR hforward using Asking.typeForm
  exact ⟨R, fun type c => hR c type, hforward⟩

end GoIface.Parse
