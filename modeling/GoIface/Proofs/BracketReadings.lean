import GoIface.Proofs.TypeReading
import GoIface.Proofs.Unrolling
import GoIface.Tree.Declarations

/-!
# Entries that start with an identifier and a bracket

Such an entry of a parameter list or a struct is a name before the type of an array or slice, or it
is a type with arguments. Looking ahead decides by what comes after the bracket that closes the
first one. It only counts brackets, but what is read as either type is level, so it looks just where
the reader gets to: an array or slice goes on with a type there (`holdsTypeArgs_of_array`), and the
arguments of a type end there (`holdsTypeArgs_of_args`). So the reading that is not tried would fail
or stop before a type, where no entry ends.
-/

namespace GoIface.Parse

open Takes (afterItem afterField)

variable {α : Type}

/-! ## Two readings of an entry -/

/-- An entry of a parameter list, read with a name before its type or without one. -/
def paramEntryAs (type : Parse TypeNode) (named : Bool) : Parse (ParamEntry TypeNode) := do
  let c ← get
  let names ← (if named then List.singleton <$> ident else pure [])
  let ellipsis ← eat .ellipsis
  let type ← type
  return ⟨names, ellipsis, some type, ← spanFrom c.here⟩

/-- An entry of a struct, read as an embedded type or as names before a type. -/
def structFieldAs (type : Parse TypeNode) (embedded : Bool) : Parse (Field TypeNode) := do
  let c ← get
  let names ← (if embedded then pure [] else separated .comma ident)
  let type ← type
  let tag ← stringLiteral?
  makeField c.here names type tag embedded

/-- What may follow a parameter, or the type of a field. -/
def afterEntry : Follow := fun o => afterItem .rparen o ∨ afterField o

/-- The reader fails, or stops before a token that does not follow an entry. -/
def GoesAstray (p : Parse α) (c : Cursor) : Prop :=
  ∀ x c', p c = .ok (x, c') → ∃ t, c'.next? = some t ∧ ¬ afterEntry (some t)

theorem GoesAstray.of_error {p : Parse α} {c : Cursor} {e : Located ParseFault}
    (h : p c = .error e) : GoesAstray p c := by
  intro x c' hok
  rw [h] at hok
  cases hok

/-- Of two readings one is made. If the other goes astray, one that does not is the one made. -/
theorem eq_of_afterEntry {p : Parse α} {q : Bool → Parse α} {made : Bool} {c : Cursor}
    (hp : p c = q made c) (h : GoesAstray (q !made) c) {b : Bool} {x : α} {c' : Cursor}
    (hok : q b c = .ok (x, c')) (hafter : afterEntry c'.next?) : p c = .ok (x, c') := by
  by_cases hb : b = made
  · rw [hp, ← hb, hok]
  · rw [← Bool.eq_not.2 hb] at h
    obtain ⟨t, ht, hnot⟩ := h x c' hok
    exact absurd (ht ▸ hafter) hnot

theorem not_afterEntry {t : Token} (h : t.startsType = true) : ¬ afterEntry (some t) := by
  rintro ((h' | h') | (h' | h') | ⟨ts, ⟨kind, text, rfl, -⟩, h'⟩) <;> cases h' <;> cases h

section

variable {c : Cursor} {l k : Lexeme} {ks : List Lexeme} {n : String} (type : Parse TypeNode)
  (hrest : c.rest = l :: k :: ks) (hl : l.token = .ident n) (hk : k.token = .mark .lbrack)

include hrest hl hk

theorem paramEntry_eq : paramEntry type c = paramEntryAs type (!holdsTypeArgs 0 (k :: ks)) c := by
  have hstart : entryStart c.rest
      = if holdsTypeArgs 0 (k :: ks) then .unnamed else .named := by
    obtain ⟨_, s⟩ := l
    obtain rfl := hl
    simp [hrest, entryStart, hk]
  rw [paramEntry, get_bind]
  simp only [hstart]
  cases holdsTypeArgs 0 (k :: ks) <;> rfl

theorem structField_eq :
    structField type c = structFieldAs type (holdsTypeArgs 0 (k :: ks)) c := by
  have hembeds : embeds? c.rest = some (holdsTypeArgs 0 (k :: ks)) := by
    obtain ⟨_, s⟩ := l
    obtain rfl := hl
    simp [hrest, embeds?, hk]
  rw [structField, get_bind]
  simp only [hembeds]
  cases holdsTypeArgs 0 (k :: ks) <;> rfl

end

section

variable {type : Parse TypeNode} {c c₁ : Cursor}

theorem paramEntryAs_of_names (named : Bool) {names : List Ident}
    (hnames : (if named then List.singleton <$> ident else pure []) c = .ok (names, c₁))
    (hnext : c₁.next? ≠ some (.mark .ellipsis)) :
    paramEntryAs type named c = (type >>= fun type => do
      return ⟨names, none, some type, ← spanFrom c.here⟩) c₁ := by
  rw [paramEntryAs, get_bind, bind_of_ok hnames, bind_of_ok (eat_none hnext)]

theorem structFieldAs_of_names (embedded : Bool) {names : List Ident}
    (hnames : (if embedded then pure [] else separated .comma ident) c = .ok (names, c₁)) :
    structFieldAs type embedded c = (type >>= fun type => stringLiteral? >>= fun tag =>
      makeField c.here names type tag embedded) c₁ := by
  rw [structFieldAs, get_bind, bind_of_ok hnames]

/-! Read as a name and a type. -/

section Named

variable {x : Ident} {e : Located ParseFault} (hname : ident c = .ok (x, c₁))
  (hnext : c₁.next? = some (.mark .lbrack)) (h : type c₁ = .error e)

include hname hnext h

theorem paramEntryAs_named : paramEntryAs type true c = .error e := by
  have hnames : (List.singleton <$> ident) c = .ok ([x], c₁) :=
    bind_of_ok (f := fun x => pure [x]) hname
  rw [paramEntryAs_of_names true hnames (by simp [hnext]), bind_of_error h]

theorem structFieldAs_named : structFieldAs type false c = .error e := by
  have hnames : separated .comma ident c = .ok ([x], c₁) :=
    separated_of_last hname (by simp [hnext])
  rw [structFieldAs_of_names false hnames, bind_of_error h]

end Named

/-! Read as a type. -/

theorem paramEntryAs_unnamed (h : GoesAstray type c) (hnext : c.next? ≠ some (.mark .ellipsis)) :
    GoesAstray (paramEntryAs type false) c := by
  intro p c' hok
  rw [paramEntryAs_of_names false rfl hnext] at hok
  obtain ⟨t, c₁, ht, hmade⟩ := ok_of_bind hok
  cases hmade
  exact h t _ ht

theorem structFieldAs_embedded (h : GoesAstray type c) :
    GoesAstray (structFieldAs type true) c := by
  intro x c' hok
  rw [structFieldAs_of_names true rfl] at hok
  obtain ⟨t, c₁, ht, hok⟩ := ok_of_bind hok
  obtain ⟨u, hu, hafter⟩ := h t c₁ ht
  -- so there is no tag to read
  have htag : ∀ v, c₁.next? = some v → ¬ IsTag [v] := by
    intro v hv htag
    obtain rfl := Option.some.inj (hu.symm.trans hv)
    exact hafter (.inr (.inr ⟨_, htag, rfl⟩))
  rw [bind_of_ok (stringLiteral?_none htag)] at hok
  cases hok
  exact ⟨u, hu, hafter⟩

end

/-! ## Where the brackets close -/

theorem typeForm_ident (type : Parse TypeNode) {c : Cursor} {l : Lexeme} {ls : List Lexeme}
    {n : String} (hrest : c.rest = l :: ls) (hl : l.token = .ident n) :
    typeForm type c = typeName type c := by
  obtain ⟨rest, last, textEnd, made⟩ := c
  obtain ⟨_, s⟩ := l
  obtain rfl := hl
  obtain rfl : rest = ⟨.ident n, s⟩ :: ls := hrest
  rfl

/-- A name and the bracket after it are read with the arguments in the bracket. -/
theorem args_of_typeName {type : Parse TypeNode} (htype : ∀ c, Consumes type Level c)
    {c c' : Cursor} {l k : Lexeme} {ks : List Lexeme} {n : String} {form : TypeForm TypeNode}
    (hrest : c.rest = l :: k :: ks) (hl : l.token = .ident n) (hk : k.token = .mark .lbrack)
    (hok : typeName type c = .ok (form, c')) :
    ∃ ls inner, ks = ls ++ c'.rest ∧ ls.map Lexeme.token = inner ++ [Token.mark .rbrack] ∧
      Level inner := by
  let c₁ : Cursor := { c with rest := k :: ks, last := l.span }
  have hname : ident c = .ok (⟨n, l.span⟩, c₁) := ident_eq_ok_iff.2 ⟨l, _, n, hrest, hl, rfl, rfl⟩
  have hdot : c₁.next? ≠ some (.mark .dot) := by simp [c₁, Cursor.next?, hk]
  have hbrack : eat .lbrack c₁ = .ok (some k.span, { c₁ with rest := ks, last := k.span }) :=
    eat_some rfl hk
  rw [typeName, bind_of_ok hname, bind_of_ok (eat_none hdot)] at hok
  obtain ⟨args, c₂, hargs, hmade⟩ := ok_of_bind hok
  cases hmade
  rw [typeArgs, bind_of_ok hbrack] at hargs
  obtain ⟨ls, hls, inner, hinner, hlevel⟩ := Consumes.argsToClose htype args _ hargs
  exact ⟨ls, inner, hls, hinner, hlevel⟩

section

variable {c c' : Cursor} {l k : Lexeme} {ks : List Lexeme} {n : String} {room : Nat} {t : TypeNode}
  (hok : typeWithin room c = .ok (t, c'))

include hok

/-- An array or slice goes on with a type where its first bracket closes. -/
theorem holdsTypeArgs_of_array (hrest : c.rest = k :: ks) (hk : k.token = .mark .lbrack) :
    holdsTypeArgs 0 (k :: ks) = false := by
  obtain ⟨ls, hls, htype, -⟩ := Consumes.typeWithin room c t c' hok
  obtain ⟨u, us, hus, -⟩ := htype.starts
  obtain ⟨k', ls, rfl, rfl, hmap⟩ := List.map_eq_cons_iff.1 hus
  obtain ⟨rfl, rfl⟩ := List.cons.inj (hrest.symm.trans hls)
  obtain ⟨inner, v, vs, hinner, hlevel, hv⟩ := htype.bracket us (by rw [hus, hk])
  exact holdsTypeArgs_before hk hlevel (hmap.trans hinner) hv c'.rest

/-- A type with arguments ends where the bracket around them closes. -/
theorem holdsTypeArgs_of_args (hrest : c.rest = l :: k :: ks) (hl : l.token = .ident n)
    (hk : k.token = .mark .lbrack) :
    holdsTypeArgs 0 (k :: ks) = !(c'.rest.head?.any (·.token.startsType)) := by
  obtain _ | room := room
  · cases hok
  have hread : typeWithin (room + 1) c
      = (typeForm (typeWithin room) >>= makeType c.here) c := rfl
  rw [hread] at hok
  obtain ⟨form, c₁, hform, hmade⟩ := ok_of_bind hok
  cases hmade
  rw [typeForm_ident _ hrest hl] at hform
  obtain ⟨ls, inner, rfl, hinner, hlevel⟩ :=
    args_of_typeName (Consumes.level (Consumes.typeWithin room)) hrest hl hk hform
  have hclosed : (k :: ls).map Lexeme.token
      = .mark .lbrack :: (inner ++ [Token.mark .rbrack]) := by
    rw [List.map_cons, hk, hinner]
  exact holdsTypeArgs_enclosed rfl rfl hlevel hclosed c₁.rest

end

/-! ## No right reading is shut out -/

section

variable (room : Nat) {c : Cursor} {l k : Lexeme} {ks : List Lexeme} {n : String}
  (hrest : c.rest = l :: k :: ks) (hl : l.token = .ident n) (hk : k.token = .mark .lbrack)

include hrest hl hk

theorem named_fails (hargs : holdsTypeArgs 0 (k :: ks) = true) :
    ∃ e, typeWithin room { c with rest := k :: ks, last := l.span } = .error e ∧
      paramEntryAs (typeWithin room) true c = .error e ∧
      structFieldAs (typeWithin room) false c = .error e := by
  have hname : ident c = .ok (⟨n, l.span⟩, { c with rest := k :: ks, last := l.span }) :=
    ident_eq_ok_iff.2 ⟨l, k :: ks, n, hrest, hl, rfl, rfl⟩
  have hnext : Cursor.next? { c with rest := k :: ks, last := l.span } = some (.mark .lbrack) := by
    simp [Cursor.next?, hk]
  rcases hread : typeWithin room { c with rest := k :: ks, last := l.span } with e | ⟨t, c'⟩
  · exact ⟨e, rfl, paramEntryAs_named hname hnext hread, structFieldAs_named hname hnext hread⟩
  · rw [holdsTypeArgs_of_array hread rfl hk] at hargs
    cases hargs

theorem unnamed_goesAstray (hargs : holdsTypeArgs 0 (k :: ks) = false) :
    GoesAstray (typeWithin room) c ∧ GoesAstray (paramEntryAs (typeWithin room) false) c ∧
      GoesAstray (structFieldAs (typeWithin room) true) c := by
  have htype : GoesAstray (typeWithin room) c := by
    intro t c' hok
    rw [holdsTypeArgs_of_args hok hrest hl hk, Bool.not_eq_false', Option.any_eq_true] at hargs
    obtain ⟨u, hu, hstarts⟩ := hargs
    exact ⟨u.token, by rw [Cursor.next?, hu]; rfl, not_afterEntry hstarts⟩
  exact ⟨htype, paramEntryAs_unnamed htype (by simp [Cursor.next?, hrest, hl]),
    structFieldAs_embedded htype⟩

theorem paramEntryAs_goesAstray :
    GoesAstray (paramEntryAs (typeWithin room) (holdsTypeArgs 0 (k :: ks))) c := by
  cases hargs : holdsTypeArgs 0 (k :: ks) with
  | true =>
    obtain ⟨e, -, herror, -⟩ := named_fails room hrest hl hk hargs
    exact .of_error herror
  | false => exact (unnamed_goesAstray room hrest hl hk hargs).2.1

theorem structFieldAs_goesAstray :
    GoesAstray (structFieldAs (typeWithin room) !(holdsTypeArgs 0 (k :: ks))) c := by
  cases hargs : holdsTypeArgs 0 (k :: ks) with
  | true =>
    obtain ⟨e, -, -, herror⟩ := named_fails room hrest hl hk hargs
    exact .of_error herror
  | false => exact (unnamed_goesAstray room hrest hl hk hargs).2.2

end

/-- Where an entry starts with an identifier and a bracket, the reading that looking ahead decides
against fails or stops where no entry ends, however the brackets in it are nested and whether or not
they match. So a reading that stops where an entry may end is the one that is made. -/
theorem no_right_reading_is_shut_out (room : Nat) {c : Cursor} {l k : Lexeme} {ks : List Lexeme}
    {n : String} (hrest : c.rest = l :: k :: ks) (hl : l.token = .ident n)
    (hk : k.token = .mark .lbrack) :
    let type := typeWithin room
    let args := holdsTypeArgs 0 (k :: ks)
    (paramEntry type c = paramEntryAs type (!args) c ∧
      structField type c = structFieldAs type args c) ∧
    (args = true → ∃ e, type { c with rest := k :: ks, last := l.span } = .error e ∧
      paramEntryAs type true c = .error e ∧ structFieldAs type false c = .error e) ∧
    (args = false → GoesAstray type c ∧
      GoesAstray (paramEntryAs type false) c ∧ GoesAstray (structFieldAs type true) c) ∧
    (∀ named p c', paramEntryAs type named c = .ok (p, c') → afterEntry c'.next? →
      paramEntry type c = .ok (p, c')) ∧
    ∀ embedded x c', structFieldAs type embedded c = .ok (x, c') → afterEntry c'.next? →
      structField type c = .ok (x, c') := by
  intro type args
  have hparam := paramEntry_eq type hrest hl hk
  have hfield := structField_eq type hrest hl hk
  refine ⟨⟨hparam, hfield⟩, named_fails room hrest hl hk, unnamed_goesAstray room hrest hl hk,
    fun named p c' hok => ?_, fun embedded x c' hok => ?_⟩
  · refine eq_of_afterEntry hparam ?_ hok
    rw [Bool.not_not]
    exact paramEntryAs_goesAstray room hrest hl hk
  · exact eq_of_afterEntry hfield (structFieldAs_goesAstray room hrest hl hk) hok

/-- `Pair` can only be a type there, and `buf` only a name, though `buf[N]` is read as a type. -/
theorem pair_is_type_and_buf_is_name :
    let pair := Cursor.ofLexemes (lex "Pair[K, func([]V)], n int") 25
    let buf := Cursor.ofLexemes (lex "buf [N]byte, n int") 18
    (holdsTypeArgs 0 pair.rest.tail = true ∧ ∃ e, paramEntryAs type true pair = .error e ∧
      structFieldAs type false pair = .error e) ∧
    holdsTypeArgs 0 buf.rest.tail = false ∧ (∃ t c', type buf = .ok (t, c')) ∧
      GoesAstray type buf ∧ GoesAstray (paramEntryAs type false) buf := by
  intro pair buf
  have hpair : pair.rest = ⟨.ident "Pair", ⟨0, 4⟩⟩ :: ⟨.mark .lbrack, ⟨4, 5⟩⟩ ::
      pair.rest.drop 2 := by decide +kernel
  have hbuf : buf.rest = ⟨.ident "buf", ⟨0, 3⟩⟩ :: ⟨.mark .lbrack, ⟨4, 5⟩⟩ ::
      buf.rest.drop 2 := by decide +kernel
  have hargs : holdsTypeArgs 0 pair.rest.tail = true := by decide +kernel
  have hlength : holdsTypeArgs 0 buf.rest.tail = false := by decide +kernel
  obtain ⟨-, hfails, -⟩ := no_right_reading_is_shut_out nestingLimit hpair rfl rfl
  obtain ⟨-, -, hastray, -⟩ := no_right_reading_is_shut_out nestingLimit hbuf rfl rfl
  obtain ⟨e, -, herror⟩ := hfails (by rw [hpair] at hargs; exact hargs)
  obtain ⟨htype, hparam, -⟩ := hastray (by rw [hbuf] at hlength; exact hlength)
  have hread : (type buf).toOption.isSome = true := by decide +kernel
  refine ⟨⟨hargs, e, herror⟩, hlength, ?_, htype, hparam⟩
  rcases hok : type buf with e | ⟨t, c'⟩
  · rw [hok] at hread
    cases hread
  · exact ⟨t, c', rfl⟩

end GoIface.Parse
