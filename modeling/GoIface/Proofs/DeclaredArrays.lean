import GoIface.Proofs.BracketLanguage
import GoIface.Tree.Declarations

/-!
# Arrays in type declarations

After the name of a declared type a bracket holds type parameters or the length of an array, and
the first two tokens in it decide. A length goes on with an operator after an identifier, so what
decides is whether that is `*` (`holdsTypeParams_iff`): it starts a pointer constraint as well. Such
a length is taken for type parameters, and any other gives the array type that is read elsewhere.
-/

namespace GoIface

/-- What stands between the operands of a length. -/
def lengthOperators : List Mark := [.plus, .minus, .star, .slash, .percent, .shl, .shr]

/-- Expressions of identifiers, integer literals, operators and parentheses. -/
inductive LengthExpr : List Token → Prop
  | name (x : String) : LengthExpr [.ident x]
  | literal (text : String) : LengthExpr [.literal .int text]
  | binary {ts us : List Token} {op : Mark} (hop : op ∈ lengthOperators) (hts : LengthExpr ts)
      (hus : LengthExpr us) : LengthExpr (ts ++ .mark op :: us)
  | paren {ts : List Token} (hts : LengthExpr ts) :
      LengthExpr (.mark .lparen :: (ts ++ [.mark .rparen]))

/-- The tokens start with an identifier and the sign of a product or of a pointer. -/
def StartsWithProduct (ts : List Token) : Prop :=
  ∃ x us, ts = .ident x :: .mark .star :: us

namespace LengthExpr

variable {ts : List Token}

theorem ne_nil (h : LengthExpr ts) : ts ≠ [] := by
  cases h <;> simp

theorem opens?_of_operator {op : Mark} (h : op ∈ lengthOperators) :
    (Token.mark op).opens? = none ∧ (Token.mark op).closes? = none := by
  revert op
  decide

theorem balanced (h : LengthExpr ts) : Balanced ts := by
  induction h with
  | name | literal => exact .plain rfl rfl .nil
  | binary hop _ _ ihts ihus =>
    obtain ⟨hopen, hclose⟩ := opens?_of_operator hop
    exact ihts.append (.plain hopen hclose ihus)
  | paren _ ih => exact .enclosed rfl rfl ih

/-- What comes first is no mark but the one that opens a bracket. -/
theorem head?_eq_mark (h : LengthExpr ts) {m : Mark} (hm : ts.head? = some (.mark m)) :
    m = .lparen := by
  induction h with
  | name | literal => cases hm
  | binary _ hts _ ih =>
    obtain ⟨t, ts, rfl⟩ := List.exists_cons_of_ne_nil hts.ne_nil
    exact ih hm
  | paren => cases hm; rfl

/-- After an identifier at the start comes an operator. -/
theorem exists_operator (h : LengthExpr ts) {x : String} {t : Token} {us : List Token}
    (hts : ts = .ident x :: t :: us) : ∃ op ∈ lengthOperators, t = .mark op := by
  induction h generalizing us with
  | name | literal | paren => cases hts
  | @binary ts vs op hop hleft _ ih =>
    obtain ⟨u, ts, rfl⟩ := List.exists_cons_of_ne_nil hleft.ne_nil
    obtain ⟨rfl, htail⟩ := List.cons.inj hts
    cases ts with
    | nil => exact ⟨op, hop, (List.cons.inj htail).1.symm⟩
    | cons v ts =>
      obtain ⟨rfl, -⟩ := List.cons.inj htail
      exact ih rfl

end LengthExpr

namespace Parse

variable {e after : List Lexeme} {l r : Lexeme}

/-- A length is taken for type parameters just if it starts as a product. -/
theorem holdsTypeParams_iff (he : LengthExpr (e.map Lexeme.token)) (hl : l.token = .mark .lbrack)
    (hr : r.token = .mark .rbrack) : holdsTypeParams (l :: (e ++ r :: after)) = true ↔
      StartsWithProduct (e.map Lexeme.token) := by
  obtain ⟨lt, ls⟩ := l
  obtain ⟨rt, rs⟩ := r
  obtain rfl : lt = .mark .lbrack := hl
  obtain rfl : rt = .mark .rbrack := hr
  cases e with
  | nil => exact absurd rfl he.ne_nil
  | cons a es =>
    obtain ⟨t₁, s₁⟩ := a
    cases es with
    | nil => cases t₁ <;> simp [holdsTypeParams, StartsWithProduct]
    | cons b bs =>
      obtain ⟨t₂, s₂⟩ := b
      cases t₁ with
      | ident x =>
        obtain ⟨op, hop, rfl⟩ := he.exists_operator rfl
        have hproduct : holdsTypeParams (⟨.mark .lbrack, ls⟩ :: ⟨.ident x, s₁⟩ ::
            ⟨.mark op, s₂⟩ :: (bs ++ ⟨.mark .rbrack, rs⟩ :: after)) = true ↔ op = .star := by
          rw [lengthOperators] at hop
          simp only [List.mem_cons, List.not_mem_nil, or_false] at hop
          rcases hop with rfl | rfl | rfl | rfl | rfl | rfl | rfl <;> simp [holdsTypeParams]
        refine hproduct.trans ?_
        simp [StartsWithProduct]
      | _ => simp [holdsTypeParams, StartsWithProduct]

variable {c : Cursor} {T : Lexeme} {x : String}

theorem typeForm_lbrack (type : Parse TypeNode) (hrest : c.rest = l :: after)
    (hl : l.token = .mark .lbrack) : typeForm type c = arrayOrSlice type c := by
  obtain ⟨rest, last, textEnd, made⟩ := c
  obtain ⟨lt, ls⟩ := l
  obtain rfl : lt = .mark .lbrack := hl
  obtain rfl : rest = ⟨.mark .lbrack, ls⟩ :: after := hrest
  rfl

theorem arrayOrSlice_length (type : Parse TypeNode) (he : LengthExpr (e.map Lexeme.token))
    (hr : r.token = .mark .rbrack) (hrest : c.rest = l :: (e ++ r :: after)) :
    ∃ first ∈ e.head?, ∃ last ∈ e.getLast?, arrayOrSlice type c
      = (type >>= fun elem => pure (.array (first.span.hull last.span) elem))
        { c with rest := after, last := r.span } := by
  obtain ⟨first, es, rfl⟩ := List.exists_cons_of_ne_nil (List.map_eq_nil_iff.not.1 he.ne_nil)
  obtain ⟨last, hlast⟩ : ∃ last, (first :: es).getLast? = some last := ⟨_, List.getLast?_cons⟩
  refine ⟨first, rfl, last, hlast, ?_⟩
  let c₁ : Cursor := { c with rest := first :: es ++ r :: after, last := l.span }
  let c₂ : Cursor := { c with rest := r :: after, last := last.span }
  have hnext (m : Mark) (hm : m ≠ .lparen) : c₁.next? ≠ some (.mark m) :=
    fun h => hm (he.head?_eq_mark h)
  have hbump : bump c = .ok (l.span, c₁) := by
    rw [bump, hrest]
  have hthrough : through .arrayLength (· == .mark .rbrack) c₁
      = .ok (first.span.hull last.span, c₂) :=
    through_ok_iff.2 ⟨first :: es, last, r :: after, rfl,
      he.balanced.unbroken (fun _ h => beq_eq_false_iff_ne.2 (by rintro rfl; cases h)), hlast,
      by simp [hr], rfl, rfl⟩
  have hclose : expect (.mark .rbrack) c₂
      = .ok (r.span, { c with rest := after, last := r.span }) :=
    expect_eq_ok_iff.2 ⟨r, after, rfl, hr, rfl, rfl⟩
  have hafter : arrayOrSlice type c = (if c₁.isAt .ellipsis then failHere .openLength else do
      let length ← through .arrayLength (· == .mark .rbrack)
      let _ ← expect (.mark .rbrack)
      return .array length (← type)) c₁ := by
    rw [arrayOrSlice, bind_of_ok hbump, bind_of_ok (eat_none (hnext _ (by decide)))]
    rfl
  rw [hafter, if_neg (mt Cursor.isAt_iff.1 (hnext _ (by decide))), bind_of_ok hthrough,
    bind_of_ok hclose]

/-- Where a type is read, the bracket gives an array type with the length in it. -/
theorem type_array (he : LengthExpr (e.map Lexeme.token)) (hl : l.token = .mark .lbrack)
    (hr : r.token = .mark .rbrack) (hrest : c.rest = l :: (e ++ r :: after)) :
    ∃ first ∈ e.head?, ∃ last ∈ e.getLast?, type c
      = (typeWithin (nestingLimit - 1) >>= fun elem =>
          makeType l.span (.array (first.span.hull last.span) elem))
        { c with rest := after, last := r.span } := by
  obtain ⟨first, hfirst, last, hlast, harray⟩ :=
    arrayOrSlice_length (typeWithin (nestingLimit - 1)) he hr hrest
  refine ⟨first, hfirst, last, hlast, ?_⟩
  have hhere : c.here = l.span := by
    simp [Cursor.here, hrest]
  have hread : type c = (typeForm (typeWithin (nestingLimit - 1)) >>= makeType c.here) c := rfl
  have hform := (typeForm_lbrack (typeWithin (nestingLimit - 1)) hrest hl).trans harray
  rcases helem : typeWithin (nestingLimit - 1) { c with rest := after, last := r.span }
    with err | ⟨elem, c'⟩
  · rw [hread, bind_of_error (hform.trans (bind_of_error helem)), bind_of_error helem]
  · rw [hread, bind_of_ok (hform.trans (bind_of_ok helem)), bind_of_ok helem, hhere]

/-- What is read after the name of a type and its parameters. -/
def specOf (name : Ident) (params : Option Span) : Parse TypeSpec := do
  let assign ← eat .assign
  return ⟨name, params, assign, ← type⟩

theorem specOf_type {name : Ident} {params : Option Span}
    (hassign : c.next? ≠ some (.mark .assign)) :
    specOf name params c = (type >>= fun t => pure ⟨name, params, none, t⟩) c := by
  rw [specOf, bind_of_ok (eat_none hassign)]

theorem typeSpec_eq {ls : List Lexeme} (hT : T.token = .ident x) (hrest : c.rest = T :: ls) :
    typeSpec c = (if holdsTypeParams ls then
        some <$> bracketed >>= specOf ⟨x, T.span⟩ else specOf ⟨x, T.span⟩ none)
      { c with rest := ls, last := T.span } := by
  rw [typeSpec, bind_of_ok (ident_eq_ok_iff.2 ⟨T, _, x, hrest, hT, rfl, rfl⟩)]
  rfl

theorem typeSpec_array (he : LengthExpr (e.map Lexeme.token)) (hT : T.token = .ident x)
    (hl : l.token = .mark .lbrack) (hr : r.token = .mark .rbrack)
    (hrest : c.rest = T :: l :: (e ++ r :: after)) (h : ¬ StartsWithProduct (e.map Lexeme.token)) :
    typeSpec c = (type >>= fun t => pure ⟨⟨x, T.span⟩, none, none, t⟩)
      { c with rest := l :: (e ++ r :: after), last := T.span } := by
  rw [typeSpec_eq hT hrest, if_neg (mt (holdsTypeParams_iff he hl hr).1 h)]
  exact specOf_type (by simp [Cursor.next?, hl])

theorem typeSpec_params (he : LengthExpr (e.map Lexeme.token)) (hT : T.token = .ident x)
    (hl : l.token = .mark .lbrack) (hr : r.token = .mark .rbrack)
    (hrest : c.rest = T :: l :: (e ++ r :: after)) (h : StartsWithProduct (e.map Lexeme.token))
    (hassign : after.head?.map Lexeme.token ≠ some (.mark .assign)) :
    typeSpec c = (type >>= fun t => pure ⟨⟨x, T.span⟩, some (l.span.hull r.span), none, t⟩)
      { c with rest := after, last := r.span } := by
  have hbracket : bracketed { c with rest := l :: (e ++ r :: after), last := T.span }
      = .ok (l.span.hull r.span, { c with rest := after, last := r.span }) :=
    (bracketed_ok_iff rfl (by rw [hl]; rfl)).2
      ⟨e, r, after, rfl, he.balanced, by rw [hr]; rfl, rfl, rfl⟩
  have hsome : (some <$> bracketed) { c with rest := l :: (e ++ r :: after), last := T.span }
      = .ok (some (l.span.hull r.span), { c with rest := after, last := r.span }) :=
    bind_of_ok (f := fun s => pure (some s)) hbracket
  rw [typeSpec_eq hT hrest, if_pos ((holdsTypeParams_iff he hl hr).2 h),
    bind_of_ok hsome]
  exact specOf_type hassign

/-- An element type does not start with the sign of an alias. -/
theorem head?_ne_assign {room : Nat} {elem : TypeNode} {c' : Cursor}
    (h : typeWithin room c = .ok (elem, c')) : c.next? ≠ some (.mark .assign) := by
  obtain ⟨ls, hls, ⟨⟨t, us, hus, ht⟩, -⟩, -⟩ := Consumes.typeWithin room c elem c' h
  obtain ⟨k, ks, rfl, rfl, -⟩ := List.map_eq_cons_iff.1 hus
  rw [Cursor.next?, hls]
  rintro hk
  rw [Option.some.inj hk] at ht
  cases ht

/-- A declared array is read as the array type that stands elsewhere just if its length does not
start with an identifier before `*`. Else the length is taken for type parameters, and what is
declared is the element type. -/
theorem declared_array_is_array_iff (he : LengthExpr (e.map Lexeme.token))
    (hT : T.token = .ident x) (hl : l.token = .mark .lbrack) (hr : r.token = .mark .rbrack)
    (hrest : c.rest = T :: l :: (e ++ r :: after)) :
    let name : Ident := ⟨x, T.span⟩
    let bracket : Cursor := { c with rest := l :: (e ++ r :: after), last := T.span }
    let element : Cursor := { c with rest := after, last := r.span }
    (∃ first ∈ e.head?, ∃ last ∈ e.getLast?, type bracket
      = (typeWithin (nestingLimit - 1) >>= fun elem =>
          makeType l.span (.array (first.span.hull last.span) elem)) element) ∧
    (¬ StartsWithProduct (e.map Lexeme.token) →
      typeSpec c = (type >>= fun t => pure ⟨name, none, none, t⟩) bracket) ∧
    ∀ elem c', typeWithin (nestingLimit - 1) element = .ok (elem, c') →
      ((∃ t c', type bracket = .ok (t, c') ∧ typeSpec c = .ok (⟨name, none, none, t⟩, c')) ↔
        ¬ StartsWithProduct (e.map Lexeme.token)) ∧
      (StartsWithProduct (e.map Lexeme.token) → typeSpec c
        = (type >>= fun t => pure ⟨name, some (l.span.hull r.span), none, t⟩) element) := by
  intro name bracket element
  have harray := type_array (c := bracket) he hl hr rfl
  have hspec := typeSpec_array he hT hl hr hrest
  refine ⟨harray, hspec, fun elem c' helem => ?_⟩
  have hparams (h : StartsWithProduct (e.map Lexeme.token)) :=
    typeSpec_params he hT hl hr hrest h (head?_ne_assign helem)
  refine ⟨⟨?_, fun h => ?_⟩, hparams⟩
  · rintro ⟨t, c₁, -, hread⟩ h
    rw [hparams h] at hread
    obtain ⟨u, c₂, -, hu⟩ := ok_of_bind hread
    cases hu
  · obtain ⟨first, -, last, -, hread⟩ := harray
    obtain ⟨t, c₁, ht⟩ : ∃ t c₁, type bracket = .ok (t, c₁) := by
      rw [hread, bind_of_ok helem]
      exact ⟨_, _, rfl⟩
    refine ⟨t, c₁, ht, ?_⟩
    rw [hspec h, bind_of_ok ht]
    rfl

/-- Of `T [N * 4]int` the length is lost, and `T` is declared as a generic `int`. -/
theorem product_length_is_lost :
    let e : List Lexeme := [⟨.ident "N", ⟨18, 19⟩⟩, ⟨.mark .star, ⟨20, 21⟩⟩,
      ⟨.literal .int "4", ⟨22, 23⟩⟩]
    let c : Cursor := ⟨⟨.ident "T", ⟨15, 16⟩⟩ :: ⟨.mark .lbrack, ⟨17, 18⟩⟩ ::
      (e ++ ⟨.mark .rbrack, ⟨23, 24⟩⟩ :: [⟨.ident "int", ⟨24, 27⟩⟩]), ⟨10, 14⟩, 27,
        ⟨0, 0, 0, 0, 0⟩⟩
    LengthExpr (e.map Lexeme.token) ∧ (typeSpec c).toOption.map Prod.fst
      = some ⟨⟨"T", ⟨15, 16⟩⟩, some ⟨17, 24⟩, none,
          .mk 0 ⟨24, 27⟩ (.named none ⟨"int", ⟨24, 27⟩⟩ [])⟩ := by
  intro e c
  have he : LengthExpr (e.map Lexeme.token) :=
    @LengthExpr.binary _ _ .star (by decide) (.name "N") (.literal "4")
  have hproduct : StartsWithProduct (e.map Lexeme.token) := ⟨_, _, rfl⟩
  obtain ⟨-, -, hread⟩ := declared_array_is_array_iff (c := c) (e := e) he rfl rfl rfl rfl
  rw [(hread _ _ rfl).2 hproduct]
  exact ⟨he, rfl⟩

end Parse

end GoIface
