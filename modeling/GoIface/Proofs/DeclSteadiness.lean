import GoIface.Proofs.Steadiness
import GoIface.Tree.Declarations

/-!
# Reading declarations in a text that goes on

A declaration is read the same however the text goes on after the token that comes next
(`Steady.decl`), and so is an import. What is skipped in one ends at a bracket that is closed or
where the token that comes next ends it, so nothing of it depends on what comes later. A
declaration never ends in a semicolon (`Consumes.decl`): the one after it is left.
-/

namespace GoIface

variable {α β : Type}

/-- The tokens end, and not in a semicolon. -/
def Complete (ts : List Token) : Prop := ∃ init t, ts = init ++ [t] ∧ t ≠ .mark .semi

theorem Complete.ne_nil {ts : List Token} (h : Complete ts) : ts ≠ [] := by
  obtain ⟨init, t, rfl, -⟩ := h
  simp

theorem Complete.after {us : List Token} (h : Complete us) (ts : List Token) :
    Complete (ts ++ us) := by
  obtain ⟨init, t, rfl, ht⟩ := h
  exact ⟨ts ++ init, t, (List.append_assoc ..).symm, ht⟩

theorem EndsLine.complete {ts : List Token} (h : EndsLine ts) : Complete ts := by
  obtain ⟨init, t, rfl, ht⟩ := h
  refine ⟨init, t, rfl, ?_⟩
  rintro rfl
  simp [Token.endsStatement] at ht

/-- What is passed over ends in a bracket that closes or in what is passed over outside brackets. -/
theorem last_of_passOver {P : Token → Prop} {stop : Token → Bool}
    (houtside : ∀ t, stop t = false → P t) (hclose : ∀ t, t.closes?.isSome = true → P t)
    {bs : List Bracket} {opener : Span} {ls before after : List Lexeme}
    (h : passOver stop bs opener ls = .ok (before, after)) :
    before = [] ∨ ∃ init t, before.map Lexeme.token = init ++ [t] ∧ P t := by
  have hcons {l : Lexeme} {bs : List Bracket} {opener : Span} {ls passed : List Lexeme}
      (hl : bs = [] → P l.token) (h : passOver stop bs opener ls = .ok (passed, after))
      (ih : passed = [] ∨ ∃ init t, passed.map Lexeme.token = init ++ [t] ∧ P t) :
      ∃ init t, (l :: passed).map Lexeme.token = init ++ [t] ∧ P t := by
    rcases ih with rfl | ⟨init, t, hpassed, ht⟩
    · have hlevel := openAfter_of_passOver h
      exact ⟨[], l.token, rfl, hl (by simpa [openAfter] using hlevel)⟩
    · exact ⟨l.token :: init, t, by rw [List.map_cons, hpassed]; rfl, ht⟩
  fun_induction passOver stop bs opener ls generalizing before with
  | case1 | case3 =>
    cases h
    exact .inl rfl
  | case2 | case4 | case8 => simp at h
  | case5 _ l ls hgo _ ih =>
    obtain ⟨passed, rfl, hpassed⟩ := passed_cons h
    exact .inr (hcons (fun _ => houtside _ (by simpa using hgo)) hpassed (ih hpassed))
  | case6 _ _ _ _ _ _ _ ih | case9 _ _ _ _ _ _ _ ih =>
    obtain ⟨passed, rfl, hpassed⟩ := passed_cons h
    exact .inr (hcons (fun hbs => by simp at hbs) hpassed (ih hpassed))
  | case7 _ _ l _ _ hl _ ih =>
    obtain ⟨passed, rfl, hpassed⟩ := passed_cons h
    exact .inr (hcons (fun _ => hclose _ (by simp [hl])) hpassed (ih hpassed))

theorem Token.endsStatement_of_closes? {t : Token} (h : t.closes?.isSome = true) :
    t.endsStatement = true := by
  unfold closes? at h
  split at h <;> first | rfl | simp at h

namespace Parse

/-! ## Type parameters -/

theorem holdsTypeParams_of_ne {l : Lexeme} (h : l.token ≠ .mark .lbrack) (ls : List Lexeme) :
    holdsTypeParams (l :: ls) = false := by
  unfold holdsTypeParams
  split
  · next heq =>
    obtain ⟨rfl, -⟩ := List.cons.inj heq
    exact absurd rfl h
  · rfl

/-- What tells type parameters from a length stands before the bracket is closed. -/
theorem holdsTypeParams_congr {ls : List Lexeme} (hls : Level (ls.map Lexeme.token))
    (hne : ls ≠ []) (q r : List Lexeme) :
    holdsTypeParams (ls ++ q) = holdsTypeParams (ls ++ r) := by
  obtain ⟨l, ls, rfl⟩ := List.exists_cons_of_ne_nil hne
  by_cases hl : l.token = .mark .lbrack
  · obtain ⟨t, s⟩ := l
    obtain rfl : t = _ := hl
    rcases ls with _ | ⟨⟨u, s'⟩, _ | ⟨m, ls⟩⟩
    · simp [Level, openAfter, Token.opens?] at hls
    · cases u with
      | ident name => simp [Level, openAfter, Token.opens?, Token.closes?] at hls
      | _ => rfl
    · cases u <;> rfl
  · rw [List.cons_append, List.cons_append, holdsTypeParams_of_ne hl, holdsTypeParams_of_ne hl]

theorem holdsTypeParams_opens {c : Cursor} (h : holdsTypeParams c.rest = true) :
    c.next?.bind Token.opens? = some .square := by
  rcases hrest : c.rest with _ | ⟨l, ls⟩
  · simp [hrest, holdsTypeParams] at h
  · by_cases hl : l.token = .mark .lbrack
    · simp [Cursor.next?, hrest, hl, Token.opens?]
    · rw [hrest, holdsTypeParams_of_ne hl] at h
      simp at h

/-! ## What is skipped -/

theorem opens?_of_isAt {c : Cursor} {m : Mark} {b : Bracket} (hc : c.isAt m = true)
    (hm : (Token.mark m).opens? = some b) : c.next?.bind Token.opens? = some b := by
  rw [Cursor.isAt_iff.1 hc]
  exact hm

/-! ## What comes before it -/

theorem ite_bind_eq {b : Prop} [Decidable b] (p q : Parse α) (k : α → Parse β) :
    (if b then p else q) >>= k = if b then p >>= k else q >>= k := by
  split <;> rfl

/-- The names of constants or variables, and their type if it is given. -/
def valueHead : Parse (List Ident × Option TypeNode) := do
  let names ← separated .comma ident
  let typed := (← get).next?.any Token.startsType
  let type ← if typed then some <$> type else pure none
  return (names, type)

def initialValues : Parse (Option Span) := do
  match ← eat .assign with
  | some _ => some <$> through .expression fun t => t == .mark .semi || t == .mark .rparen
  | none => return none

theorem valueSpec_eq : valueSpec = valueHead >>= fun (names, type) =>
    initialValues >>= fun values => pure ⟨names, type, values⟩ := by
  simp only [valueSpec, valueHead, initialValues, ite_bind_eq, bind_assoc, pure_bind]
  congr
  funext names
  congr
  funext c
  split
  · congr
    funext type
    congr
    funext assign
    cases assign <;> simp
  · congr
    funext assign
    cases assign <;> simp

/-- A function up to its signature. -/
def funcHead :
    Parse (Span × Option (FieldList TypeNode) × Ident × Option Span × Signature TypeNode) := do
  let keyword ← bump
  let receiver ← if (← get).isAt .lparen then some <$> params type else pure none
  let name ← ident
  let generic := receiver.isNone && (← get).isAt .lbrack
  let typeParams ← if generic then some <$> bracketed else pure none
  return (keyword, receiver, name, typeParams, ← signature type)

def funcBody : Parse (Option Span) := do
  if (← get).isAt .lbrace then some <$> bracketed else return none

theorem funcDecl_eq :
    funcDecl = funcHead >>= fun (keyword, receiver, name, typeParams, signature) =>
    funcBody >>= makeFunc keyword receiver name typeParams signature := by
  simp only [funcDecl, funcHead, funcBody, ite_bind_eq, bind_assoc, pure_bind]

namespace Consumes

variable {c : Cursor}

/-- Brackets are closed by a bracket of their own. -/
theorem bracketed {b : Bracket} (hc : c.next?.bind Token.opens? = some b) :
    Consumes bracketed (fun ts => Level ts ∧ EndsLine ts) c := by
  obtain ⟨l, ls, hrest, hl⟩ := lexeme_of_opens? hc
  intro s c' hok
  obtain ⟨inner, rest, hover, rfl, rfl⟩ := (bracketed_eq_ok_iff hrest hl).1 hok
  have hls : ls = inner ++ rest := (passOver_append hover).symm
  have hlevel := openAfter_of_passOver hover
  refine ⟨l :: inner, by rw [hrest, hls]; rfl, ?_, ?_⟩
  · simpa [Level, openAfter, hl] using hlevel
  · rcases last_of_passOver (by simp) (fun t => Token.endsStatement_of_closes?) hover with
      rfl | hends
    · simp [openAfter] at hlevel
    · exact @EndsLine.after (inner.map Lexeme.token) hends [l.token]

/-- What is read up to a semicolon is something, and ends before it. -/
theorem through_complete {wanted : Wanted} {stop : Token → Bool}
    (hstop : stop (.mark .semi) = true) : Consumes (Parse.through wanted stop) Complete c := by
  intro s c' hok
  obtain ⟨l, passed, rest, hover, rfl, rfl⟩ := through_eq_ok_iff.1 hok
  refine ⟨l :: passed, (passOver_append hover).symm, ?_⟩
  refine (last_of_passOver (P := (· ≠ .mark .semi)) ?_ ?_ hover).resolve_left (by simp)
  · rintro t ht rfl
    simp [hstop] at ht
  · rintro t ht rfl
    simp [Token.closes?] at ht

/-- A part of a reader that is read on some condition. -/
theorem optional {α β : Type} {p : Parse α} {k : Option α → Parse β} {Q R S : List Token → Prop}
    {b : Bool} (hp : b = true → Consumes p Q c) (hk : ∀ x c', Consumes (k x) R c')
    (h : ∀ ts us, Q ts → R us → S (ts ++ us)) (hnone : ∀ us, R us → S us) :
    Consumes (if b = true then some <$> p >>= k else Pure.pure none >>= k) S c := by
  split
  · next hb => exact (hp hb).map.bind (fun x c' _ => hk x c') h
  · exact (pure (Q := (· = [])) rfl).bind (fun x c' _ => hk x c') fun ts us hts hus => by
      rw [hts]
      exact hnone us hus

/-! ## Parts of declarations -/

theorem importName? : Consumes importName? Level c := by
  refine look ?_
  split
  · next h => exact ((bump h).mono fun _ hts => by rw [hts]; rfl).finish
  · next h => exact ((bump h).mono fun _ hts => by rw [hts]; rfl).finish
  · exact level_ident.finish
  · exact pure rfl

theorem importSpec : Consumes importSpec (fun ts => Level ts ∧ EndsLine ts) c := by
  refine importName?.bind (R := fun ts => Level ts ∧ EndsLine ts) (fun name c _ => ?_)
    fun ts us hts hus => ⟨openAfter_append hts hus.1, hus.2.after ts⟩
  intro x c' hok
  obtain ⟨path, c₁, hpath, hok⟩ := ok_of_bind hok
  rcases stringLiteral?_cases c with ⟨l, ls, hrest, hl⟩ | hnone
  · rw [stringLiteral?_some hrest hl] at hpath
    cases hpath
    cases hok
    obtain ⟨kind, text, hl, -⟩ := hl
    obtain hl := List.singleton_inj.1 hl
    exact ⟨[l], hrest, by simp [hl]; rfl, by simpa [hl] using endsLine_singleton rfl⟩
  · rw [stringLiteral?_none hnone] at hpath
    cases hpath
    cases hok

theorem type : Consumes type (fun ts => Level ts ∧ EndsLine ts) c :=
  (level (typeWithin _) c).and (typeWithin_endsLine _ c)

/-- What is read of a declared type after its name. -/
theorem typeSpec_rest (name : Ident) : Consumes (do
    let params ← if holdsTypeParams (← get).rest then some <$> Parse.bracketed else Pure.pure none
    let assign ← Parse.eat .assign
    return (⟨name, params, assign, ← Parse.type⟩ : TypeSpec))
      (fun ts => Level ts ∧ EndsLine ts) c := by
  have happend (ts us : List Token) (hts : Level ts) (hus : Level us ∧ EndsLine us) :
      Level (ts ++ us) ∧ EndsLine (ts ++ us) :=
    ⟨openAfter_append hts hus.1, hus.2.after ts⟩
  refine look (optional
    (fun hparams => (bracketed (holdsTypeParams_opens hparams)).mono fun _ h => h.1)
    (fun params c => ?_) happend fun _ h => h)
  exact eat (fun s c => type.finish) type.finish (fun us => happend [_] us rfl) fun _ h => h

theorem typeSpec : Consumes typeSpec (fun ts => Level ts ∧ EndsLine ts) c :=
  level_ident.bind (fun name _ _ => typeSpec_rest name) fun ts _ hts hus =>
    ⟨openAfter_append hts hus.1, hus.2.after ts⟩

theorem valueHead : Consumes valueHead (fun ts => Level ts ∧ EndsLine ts) c := by
  have hcomma : Level [.mark .comma] := rfl
  have hnames : Consumes (Parse.separated .comma Parse.ident)
      (fun ts => Level ts ∧ EndsLine ts) c :=
    (separated (fun _ => level_ident) hcomma c).and
      (separated_endsLine (fun _ => ident_endsLine) _ c)
  refine hnames.bind (R := fun us => Level us ∧ KeepsLine us) (fun names c _ => look ?_)
    fun ts us hts hus => ⟨openAfter_append hts.1 hus.1, hts.2.append hus.2⟩
  refine optional (R := (· = [])) (fun _ => type) (fun type c => pure rfl) ?_ fun _ h => ?_
  · rintro ts _ hts rfl
    rw [List.append_nil]
    exact ⟨hts.1, .inr hts.2⟩
  · rw [h]
    exact ⟨rfl, .inl rfl⟩

theorem initialValues : Consumes initialValues
    (fun ts => Level ts ∧ (ts = [] ∨ Complete ts)) c := by
  refine eat (Q := fun us => Level us ∧ Complete us) (R := (· = [])) (fun s c => ?_) (pure rfl)
    (fun us hus => ⟨(openAfter_append rfl hus.1 : Level ([_] ++ us)), .inr (hus.2.after [_])⟩) ?_
  · exact (through.and (through_complete rfl)).map
  · rintro _ rfl
    exact ⟨rfl, .inl rfl⟩

theorem valueSpec : Consumes valueSpec (fun ts => Level ts ∧ Complete ts) c := by
  rw [valueSpec_eq]
  refine valueHead.bind (fun h c _ => initialValues.finish) fun ts us hts hus =>
    ⟨openAfter_append hts.1 hus.1, ?_⟩
  rcases hus.2 with rfl | hus
  · rw [List.append_nil]
    exact hts.2.complete
  · exact hus.after ts

theorem group {spec : Parse α} (hspec : ∀ c, Consumes spec (fun ts => Level ts ∧ Complete ts) c) :
    Consumes (group spec) Complete c := by
  refine eat (Q := EndsLine) (R := Complete) (fun s c => ?_) ?_
    (fun ts h => h.complete.after [_]) fun _ h => h
  · have hlevel (c : Cursor) := (hspec c).mono fun _ h => h.1
    exact (block_endsLine rfl hlevel c).finish
  · exact ((hspec c).mono fun _ h => h.2).finish

theorem importDecl : Consumes importDecl Complete c := by
  refine bump_advances.bind (R := Complete) (fun s c _ => ?_) fun ts us _ hus => hus.after ts
  exact (group fun c => importSpec.mono fun _ h => ⟨h.1, h.2.complete⟩).finish

theorem specDecl {spec : Parse α} {specs : List α → Specs}
    (hspec : ∀ c, Consumes spec (fun ts => Level ts ∧ Complete ts) c) :
    Consumes (specDecl spec specs) Complete c := by
  refine bump_advances.bind (R := Complete) (fun s c _ => ?_) fun ts us _ hus => hus.after ts
  refine (group hspec).bind (R := (· = [])) (fun p c _ => ?_) fun ts us hts hus => ?_
  · rintro _ _ ⟨⟩
    exact ⟨[], rfl, rfl⟩
  · rwa [hus, List.append_nil]

theorem funcHead : Consumes funcHead EndsLine c := by
  refine bump_advances.ending fun keyword c => look ?_
  refine optional (Q := fun _ => True) (fun _ => (params_endsLine (level (typeWithin _))).advances)
    (fun receiver c => ?_) (fun ts us _ hus => hus.after ts) fun _ h => h
  refine ident.advances.ending fun name c => look ?_
  refine optional (Q := fun _ => True)
    (fun h => (bracketed (opens?_of_isAt (Bool.and_eq_true_iff.1 h).2 rfl)).advances)
    (fun typeParams c => ?_) (fun ts us _ hus => hus.after ts) fun _ h => h
  exact (signature_endsLine (level (typeWithin _)) (typeWithin_endsLine _)).finish

theorem funcBody : Consumes funcBody KeepsLine c := by
  refine look ?_
  split
  · next h => exact ((bracketed (opens?_of_isAt h rfl)).mono fun _ h => .inr h.2).map
  · exact pure_keeps

theorem funcDecl : Consumes funcDecl EndsLine c := by
  rw [funcDecl_eq]
  refine funcHead.ended fun head c => funcBody.keeping fun body c => ?_
  rintro _ _ ⟨⟩
  exact ⟨[], rfl, .inl rfl⟩

/-- A declaration is something, and does not end in a semicolon. -/
theorem decl : Consumes decl Complete c := by
  refine look ?_
  split
  · exact specDecl fun c => valueSpec
  · exact specDecl fun c => typeSpec.mono fun _ h => ⟨h.1, h.2.complete⟩
  · exact specDecl fun c => valueSpec
  · exact funcDecl.mono fun _ h => h.complete
  · exact error fun _ => rfl
  · exact error fun _ => rfl

end Consumes

namespace Steady

variable {c : Cursor} {p : Parse α} {f : α → Parse β} {F : Exchange}

/-- What stands between brackets is read up to the one that closes them. -/
theorem bracketed {b : Bracket} (hc : c.next?.bind Token.opens? = some b) :
    Steady F bracketed c := by
  obtain ⟨l, ls, hrest, hl⟩ := lexeme_of_opens? hc
  intro s c' hok
  obtain ⟨inner, rest, hover, rfl, rfl⟩ := (bracketed_eq_ok_iff hrest hl).1 hok
  have hls : ls = inner ++ rest := (passOver_append hover).symm
  refine ⟨l :: inner, by rw [hrest, hls]; rfl, fun r e _ => ?_⟩
  refine (bracketed_eq_ok_iff rfl hl).2 ⟨inner, r, ?_, rfl, rfl⟩
  exact passOver_before hover fun _ _ => rfl

/-- What is read up to a token ends there, or where the text does. -/
theorem through_same {wanted : Wanted} {stop : Token → Bool} :
    Steady Same (Parse.through wanted stop) c := by
  refine through_of_stop fun s c' hok r e hr l hl => ?_
  obtain ⟨_, _, rest, hover, rfl, -⟩ := through_eq_ok_iff.1 hok
  have hr : r.head?.map Lexeme.token = rest.head?.map Lexeme.token := hr.1
  rw [Option.mem_def.1 hl] at hr
  obtain ⟨k, hk, htoken⟩ := Option.map_eq_some_iff.1 hr.symm
  exact htoken ▸ stop_of_passOver hover k hk

/-- The reader depends on the token that comes next, which stays. -/
theorem see {g : Cursor → Parse α} (hg : Steady Same (g c) c)
    (hsame : ∀ d : Cursor, d.next? = c.next? → g d = g c) : Steady Same (get >>= g) c :=
  look hg fun _ _ _ _ hls _ _ hr => hsame _ (Cursor.next?_before_of_eq hls hr.1)

/-- A part of a reader that is read on some condition. -/
theorem optional {b : Bool} {k : Option α → Parse β} (hp : b = true → Steady Same p c)
    (hk : ∀ x c', Steady Same (k x) c') :
    Steady Same (if b = true then some <$> p >>= k else Pure.pure none >>= k) c := by
  split
  · next hb => exact ((hp hb).chain fun _ _ _ => pure).chain fun x c' _ => hk x c'
  · exact hk none c

/-! ## Parts of declarations -/

theorem importName? : Steady Same importName? c := by
  refine see ?_ fun d hd => by rw [hd]
  split
  · next h => exact (bump h).finish.kept
  · next h => exact (bump h).finish.kept
  · exact ident.finish.kept
  · exact pure

theorem importSpec : Steady Same importSpec c := by
  refine importName?.chain fun name c _ => stringLiteral?.kept.chain fun path c _ => ?_
  cases path with
  | some path => exact pure
  | none => exact error fun _ => rfl

theorem group {spec : Parse α} (htakes : ∀ c, Consumes spec (· ≠ []) c)
    (hspec : ∀ c, Steady Same spec c) : Steady Same (group spec) c := by
  refine (eat (by decide)).kept.chain fun left c _ => ?_
  cases left with
  | some left =>
    have hclose : Mark.rparen ≠ .semi := by decide
    have hblock := block htakes (fun c => (hspec c).mono fun _ _ h => ⟨h.1, trivial⟩) hclose c
    exact hblock.finish.kept
  | none => exact (hspec c).chain fun _ _ _ => pure

theorem importDecl {t : Token} (hc : c.next? = some t) : Steady Same importDecl c := by
  have hspec (c : Cursor) : Consumes Parse.importSpec (· ≠ []) c :=
    Consumes.importSpec.mono fun _ h => h.2.ne_nil
  exact (bump hc).chain fun _ c _ => (group hspec fun _ => importSpec).chain fun _ _ _ => pure

theorem typeSpec : Steady Same typeSpec c := by
  refine ident.kept.chain fun name c _ => look ?_ fun x c' ls hok hls r e hr => ?_
  · refine optional (fun h => bracketed (holdsTypeParams_opens h)) fun params c => ?_
    exact (eat (by decide)).kept.chain fun assign c _ =>
      (typeWithin _ c).kept.chain fun _ _ _ => pure
  · obtain ⟨hlevel, hends⟩ := (Consumes.typeSpec_rest name).of_run hok hls
    rw [Cursor.before_rest, hls,
      holdsTypeParams_congr hlevel (by simpa using hends.ne_nil) r c'.rest]

theorem valueHead : Steady Same valueHead c := by
  have hnames : Steady Ended (Parse.separated .comma Parse.ident) c :=
    separated (fun _ => ident) (by decide) c
  refine hnames.kept.chain fun names c _ => see ?_ fun d hd => by rw [hd]
  exact optional (fun _ => (typeWithin _ c).kept) fun type c => pure

theorem initialValues : Steady Same initialValues c := by
  refine (eat (by decide)).kept.chain fun assign c _ => ?_
  cases assign with
  | some _ => exact through_same.chain fun _ _ _ => pure
  | none => exact pure

theorem valueSpec : Steady Same valueSpec c := by
  rw [valueSpec_eq]
  exact valueHead.chain fun h c _ => initialValues.chain fun _ _ _ => pure

theorem specDecl {spec : Parse α} {specs : List α → Specs} {t : Token} (hc : c.next? = some t)
    (htakes : ∀ c, Consumes spec (· ≠ []) c) (hspec : ∀ c, Steady Same spec c) :
    Steady Same (specDecl spec specs) c := by
  refine (bump hc).chain fun keyword c _ => (group htakes hspec).chain fun p c _ => still ?_
  rintro _ _ ⟨⟩
  exact ⟨rfl, fun _ _ => rfl⟩

theorem funcHead {t : Token} (hc : c.next? = some t) : Steady Same funcHead c := by
  have hlike := Consumes.typeWithin nestingLimit
  have hends := Consumes.typeWithin_endsLine nestingLimit
  have htype := typeWithin nestingLimit
  refine (bump hc).chain fun keyword c _ => see ?_ fun d hd => by rw [Cursor.isAt_congr hd]
  refine optional (fun _ => (params hlike hends htype).kept) fun receiver c => ?_
  refine ident.kept.chain fun name c _ => see ?_ fun d hd => by rw [Cursor.isAt_congr hd]
  refine optional (fun h => bracketed (opens?_of_isAt (Bool.and_eq_true_iff.1 h).2 rfl))
    fun typeParams c => ?_
  exact (signature hlike hends htype).finish.kept

theorem funcBody : Steady Same funcBody c := by
  refine see ?_ fun d hd => by rw [Cursor.isAt_congr hd]
  split
  · next h => exact (bracketed (opens?_of_isAt h rfl)).chain fun _ _ _ => pure
  · exact pure

theorem funcDecl {t : Token} (hc : c.next? = some t) : Steady Same funcDecl c := by
  rw [funcDecl_eq]
  refine (funcHead hc).chain fun head c _ => funcBody.chain fun body c _ => still ?_
  rintro _ _ ⟨⟩
  exact ⟨rfl, fun _ _ => rfl⟩

/-- A declaration is read the same if the token after it stays. -/
theorem decl : Steady Same decl c := by
  have hvalue (c : Cursor) : Consumes Parse.valueSpec (· ≠ []) c :=
    Consumes.valueSpec.mono fun _ h => h.2.ne_nil
  have htype (c : Cursor) : Consumes Parse.typeSpec (· ≠ []) c :=
    Consumes.typeSpec.mono fun _ h => h.2.ne_nil
  refine see ?_ fun d hd => by rw [hd]
  split
  · next h => exact specDecl h hvalue fun _ => valueSpec
  · next h => exact specDecl h htype fun _ => typeSpec
  · next h => exact specDecl h hvalue fun _ => valueSpec
  · next h => exact funcDecl h
  · exact error fun _ => rfl
  · exact error fun _ => rfl

end Steady

end Parse

end GoIface
