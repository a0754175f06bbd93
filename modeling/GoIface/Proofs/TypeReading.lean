import GoIface.Proofs.ParamLists

/-!
# Types as they are written

Every form of a type is read back from the tokens it is written with, provided the types inside it
are (`Takes.typeForm`). What follows a type must not start another one and be no point, for else it
would be read as more of the type. By induction on the nesting, reading a printable type gives back
the type without its places (`type_reads_printed`), and any value that is folded up from the forms
without regard to places is the same for the two (`PlaceFree.takes_typeWithin`).
-/

namespace GoIface

variable {α : Type}

/-- What may follow a type. -/
def endsType : Follow := fun o => ∀ t, o = some t → t.startsType = false ∧ t ≠ .mark .dot

theorem endsType_afterItem {close : Mark} (h : (Token.mark close).startsType = false)
    (hdot : close ≠ .dot) : ∀ o, Parse.Takes.afterItem close o → endsType o := by
  rintro o (rfl | rfl) t ht
  · cases ht
    exact ⟨rfl, by simp⟩
  · cases ht
    exact ⟨h, by simpa using hdot⟩

theorem endsType_mark {m : Mark} (h : (Token.mark m).startsType = false) (hdot : m ≠ .dot) :
    endsType (some (.mark m)) := by
  rintro t ht
  cases ht
  exact ⟨h, by simpa using hdot⟩

theorem endsType.ne {o : Option Token} (h : endsType o) {t : Token} (ht : t.startsType = true) :
    o ≠ some t := by
  rintro rfl
  simp [(h t rfl).1] at ht

theorem endsType.ne_dot {o : Option Token} (h : endsType o) : o ≠ some (.mark .dot) := by
  rintro rfl
  exact (h _ rfl).2 rfl

theorem endsType.any {r : List Lexeme} (h : endsType (r.head?.map Lexeme.token)) :
    r.head?.any (·.token.startsType) = false := by
  rcases r with _ | ⟨l, r⟩
  · rfl
  · exact (h l.token rfl).1

theorem TypeForm.Alike.of_bare {same : Span → Span → Prop} {f g : TypeForm α}
    (h : f.bare = g.bare) (hg : g.length? = none) : f.Alike same g :=
  ⟨h, by simp [hg]⟩

namespace TypeNode

theorem startsItem {close : Mark} (h : (Token.mark close).startsType = false)
    (spell : Span → List Token) (t : TypeNode) :
    Parse.Takes.StartsItem close (t.tokens spell) := by
  obtain ⟨u, us, ht, hu⟩ := t.tokens_starts spell
  refine ⟨u, us, ht, ?_⟩
  rintro rfl
  simp [h] at hu

end TypeNode

namespace Parse.Takes

variable {L : Legend} {F : Follow} {type : Parse TypeNode} {V : Meaning α}

theorem stops_rbrack : Stops (·.isAt .rbrack) .rbrack where
  at_close _ h := Cursor.isAt_iff.2 h
  at_other c t h hne := by simpa [Cursor.isAt, h] using hne

theorem typeArgs {args : List TypeNode} (h : ∀ t ∈ args, V.Takes L type t endsType) :
    Takes L (typeArgs type) (typeArgsTokens (args.map (TypeNode.tokens L.spell))) endsType
      fun xs => xs.map V.read = args.map V.written := by
  rcases args with _ | ⟨t, args⟩
  · refine (eat_other fun o ho => ho.ne rfl).skip ?_ fun _ h => h
    rintro _ rfl
    exact .pure rfl
  · refine (eat_self (F := anything) .lbrack).step (fun s hs => ?_) fun _ _ => trivial
    obtain ⟨s, rfl⟩ := Option.isSome_iff_exists.1 hs
    have hlisted := listed stops_rbrack (by decide) false
      (fun x hx => (h x hx).mono (endsType_afterItem rfl (by decide)) fun _ h => h)
      fun x _ => x.startsItem rfl L.spell
    rw [listing_false] at hlisted
    refine hlisted.bind (fun xs hxs => ?_) fun _ _ => rfl
    refine (expect (F := endsType) (.mark .rbrack)).finish fun _ _ => ?_
    rw [if_neg (by rintro hnil; simp [List.isEmpty_iff.1 hnil] at hxs)]
    exact .pure hxs

theorem typeName {q : Option Ident} {n : Ident} {args : List TypeNode}
    (h : ∀ t ∈ args, V.Takes L type t endsType) :
    Takes L (typeName type)
      ((TypeForm.named q n (args.map (TypeNode.tokens L.spell))).tokens L.spell) endsType
      fun x => (x.map V.read).bare = ((TypeForm.named q n args).map V.written).bare := by
  cases q with
  | none =>
    refine (ident (F := anything) n.name).step (fun x hx => ?_) fun _ _ => trivial
    refine (eat_other (F := (· ≠ some (.mark .dot))) fun _ h => h).skip ?_ fun o ho => ?_
    · rintro _ rfl
      refine (typeArgs h).finish fun xs hxs => .pure ?_
      simp only [TypeForm.map, TypeForm.bare, hxs, Ident.bare_eq_iff.2 hx, Option.map_none]
    · cases args with
      | nil => exact ho.ne_dot
      | cons t args => simp [typeArgsTokens]
  | some q =>
    refine (ident (F := anything) q.name).step (fun x hx => ?_) fun _ _ => trivial
    refine (eat_self (F := anything) .dot).step (fun s hs => ?_) fun _ _ => trivial
    obtain ⟨s, rfl⟩ := Option.isSome_iff_exists.1 hs
    refine (ident (F := anything) n.name).step (fun y hy => ?_) fun _ _ => trivial
    refine (typeArgs h).finish fun xs hxs => .pure ?_
    simp only [TypeForm.map, TypeForm.bare, hxs, Ident.bare_eq_iff.2 hx, Ident.bare_eq_iff.2 hy,
      Option.map_some]

/-- A square bracket before a type. -/
theorem slice {p : Span} {t : TypeNode} (h : V.Takes L type t endsType) :
    Takes L (arrayOrSlice type) (.mark .lbrack :: .mark .rbrack :: t.tokens L.spell) endsType
      fun x => (x.map V.read).bare = ((TypeForm.slice p t).map V.written).bare := by
  refine (bump (F := anything) _).step (fun s _ => ?_) fun _ _ => trivial
  refine (eat_self (F := anything) .rbrack).step (fun s hs => ?_) fun _ _ => trivial
  obtain ⟨s, rfl⟩ := Option.isSome_iff_exists.1 hs
  refine h.finish fun x hx => .pure ?_
  simp only [TypeForm.map, TypeForm.bare, hx]

theorem array {n : Span} {t : TypeNode} (hn : IsLength (L.spell n))
    (h : V.Takes L type t endsType) :
    Takes L (arrayOrSlice type) (.mark .lbrack :: (L.spell n ++ .mark .rbrack :: t.tokens L.spell))
      endsType fun x => (x.map V.read).Alike L.same ((TypeForm.array n t).map V.written) := by
  obtain ⟨u, us, hu⟩ := List.exists_cons_of_ne_nil hn.ne_nil
  have hnext (m : Mark) (hm : (L.spell n).head? ≠ some (.mark m)) (o : Option Token) :
      nextOf (L.spell n ++ .mark .rbrack :: t.tokens L.spell) o ≠ some (.mark m) := by
    rw [hu] at hm ⊢
    exact hm
  refine (bump (F := anything) _).step (fun s _ => ?_) fun _ _ => trivial
  refine (eat_other (F := (· ≠ some (.mark .rbrack))) fun _ h => h).skip ?_ fun o _ =>
    hnext _ (hn.balanced.head?_ne rfl) o
  rintro _ rfl
  refine .peek fun c o _ hc => ?_
  rw [if_neg (mt Cursor.isAt_iff.1 (hc ▸ hnext _ hn.not_open o))]
  refine (Takes.through hn.balanced hn.ne_nil ?_).bind (fun m hm => ?_) fun o _ => ?_
  · intro t ht
    refine beq_eq_false_iff_ne.2 ?_
    rintro rfl
    simp [Token.closes?] at ht
  · refine (expect (F := anything) (.mark .rbrack)).step (fun _ _ => ?_) fun _ _ => trivial
    refine h.finish fun x hx => .pure ⟨?_, ?_⟩
    · simp only [TypeForm.map, TypeForm.bare, hx]
    · rintro _ ⟨⟩ _ ⟨⟩
      exact hm
  · exact ⟨_, rfl, rfl⟩

theorem mapping {p : Span} {k v : TypeNode} (hk : V.Takes L type k endsType)
    (hv : V.Takes L type v endsType) :
    Takes L (mapType type)
      (.keyword .mapKw :: .mark .lbrack :: (k.tokens L.spell ++ .mark .rbrack :: v.tokens L.spell))
      endsType fun x => (x.map V.read).bare = ((TypeForm.mapping p k v).map V.written).bare := by
  refine (bump (F := anything) _).step (fun s _ => ?_) fun _ _ => trivial
  refine (expect (F := anything) (.mark .lbrack)).step (fun _ _ => ?_) fun _ _ => trivial
  refine hk.bind (fun x hx => ?_) fun o _ => endsType_mark rfl (by decide)
  refine (expect (F := anything) (.mark .rbrack)).step (fun _ _ => ?_) fun _ _ => trivial
  refine hv.finish fun y hy => .pure ?_
  simp only [TypeForm.map, TypeForm.bare, hx, hy]

/-- Without an arrow after the keyword. -/
theorem chanBoth {p : Span} {t : TypeNode} (ht : (t.tokens L.spell).head? ≠ some (.mark .arrow))
    (h : V.Takes L type t endsType) :
    Takes L (chanType type) (.keyword .chanKw :: t.tokens L.spell) endsType
      fun x => (x.map V.read).bare = ((TypeForm.chan .both p t).map V.written).bare := by
  obtain ⟨u, us, hu, -⟩ := t.tokens_starts L.spell
  refine (bump (F := anything) _).step (fun s _ => ?_) fun _ _ => trivial
  refine (eat_other (F := (· ≠ some (.mark .arrow))) fun _ h => h).skip ?_ fun o _ => ?_
  · rintro _ rfl
    refine h.finish fun x hx => .pure ?_
    simp only [TypeForm.map, TypeForm.bare, hx]
    rfl
  · rw [hu] at ht ⊢
    exact ht

theorem chanSend {p : Span} {t : TypeNode} (h : V.Takes L type t endsType) :
    Takes L (chanType type) (.keyword .chanKw :: .mark .arrow :: t.tokens L.spell) endsType
      fun x => (x.map V.read).bare = ((TypeForm.chan .send p t).map V.written).bare := by
  refine (bump (F := anything) _).step (fun s _ => ?_) fun _ _ => trivial
  refine (eat_self (F := anything) .arrow).step (fun s hs => ?_) fun _ _ => trivial
  refine h.finish fun x hx => .pure ?_
  simp only [TypeForm.map, TypeForm.bare, hx, hs]
  rfl

theorem chanReceive {p : Span} {t : TypeNode} (h : V.Takes L type t endsType) :
    Takes L (receiveType type) (.mark .arrow :: .keyword .chanKw :: t.tokens L.spell) endsType
      fun x => (x.map V.read).bare = ((TypeForm.chan .receive p t).map V.written).bare := by
  refine (bump (F := anything) _).step (fun s _ => ?_) fun _ _ => trivial
  refine (expect (F := anything) (.keyword .chanKw)).step (fun _ _ => ?_) fun _ _ => trivial
  refine h.finish fun x hx => .pure ?_
  simp only [TypeForm.map, TypeForm.bare, hx]

theorem paren {p : Span} {t : TypeNode} (h : V.Takes L type t endsType) :
    Takes L (parenType type) (.mark .lparen :: (t.tokens L.spell ++ [Token.mark .rparen])) endsType
      fun x => (x.map V.read).bare = ((TypeForm.paren p t).map V.written).bare := by
  refine (bump (F := anything) _).step (fun s _ => ?_) fun _ _ => trivial
  refine h.bind (fun x hx => ?_) fun o _ => endsType_mark rfl (by decide)
  refine (expect (F := endsType) (.mark .rparen)).finish fun _ _ => .pure ?_
  simp only [TypeForm.map, TypeForm.bare, hx]

/-! ## Signatures -/

theorem makeSignature (params : FieldList TypeNode) (results : Results TypeNode) :
    Takes L (makeSignature params results) [] F
      fun s => s.params = params ∧ s.results = results := by
  intro c ls r hls _ _ hc
  obtain rfl := List.map_eq_nil_iff.1 hls
  exact ⟨_, _, rfl, hc, rfl, rfl⟩

/-- A single result starts with a parenthesis only if it is in parentheses. -/
theorem head?_ne_lparen {t : TypeNode} (h : t.isParen = false) (spell : Span → List Token) :
    (t.tokens spell).head? ≠ some (.mark .lparen) := by
  obtain ⟨serial, span, form⟩ := t
  rw [TypeNode.tokens_mk]
  cases form with
  | named q n args => cases q <;> simp [TypeForm.map, TypeForm.tokens]
  | chan d _ t => cases d <;> simp [TypeForm.map, TypeForm.tokens]
  | paren => exact absurd h (by simp [TypeNode.isParen, TypeNode.form])
  | _ => simp [TypeForm.map, TypeForm.tokens]

theorem results {rs : Results TypeNode} (h : rs.Printable)
    (hparts : ∀ t ∈ rs.children, t.Printable L.spell)
    (htype : ∀ t ∈ rs.inside, V.Takes L type t endsType) :
    Takes L (results type) (rs.map (TypeNode.tokens L.spell)).tokens endsType
      fun x => (x.map V.read).bare = (rs.map V.written).bare := by
  refine .peek fun c o ho hc => ?_
  cases rs with
  | absent =>
    have hc : c.next? = o := hc
    rw [if_neg (mt Cursor.isAt_iff.1 (hc ▸ ho.ne rfl)), if_neg ?_]
    · exact .pure rfl
    · intro hany
      obtain ⟨t, rfl, ht⟩ : ∃ t, o = some t ∧ t.startsType = true := by
        simpa [hc, Option.any_eq_true] using hany
      simp [(ho t rfl).1] at ht
  | single t =>
    obtain ⟨u, us, hu, hstarts⟩ := t.tokens_starts L.spell
    have hparen := head?_ne_lparen h L.spell
    have hc : c.next? = some u := by simpa [Results.map, Results.tokens, hu] using hc
    rw [hu] at hparen
    rw [if_neg (mt Cursor.isAt_iff.1 (hc ▸ hparen)), if_pos (by simpa [hc] using hstarts)]
    refine (htype t (by simp [Results.inside])).map fun x hx => ?_
    simp only [Results.map, Results.bare, hx]
  | list l =>
    rw [if_pos (Cursor.isAt_iff.2 hc)]
    refine (fieldList V h hparts fun t ht => ?_).map fun x hx => ?_
    · exact (htype t ht).mono (endsType_afterItem rfl (by decide)) fun _ h => h
    · simp only [Results.map, Results.bare, hx]

theorem signature {s : Signature TypeNode} (h : s.Printable)
    (hparts : ∀ t ∈ s.children, t.Printable L.spell)
    (htype : ∀ t ∈ s.inside, V.Takes L type t endsType) :
    Takes L (signature type) (s.map (TypeNode.tokens L.spell)).tokens endsType
      fun x => (x.map V.read).bare = (s.map V.written).bare := by
  obtain ⟨hpp, hpr⟩ := List.forall_mem_append.1 hparts
  obtain ⟨htp, htr⟩ := List.forall_mem_append.1 htype
  have hparams := fieldList (F := anything) V h.1 hpp fun t ht =>
    (htp t ht).mono (endsType_afterItem rfl (by decide)) fun _ h => h
  refine hparams.bind (fun ps hps => ?_) fun _ _ => trivial
  refine (results h.2 hpr htr).finish fun rs hrs => ?_
  refine (makeSignature ps rs).mono (fun _ h => h) ?_
  rintro ⟨_, _, _, _⟩ ⟨rfl, rfl⟩
  simp only [Signature.map, Signature.bare, hps, hrs]

/-! ## Elements of interfaces -/

theorem endsType_endsItem : ∀ o, endsItem .rbrace o → endsType o := by
  rintro o (rfl | rfl) <;> exact endsType_mark rfl (by decide)

theorem declaresMethod_eq_false {ls : List Lexeme}
    (h : ∀ n us, ls.map Lexeme.token = .ident n :: us → us.head? ≠ some (.mark .lparen)) :
    declaresMethod ls = false := by
  unfold declaresMethod
  split
  · exact absurd rfl (h _ _ rfl)
  · rfl

theorem term {t : Term TypeNode} (h : V.Takes L type t.type endsType) :
    Takes L (term type) (t.map (TypeNode.tokens L.spell)).tokens endsType
      fun x => (x.map V.read).bare = (t.map V.written).bare := by
  obtain ⟨u, us, hu, hstarts⟩ := t.type.tokens_starts L.spell
  refine (eat_if .tilde t.tilde.isSome).bind (fun s hs => ?_) fun o _ => ?_
  · refine h.finish fun x hx => .pure ?_
    simp only [Term.map, Term.bare, map_nowhere, hs, hx]
  · simp only [Term.map, hu]
    rintro ⟨⟩
    simp [Token.startsType] at hstarts

/-- The terms of a union are not taken for a method. -/
theorem declaresMethod_terms {t : Term TypeNode} {ts : List (Term TypeNode)}
    (ht : t.type.Printable L.spell) {ls r : List Lexeme}
    (hls : ls.map Lexeme.token
      = joined .pipe ((t :: ts).map fun t => (t.map (TypeNode.tokens L.spell)).tokens))
    (hr : endsItem .rbrace (r.head?.map Lexeme.token)) : declaresMethod (ls ++ r) = false := by
  refine declaresMethod_eq_false fun n us hus => ?_
  rw [List.map_append, hls] at hus
  have hafter : ((ts.map fun t => (t.map (TypeNode.tokens L.spell)).tokens).flatMap
      (.mark .pipe :: ·) ++ r.map Lexeme.token).head? ≠ some (.mark .lparen) := by
    rcases ts with _ | ⟨t, ts⟩
    · rcases hr with hr | hr <;> simp [hr]
    · simp
  cases htilde : t.tilde with
  | some s => simp [joined, Term.map, Term.tokens, htilde] at hus
  | none =>
    refine ht.looksLikeType.head?_ne_lparen hafter (n := n) ?_
    simpa [joined, Term.map, Term.tokens, htilde] using hus

theorem element {e : Element TypeNode} (h : e.Printable)
    (hparts : ∀ t ∈ e.children, t.Printable L.spell)
    (htype : ∀ t ∈ e.inside, V.Takes L type t endsType) :
    Takes L (element type) (e.map (TypeNode.tokens L.spell)).tokens (endsItem .rbrace)
      fun x => (x.map V.read).bare = (e.map V.written).bare := by
  refine .look fun c ls r hls hr hc => ?_
  cases e with
  | method name s =>
    have hmethod : declaresMethod c.rest = true := by
      obtain ⟨⟨_, _⟩, _, rfl, rfl, h₁⟩ := List.map_eq_cons_iff.1 hls
      obtain ⟨⟨_, _⟩, _, rfl, rfl, -⟩ := List.map_eq_cons_iff.1 h₁
      rw [hc]
      rfl
    rw [if_pos hmethod]
    refine (ident (F := anything) name.name).step (fun x hx => ?_) fun _ _ => trivial
    have hs := (signature h hparts htype).mono endsType_endsItem fun _ h => h
    refine hs.finish fun y hy => .pure ?_
    simp only [Element.map, Element.bare, hy, Ident.bare_eq_iff.2 hx]
  | union terms =>
    have htokens : ((Element.union terms).map (TypeNode.tokens L.spell)).tokens
        = joined .pipe (terms.map fun t => (t.map (TypeNode.tokens L.spell)).tokens) := by
      simp [Element.map, Element.tokens, Function.comp_def]
    rw [htokens] at hls ⊢
    have hfirst : declaresMethod c.rest = false := by
      obtain ⟨t, ts, rfl⟩ := List.exists_cons_of_ne_nil h
      rw [hc, declaresMethod_terms (hparts _ (by simp [Element.children])) hls hr]
    rw [hfirst, if_neg (by simp)]
    refine (separated (F := endsItem .rbrace) (G := fun x => (Term.map V.read x).bare)
      (H := fun x => (Term.map V.written x).bare) h (fun t ht => ?_) ?_).map fun xs hxs => ?_
    · refine (term (htype _ (List.mem_map_of_mem ht))).mono ?_ fun _ h => h
      rintro o (ho | rfl)
      · exact endsType_endsItem o ho
      · exact endsType_mark rfl (by decide)
    · rintro o (rfl | rfl) <;> simp
    · simp only [Element.map, Element.bare, List.map_map, Function.comp_def, hxs]

/-! ## Fields of structs -/

theorem stringLiteral?_some {ts : List Token} (h : IsTag ts) :
    Takes L stringLiteral? ts F fun s => ∃ l, s = some l ∧ L.known ts l.span := by
  obtain ⟨kind, text, rfl, rfl | rfl⟩ := h <;>
  · refine .peek fun c o _ hc => ?_
    rw [hc]
    exact (bump (F := F) _).finish fun s hs => .pure ⟨⟨s⟩, rfl, hs⟩

theorem stringLiteral?_none :
    Takes L stringLiteral? [] (endsItem .rbrace) fun s => s = none := by
  refine .peek fun c o ho hc => ?_
  rcases ho with rfl | rfl <;>
  · rw [hc]
    exact .pure rfl

theorem stringLiteral? {tag : Option StringLiteral} (h : ∀ l ∈ tag, IsTag (L.spell l.span)) :
    Takes L stringLiteral? ((tag.map fun l => L.spell l.span).getD []) (endsItem .rbrace)
      fun s => (s.map fun _ => StringLiteral.mk .nowhere) = tag.map fun _ => .mk .nowhere := by
  cases tag with
  | none => exact stringLiteral?_none.mono (fun _ h => h) fun s hs => by rw [hs]
  | some l =>
    refine (stringLiteral?_some (h l rfl)).mono (fun _ h => h) fun s hs => ?_
    obtain ⟨_, rfl, -⟩ := hs
    rfl

/-- What follows the type of a field: its tag, or the end of the field. -/
def afterField : Follow := fun o => endsItem .rbrace o ∨ ∃ ts, IsTag ts ∧ o = ts.head?

theorem endsType_afterField : ∀ o, afterField o → endsType o := by
  rintro o (ho | ⟨ts, ⟨kind, text, rfl, -⟩, rfl⟩)
  · exact endsType_endsItem o ho
  · rintro t ⟨⟩
    exact ⟨rfl, by simp⟩

theorem afterField_tag {tag : Option StringLiteral} (h : ∀ l ∈ tag, IsTag (L.spell l.span)) :
    ∀ o, endsItem .rbrace o →
      afterField (nextOf ((tag.map fun l => L.spell l.span).getD []) o) := by
  intro o ho
  cases tag with
  | none => exact .inl ho
  | some l =>
    refine .inr ⟨_, h l rfl, ?_⟩
    obtain ⟨kind, text, hl, -⟩ := h l rfl
    simp [hl]

theorem embeds?_of_afterField {l : Lexeme} {n : String} (hl : l.token = .ident n)
    {ls : List Lexeme} (h : afterField (ls.head?.map Lexeme.token)) :
    embeds? (l :: ls) = some true := by
  obtain ⟨_, span⟩ := l
  obtain rfl := hl
  rcases h with (h | h) | ⟨ts, ⟨kind, text, rfl, rfl | rfl⟩, h⟩ <;> simp [embeds?, h]

/-- A type that stands for itself. -/
theorem embeds?_type {ts : List Token} (hts : LooksLikeType ts)
    (hstart : ts.head? = some (.mark .star) ∨ ∃ n, ts.head? = some (.ident n))
    {ls r : List Lexeme} (hls : ls.map Lexeme.token = ts)
    (hr : afterField (r.head?.map Lexeme.token)) : embeds? (ls ++ r) = some true := by
  obtain ⟨t, us, rfl, -⟩ := hts.starts
  obtain ⟨⟨_, span⟩, ls, rfl, rfl, h⟩ := List.map_eq_cons_iff.1 hls
  rcases hstart with hstar | ⟨n, hn⟩
  · obtain rfl := Option.some.inj hstar
    rfl
  · obtain rfl := Option.some.inj hn
    rcases hts.name n us rfl with rfl | hdot | ⟨inner, rfl, hinner⟩
    · obtain rfl := List.map_eq_nil_iff.1 h
      exact embeds?_of_afterField rfl hr
    · obtain ⟨us, rfl⟩ := List.head?_eq_some_iff.1 hdot
      obtain ⟨⟨_, _⟩, ls, rfl, rfl, -⟩ := List.map_eq_cons_iff.1 h
      rfl
    · have hargs := holdsTypeArgs_enclosed rfl rfl hinner h r
      obtain ⟨⟨_, _⟩, ls, rfl, rfl, -⟩ := List.map_eq_cons_iff.1 h
      rw [(endsType_afterField _ hr).any] at hargs
      exact congrArg some hargs

/-- A name before a type. -/
theorem embeds?_named {l k : Lexeme} {n : String} (hl : l.token = .ident n)
    (hk : k.token.startsType = true ∨ k.token = .mark .comma) {rest : List Lexeme}
    (hargs : k.token = .mark .lbrack → holdsTypeArgs 0 (k :: rest) = false) :
    embeds? (l :: k :: rest) = some false := by
  obtain ⟨_, span⟩ := l
  obtain rfl := hl
  simp only [embeds?, List.head?_cons, Option.map_some]
  split <;> simp_all [Token.startsType]

theorem starts_of_isEmbeddable {t : TypeNode} (h : t.isEmbeddable = true)
    (spell : Span → List Token) :
    (t.tokens spell).head? = some (.mark .star) ∨
      ∃ n, (t.tokens spell).head? = some (.ident n) := by
  obtain ⟨serial, span, form⟩ := t
  rw [TypeNode.tokens_mk]
  cases form with
  | pointer p t => exact .inl rfl
  | named q n args => cases q <;> exact .inr ⟨_, rfl⟩
  | _ => simp [TypeNode.isEmbeddable, TypeNode.form] at h

theorem embeds?_of_tokens {x : Field TypeNode} (hx : x.InStruct L.spell)
    (ht : x.type.Printable L.spell) {ls r : List Lexeme}
    (hls : ls.map Lexeme.token = (x.map (TypeNode.tokens L.spell)).structTokens L.spell)
    (hr : endsItem .rbrace (r.head?.map Lexeme.token)) :
    embeds? (ls ++ r) = some x.embedded := by
  obtain ⟨ls₁, _, rfl, h₁, h⟩ := List.map_eq_append_iff.1 hls
  obtain ⟨ls₂, ls₃, rfl, h₂, h₃⟩ := List.map_eq_append_iff.1 h
  have hafter : afterField ((ls₃ ++ r).head?.map Lexeme.token) := by
    rw [head?_append_map, h₃]
    exact afterField_tag hx.tag _ hr
  have hkind := hx.embedded
  cases hembedded : x.embedded with
  | true =>
    rw [hembedded, if_pos rfl] at hkind
    obtain rfl : ls₁ = [] := by simpa [Field.map, hkind.1, namesTokens] using h₁
    rw [List.nil_append, List.append_assoc]
    exact embeds?_type ht.looksLikeType (starts_of_isEmbeddable hkind.2 L.spell) h₂ hafter
  | false =>
    rw [hembedded, if_neg (by simp)] at hkind
    obtain ⟨n, ns, hnames⟩ := List.exists_cons_of_ne_nil hkind
    rw [Field.map, hnames] at h₁
    cases ns with
    | cons m ns =>
      obtain ⟨l, _, rfl, hl, h⟩ := List.map_eq_cons_iff.1 h₁
      obtain ⟨k, _, rfl, hk, -⟩ := List.map_eq_cons_iff.1 h
      exact embeds?_named hl (.inr hk) (by simp [hk])
    | nil =>
      obtain ⟨l, rfl, hl⟩ := List.map_eq_singleton_iff.1 h₁
      obtain ⟨u, us, hu, hstarts⟩ := ht.looksLikeType.starts
      obtain ⟨k, _, rfl, hk, h⟩ := List.map_eq_cons_iff.1 (h₂.trans hu)
      rw [List.singleton_append, List.cons_append, List.cons_append, List.cons_append]
      refine embeds?_named hl (.inl (hk ▸ hstarts)) fun hbrack => ?_
      obtain ⟨inner, v, vs, hus, hinner, hv⟩ :=
        ht.looksLikeType.bracket us (by rw [hu, ← hk, hbrack])
      rw [List.append_assoc]
      exact holdsTypeArgs_before hbrack hinner (h.trans hus) hv (ls₃ ++ r)

theorem makeField (start : Span) (names : List Ident) (type : TypeNode) (tag : Option StringLiteral)
    (embedded : Bool) :
    Takes L (makeField start names type tag embedded) [] F fun x =>
      x.names = names ∧ x.ellipsis = none ∧ x.type = type ∧ x.tag = tag ∧
        x.embedded = embedded := by
  intro c ls r hls _ _ hc
  obtain rfl := List.map_eq_nil_iff.1 hls
  exact ⟨_, _, rfl, hc, rfl, rfl, rfl, rfl, rfl⟩

theorem structField {x : Field TypeNode} (hx : x.InStruct L.spell)
    (ht : x.type.Printable L.spell) (h : V.Takes L type x.type endsType) :
    Takes L (structField type) ((x.map (TypeNode.tokens L.spell)).structTokens L.spell)
      (endsItem .rbrace) fun y => (y.map V.read).bare = (x.map V.written).bare := by
  refine .look fun c ls r hls hr hc => ?_
  rw [hc, embeds?_of_tokens hx ht hls hr]
  -- after the names, if there are any
  have hrest (names : List Ident) (hnames : names.map Ident.bare = x.names.map Ident.bare) :
      Takes L (do
        let type ← type
        let tag ← Parse.stringLiteral?
        Parse.makeField c.here names type tag x.embedded)
      (x.type.tokens L.spell ++ (x.tag.map fun l => L.spell l.span).getD []) (endsItem .rbrace)
      fun y => (y.map V.read).bare = (x.map V.written).bare := by
    refine h.bind (fun t ht => ?_) fun o ho => endsType_afterField _ (afterField_tag hx.tag o ho)
    refine (stringLiteral? hx.tag).finish fun tag htag => ?_
    refine (makeField _ names t tag x.embedded).mono (fun _ h => h) ?_
    rintro ⟨_, _, _, _, _, _, _⟩ ⟨rfl, rfl, rfl, rfl, rfl⟩
    simp only [Field.map, Field.bare, hnames, ht, htag, hx.ellipsis, Option.map_none]
  have hkind := hx.embedded
  cases hembedded : x.embedded with
  | true =>
    rw [hembedded] at hkind hrest
    have htokens : (x.map (TypeNode.tokens L.spell)).structTokens L.spell
        = x.type.tokens L.spell ++ (x.tag.map fun l => L.spell l.span).getD [] := by
      simp [Field.structTokens, Field.map, hkind.1, namesTokens]
    rw [htokens]
    exact hrest [] (by rw [hkind.1])
  | false =>
    rw [hembedded] at hkind hrest
    have hnames : Takes L (Parse.separated .comma Parse.ident) (namesTokens x.names)
        (· ≠ some (.mark .comma)) fun names => names.map Ident.bare = x.names.map Ident.bare :=
      separated hkind (fun n _ => (ident n.name).mono (fun _ _ => trivial)
        fun _ hn => Ident.bare_eq_iff.2 hn) fun _ h => h
    refine hnames.bind hrest fun o ho => ?_
    obtain ⟨u, us, hu, hstarts⟩ := x.type.tokens_starts L.spell
    rw [Field.map, hu]
    rintro ⟨⟩
    simp [Token.startsType] at hstarts

theorem startsItem_structField (x : Field TypeNode) :
    StartsItem .rbrace ((x.map (TypeNode.tokens L.spell)).structTokens L.spell) := by
  rcases hnames : x.names with _ | ⟨n, ns⟩
  · obtain ⟨u, us, hu, hne⟩ :=
      x.type.startsItem (rfl : (Token.mark .rbrace).startsType = false) L.spell
    simp only [Field.structTokens, Field.map, hnames, hu]
    exact ⟨_, _, rfl, hne⟩
  · simp only [Field.structTokens, Field.map, hnames]
    exact ⟨_, _, rfl, by simp⟩

theorem struct {p : Span} {fields : List (Field TypeNode)}
    (hfields : ∀ x ∈ fields, x.InStruct L.spell)
    (hparts : ∀ x ∈ fields, x.type.Printable L.spell)
    (h : ∀ x ∈ fields, V.Takes L type x.type endsType) :
    Takes L (structType type)
      (((TypeForm.struct p fields).map (TypeNode.tokens L.spell)).tokens L.spell) endsType
      fun x => (x.map V.read).bare = ((TypeForm.struct p fields).map V.written).bare := by
  refine (bump (F := anything) _).step (fun s _ => ?_) fun _ _ => trivial
  refine (expect (F := anything) (.mark .lbrace)).step (fun _ _ => ?_) fun _ _ => trivial
  have hblock := block (F := endsType) (by decide : Mark.rbrace ≠ .semi)
    (fun x hx => structField (hfields x hx) (hparts x hx) (h x hx))
    fun x _ => startsItem_structField x
  rw [List.map_map]
  refine hblock.finish fun y hy => .pure ?_
  simp only [TypeForm.map, TypeForm.bare, List.map_map, Function.comp_def, hy]

theorem startsItem_element {e : Element TypeNode} (h : e.Printable) :
    StartsItem .rbrace (e.map (TypeNode.tokens L.spell)).tokens := by
  cases e with
  | method name s => exact ⟨_, _, rfl, by simp⟩
  | union terms =>
    obtain ⟨t, ts, rfl⟩ := List.exists_cons_of_ne_nil h
    obtain ⟨u, us, hu, hne⟩ :=
      t.type.startsItem (rfl : (Token.mark .rbrace).startsType = false) L.spell
    cases htilde : t.tilde with
    | none =>
      simp only [Element.map, Element.tokens, Term.map, Term.tokens, List.map_cons, joined, hu,
        htilde]
      exact ⟨_, _, rfl, hne⟩
    | some s =>
      simp only [Element.map, Element.tokens, Term.map, Term.tokens, List.map_cons, joined, htilde]
      exact ⟨_, _, rfl, by simp⟩

theorem interface {p : Span} {elements : List (Element TypeNode)}
    (helements : ∀ e ∈ elements, e.Printable)
    (hparts : ∀ e ∈ elements, ∀ t ∈ e.children, t.Printable L.spell)
    (h : ∀ e ∈ elements, ∀ t ∈ e.inside, V.Takes L type t endsType) :
    Takes L (interfaceType type)
      (((TypeForm.interface p elements).map (TypeNode.tokens L.spell)).tokens L.spell) endsType
      fun x => (x.map V.read).bare = ((TypeForm.interface p elements).map V.written).bare := by
  refine (bump (F := anything) _).step (fun s _ => ?_) fun _ _ => trivial
  refine (expect (F := anything) (.mark .lbrace)).step (fun _ _ => ?_) fun _ _ => trivial
  have hblock := block (F := endsType) (by decide : Mark.rbrace ≠ .semi)
    (fun e he => element (helements e he) (hparts e he) (h e he))
    fun e he => startsItem_element (helements e he)
  rw [List.map_map]
  refine hblock.finish fun y hy => .pure ?_
  simp only [TypeForm.map, TypeForm.bare, List.map_map, Function.comp_def, hy]

/-! ## Types -/

/-- A form is read back if the types inside it are. -/
theorem typeForm {form : TypeForm TypeNode} (hform : form.Printable L.spell)
    (hparts : ∀ t ∈ form.children, t.Printable L.spell)
    (h : ∀ t ∈ form.inside, V.Takes L type t endsType) :
    Takes L (typeForm type) ((form.map (TypeNode.tokens L.spell)).tokens L.spell) endsType
      fun x => (x.map V.read).Alike L.same (form.map V.written) := by
  refine .peek fun c o _ hc => ?_
  rw [hc]
  -- only an array has a length
  have hbare {p : Parse (TypeForm TypeNode)} {ts : List Token} {g : TypeForm TypeNode}
      (hg : (g.map V.written).length? = none)
      (hp : Takes L p ts endsType fun x => (x.map V.read).bare = (g.map V.written).bare) :
      Takes L p ts endsType fun x => (x.map V.read).Alike L.same (g.map V.written) :=
    hp.mono (fun _ h => h) fun _ hx => TypeForm.Alike.of_bare hx hg
  cases form with
  | named q n args =>
    cases q with
    | none => exact hbare rfl (typeName h)
    | some q => exact hbare rfl (typeName h)
  | pointer p t =>
    refine hbare rfl ((bump (F := anything) _).step (fun s _ => ?_) fun _ _ => trivial)
    refine (h t (by simp [TypeForm.inside, TypeForm.children])).finish fun x hx => .pure ?_
    simp only [TypeForm.map, TypeForm.bare, hx]
  | array n t => exact array hform (h t (by simp [TypeForm.inside, TypeForm.children]))
  | slice p t => exact hbare rfl (slice (h t (by simp [TypeForm.inside, TypeForm.children])))
  | mapping p k v =>
    exact hbare rfl (mapping (h k (by simp [TypeForm.inside, TypeForm.children]))
      (h v (by simp [TypeForm.inside, TypeForm.children])))
  | chan d p t =>
    have ht := h t (by simp [TypeForm.inside, TypeForm.children])
    cases d with
    | both => exact hbare rfl (chanBoth hform ht)
    | send => exact hbare rfl (chanSend ht)
    | receive => exact hbare rfl (chanReceive ht)
  | struct p fields =>
    exact hbare rfl (struct hform (fun x hx => hparts _ (List.mem_map_of_mem hx))
      fun x hx => h _ (List.mem_map_of_mem hx))
  | interface p elements =>
    exact hbare rfl (interface hform
      (fun e he t ht => hparts t (List.mem_flatMap.2 ⟨e, he, ht⟩))
      fun e he t ht => h t (List.mem_flatMap.2 ⟨e, he, ht⟩))
  | func p s =>
    refine hbare rfl ((bump (F := anything) _).step (fun _ _ => ?_) fun _ _ => trivial)
    refine (signature hform hparts h).finish fun x hx => .pure ?_
    simp only [TypeForm.map, TypeForm.bare, hx]
  | paren p t => exact hbare rfl (paren (h t (by simp [TypeForm.inside, TypeForm.children])))

/-! ## Nested types -/

theorem makeType (start : Span) (form : TypeForm TypeNode) :
    Takes L (makeType start form) [] F fun t => t.form = form := by
  intro c ls r hls _ _ hc
  obtain rfl := List.map_eq_nil_iff.1 hls
  exact ⟨_, _, rfl, hc, rfl⟩

end Parse.Takes

theorem TypeForm.mem_children {form : TypeForm TypeNode} {t : TypeNode} (h : t ∈ form.inside) :
    t ∈ form.children := by
  have hlist (l : FieldList TypeNode) (h : t ∈ l.inside) : t ∈ l.children := by
    obtain ⟨x, hx, rfl⟩ := List.mem_map.1 h
    exact List.mem_map_of_mem (List.mem_filter.1 hx).1
  have hsignature (s : Signature TypeNode) (h : t ∈ s.inside) : t ∈ s.children := by
    rcases List.mem_append.1 h with h | h
    · exact List.mem_append_left _ (hlist _ h)
    · refine List.mem_append_right _ ?_
      rcases hres : s.results with _ | u | l <;> rw [hres] at h
      · exact h
      · exact h
      · exact hlist _ h
  cases form with
  | func p s => exact hsignature s h
  | interface p elements =>
    obtain ⟨e, he, h⟩ := List.mem_flatMap.1 h
    refine List.mem_flatMap.2 ⟨e, he, ?_⟩
    cases e with
    | method name s => exact hsignature s h
    | union terms => exact h
  | _ => exact h

/-- Values folded up from the types read and from those written, the same for forms that differ in
places only. Lengths may count too, as far as they are the same. -/
structure PlaceFree (same : Span → Span → Prop) (g h : Nat → Span → TypeForm α → α) : Prop where
  eq : ∀ {form form' : TypeForm α}, form.Alike same form' →
    ∀ serial span serial' span', g serial span form = h serial' span' form'

namespace PlaceFree

variable {L : Legend} {g h : Nat → Span → TypeForm α → α}

theorem eq_named (hgh : PlaceFree L.same g h) (x : Ident) (serial : Nat) (span : Span) :
    g serial span (.named none x []) = h 0 .nowhere (.named none ⟨x.name, .nowhere⟩ []) := by
  have hx : (TypeForm.named none x [] : TypeForm α).Alike L.same
      (.named none ⟨x.name, .nowhere⟩ []) := .of_bare rfl rfl
  exact hgh.eq hx _ _ _ _

def meaning (hgh : PlaceFree L.same g h) : Meaning α where
  read t := t.fold g
  written t := t.fold h
  named name := h 0 .nowhere (.named none ⟨name, .nowhere⟩ [])
  read_ident serial span x := by
    rw [TypeNode.fold_mk]
    exact hgh.eq_named x serial span
  written_ident serial span x := by
    rw [TypeNode.fold_mk, ← hgh.eq_named x 0 .nowhere]
    exact (hgh.eq (.of_bare rfl rfl) _ _ _ _).symm

/-- The form that is read for a printable type, if the types inside it are read. -/
theorem takes_form (hgh : PlaceFree L.same g h) {form : TypeForm TypeNode} {room : Nat}
    (hform : form.Printable L.spell) (hparts : ∀ t ∈ form.children, t.Printable L.spell)
    (hinside : ∀ t ∈ form.inside, hgh.meaning.Takes L (Parse.typeWithin room) t endsType)
    (serial : Nat) (span : Span) :
    Parse.Takes L (Parse.typeWithin (room + 1)) ((TypeNode.mk serial span form).tokens L.spell)
      endsType
      fun t => (t.form.map (TypeNode.fold g)).Alike L.same (form.map (TypeNode.fold h)) := by
  rw [TypeNode.tokens_mk]
  refine .look fun c _ _ _ _ _ => ?_
  refine (Parse.Takes.typeForm hform hparts hinside).finish fun form' hform' => ?_
  refine (Parse.Takes.makeType _ form').mono (fun _ h => h) ?_
  rintro t rfl
  exact hform'

/-- A printable type is read, and what is folded up is the same. -/
theorem takes_typeWithin (hgh : PlaceFree L.same g h) {t : TypeNode} {room : Nat}
    (hroom : t.NestsWithin room) (ht : t.Printable L.spell) :
    hgh.meaning.Takes L (Parse.typeWithin room) t endsType := by
  induction hroom with
  | @mk n serial span form _ ih =>
    obtain ⟨hform, hparts⟩ := ht
    have hinside := fun u hu => ih u hu (hparts u (form.mem_children hu))
    refine (hgh.takes_form hform hparts hinside serial span).mono (fun _ h => h) ?_
    rintro ⟨_, _, form'⟩ hform'
    show TypeNode.fold g _ = TypeNode.fold h _
    rw [TypeNode.fold_mk, TypeNode.fold_mk]
    exact hgh.eq hform' _ _ _ _

end PlaceFree

theorem typeWithin_reads_printed {spell : Span → List Token} {t : TypeNode} {room : Nat}
    (ht : t.Printable spell) (hroom : t.NestsWithin room) {c : Cursor} {ls r : List Lexeme}
    (hls : ls.map Lexeme.token = t.tokens spell) (hr : endsType (r.head?.map Lexeme.token))
    (hc : c.rest = ls ++ r) :
    ∃ t' c', Parse.typeWithin room c = .ok (t', c') ∧ t'.bare = t.bare ∧ c'.rest = r := by
  have hfree : PlaceFree (fun _ _ => True)
      (fun _ _ form => TypeNode.mk 0 .nowhere form.bare) fun _ _ form => .mk 0 .nowhere form.bare :=
    ⟨fun h _ _ _ _ => by rw [h.1]⟩
  have htakes := (hfree.takes_typeWithin (L := ⟨spell, fun _ _ => True⟩)) hroom ht
  obtain ⟨t', c', hok, hrest, hbare⟩ := htakes c ls r hls (fun _ _ _ => trivial) hr hc
  exact ⟨t', c', hok, hbare, hrest⟩

/-- A printable type that nests within the limit is read from its tokens as it is, whatever comes
after it. -/
theorem type_reads_printed {spell : Span → List Token} {t : TypeNode} (ht : t.Printable spell)
    (hroom : t.NestsWithin Parse.nestingLimit) {c : Cursor} {ls r : List Lexeme}
    (hls : ls.map Lexeme.token = t.tokens spell) (hr : endsType (r.head?.map Lexeme.token))
    (hc : c.rest = ls ++ r) :
    ∃ t' c', Parse.type c = .ok (t', c') ∧ t'.bare = t.bare ∧ c'.rest = r :=
  typeWithin_reads_printed ht hroom hls hr hc

/-- A channel of functions from variadic arrays, before a closing bracket. -/
theorem chan_of_func_reads_printed :
    let name : TypeNode := .mk 0 ⟨0, 0⟩ (.named none ⟨"T", ⟨0, 0⟩⟩ [])
    let array : TypeNode := .mk 0 ⟨0, 0⟩ (.array ⟨1, 2⟩ name)
    let param : Field TypeNode := ⟨0, ⟨0, 0⟩, [⟨"x", ⟨0, 0⟩⟩], some ⟨0, 0⟩, array, none, false⟩
    let func : TypeNode :=
      .mk 0 ⟨0, 0⟩ (.func ⟨0, 0⟩ ⟨0, ⟨0, 0⟩, ⟨⟨0, 0⟩, [param], ⟨0, 0⟩⟩, .single name⟩)
    let t : TypeNode := .mk 0 ⟨0, 0⟩ (.chan .send ⟨0, 0⟩ func)
    let spell : Span → List Token := fun _ => [.literal .int "2"]
    let ls : List Lexeme := (t.tokens spell).mapIdx fun i token => ⟨token, ⟨i, i + 1⟩⟩
    let r : List Lexeme := [⟨.mark .rbrack, ⟨12, 13⟩⟩]
    let c : Cursor := ⟨ls ++ r, ⟨0, 0⟩, 13, ⟨0, 0, 0, 0, 0⟩⟩
    t.Printable spell ∧ t.NestsWithin Parse.nestingLimit ∧
      ∃ t' c', Parse.type c = .ok (t', c') ∧ t'.bare = t.bare ∧ c'.rest = r := by
  intro name array param func t spell ls r c
  have hname : name.Printable spell := ⟨trivial, by simp [TypeForm.children]⟩
  have harray : array.Printable spell := by
    refine ⟨⟨by simp [spell], .plain rfl rfl .nil, by simp [spell]⟩, ?_⟩
    simpa [TypeForm.children] using hname
  have hfunc : func.Printable spell := by
    refine ⟨⟨⟨by simp [param], .inl (by simp [param])⟩, rfl⟩, ?_⟩
    simpa [TypeForm.children, Signature.children, FieldList.children, Results.children, param]
      using ⟨harray, hname⟩
  have ht : t.Printable spell := ⟨trivial, by simpa [TypeForm.children] using hfunc⟩
  have hroom : t.NestsWithin Parse.nestingLimit := by
    have hname (n : Nat) : name.NestsWithin (n + 1) :=
      ⟨by simp [TypeForm.inside, TypeForm.children]⟩
    have harray (n : Nat) : array.NestsWithin (n + 2) :=
      ⟨by simpa [TypeForm.inside, TypeForm.children] using hname n⟩
    have hfunc (n : Nat) : func.NestsWithin (n + 3) := by
      refine ⟨?_⟩
      simpa [TypeForm.inside, Signature.inside, FieldList.inside, Results.inside, Field.isBare,
        param] using ⟨harray n, hname (n + 1)⟩
    exact ⟨by simpa [TypeForm.inside, TypeForm.children] using hfunc 96⟩
  refine ⟨ht, hroom, type_reads_printed ht hroom ?_ ?_ rfl⟩
  · rfl
  · rintro _ ⟨⟩
    exact ⟨rfl, by simp⟩

end GoIface
