import GoIface.Proofs.Writing

/-!
# Entries of parameter lists

A parameter list is written as entries: bare identifiers, and types that may have a name, an
ellipsis or both. How an entry starts tells which of these it is (`entryStart_of_tokens`), so the
entries of a list are read as they were written (`Takes.paramEntry`). What the whole list then
makes of them depends on nothing but the entries (`resolveEntries_ok`).
-/

namespace GoIface

variable {α β τ : Type}

inductive ListEntry (τ : Type) where
  | bare (name : String)
  | typed (name : Option String) (variadic : Bool) (type : τ)
deriving Repr, DecidableEq

namespace ListEntry

def map (f : τ → α) : ListEntry τ → ListEntry α
  | bare name => bare name
  | typed name variadic type => typed name variadic (f type)

def tokens : ListEntry (List Token) → List Token
  | bare name => [.ident name]
  | typed name variadic type =>
    name.toList.map .ident ++ ((if variadic then [Token.mark .ellipsis] else []) ++ type)

def type? : ListEntry τ → Option τ
  | bare _ => none
  | typed _ _ type => some type

/-- The names, whether there is an ellipsis, and the type. -/
def shape : ListEntry τ → List String × Bool × Option τ
  | bare name => ([name], false, none)
  | typed name variadic type => (name.toList, variadic, some type)

def start : ListEntry τ → Parse.EntryStart
  | bare _ => .bare
  | typed (some _) _ _ => .named
  | typed none _ _ => .unnamed

end ListEntry

def ParamEntry.shape (G : TypeNode → α) (e : ParamEntry TypeNode) : List String × Bool × Option α :=
  (e.names.map (·.name), e.ellipsis.isSome, e.type.map G)

/-- What looking ahead expects of a type. A bracket that it starts with is closed before the start
of another type, and a bracket after the identifier that it starts with is closed where it ends. -/
structure LooksLikeType (ts : List Token) : Prop where
  starts : ∃ t us, ts = t :: us ∧ t.startsType = true
  bracket : ∀ us, ts = .mark .lbrack :: us →
    ∃ inner u vs, us = inner ++ .mark .rbrack :: u :: vs ∧ Level inner ∧ u.startsType = true
  name : ∀ n us, ts = .ident n :: us →
    us = [] ∨ us.head? = some (.mark .dot) ∨
      ∃ inner, us = .mark .lbrack :: (inner ++ [Token.mark .rbrack]) ∧ Level inner

/-- After the identifier that a type starts with there is no parenthesis. -/
theorem LooksLikeType.head?_ne_lparen {ts after : List Token} (h : LooksLikeType ts)
    (hafter : after.head? ≠ some (.mark .lparen)) {n : String} {us : List Token}
    (hus : ts ++ after = .ident n :: us) : us.head? ≠ some (.mark .lparen) := by
  obtain ⟨t, vs, rfl, -⟩ := h.starts
  obtain ⟨rfl, rfl⟩ := List.cons_eq_cons.1 hus
  rcases h.name n vs rfl with rfl | hdot | ⟨inner, rfl, -⟩
  · exact hafter
  · obtain ⟨vs, rfl⟩ := List.head?_eq_some_iff.1 hdot
    simp
  · simp

/-- An entry that is nothing but an identifier is a bare one. -/
def ListEntry.Readable : ListEntry (List Token) → Prop
  | .bare _ => True
  | .typed name variadic type =>
    LooksLikeType type ∧ (name = none → variadic = false → ∀ n, type ≠ [.ident n])

namespace Parse

theorem entryStart_of_not_ident {l : Lexeme} (h : ∀ n, l.token ≠ .ident n) (rest : List Lexeme) :
    entryStart (l :: rest) = .unnamed := by
  obtain ⟨t, span⟩ := l
  unfold entryStart
  split
  · next heq => exact absurd (by simpa using congrArg (·.head?.map Lexeme.token) heq) (h _)
  · rfl

/-- A name before a type. -/
theorem entryStart_named {l k : Lexeme} {n : String} (hl : l.token = .ident n)
    (hk : k.token.startsType = true) {rest : List Lexeme}
    (hargs : k.token = .mark .lbrack → holdsTypeArgs 0 (k :: rest) = false) :
    entryStart (l :: k :: rest) = .named := by
  obtain ⟨_, span⟩ := l
  obtain rfl := hl
  simp only [entryStart, List.head?_cons, Option.map_some]
  split <;> simp_all [Token.startsType]

/-- A type that starts with an identifier. -/
theorem entryStart_unnamed {n : String} {us : List Token} {ls r : List Lexeme}
    (hls : ls.map Lexeme.token = .ident n :: us)
    (h : us.head? = some (.mark .dot) ∨ ∀ ks : List Lexeme, ks.map Lexeme.token = us →
      us.head? = some (.mark .lbrack) ∧ holdsTypeArgs 0 (ks ++ r) = true) :
    entryStart (ls ++ r) = .unnamed := by
  obtain ⟨⟨_, span⟩, ks, rfl, rfl, hks⟩ := List.map_eq_cons_iff.1 hls
  have hhead {t : Token} (ht : us.head? = some t) :
      (ks ++ r).head?.map Lexeme.token = some t := by
    rw [← hks] at ht
    rcases ks with _ | ⟨k, ks⟩
    · simp at ht
    · simpa using ht
  rw [List.cons_append, entryStart]
  rcases h with hdot | h
  · rw [hhead hdot]
  · obtain ⟨hbrack, hargs⟩ := h ks hks
    rw [hhead hbrack]
    simp only [hargs, if_true]

theorem holdsTypeArgs_before {inner us : List Token} {u : Token} {k : Lexeme} {ls : List Lexeme}
    (hk : k.token = .mark .lbrack) (hinner : Level inner)
    (hls : ls.map Lexeme.token = inner ++ .mark .rbrack :: u :: us) (hu : u.startsType = true)
    (r : List Lexeme) : holdsTypeArgs 0 (k :: ls ++ r) = false := by
  obtain ⟨ls₁, _, rfl, h₁, h⟩ := List.map_eq_append_iff.1 hls
  obtain ⟨c, _, rfl, hc, h⟩ := List.map_eq_cons_iff.1 h
  obtain ⟨l, ls₂, rfl, rfl, -⟩ := List.map_eq_cons_iff.1 h
  have hclosed : (k :: (ls₁ ++ [c])).map Lexeme.token
      = .mark .lbrack :: (inner ++ [Token.mark .rbrack]) := by
    simp [hk, h₁, hc]
  have := holdsTypeArgs_enclosed rfl rfl hinner hclosed (l :: (ls₂ ++ r))
  simpa [hu] using this

theorem entryStart_of_tokens {e : ListEntry (List Token)} (he : e.Readable) {ls r : List Lexeme}
    (hls : ls.map Lexeme.token = e.tokens)
    (hr : Takes.afterItem .rparen (r.head?.map Lexeme.token)) :
    entryStart (ls ++ r) = e.start := by
  have hnext : !(r.head?.any (·.token.startsType)) := by
    rcases r with _ | ⟨k, r⟩
    · rfl
    · rcases hr with h | h <;> simp_all [Token.startsType]
  cases e with
  | bare name =>
    obtain ⟨⟨_, span⟩, rfl, rfl⟩ := List.map_eq_singleton_iff.1 hls
    rcases hr with h | h <;> simp [entryStart, h, ListEntry.start]
  | typed name variadic type =>
    obtain ⟨htype, hident⟩ := he
    obtain ⟨t, us, rfl, ht⟩ := htype.starts
    cases variadic with
    | true =>
      cases name with
      | none =>
        obtain ⟨l, ls, rfl, hl, -⟩ := List.map_eq_cons_iff.1 hls
        exact entryStart_of_not_ident (by simp [hl]) _
      | some n =>
        obtain ⟨⟨_, span⟩, _, rfl, rfl, h⟩ := List.map_eq_cons_iff.1 hls
        obtain ⟨k, ls, rfl, hk, -⟩ := List.map_eq_cons_iff.1 h
        simp [entryStart, hk, ListEntry.start]
    | false =>
      cases name with
      | none =>
        by_cases hid : ∃ n, t = .ident n
        · obtain ⟨n, rfl⟩ := hid
          refine entryStart_unnamed hls ?_
          rcases htype.name n us rfl with rfl | hdot | ⟨inner, rfl, hinner⟩
          · exact absurd rfl (hident rfl rfl n)
          · exact .inl hdot
          · refine .inr fun ks hks => ⟨rfl, ?_⟩
            rw [holdsTypeArgs_enclosed rfl rfl hinner hks, hnext]
        · obtain ⟨l, ls, rfl, hl, -⟩ := List.map_eq_cons_iff.1 hls
          exact entryStart_of_not_ident (fun n hn => hid ⟨n, hl.symm.trans hn⟩) _
      | some n =>
        obtain ⟨l, _, rfl, hl, h⟩ := List.map_eq_cons_iff.1 hls
        obtain ⟨k, ls, rfl, hk, h⟩ := List.map_eq_cons_iff.1 h
        refine entryStart_named hl (hk ▸ ht) fun hbrack => ?_
        obtain ⟨inner, u, vs, rfl, hinner, hu⟩ := htype.bracket us (by rw [← hk, hbrack])
        exact holdsTypeArgs_before hbrack hinner h hu r

namespace Takes

variable {L : Legend} {F : Follow} {type : Parse TypeNode} {tok : τ → List Token}
  {G : TypeNode → α} {H : τ → α}

theorem spanFrom (start : Span) : Takes L (spanFrom start) [] F fun _ => True :=
  .look fun _ _ _ _ _ _ => .pure trivial

/-- An entry is read as it was written. -/
theorem paramEntry {e : ListEntry τ} (he : (e.map tok).Readable)
    (htype : ∀ t ∈ e.type?, Takes L type (tok t) (afterItem .rparen) fun x => G x = H t) :
    Takes L (paramEntry type) (e.map tok).tokens (afterItem .rparen)
      fun p => p.shape G = (e.map H).shape := by
  refine .look fun c ls r hls hr hc => ?_
  rw [hc, entryStart_of_tokens he hls hr]
  cases e with
  | bare name =>
    refine (ident (F := afterItem .rparen) name).finish fun x hx => .pure ?_
    rw [ParamEntry.shape, List.map_singleton, hx]
    rfl
  | typed name variadic t =>
    obtain ⟨u, us, hu, hstarts⟩ := he.1.starts
    -- with or without a name before them
    have hrest (names : List Ident) (hnames : names.map (·.name) = name.toList) :
        Takes L (do
          let ellipsis ← eat .ellipsis
          let type ← type
          return (⟨names, ellipsis, some type, ← Parse.spanFrom c.here⟩ : ParamEntry TypeNode))
        ((if variadic then [Token.mark .ellipsis] else []) ++ tok t) (afterItem .rparen)
        fun p => p.shape G = ((ListEntry.typed name variadic t).map H).shape := by
      refine (eat_if .ellipsis variadic).bind (fun s hs => ?_) fun o _ => ?_
      · refine (htype t rfl).finish fun x hx => ?_
        refine (spanFrom (F := afterItem .rparen) _).finish fun _ _ => .pure ?_
        rw [ParamEntry.shape, hnames, hs, Option.map_some, hx]
        rfl
      · rw [hu]
        rintro ⟨⟩
        simp [Token.startsType] at hstarts
    cases name with
    | none => exact hrest [] rfl
    | some n =>
      have hname : Takes L (List.singleton <$> Parse.ident) [.ident n] anything
          fun names => names.map (·.name) = [n] :=
        (ident n).map fun x hx => by rw [List.singleton, List.map_singleton, hx]
      exact hname.step hrest fun _ _ => trivial

end Takes

end Parse

/-! ## What the whole list makes of its entries -/

/-- The names that share a type, none for an anonymous parameter. -/
structure Sharing (τ : Type) where
  names : List String
  variadic : Bool
  type : τ
deriving Repr, DecidableEq

/-- The field of names that share a type, without places. -/
def Sharing.field (s : Sharing τ) : Field τ :=
  ⟨0, .nowhere, s.names.map (⟨·, .nowhere⟩), if s.variadic then some .nowhere else none, s.type,
    none, false⟩

def Field.sharing (G : TypeNode → α) (x : Field TypeNode) : Sharing α :=
  ⟨x.names.map (·.name), x.ellipsis.isSome, G x.type⟩

def ParamGroup.sharing (G : TypeNode → α) (g : ParamGroup TypeNode) : Sharing α :=
  ⟨g.allNames.map (·.name), g.ellipsis.isSome, G g.type⟩

/-- The types of a list with the names that share them, where `waiting` come before the list. -/
def sharings (waiting : List String) : List (ListEntry τ) → List (Sharing τ)
  | [] => []
  | .bare name :: es => sharings (waiting ++ [name]) es
  | .typed name variadic type :: es =>
    ⟨waiting ++ name.toList, variadic, type⟩ :: sharings [] es

/-- The identifiers that no type follows. -/
def unshared (waiting : List String) : List (ListEntry τ) → List String
  | [] => waiting
  | .bare name :: es => unshared (waiting ++ [name]) es
  | .typed _ _ _ :: es => unshared [] es

/-- The list has names that share a type, and something else too. -/
def Mixed (es : List (ListEntry τ)) : Prop :=
  (∃ s ∈ sharings [] es, s.names ≠ []) ∧
    ((∃ s ∈ sharings [] es, s.names = []) ∨ unshared [] es ≠ [])

/-- The fields that a list makes up if it is not mixed. -/
def fieldsOf (named : String → τ) (es : List (ListEntry τ)) : List (Field τ) :=
  (sharings [] es ++ (unshared [] es).map (Sharing.mk [] false <| named ·)).map Sharing.field

variable {G : TypeNode → α}

theorem map_nowhere (o : Option Span) :
    o.map (fun _ => Span.nowhere) = if o.isSome then some .nowhere else none := by
  cases o <;> rfl

theorem Field.bare_map (G : TypeNode → α) (x : Field TypeNode) (htag : x.tag = none)
    (hembedded : x.embedded = false) : (x.map G).bare = (x.sharing G).field := by
  simp only [Field.map, bare, sharing, Sharing.field, map_nowhere, List.map_map, htag, hembedded]
  rfl

theorem ParamGroup.bare_field (serial : Nat) (g : ParamGroup TypeNode) :
    ((g.field serial).map G).bare = (g.sharing G).field :=
  (g.field serial).bare_map G rfl rfl

theorem groupEntries_of_shape : ∀ (ps : List (ParamEntry TypeNode)) (es : List (ListEntry α)),
    ps.map (ParamEntry.shape G) = es.map ListEntry.shape →
    ∀ (waiting : List Ident) (start : Option Nat),
      (groupEntries waiting start ps).1.map (ParamGroup.sharing G)
          = sharings (waiting.map (·.name)) es ∧
        (groupEntries waiting start ps).2.map (·.name) = unshared (waiting.map (·.name)) es
  | [], [], _, waiting, start => ⟨rfl, rfl⟩
  | p :: ps, e :: es, h, waiting, start => by
    obtain ⟨hp, hps⟩ := List.cons_eq_cons.1 h
    have ih := groupEntries_of_shape ps es hps
    cases e with
    | bare name =>
      obtain ⟨hnames, -, htype⟩ : p.names.map (·.name) = [name] ∧ p.ellipsis.isSome = false ∧
        p.type = none := by simpa [ParamEntry.shape, ListEntry.shape] using hp
      rw [groupEntries, htype]
      have ih := ih (waiting ++ p.names)
      rw [List.map_append, hnames] at ih
      exact ih _
    | typed name variadic t =>
      obtain ⟨hnames, hellipsis, x, hx, rfl⟩ : p.names.map (·.name) = name.toList ∧
        p.ellipsis.isSome = variadic ∧ ∃ x, p.type = some x ∧ G x = t := by
          simpa [ParamEntry.shape, ListEntry.shape] using hp
      rw [groupEntries, hx]
      obtain ⟨hgroups, hleft⟩ := ih [] none
      refine ⟨?_, hleft⟩
      simp only [Prod.map_fst, List.map_cons, hgroups, sharings, List.map_nil]
      rw [ParamGroup.sharing, ParamGroup.allNames, List.map_append, hnames, hellipsis]

theorem exists_mem_map {f : α → β} {xs : List α} {P : β → Prop} :
    (∃ y ∈ xs.map f, P y) ↔ ∃ x ∈ xs, P (f x) := by
  constructor
  · rintro ⟨_, hy, h⟩
    obtain ⟨x, hx, rfl⟩ := List.mem_map.1 hy
    exact ⟨x, hx, h⟩
  · rintro ⟨x, hx, h⟩
    exact ⟨f x, List.mem_map_of_mem hx, h⟩

theorem allNames_eq_nil {g : ParamGroup TypeNode} : g.allNames = [] ↔ (g.sharing G).names = [] := by
  simp [ParamGroup.sharing]

theorem mixedAt?_isSome {groups : List (ParamGroup TypeNode)} {left : List Ident}
    {es : List (ListEntry α)}
    (hgroups : groups.map (ParamGroup.sharing G) = sharings [] es)
    (hleft : left.map (·.name) = unshared [] es) :
    (mixedAt? groups left).isSome = true ↔ Mixed es := by
  unfold mixedAt? Mixed
  rw [← hgroups, ← hleft]
  split
  · next h =>
    obtain ⟨g, hg, hne⟩ : ∃ g ∈ groups, g.allNames ≠ [] := by simpa using h
    have hshared : ∃ s ∈ groups.map (ParamGroup.sharing G), s.names ≠ [] :=
      ⟨_, List.mem_map_of_mem hg, mt allNames_eq_nil.2 hne⟩
    rw [and_iff_right hshared, List.isSome_head?, Ne, List.append_eq_nil_iff,
      Classical.not_and_iff_not_or_not]
    refine or_congr ?_ (by simp)
    rw [exists_mem_map]
    simp [ParamGroup.sharing, List.filter_eq_nil_iff]
  · next h =>
    have hnone : ∀ g ∈ groups, g.allNames = [] := by simpa using h
    refine ⟨by simp, fun ⟨hshared, _⟩ => ?_⟩
    obtain ⟨g, hg, hne⟩ := exists_mem_map.1 hshared
    exact absurd (allNames_eq_nil.1 (hnone g hg)) hne

/-- A mixed list is refused. -/
theorem resolveEntries_mixed {ps : List (ParamEntry TypeNode)} {es : List (ListEntry α)}
    (h : ps.map (ParamEntry.shape G) = es.map ListEntry.shape) (hmixed : Mixed es) (made : Counts) :
    ∃ span, resolveEntries ps made = .error ⟨.mixedParameters, span⟩ := by
  obtain ⟨hgroups, hleft⟩ := groupEntries_of_shape ps es h [] none
  obtain ⟨span, hspan⟩ := Option.isSome_iff_exists.1 ((mixedAt?_isSome hgroups hleft).2 hmixed)
  refine ⟨span, ?_⟩
  simp only [resolveEntries, hspan]

/-- A map that forgets the places in a list. -/
theorem map_mapIdx {f : Nat → β → τ} {g : τ → α} {h : β → α} (xs : List β)
    (hf : ∀ i x, g (f i x) = h x) : (xs.mapIdx f).map g = xs.map h := by
  refine List.ext_getElem? fun i => ?_
  simp [Function.comp_def, hf]

theorem resolveEntries_ok {ps : List (ParamEntry TypeNode)} {es : List (ListEntry α)}
    {named : String → α}
    (hnamed : ∀ serial span x, G (.mk serial span (.named none x [])) = named x.name)
    (h : ps.map (ParamEntry.shape G) = es.map ListEntry.shape) (hmixed : ¬ Mixed es)
    (made : Counts) :
    ∃ fields made', resolveEntries ps made = .ok (fields, made') ∧
      fields.map (fun x => (x.map G).bare) = fieldsOf named es := by
  obtain ⟨hgroups, hleft⟩ := groupEntries_of_shape ps es h [] none
  rw [List.map_nil] at hgroups hleft
  have hnone := Option.not_isSome_iff_eq_none.1 (mt (mixedAt?_isSome hgroups hleft).1 hmixed)
  refine ⟨_, _, by simp only [resolveEntries, hnone]; rfl, ?_⟩
  have hfield (i j : Nat) (x : Ident) :
      ((x.field i j).map G).bare = (Sharing.mk [] false (named x.name)).field := by
    simp only [Ident.field, Field.map, hnamed]
    rfl
  rw [List.map_append, fieldsOf, List.map_append]
  refine congr (congrArg _ ?_) ?_
  · refine Eq.trans (map_mapIdx _ fun i => ParamGroup.bare_field _) ?_
    rw [← hgroups, List.map_map]
    rfl
  · refine Eq.trans (map_mapIdx _ fun i => hfield _ _) ?_
    rw [← hleft, List.map_map, List.map_map]
    rfl

/-! ## Parameter lists -/

theorem ListEntry.Readable.startsItem {e : ListEntry (List Token)} (h : e.Readable) :
    Parse.Takes.StartsItem .rparen e.tokens := by
  cases e with
  | bare name => exact ⟨_, _, rfl, by simp⟩
  | typed name variadic type =>
    obtain ⟨t, us, rfl, ht⟩ := h.1.starts
    cases name with
    | some n => exact ⟨_, _, rfl, by simp⟩
    | none =>
      cases variadic with
      | true => exact ⟨_, _, rfl, by simp⟩
      | false => exact ⟨t, us, rfl, by rintro rfl; simp [Token.startsType] at ht⟩

namespace Parse

theorem stops_rparen : Takes.Stops (fun c => c.isAt .rparen || c.atEnd) .rparen where
  at_close c h := by simp [Cursor.isAt_iff.2 h]
  at_other c t h hne := by
    have hat : c.isAt .rparen = false := by simpa [Cursor.isAt, h] using hne
    have hend : c.atEnd = false := by
      rw [← Bool.not_eq_true, Cursor.atEnd_iff, h]
      simp
    simp [hat, hend]

/-- The entries of a parameter list with its parentheses. -/
def paramEntries (type : Parse TypeNode) : Parse (Span × List (ParamEntry TypeNode) × Span) := do
  let lparen ← expect (.mark .lparen)
  let entries ← listed (fun c => c.isAt .rparen || c.atEnd) (paramEntry type)
  let rparen ← expect (.mark .rparen)
  return (lparen, entries, rparen)

theorem params_eq (type : Parse TypeNode) :
    params type = paramEntries type >>= fun (lparen, entries, rparen) => do
      return ⟨lparen, ← resolve entries, rparen⟩ := by
  simp only [params, paramEntries, bind_assoc, pure_bind]

/-- A parameter list with the given entries, perhaps with a comma after the last. -/
def paramsTokens (trailing : Bool) (entries : List (List Token)) : List Token :=
  .mark .lparen :: (listing trailing entries ++ [Token.mark .rparen])

namespace Takes

variable {L : Legend} {F : Follow} {type : Parse TypeNode} {tok : τ → List Token}
  {G : TypeNode → α} {H : τ → α} {es : List (ListEntry τ)}

theorem paramEntries (hes : ∀ e ∈ es, (e.map tok).Readable)
    (htype : ∀ e ∈ es, ∀ t ∈ e.type?, Takes L type (tok t) (afterItem .rparen) fun x => G x = H t)
    (trailing : Bool) :
    Takes L (paramEntries type) (paramsTokens trailing (es.map fun e => (e.map tok).tokens)) F
      fun p => p.2.1.map (ParamEntry.shape G) = (es.map (ListEntry.map H)).map ListEntry.shape := by
  refine (expect (F := anything) (.mark .lparen)).step (fun _ _ => ?_) fun _ _ => trivial
  have hlisted := listed stops_rparen (by decide) trailing (H := fun e => (e.map H).shape)
    (fun e he => paramEntry (hes e he) (htype e he)) fun e he => (hes e he).startsItem
  refine hlisted.bind (fun ps hps => ?_) fun _ _ => rfl
  refine (expect (F := F) (.mark .rparen)).finish fun _ _ => .pure ?_
  rw [List.map_map]
  exact hps

/-- A list that is not mixed is read. -/
theorem params {named : String → α} (hes : ∀ e ∈ es, (e.map tok).Readable)
    (htype : ∀ e ∈ es, ∀ t ∈ e.type?, Takes L type (tok t) (afterItem .rparen) fun x => G x = H t)
    (hnamed : ∀ serial span x, G (.mk serial span (.named none x [])) = named x.name)
    (hmixed : ¬ Mixed (es.map (ListEntry.map H))) (trailing : Bool) :
    Takes L (params type) (paramsTokens trailing (es.map fun e => (e.map tok).tokens)) F
      fun l => l.fields.map (fun x => (x.map G).bare)
        = fieldsOf named (es.map (ListEntry.map H)) := by
  rw [params_eq]
  refine (paramEntries (F := F) hes htype trailing).finish fun p hp => ?_
  intro c ls r hls _ _ hc
  obtain ⟨fields, made, hok, hfields⟩ := resolveEntries_ok hnamed hp hmixed c.made
  obtain rfl := List.map_eq_nil_iff.1 hls
  refine ⟨⟨p.1, fields, p.2.2⟩, { c with made }, ?_, hc, hfields⟩
  have hresolve : resolve p.2.1 c = .ok (fields, { c with made }) := by
    rw [resolve, hok]
  exact bind_of_ok hresolve

end Takes

theorem params_mixed {L : Legend} {type : Parse TypeNode} {tok : τ → List Token}
  {G : TypeNode → α} {H : τ → α} {es : List (ListEntry τ)} (hes : ∀ e ∈ es, (e.map tok).Readable)
    (htype : ∀ e ∈ es, ∀ t ∈ e.type?,
      Takes L type (tok t) (Takes.afterItem .rparen) fun x => G x = H t)
    (hmixed : Mixed (es.map (ListEntry.map H))) {trailing : Bool} {c : Cursor} {ls r : List Lexeme}
    (hls : ls.map Lexeme.token = paramsTokens trailing (es.map fun e => (e.map tok).tokens))
    (hL : L.Fits ls) (hc : c.rest = ls ++ r) :
    ∃ span, params type c = .error ⟨.mixedParameters, span⟩ := by
  obtain ⟨p, c', hp, -, hshape⟩ :=
    Takes.paramEntries (F := anything) hes htype trailing c ls r hls hL trivial hc
  obtain ⟨span, herror⟩ := resolveEntries_mixed hshape hmixed c'.made
  have hresolve : resolve p.2.1 c' = .error ⟨.mixedParameters, span⟩ := by
    rw [resolve, herror]
  refine ⟨span, ?_⟩
  rw [params_eq, bind_of_ok hp]
  show Except.bind (resolve p.2.1 c') _ = _
  rw [hresolve]
  rfl

end Parse

end GoIface
