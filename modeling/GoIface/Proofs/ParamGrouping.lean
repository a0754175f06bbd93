import GoIface.Model.Conversion
import GoIface.Proofs.Levels
import GoIface.Proofs.TypeReading

/-!
# The rule for parameter lists

By the rule of the language a parameter list has names if one of its entries has a name before its
type. Then every bare identifier is a name, which shares the type of the next entry that has one;
a type without name, or an identifier with no type after it, is a fault. In a list without names
every entry is the type of a parameter (`formals`).

What is read differs from that in one way. An identifier directly before a type without name is
made the name of that type, wherever it stands. So the rule is followed if no identifier stands
there, and else only if the list is refused by both (`params_follow_rule_iff`). What is read is
converted as it was grouped, one parameter for each that was declared (`FieldList.params_eq_mapM`).
-/

namespace GoIface

variable {α τ : Type}

/-! ## The rule -/

/-- A parameter as it is declared, without name if it is anonymous. -/
structure Formal (τ : Type) where
  name : Option String
  variadic : Bool
  type : τ
deriving Repr, DecidableEq

def Formal.map (f : τ → α) (x : Formal τ) : Formal α := ⟨x.name, x.variadic, f x.type⟩

namespace ListEntry

def isBare : ListEntry τ → Bool
  | bare _ => true
  | typed _ _ _ => false

/-- A name before a type. -/
def isNamed : ListEntry τ → Bool
  | typed (some _) _ _ => true
  | _ => false

/-- A type without name. -/
def isUnnamed : ListEntry τ → Bool
  | typed none _ _ => true
  | _ => false

end ListEntry

def nextType : List (ListEntry τ) → Option (Bool × τ)
  | [] => none
  | .bare _ :: es => nextType es
  | .typed _ variadic type :: _ => some (variadic, type)

/-- Every identifier is a name. -/
def namedFormals : List (ListEntry τ) → Option (List (Formal τ))
  | [] => some []
  | .bare name :: es => do
    let (variadic, type) ← nextType es
    return ⟨some name, variadic, type⟩ :: (← namedFormals es)
  | .typed none _ _ :: _ => none
  | .typed (some name) variadic type :: es => do
    return ⟨some name, variadic, type⟩ :: (← namedFormals es)

/-- Every entry is a type. -/
def anonymousFormals (named : String → τ) (es : List (ListEntry τ)) : List (Formal τ) :=
  es.map fun
    | .bare name => ⟨none, false, named name⟩
    | .typed _ variadic type => ⟨none, variadic, type⟩

/-- The parameters that a list declares, unless it is faulty. The type that an identifier stands
for is given. -/
def formals (named : String → τ) (es : List (ListEntry τ)) : Option (List (Formal τ)) :=
  if es.any ListEntry.isNamed then namedFormals es else some (anonymousFormals named es)

/-! ## The lists that are grouped otherwise -/

/-- The entries of a list, each with the one before it. -/
def withPrevious (previous : Option (ListEntry τ)) :
    List (ListEntry τ) → List (Option (ListEntry τ) × ListEntry τ)
  | [] => []
  | e :: es => (previous, e) :: withPrevious (some e) es

/-- A bare identifier stands directly before a type without name. -/
def HidesType (es : List (ListEntry τ)) : Prop :=
  ∃ p ∈ withPrevious none es, p.1.any ListEntry.isBare = true ∧ p.2.isUnnamed = true

/-- A type without name stands elsewhere. -/
def ShowsType (es : List (ListEntry τ)) : Prop :=
  ∃ p ∈ withPrevious none es, p.1.any ListEntry.isBare = false ∧ p.2.isUnnamed = true

def EndsBare (es : List (ListEntry τ)) : Prop := es.getLast?.any ListEntry.isBare = true

/-! ## What is made of the entries -/

def Sharing.formals (s : Sharing τ) : List (Formal τ) :=
  (if s.names.isEmpty then [none] else s.names.map some).map fun name =>
    ⟨name, s.variadic, s.type⟩

/-- The parameters that a list makes up. -/
def groupedFormals (named : String → τ) (es : List (ListEntry τ)) : List (Formal τ) :=
  (sharings [] es ++ (unshared [] es).map (Sharing.mk [] false <| named ·)).flatMap Sharing.formals

section Grouping

variable {named : String → τ}

/-- A type without names shows that no identifier waits for it. -/
theorem exists_unshared_iff : ∀ (es : List (ListEntry τ)) (waiting : List String)
    (previous : Option (ListEntry τ)), (previous.any ListEntry.isBare = true ↔ waiting ≠ []) →
      ((∃ s ∈ sharings waiting es, s.names = []) ↔
        ∃ p ∈ withPrevious previous es, p.1.any ListEntry.isBare = false ∧ p.2.isUnnamed = true)
  | [], _, _, _ => by simp [sharings, withPrevious]
  | .bare name :: es, waiting, previous, h => by
    have ih := exists_unshared_iff es (waiting ++ [name]) (some (.bare name))
      (by simp [ListEntry.isBare])
    simp only [sharings, withPrevious, List.mem_cons, exists_eq_or_imp, ih, ListEntry.isUnnamed,
      Bool.false_eq_true, and_false, false_or]
  | .typed name variadic type :: es, waiting, previous, h => by
    have ih := exists_unshared_iff es [] (some (.typed name variadic type))
      (by simp [ListEntry.isBare])
    have hhead : waiting ++ name.toList = [] ↔ previous.any ListEntry.isBare = false ∧
        (ListEntry.typed name variadic type).isUnnamed = true := by
      rw [← Bool.not_eq_true, h]
      cases name <;> simp [ListEntry.isUnnamed]
    simp only [sharings, withPrevious, List.mem_cons, exists_eq_or_imp, hhead, ih]

theorem exists_shared_iff : ∀ (es : List (ListEntry τ)) (waiting : List String)
    (previous : Option (ListEntry τ)), (previous.any ListEntry.isBare = true ↔ waiting ≠ []) →
      ((∃ s ∈ sharings waiting es, s.names ≠ []) ↔ es.any ListEntry.isNamed = true ∨
        ∃ p ∈ withPrevious previous es, p.1.any ListEntry.isBare = true ∧ p.2.isUnnamed = true)
  | [], _, _, _ => by simp [sharings, withPrevious]
  | .bare name :: es, waiting, previous, h => by
    have ih := exists_shared_iff es (waiting ++ [name]) (some (.bare name))
      (by simp [ListEntry.isBare])
    simp only [sharings, withPrevious, List.mem_cons, exists_eq_or_imp, ih, ListEntry.isUnnamed,
      Bool.false_eq_true, and_false, false_or, List.any_cons, ListEntry.isNamed, Bool.false_or]
  | .typed name variadic type :: es, waiting, previous, h => by
    have ih := exists_shared_iff es [] (some (.typed name variadic type))
      (by simp [ListEntry.isBare])
    have hhead : waiting ++ name.toList ≠ [] ↔
        (ListEntry.typed name variadic type).isNamed = true ∨
          previous.any ListEntry.isBare = true ∧
            (ListEntry.typed name variadic type).isUnnamed = true := by
      rw [h]
      cases name <;> simp [ListEntry.isUnnamed, ListEntry.isNamed]
    simp only [sharings, withPrevious, List.mem_cons, exists_eq_or_imp, hhead, ih, List.any_cons,
      Bool.or_eq_true, or_assoc, or_left_comm]

theorem unshared_ne_nil_iff : ∀ (es : List (ListEntry τ)) (waiting : List String)
    (previous : Option (ListEntry τ)), (previous.any ListEntry.isBare = true ↔ waiting ≠ []) →
      (unshared waiting es ≠ [] ↔ (es.getLast?.or previous).any ListEntry.isBare = true)
  | [], waiting, previous, h => by simpa [unshared] using h.symm
  | .bare name :: es, waiting, previous, h => by
    have ih := unshared_ne_nil_iff es (waiting ++ [name]) (some (.bare name))
      (by simp [ListEntry.isBare])
    rw [unshared, ih, List.getLast?_cons]
    cases es.getLast? <;> simp
  | .typed name variadic type :: es, waiting, previous, h => by
    have ih := unshared_ne_nil_iff es [] (some (.typed name variadic type))
      (by simp [ListEntry.isBare])
    rw [unshared, ih, List.getLast?_cons]
    cases es.getLast? <;> simp

/-- When a list is refused. -/
theorem mixed_iff {es : List (ListEntry τ)} : Mixed es ↔
    (es.any ListEntry.isNamed = true ∨ HidesType es) ∧ (ShowsType es ∨ EndsBare es) := by
  have hnone : (none : Option (ListEntry τ)).any ListEntry.isBare = true
      ↔ ([] : List String) ≠ [] := by
    simp
  rw [Mixed, exists_shared_iff es [] none hnone, exists_unshared_iff es [] none hnone,
    unshared_ne_nil_iff es [] none hnone, Option.or_none]
  rfl

/-! ## Lists with names -/

theorem nextType_names (waiting : List String) (name : Option String) (variadic : Bool) (type : τ)
    (es : List (ListEntry τ)) :
    nextType (waiting.map .bare ++ .typed name variadic type :: es) = some (variadic, type) := by
  induction waiting with
  | nil => rfl
  | cons n waiting ih => exact ih

/-- The names that wait share the type that comes. -/
theorem namedFormals_names (waiting : List String) (name : String) (variadic : Bool) (type : τ)
    (es : List (ListEntry τ)) :
    namedFormals (waiting.map .bare ++ .typed (some name) variadic type :: es)
      = (namedFormals es).map
          ((waiting ++ [name]).map (fun n => ⟨some n, variadic, type⟩) ++ ·) := by
  induction waiting with
  | nil =>
    rw [List.map_nil, List.nil_append, namedFormals]
    cases namedFormals es <;> rfl
  | cons n waiting ih =>
    rw [List.map_cons, List.cons_append, namedFormals, nextType_names, ih]
    cases namedFormals es <;> rfl

theorem namedFormals_eq : ∀ (es : List (ListEntry τ)) (waiting : List String),
    (∀ e ∈ es, e.isUnnamed = false) → unshared waiting es = [] →
      namedFormals (waiting.map .bare ++ es)
        = some ((sharings waiting es).flatMap Sharing.formals)
  | [], waiting, _, hleft => by
    obtain rfl : waiting = [] := hleft
    rfl
  | .bare name :: es, waiting, h, hleft => by
    have ih := namedFormals_eq es (waiting ++ [name])
      (fun e he => h e (List.mem_cons_of_mem _ he)) hleft
    simpa [sharings] using ih
  | .typed none _ _ :: _, _, h, _ => by simp [ListEntry.isUnnamed] at h
  | .typed (some name) variadic type :: es, waiting, h, hleft => by
    have ih := namedFormals_eq es [] (fun e he => h e (List.mem_cons_of_mem _ he)) hleft
    rw [namedFormals_names]
    rw [List.map_nil, List.nil_append] at ih
    simp [ih, sharings, Sharing.formals]

/-- A type without name, or an identifier that no type follows. -/
theorem namedFormals_eq_none : ∀ {es : List (ListEntry τ)},
    ((∃ e ∈ es, e.isUnnamed = true) ∨ EndsBare es) → namedFormals es = none
  | [], h => by simp [EndsBare] at h
  | [.bare name], _ => rfl
  | .bare name :: e :: es, h => by
    have ih : namedFormals (e :: es) = none := namedFormals_eq_none <| by
      simpa [EndsBare, ListEntry.isUnnamed] using h
    rw [namedFormals, ih]
    cases nextType (e :: es) <;> rfl
  | .typed none _ _ :: _, _ => rfl
  | .typed (some name) variadic type :: es, h => by
    have ih : namedFormals es = none := namedFormals_eq_none <| by
      refine h.imp (fun h => by simpa [ListEntry.isUnnamed] using h) fun h => ?_
      cases es with
      | nil => simp [EndsBare, ListEntry.isBare] at h
      | cons e es => simpa [EndsBare] using h
    rw [namedFormals, ih]
    rfl

/-! ## Lists without names -/

/-- Without names, only bare identifiers come after one that hides no type. -/
theorem eq_map_bare : ∀ {es : List (ListEntry τ)} (previous : ListEntry τ),
    previous.isBare = true → es.any ListEntry.isNamed = false →
      (¬ ∃ p ∈ withPrevious (some previous) es,
        p.1.any ListEntry.isBare = true ∧ p.2.isUnnamed = true) →
      ∃ names : List String, es = names.map fun n => .bare n
  | [], _, _, _, _ => ⟨[], rfl⟩
  | .bare name :: es, previous, hprevious, hnamed, hhides => by
    have hes : es.any ListEntry.isNamed = false := by simpa [ListEntry.isNamed] using hnamed
    obtain ⟨names, rfl⟩ := eq_map_bare (.bare name) rfl hes fun ⟨p, hp, h⟩ =>
      hhides ⟨p, List.mem_cons_of_mem _ hp, h⟩
    exact ⟨name :: names, rfl⟩
  | .typed none variadic type :: es, previous, hprevious, _, hhides =>
    absurd ⟨_, List.mem_cons_self, hprevious, rfl⟩ hhides
  | .typed (some name) variadic type :: es, _, _, hnamed, _ => by
    simp [ListEntry.isNamed] at hnamed

theorem groupedFormals_eq : ∀ {es : List (ListEntry τ)} (previous : Option (ListEntry τ)),
    previous.any ListEntry.isBare = false → es.any ListEntry.isNamed = false →
      (¬ ∃ p ∈ withPrevious previous es,
        p.1.any ListEntry.isBare = true ∧ p.2.isUnnamed = true) →
      groupedFormals named es = anonymousFormals named es
  | [], _, _, _, _ => rfl
  | .bare name :: es, previous, _, hnamed, hhides => by
    have hes : es.any ListEntry.isNamed = false := by simpa [ListEntry.isNamed] using hnamed
    obtain ⟨names, rfl⟩ := eq_map_bare (.bare name) rfl hes fun ⟨p, hp, h⟩ =>
      hhides ⟨p, List.mem_cons_of_mem _ hp, h⟩
    have hbare : ListEntry.bare name :: names.map (fun n => .bare n)
        = (name :: names).map fun n => (.bare n : ListEntry τ) := rfl
    rw [hbare, groupedFormals, sharings_bare, unshared_bare, anonymousFormals]
    simp [Sharing.formals, List.flatMap_map, Function.comp_def, ← List.map_eq_flatMap]
  | .typed none variadic type :: es, previous, _, hnamed, hhides => by
    have hes : es.any ListEntry.isNamed = false := by simpa [ListEntry.isNamed] using hnamed
    have ih := groupedFormals_eq (some (.typed none variadic type)) rfl hes fun
      ⟨p, hp, h⟩ => hhides ⟨p, List.mem_cons_of_mem _ hp, h⟩
    rw [anonymousFormals, List.map_cons, ← anonymousFormals, ← ih]
    rfl
  | .typed (some name) variadic type :: es, _, _, hnamed, _ => by
    simp [ListEntry.isNamed] at hnamed

/-- Names that share a type make parameters with names. -/
theorem exists_named_formal {es : List (ListEntry τ)} (h : ∃ s ∈ sharings [] es, s.names ≠ []) :
    ∃ f ∈ groupedFormals named es, f.name ≠ none := by
  obtain ⟨s, hs, hnames⟩ := h
  obtain ⟨n, names, hn⟩ := List.exists_cons_of_ne_nil hnames
  refine ⟨⟨some n, s.variadic, s.type⟩, ?_, by simp⟩
  refine List.mem_flatMap.2 ⟨s, List.mem_append_left _ hs, ?_⟩
  simp [Sharing.formals, hn]

theorem exists_unnamed_iff : ∀ {es : List (ListEntry τ)} (previous : Option (ListEntry τ)),
    (∃ e ∈ es, e.isUnnamed = true) ↔ ∃ p ∈ withPrevious previous es, p.2.isUnnamed = true
  | [], _ => by simp [withPrevious]
  | e :: es, previous => by
    simp only [withPrevious, List.mem_cons, exists_eq_or_imp, exists_unnamed_iff (some e)]

/-- A type without name is hidden or not. -/
theorem exists_unnamed_iff_or {es : List (ListEntry τ)} :
    (∃ e ∈ es, e.isUnnamed = true) ↔ HidesType es ∨ ShowsType es := by
  rw [exists_unnamed_iff none]
  constructor
  · rintro ⟨p, hp, hunnamed⟩
    cases hbare : p.1.any ListEntry.isBare with
    | true => exact .inl ⟨p, hp, hbare, hunnamed⟩
    | false => exact .inr ⟨p, hp, hbare, hunnamed⟩
  · rintro (⟨p, hp, -, h⟩ | ⟨p, hp, -, h⟩)
    · exact ⟨p, hp, h⟩
    · exact ⟨p, hp, h⟩

/-- What is made of the entries follows the rule unless a type is hidden in a list that one of the
two accepts. -/
theorem grouped_iff (named : String → τ) (es : List (ListEntry τ)) :
    (Mixed es ∧ formals named es = none ∨
      ¬ Mixed es ∧ formals named es = some (groupedFormals named es)) ↔
    ¬ HidesType es ∨ es.any ListEntry.isNamed = true ∧ (ShowsType es ∨ EndsBare es) := by
  rw [mixed_iff, formals]
  by_cases hnamed : es.any ListEntry.isNamed = true
  · rw [if_pos hnamed]
    by_cases hfault : ShowsType es ∨ EndsBare es
    · have hnone : namedFormals es = none :=
        namedFormals_eq_none (hfault.imp (fun h => exists_unnamed_iff_or.2 (.inr h)) id)
      simp [hnamed, hfault, hnone]
    by_cases hhides : HidesType es
    · have hnone : namedFormals es = none :=
        namedFormals_eq_none (.inl (exists_unnamed_iff_or.2 (.inl hhides)))
      simp [hfault, hhides, hnone]
    · have hunshared : unshared [] es = [] := by
        have hiff := unshared_ne_nil_iff es [] none (by simp)
        rw [Option.or_none] at hiff
        exact Classical.not_not.1 fun h => hfault (.inr (hiff.1 h))
      have hunnamed : ∀ e ∈ es, e.isUnnamed = false := by
        intro e he
        refine Bool.eq_false_iff.2 fun h => ?_
        rcases exists_unnamed_iff_or.1 ⟨e, he, h⟩ with h | h
        · exact hhides h
        · exact hfault (.inl h)
      have hsome := namedFormals_eq es [] hunnamed hunshared
      rw [List.map_nil, List.nil_append] at hsome
      simp [hfault, hhides, hsome, groupedFormals, hunshared]
  · rw [if_neg hnamed]
    by_cases hhides : HidesType es
    · have hshared := (exists_shared_iff es [] none (by simp)).2 (.inr hhides)
      obtain ⟨f, hf, hname⟩ : ∃ f ∈ groupedFormals named es, f.name ≠ none :=
        exists_named_formal hshared
      have hne : anonymousFormals named es ≠ groupedFormals named es := by
        intro h
        rw [← h] at hf
        obtain ⟨e, -, rfl⟩ := List.mem_map.1 hf
        cases e <;> exact hname rfl
      simp [hnamed, hhides, hne]
    · have heq : groupedFormals named es = anonymousFormals named es :=
        groupedFormals_eq none rfl (Bool.not_eq_true _ ▸ hnamed) hhides
      simp [hnamed, hhides, heq]

end Grouping

/-! ## What is read and what is converted -/

/-- The parameters of a field: one for each name, or one without name. -/
def Field.formals (x : Field τ) : List (Formal τ) :=
  (if x.names.isEmpty then [none] else x.names.map fun n => some n.name).map fun name =>
    ⟨name, x.ellipsis.isSome, x.type⟩

def FieldList.formals (l : FieldList τ) : List (Formal τ) := l.fields.flatMap Field.formals

theorem Sharing.formals_field (s : Sharing τ) : s.field.formals = s.formals := by
  obtain ⟨names, variadic, type⟩ := s
  cases names <;> cases variadic <;> simp [Sharing.field, Field.formals, Sharing.formals]

theorem formals_fieldsOf (named : String → τ) (es : List (ListEntry τ)) :
    (fieldsOf named es).flatMap Field.formals = groupedFormals named es := by
  rw [fieldsOf, groupedFormals, List.flatMap_map]
  simp only [Sharing.formals_field]

theorem Field.formals_bare_map (f : τ → α) (x : Field τ) :
    (x.map f).bare.formals = x.formals.map (Formal.map f) := by
  cases hnames : x.names <;>
    simp [Field.formals, Field.map, Field.bare, Formal.map, hnames, Ident.bare]

/-- The model of a parameter, which has no name if it is anonymous. -/
def Formal.param (x : Formal (Convert TypeExpr)) : Convert Param := do
  let elem ← x.type
  return ⟨x.name.getD "", x.variadic, if x.variadic then .slice elem else elem⟩

theorem Field.params_eq_mapM (x : Field (Convert TypeExpr)) :
    x.params = x.formals.mapM Formal.param := by
  obtain ⟨serial, span, names, ellipsis, type, tag, embedded⟩ := x
  cases type with
  | error e => cases names <;> rfl
  | ok elem =>
    have hall (names : List (Option String)) :
        (names.map fun n => (⟨n, ellipsis.isSome, .ok elem⟩ : Formal _)).mapM Formal.param
          = .ok (names.map fun n =>
            ⟨n.getD "", ellipsis.isSome, if ellipsis.isSome then .slice elem else elem⟩) := by
      induction names with
      | nil => rfl
      | cons n names ih =>
        rw [List.map_cons, List.mapM_cons, ih]
        rfl
    rw [Field.formals, hall]
    cases names with
    | nil => rfl
    | cons n names =>
      simp only [List.isEmpty_cons, Bool.false_eq_true, if_false, List.map_map, Function.comp_def]
      refine congrArg Except.ok ?_
      exact List.map_map

/-- Every parameter that a list declares is converted, and nothing else. -/
theorem FieldList.params_eq_mapM (l : FieldList (Convert TypeExpr)) :
    l.params = l.formals.mapM Formal.param := by
  obtain ⟨lparen, fields, rparen⟩ := l
  unfold params formals
  induction fields with
  | nil => rfl
  | cons x fields ih =>
    simp only [List.mapM_cons, List.flatMap_cons, List.mapM_append, ← ih, Field.params_eq_mapM]
    simp

/-! ## Lists of entries -/

/-- A run of tokens with the tree that it is meant for. -/
structure TypeText where
  tokens : List Token
  tree : TypeNode

/-- As an entry of a parameter list the tokens are read as the tree. -/
def TypeText.IsRead (room : Nat) (t : TypeText) : Prop :=
  ∀ (c : Cursor) (ls r : List Lexeme), ls.map Lexeme.token = t.tokens →
    Parse.Takes.afterItem .rparen (r.head?.map Lexeme.token) → c.rest = ls ++ r →
      ∃ t' c', Parse.typeWithin room c = .ok (t', c') ∧ t'.bare = t.tree.bare ∧ c'.rest = r

/-- An entry with a type is more than an identifier, and the type is one that is read. -/
def ListEntry.IsRead (room : Nat) : ListEntry TypeText → Prop
  | .bare _ => True
  | .typed name variadic t =>
    t.IsRead room ∧ (name = none → variadic = false → ∀ n, t.tokens ≠ [.ident n])

theorem TypeText.IsRead.looksLikeType {room : Nat} {t : TypeText} (h : t.IsRead room) :
    LooksLikeType t.tokens := by
  let ls : List Lexeme := t.tokens.map (⟨·, .nowhere⟩)
  let r : List Lexeme := [⟨.mark .rparen, .nowhere⟩]
  have hls : ls.map Lexeme.token = t.tokens := by simp [ls, Function.comp_def]
  obtain ⟨t', c', hok, -, hrest⟩ :=
    h ⟨ls ++ r, .nowhere, 0, ⟨0, 0, 0, 0, 0⟩⟩ ls r hls (.inr rfl) rfl
  obtain ⟨ms, hms, htype⟩ := Parse.Consumes.typeWithin room _ t' c' hok
  rw [hrest] at hms
  rw [← hls, List.append_cancel_right hms]
  exact htype.1

/-- Every printable type is read. -/
theorem TypeNode.Printable.isRead {spell : Span → List Token} {t : TypeNode} {room : Nat}
    (ht : t.Printable spell) (hroom : t.NestsWithin room) :
    (TypeText.mk (t.tokens spell) t).IsRead room :=
  fun _ _ _ hls hr hc =>
    typeWithin_reads_printed ht hroom hls (endsType_afterItem rfl (by decide) _ hr) hc

theorem ListEntry.IsRead.readable {room : Nat} {e : ListEntry TypeText} (h : e.IsRead room) :
    (e.map TypeText.tokens).Readable := by
  cases e with
  | bare name => trivial
  | typed name variadic t => exact ⟨h.1.looksLikeType, h.2⟩

def Legend.blank : Legend := ⟨fun _ => [], fun _ _ => True⟩

theorem Legend.blank_fits (ls : List Lexeme) : Legend.blank.Fits ls := fun _ _ _ => trivial

theorem ListEntry.IsRead.takes {room : Nat} {e : ListEntry TypeText} (h : e.IsRead room) :
    ∀ t ∈ e.type?, Parse.Takes .blank (Parse.typeWithin room) t.tokens
      (Parse.Takes.afterItem .rparen) fun x => x.bare = t.tree.bare := by
  rintro t ht c ls r hls - hr hc
  cases e with
  | bare name => simp [ListEntry.type?] at ht
  | typed name variadic u =>
    obtain rfl := Option.some.inj ht
    obtain ⟨t', c', hok, hbare, hrest⟩ := h.1 c ls r hls hr hc
    exact ⟨t', c', hok, hrest, hbare⟩

theorem withPrevious_map (f : τ → α) :
    ∀ (es : List (ListEntry τ)) (previous : Option (ListEntry τ)),
    withPrevious (previous.map (ListEntry.map f)) (es.map (ListEntry.map f))
      = (withPrevious previous es).map (Prod.map (Option.map (ListEntry.map f)) (ListEntry.map f))
  | [], _ => rfl
  | e :: es, previous => by
    have ih := withPrevious_map f es (some e)
    simp only [List.map_cons, withPrevious, ← ih]
    rfl

@[simp] theorem ListEntry.isBare_map (f : τ → α) (e : ListEntry τ) :
    (e.map f).isBare = e.isBare := by
  cases e <;> rfl

@[simp] theorem ListEntry.isNamed_map (f : τ → α) (e : ListEntry τ) :
    (e.map f).isNamed = e.isNamed := by
  rcases e with _ | ⟨_ | _, _, _⟩ <;> rfl

@[simp] theorem ListEntry.isUnnamed_map (f : τ → α) (e : ListEntry τ) :
    (e.map f).isUnnamed = e.isUnnamed := by
  rcases e with _ | ⟨_ | _, _, _⟩ <;> rfl

@[simp] theorem ListEntry.any_isBare_map (f : τ → α) (e : Option (ListEntry τ)) :
    (e.map (ListEntry.map f)).any ListEntry.isBare = e.any ListEntry.isBare := by
  cases e <;> simp

theorem hidesType_map (f : τ → α) (es : List (ListEntry τ)) :
    HidesType (es.map (ListEntry.map f)) ↔ HidesType es := by
  have hprevious := withPrevious_map f es none
  rw [Option.map_none] at hprevious
  rw [HidesType, hprevious, exists_mem_map]
  simp only [Prod.map_fst, Prod.map_snd, ListEntry.any_isBare_map, ListEntry.isUnnamed_map]
  rfl

theorem showsType_map (f : τ → α) (es : List (ListEntry τ)) :
    ShowsType (es.map (ListEntry.map f)) ↔ ShowsType es := by
  have hprevious := withPrevious_map f es none
  rw [Option.map_none] at hprevious
  rw [ShowsType, hprevious, exists_mem_map]
  simp only [Prod.map_fst, Prod.map_snd, ListEntry.any_isBare_map, ListEntry.isUnnamed_map]
  rfl

theorem endsBare_map (f : τ → α) (es : List (ListEntry τ)) :
    EndsBare (es.map (ListEntry.map f)) ↔ EndsBare es := by
  simp [EndsBare, List.getLast?_map]

/-! ## What follows the rule -/

def TypeNode.ofName (name : String) : TypeNode := .mk 0 .nowhere (.named none ⟨name, .nowhere⟩ [])

/-- The parameters by the rule are those that are read, and these are the ones converted; or the
list is refused by both. -/
def Follows (scope : FileScope) (rule : Option (List (Formal TypeNode))) :
    Except (Located ParseFault) (FieldList TypeNode × Cursor) → Prop
  | .ok (l, _) => rule = some (l.formals.map (Formal.map TypeNode.bare)) ∧
      (l.map (TypeNode.model scope)).params
        = l.formals.mapM fun x => (x.map (TypeNode.model scope)).param
  | .error e => rule = none ∧ e.fault = .mixedParameters

theorem FieldList.formals_map (f : τ → α) (l : FieldList τ) :
    (l.map f).formals = l.formals.map (Formal.map f) := by
  simp [FieldList.formals, FieldList.map, List.flatMap_map, List.map_flatMap, Field.formals,
    Field.map, Formal.map, Function.comp_def]

/-- Results in parentheses are read as parameters are. -/
theorem results_of_lparen {type : Parse TypeNode} {c : Cursor} (h : c.isAt .lparen = true) :
    Parse.results type c = (Results.list <$> Parse.params type) c := by
  have hresults : Parse.results type c
      = (if c.isAt .lparen then Results.list <$> Parse.params type
        else if c.next?.any Token.startsType then .single <$> type
        else return .absent : Parse (Results TypeNode)) c := rfl
  rw [hresults, if_pos h]

/-- A list of parameters or results is read by the rule, whatever its entries and their order,
unless it hides a type and is not refused by both. -/
theorem params_follow_rule_iff {room : Nat} {es : List (ListEntry TypeText)}
    (hes : ∀ e ∈ es, e.IsRead room) {trailing : Bool} {c : Cursor} {ls r : List Lexeme}
    (hls : ls.map Lexeme.token
      = Parse.paramsTokens trailing (es.map fun e => (e.map TypeText.tokens).tokens))
    (hc : c.rest = ls ++ r) (scope : FileScope) :
    Parse.results (Parse.typeWithin room) c
        = (Results.list <$> Parse.params (Parse.typeWithin room)) c ∧
      (Follows scope (formals TypeNode.ofName (es.map (ListEntry.map (·.tree.bare))))
          (Parse.params (Parse.typeWithin room) c) ↔
        ¬ HidesType es ∨ es.any ListEntry.isNamed = true ∧ (ShowsType es ∨ EndsBare es)) := by
  constructor
  · have hat : c.isAt .lparen = true := by
      rw [Cursor.isAt_iff, Cursor.next?_of_rest hc, hls]
      rfl
    exact results_of_lparen hat
  have hread := fun e he => (hes e he).readable
  have htakes := fun e he => (hes e he).takes
  have hnamed : (es.map (ListEntry.map fun t => t.tree.bare)).any ListEntry.isNamed
      = es.any ListEntry.isNamed := by
    simp [Function.comp_def]
  have hgrouped := grouped_iff TypeNode.ofName (es.map (ListEntry.map (·.tree.bare)))
  rw [hidesType_map, showsType_map, endsBare_map, hnamed] at hgrouped
  rw [← hgrouped]
  by_cases hmixed : Mixed (es.map (ListEntry.map (·.tree.bare)))
  · obtain ⟨span, herror⟩ :=
      Parse.params_mixed hread htakes hmixed hls (Legend.blank_fits ls) hc
    rw [herror]
    simp [Follows, hmixed]
  · have hparams := Parse.Takes.params (F := anything) hread htakes
      (fun _ _ x => show _ = TypeNode.ofName x.name from rfl) hmixed trailing
    obtain ⟨l, c', hok, -, hfields⟩ := hparams c ls r hls (Legend.blank_fits ls) trivial hc
    have hformals : l.formals.map (Formal.map TypeNode.bare)
        = groupedFormals TypeNode.ofName (es.map (ListEntry.map (·.tree.bare))) := by
      rw [← formals_fieldsOf, ← hfields, FieldList.formals, List.map_flatMap, List.flatMap_map]
      simp only [Field.formals_bare_map]
    have hconverted : (l.map (TypeNode.model scope)).params
        = l.formals.mapM fun x => (x.map (TypeNode.model scope)).param := by
      rw [FieldList.params_eq_mapM, FieldList.formals_map, List.mapM_map]
      rfl
    rw [hok]
    simp [Follows, hmixed, hformals, hconverted]

/-- An identifier before a pointer without name is read as the name of a parameter. -/
theorem hidden_pointer_not_by_rule :
    let name : TypeNode := .mk 0 ⟨0, 0⟩ (.named none ⟨"T", ⟨0, 0⟩⟩ [])
    let pointer : TypeNode := .mk 0 ⟨0, 0⟩ (.pointer ⟨0, 0⟩ name)
    let text : TypeText := ⟨[.mark .star, .ident "T"], pointer⟩
    let ls : List Lexeme := [⟨.mark .lparen, ⟨0, 1⟩⟩, ⟨.ident "int", ⟨1, 4⟩⟩,
      ⟨.mark .comma, ⟨4, 5⟩⟩, ⟨.mark .star, ⟨6, 7⟩⟩, ⟨.ident "T", ⟨7, 8⟩⟩, ⟨.mark .rparen, ⟨8, 9⟩⟩]
    let c : Cursor := ⟨ls, ⟨0, 0⟩, 9, ⟨0, 0, 0, 0, 0⟩⟩
    (∀ e ∈ [ListEntry.bare "int", .typed none false text], e.IsRead 2) ∧
      ¬ Follows ⟨"", [], ""⟩ (some [⟨none, false, .ofName "int"⟩, ⟨none, false, pointer.bare⟩])
        (Parse.params (Parse.typeWithin 2) c) := by
  intro name pointer text ls c
  have hname : name.Printable fun _ => [] := ⟨trivial, by simp [TypeForm.children]⟩
  have hpointer : pointer.Printable fun _ => [] :=
    ⟨trivial, by simpa [TypeForm.children] using hname⟩
  have hroom : pointer.NestsWithin 2 := by
    have hname : name.NestsWithin 1 := ⟨by simp [TypeForm.inside, TypeForm.children]⟩
    exact ⟨by simpa [TypeForm.inside, TypeForm.children] using hname⟩
  have hes : ∀ e ∈ [ListEntry.bare "int", .typed none false text], e.IsRead 2 := by
    have htext : text.IsRead 2 := hpointer.isRead hroom
    simpa [ListEntry.IsRead, text] using htext
  refine ⟨hes, fun h => ?_⟩
  have hls : ls.map Lexeme.token = Parse.paramsTokens false
      ([ListEntry.bare "int", .typed none false text].map fun e =>
        (e.map TypeText.tokens).tokens) := rfl
  have hc : c.rest = ls ++ [] := (List.append_nil ls).symm
  have hiff := (params_follow_rule_iff hes hls hc ⟨"", [], ""⟩).2
  rcases hiff.1 h with hhides | ⟨hnamed, -⟩
  · exact hhides ⟨_, List.mem_cons_of_mem _ List.mem_cons_self, rfl, rfl⟩
  · simp [ListEntry.isNamed] at hnamed

end GoIface
