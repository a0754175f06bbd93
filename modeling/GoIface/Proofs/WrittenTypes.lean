import GoIface.Proofs.Rendering
import GoIface.Proofs.TypeReading

/-!
# Types that are written and read

The tree that a type is written for can be told from its tokens (`Writable.printable`), and its
model is the type again, without the names of parameters (`Writable.model_tree`). Reading gives a
tree that differs from it in places, which the model does not depend on but for the lengths of
arrays: these are read from the text and have to be those that were written (`placeFree_model`).
-/

namespace GoIface

open Piece

/-! ## The tree can be told from its tokens -/

section Tree

variable {table : AliasTable}

theorem emptyLiteral?_cases (name : String) :
    emptyLiteral? name = none ∨ emptyLiteral? name = some (.struct .nowhere []) ∨
      emptyLiteral? name = some (.interface .nowhere []) := by
  unfold emptyLiteral?
  split
  · exact .inr (.inl rfl)
  · split
    · exact .inr (.inr rfl)
    · exact .inl rfl

theorem isIdent_tree (t : TypeExpr) : (t.tree table).isIdent = t.isName := by
  cases t with
  | named package name =>
    cases h : package.isEmpty <;>
      simp [TypeExpr.tree, TypeExpr.isName, TypeNode.isIdent, TypeNode.form, TypeForm.unplaced, h]
  | predeclared name =>
    rcases emptyLiteral?_cases name with h | h | h <;>
      simp [TypeExpr.tree, TypeExpr.isName, TypeNode.isIdent, TypeNode.form, TypeForm.unplaced, h]
  | _ => rfl

theorem isParen_tree (t : TypeExpr) : (t.tree table).isParen = false := by
  cases t with
  | predeclared name =>
    rcases emptyLiteral?_cases name with h | h | h <;>
      simp [TypeExpr.tree, TypeNode.isParen, TypeNode.form, TypeForm.unplaced, h]
  | _ => rfl

theorem head?_tokens_tree {t : TypeExpr} (h : t.isReceive = false) (spell : Span → List Token) :
    ((t.tree table).tokens spell).head? ≠ some (.mark .arrow) := by
  cases t with
  | chan direction elem =>
    cases direction with
    | receive => simp [TypeExpr.isReceive] at h
    | both | send => simp [TypeExpr.tree, TypeForm.map, TypeForm.tokens]
  | named package name =>
    cases h : package.isEmpty <;> simp [TypeExpr.tree, TypeForm.map, TypeForm.tokens, h]
  | predeclared name =>
    rcases emptyLiteral?_cases name with h | h | h <;>
      simp [TypeExpr.tree, TypeForm.map, TypeForm.tokens, h]
  | _ => simp [TypeExpr.tree, TypeForm.map, TypeForm.tokens]

theorem isBare_fieldTree (p : Param) : (fieldTree table p).isBare = p.isBare := by
  rw [fieldTree_eq]
  cases h : p.isSpread <;> simp [Field.isBare, Parameter.isBare, isIdent_tree, h]

theorem wellGrouped_fieldTrees {ps : List Param} (h : BareLast ps) :
    WellGrouped (fieldTrees table ps) := by
  refine .inr ⟨fun x hx => ?_, ?_⟩
  · rw [fieldTrees_eq_map] at hx
    obtain ⟨p, -, rfl⟩ := List.mem_map.1 hx
    rw [fieldTree_eq]
  · rw [fieldTrees_eq_map, List.pairwise_map]
    simpa only [isBare_fieldTree, BareLast] using h

theorem plain_fieldTrees (ps : List Param) :
    ∀ x ∈ fieldTrees table ps, x.tag = none ∧ x.embedded = false := by
  intro x hx
  rw [fieldTrees_eq_map] at hx
  obtain ⟨p, -, rfl⟩ := List.mem_map.1 hx
  rw [fieldTree_eq]
  exact ⟨rfl, rfl⟩

theorem resultsOf_children (xs : List (Field TypeNode)) :
    (resultsOf xs).children = xs.map (·.type) := by
  rcases xs with _ | ⟨x, _ | ⟨y, xs⟩⟩ <;> rfl

theorem resultsOf_printable {ps : List Param} (h : 2 ≤ ps.length → BareLast ps) :
    (resultsOf (fieldTrees table ps)).Printable := by
  rcases ps with _ | ⟨p, _ | ⟨q, ps⟩⟩
  · trivial
  · show (fieldTree table p).type.isParen = false
    rw [fieldTree_eq]
    exact isParen_tree _
  · exact ⟨plain_fieldTrees (p :: q :: ps), wellGrouped_fieldTrees (h (by simp))⟩

theorem mem_types_fieldTrees {ps : List Param} {u : TypeNode}
    (h : u ∈ (fieldTrees table ps).map (·.type)) : ∃ p ∈ ps, p.shown.tree table = u := by
  rw [fieldTrees_eq_map, List.map_map] at h
  obtain ⟨p, hp, rfl⟩ := List.mem_map.1 h
  exact ⟨p, hp, by rw [Function.comp_apply, fieldTree_eq]⟩

theorem isLength_spellLength (s : Span) : IsLength (spellLength s) :=
  ⟨by simp [spellLength], .plain rfl rfl .nil, by simp [spellLength]⟩

/-- The tree that a type is written for can be told from its tokens. -/
theorem TypeExpr.Writable.printable {t : TypeExpr} (h : t.Writable table) :
    (t.tree table).Printable spellLength := by
  induction h with
  | array _ _ ih =>
    rw [tree]
    exact ⟨isLength_spellLength _, by simpa [TypeForm.children] using ih⟩
  | slice _ ih | pointer _ ih =>
    rw [tree]
    exact ⟨trivial, by simpa [TypeForm.children] using ih⟩
  | mapping _ _ ihkey ihvalue =>
    rw [tree]
    exact ⟨trivial, by simpa [TypeForm.children] using ⟨ihkey, ihvalue⟩⟩
  | @chan direction elem _ harrow ih =>
    rw [tree]
    refine ⟨?_, by simpa [TypeForm.children] using ih⟩
    cases direction with
    | both => exact head?_tokens_tree (harrow rfl) _
    | send | receive => trivial
  | @func args results _ _ _ _ hlast hlast' ihargs ihresults =>
    rw [tree]
    refine ⟨⟨⟨plain_fieldTrees args, wellGrouped_fieldTrees hlast⟩, resultsOf_printable hlast'⟩, ?_⟩
    intro u hu
    rcases List.mem_append.1 hu with hu | hu
    · obtain ⟨p, hp, rfl⟩ := mem_types_fieldTrees hu
      exact ihargs p hp
    · rw [resultsOf_children] at hu
      obtain ⟨p, hp, rfl⟩ := mem_types_fieldTrees hu
      exact ihresults p hp
  | imported _ _ _ | exported _ _ =>
    rw [tree]
    exact ⟨trivial, by simp [TypeForm.children]⟩
  | @predeclared name _ _ | @emptyLiteral name _ =>
    rw [tree]
    rcases emptyLiteral?_cases name with h | h | h <;> rw [h]
    · exact ⟨trivial, by simp [TypeForm.children]⟩
    · exact ⟨by simp [TypeForm.Printable], by simp [TypeForm.children]⟩
    · exact ⟨by simp [TypeForm.Printable], by simp [TypeForm.children]⟩

end Tree

/-! ## Nesting -/

mutual

/-- How many types are nested in one another. -/
def TypeExpr.depth : TypeExpr → Nat
  | .array _ elem | .slice elem | .pointer elem | .chan _ elem => elem.depth + 1
  | .mapping key value => max key.depth value.depth + 1
  | .func args results => max (depthOfAll args) (depthOfAll results) + 1
  | .named _ _ | .predeclared _ => 1

def depthOfParam : Param → Nat
  | ⟨_, _, type⟩ => type.depth

def depthOfAll : List Param → Nat
  | [] => 0
  | p :: ps => max (depthOfParam p) (depthOfAll ps)

end

theorem depth_shown_le (p : Param) : p.shown.depth ≤ depthOfParam p := by
  rcases p with ⟨_, _ | _, type⟩
  · exact Nat.le_refl _
  · cases type with
    | slice elem => exact Nat.le_succ _
    | _ => exact Nat.le_refl _

theorem depthOfParam_le {ps : List Param} {p : Param} (h : p ∈ ps) :
    depthOfParam p ≤ depthOfAll ps := by
  induction ps with
  | nil => simp at h
  | cons q ps ih =>
    unfold depthOfAll
    rcases List.mem_cons.1 h with rfl | h
    · omega
    · have ih := ih h
      omega

/-- A tree nests no deeper than the type that it is written for. -/
theorem TypeExpr.Writable.nestsWithin {table : AliasTable} {t : TypeExpr} (h : t.Writable table) :
    (t.tree table).NestsWithin t.depth := by
  induction h with
  | array _ _ ih | slice _ ih | pointer _ ih | chan _ _ ih =>
    rw [tree, depth]
    exact ⟨by simpa [TypeForm.inside, TypeForm.children] using ih⟩
  | @mapping key value _ _ ihkey ihvalue =>
    have hkey := ihkey.mono (Nat.le_max_left key.depth value.depth)
    have hvalue := ihvalue.mono (Nat.le_max_right key.depth value.depth)
    rw [tree, depth]
    exact ⟨by simpa [TypeForm.inside, TypeForm.children] using ⟨hkey, hvalue⟩⟩
  | @func args results _ _ _ _ _ _ ihargs ihresults =>
    have hdepth {ps : List Param} {p : Param} (hp : p ∈ ps) : p.shown.depth ≤ depthOfAll ps :=
      Nat.le_trans (depth_shown_le p) (depthOfParam_le hp)
    rw [tree, depth]
    refine ⟨fun u hu => ?_⟩
    rcases List.mem_append.1 (TypeForm.mem_children hu) with hu | hu
    · obtain ⟨p, hp, rfl⟩ := mem_types_fieldTrees hu
      have hle := hdepth hp
      exact (ihargs p hp).mono (by omega)
    · rw [resultsOf_children] at hu
      obtain ⟨p, hp, rfl⟩ := mem_types_fieldTrees hu
      have hle := hdepth hp
      exact (ihresults p hp).mono (by omega)
  | imported _ _ _ | exported _ _ =>
    rw [tree, depth]
    exact ⟨by simp [TypeForm.inside, TypeForm.children]⟩
  | @predeclared name _ _ | @emptyLiteral name _ =>
    rw [tree, depth]
    rcases emptyLiteral?_cases name with h | h | h <;> rw [h]
    · exact ⟨by simp [TypeForm.inside, TypeForm.children]⟩
    · exact ⟨by simp [TypeForm.inside, TypeForm.children]⟩
    · exact ⟨by simp [TypeForm.inside]⟩

/-! ## The model of what is read -/

section Mute

variable {α β : Type}

/-- A conversion without why and where it is refused. -/
def mute (x : Convert α) : Convert α := x.mapError fun _ => ⟨.structFields, .nowhere⟩

@[simp] theorem mute_ok (a : α) : mute (.ok a : Convert α) = .ok a := rfl

@[simp] theorem mute_error (e : Located Refusal) :
    mute (.error e : Convert α) = .error ⟨.structFields, .nowhere⟩ := rfl

theorem mute_refuse (r r' : Refusal) (s s' : Span) :
    mute (refuse r s : Convert α) = mute (refuse r' s') := rfl

@[simp] theorem mute_mute (x : Convert α) : mute (mute x) = mute x := by
  cases x <;> rfl

theorem mute_bind {x y : Convert α} {f g : α → Convert β} (h : mute x = mute y)
    (hfg : ∀ a, mute (f a) = mute (g a)) : mute (x >>= f) = mute (y >>= g) := by
  rcases x with e | a
  · rcases y with e' | a'
    · rfl
    · simp at h
  · rcases y with e' | a'
    · simp at h
    · obtain rfl : a = a' := Except.ok.inj h
      exact hfg a

theorem mute_mapM {γ δ : Type} {f : γ → Convert β} {g : δ → Convert β} {k : γ → δ}
    (h : ∀ x, mute (f x) = mute (g (k x))) :
    ∀ xs : List γ, mute (xs.mapM f) = mute ((xs.map k).mapM g)
  | [] => rfl
  | x :: xs => by
    have ih := mute_mapM h xs
    rw [List.map_cons, List.mapM_cons, List.mapM_cons]
    exact mute_bind (h x) fun _ => mute_bind ih fun _ => rfl

theorem Field.mute_params (x : Field (Convert TypeExpr)) :
    mute x.params = mute (x.map mute).params :=
  mute_bind (mute_mute x.type).symm fun _ => rfl

theorem FieldList.mute_params (l : FieldList (Convert TypeExpr)) :
    mute l.params = mute (l.map mute).params :=
  mute_bind (mute_mapM Field.mute_params l.fields) fun _ => rfl

theorem Results.mute_params (rs : Results (Convert TypeExpr)) :
    mute rs.params = mute (rs.map mute).params := by
  cases rs with
  | absent => rfl
  | single t => exact mute_bind (mute_mute t).symm fun _ => rfl
  | list l => exact l.mute_params

theorem Signature.mute_model (s : Signature (Convert TypeExpr)) :
    mute s.model = mute (s.map mute).model :=
  mute_bind s.params.mute_params fun _ => mute_bind s.results.mute_params fun _ => rfl

theorem Field.params_bare (x : Field (Convert TypeExpr)) : x.bare.params = x.params := by
  simp [Field.params, Field.bare, Function.comp_def, Ident.bare]

theorem FieldList.params_bare (l : FieldList (Convert TypeExpr)) : l.bare.params = l.params := by
  simp [FieldList.params, FieldList.bare, Field.params_bare, Function.comp_def]

theorem Signature.model_bare (s : Signature (Convert TypeExpr)) : s.bare.model = s.model := by
  rcases s with ⟨_, _, _, _ | _ | _⟩ <;>
    simp [Signature.model, Signature.bare, Results.bare, Results.params, FieldList.params_bare]

end Mute

/-- The model of a type, if it has one, with another way of reading lengths. -/
def TypeForm.modelBy (scope : FileScope) (length : Span → Convert Nat) (span : Span) :
    TypeForm (Convert TypeExpr) → Convert TypeExpr
  | .array n elem => mute do
    let n ← length n
    return .array n (← elem)
  | form => mute (form.model scope span)

namespace TypeForm

variable {scope : FileScope}

theorem mute_model (span : Span) (form : TypeForm (Convert TypeExpr)) :
    mute (form.model scope span) = (form.map mute).modelBy scope scope.arrayLength span := by
  cases form with
  | named q n args => simp [model, modelBy, map]
  | pointer _ elem | slice _ elem | chan _ _ elem =>
    exact mute_bind (mute_mute elem).symm fun _ => rfl
  | array n elem => exact mute_bind rfl fun _ => mute_bind (mute_mute elem).symm fun _ => rfl
  | mapping _ key value =>
    exact mute_bind (mute_mute key).symm fun _ => mute_bind (mute_mute value).symm fun _ => rfl
  | struct _ fields => simp [model, modelBy, map]
  | interface _ elements => simp [model, modelBy, map]
  | func _ s => exact mute_bind s.mute_model fun _ => rfl
  | paren _ t => exact (mute_mute t).symm

theorem modelBy_bare {form : TypeForm (Convert TypeExpr)} (h : form.length? = none)
    (length length' : Span → Convert Nat) (span span' : Span) :
    form.modelBy scope length span = form.bare.modelBy scope length' span' := by
  cases form with
  | array n elem => simp [length?] at h
  | named q n args =>
    cases q <;> cases args <;>
      simp only [modelBy, model, bare, FileScope.named, Option.map, Ident.bare, List.isEmpty] <;>
      grind [mute_refuse]
  | struct _ fields =>
    cases fields <;> rfl
  | interface _ elements =>
    cases elements <;> rfl
  | func _ s => simp [modelBy, model, bare, Signature.model_bare]
  | _ => rfl

end TypeForm

/-- What the model makes of a tree that was read, if it has one. -/
def TypeNode.readModel (scope : FileScope) (t : TypeNode) : Convert TypeExpr :=
  t.fold fun _ span form => form.modelBy scope scope.arrayLength span

theorem TypeNode.mute_model (scope : FileScope) (t : TypeNode) :
    mute (t.model scope) = t.readModel scope :=
  TypeNode.fold_fusion (fun _ span form => form.mute_model span) t

/-- Where lengths are read alike, models do not depend on places. -/
theorem placeFree_model {scope : FileScope} {same : Span → Span → Prop}
    {length length' : Span → Convert Nat}
    (hlength : ∀ s s', same s s' → mute (length s) = mute (length' s')) :
    PlaceFree same (fun _ span form => form.modelBy scope length span)
      fun _ span form => form.modelBy scope length' span := by
  refine ⟨?_⟩
  rintro form form' ⟨hbare, hsame⟩ serial span serial' span'
  rcases hlen : form.length? with _ | n
  · have hlen' : form'.length? = none := by
      cases form' with
      | array n elem => cases form <;> simp_all [TypeForm.bare, TypeForm.length?]
      | _ => rfl
    rw [TypeForm.modelBy_bare hlen length length' span .nowhere, hbare,
      ← TypeForm.modelBy_bare hlen' length' length' span' .nowhere]
  · cases form with
    | array m elem =>
      cases form' with
      | array m' elem' =>
        obtain rfl : elem = elem' := by simpa [TypeForm.bare] using hbare
        exact mute_bind (hlength _ _ (hsame m rfl m' rfl)) fun _ => rfl
      | _ => simp [TypeForm.bare] at hbare
    | _ => simp [TypeForm.length?] at hlen

/-! ## Lengths -/

theorem le_ofDigitChars (n : Nat) (cs : List Char) : n ≤ Nat.ofDigitChars 10 cs n := by
  induction cs generalizing n with
  | nil => simp
  | cons c cs ih =>
    rw [Nat.ofDigitChars_cons]
    have h := ih (10 * n + (c.toNat - '0'.toNat))
    omega

theorem readDigits_digits {cs : List Char} (hcs : ∀ c ∈ cs, c.isDigit = true) {n : Nat}
    (h : Nat.ofDigitChars 10 cs n < lengthLimit) :
    readDigits n cs = .ok (Nat.ofDigitChars 10 cs n) := by
  induction cs generalizing n with
  | nil => simp [readDigits]
  | cons c cs ih =>
    rw [Nat.ofDigitChars_cons] at h ⊢
    have hle := le_ofDigitChars (10 * n + (c.toNat - '0'.toNat)) cs
    have hnext : 10 * n + (c.toNat - '0'.toNat) < lengthLimit := by omega
    rw [readDigits, if_neg (by simp [hcs c]), if_pos hnext]
    exact ih (fun d hd => hcs d (by simp [hd])) h

/-- A length that was written is read again. -/
theorem readLength_toString {n : Nat} (h : n < lengthLimit) :
    readLength (toString n).toList = .ok n := by
  have hdigits := digits_toString n
  have htext : (toString n).toList = Nat.toDigits 10 n := Nat.toList_repr
  have hvalue : Nat.ofDigitChars 10 (Nat.toDigits 10 n) 0 = n := Nat.ofDigitChars_ten_toDigits
  rw [htext] at hdigits ⊢
  have hread := readDigits_digits hdigits (hvalue.symm ▸ h)
  rw [hvalue] at hread
  unfold readLength
  split
  · next hnil => exact absurd hnil Nat.toDigits_ne_nil
  · next hplus => exact absurd (hdigits '+' (by simp [hplus])) (by decide)
  · next hplus => exact absurd (hdigits '+' (by simp [hplus])) (by decide)
  · exact hread

theorem isBlank_of_isDigit {c : Char} (h : c.isDigit = true) : Text.isBlank c = false := by
  obtain ⟨hlo, hhi⟩ := Char.isDigit_iff_toNat.1 h
  have hlo : 48 ≤ c.toNat := hlo
  have hhi : c.toNat ≤ 57 := hhi
  unfold Text.isBlank Text.blankRanges
  rw [Text.Ranges.has, if_neg (by omega), if_neg (by omega), Text.Ranges.has, if_neg (by omega),
    if_neg (by omega), Text.Ranges.has, if_pos (by omega)]

theorem dropWhile_eq_self {p : Char → Bool} {cs : List Char} (h : ∀ c ∈ cs, p c = false) :
    cs.dropWhile p = cs := by
  cases cs with
  | nil => rfl
  | cons c cs => simp [h c (by simp)]

theorem trim_digits {cs : List Char} (h : ∀ c ∈ cs, c.isDigit = true) : Text.trim cs = cs := by
  have hblank : ∀ c ∈ cs, Text.isBlank c = false := fun c hc => isBlank_of_isDigit (h c hc)
  have hback : ∀ c ∈ cs.reverse, Text.isBlank c = false := fun c hc =>
    hblank c (List.mem_reverse.1 hc)
  rw [Text.trim, Text.trimBy, dropWhile_eq_self hblank, dropWhile_eq_self hback,
    List.reverse_reverse]

/-- The length that is kept as a place. -/
def writtenLength (s : Span) : Convert Nat :=
  match readLength (toString s.start).toList with
  | .ok n => .ok n
  | .error _ => refuse .structFields s

/-- Lexemes of a text, of which each but a semicolon covers the spelling of its token. -/
def Legend.ofText (text : List Char) : Legend :=
  ⟨spellLength, fun ts s => ∀ t, ts = [t] → t ≠ .mark .semi → s.slice text = t.text.toList⟩

theorem Legend.ofText_fits {text : List Char} {ls : List Lexeme} (h : ∀ l ∈ ls, l.Stands text) :
    (Legend.ofText text).Fits ls := by
  rintro run hrun - t ht hne
  obtain ⟨l, rfl, rfl⟩ := List.map_eq_singleton_iff.1 ht
  rw [runSpan_singleton]
  exact (h l (hrun.subset (by simp))).covers hne

theorem mute_arrayLength {scope : FileScope} {s s' : Span}
    (h : (Legend.ofText scope.source.toList).same s s') :
    mute (scope.arrayLength s) = mute (writtenLength s') := by
  have hslice : s.slice scope.source.toList = (toString s'.start).toList :=
    h (.literal .int (toString s'.start)) rfl (by simp)
  rw [FileScope.arrayLength, writtenLength, hslice, trim_digits (digits_toString _)]
  rcases readLength (toString s'.start).toList with e | n
  · exact mute_refuse _ _ _ _
  · rfl

/-! ## The type is read again -/

mutual

/-- The type without the names of parameters. -/
def TypeExpr.unnamed : TypeExpr → TypeExpr
  | .array length elem => .array length elem.unnamed
  | .slice elem => .slice elem.unnamed
  | .pointer elem => .pointer elem.unnamed
  | .mapping key value => .mapping key.unnamed value.unnamed
  | .chan direction elem => .chan direction elem.unnamed
  | .func args results => .func (unnamedAll args) (unnamedAll results)
  | .named package name => .named package name
  | .predeclared name => .predeclared name

def unnamedParam : Param → Param
  | ⟨_, variadic, type⟩ => ⟨"", variadic, type.unnamed⟩

def unnamedAll : List Param → List Param
  | [] => []
  | p :: ps => unnamedParam p :: unnamedAll ps

end

theorem unnamedAll_eq_map : ∀ ps : List Param, unnamedAll ps = ps.map unnamedParam
  | [] => rfl
  | _ :: ps => by simp [unnamedAll, unnamedAll_eq_map ps]

/-- The file binds the packages to the names that they go by, and its own is not known. -/
structure FileScope.Knows (scope : FileScope) (table : AliasTable) (packages : List String) :
    Prop where
  imported : ∀ p ∈ packages, scope.imports.lookup (table.qualifier p) = some p
  own : scope.ownPackage = ""

section Model

variable {table : AliasTable} {scope : FileScope}

/-- What the model makes of the tree that was written. -/
def TypeNode.writtenModel (scope : FileScope) (t : TypeNode) : Convert TypeExpr :=
  t.fold fun _ span form => form.modelBy scope writtenLength span

theorem writtenModel_unplaced (form : TypeForm TypeNode) :
    form.unplaced.writtenModel scope
      = (form.map (TypeNode.writtenModel scope)).modelBy scope writtenLength .nowhere :=
  TypeNode.fold_mk _ _ _ _

theorem packagesOfParam_shown (p : Param) : p.shown.packages = packagesOfParam p := by
  rcases p with ⟨_, _ | _, type⟩ <;> cases type <;> rfl

theorem params_fieldTree {p : Param} (hvariadic : p.variadic = true → p.isSpread = true)
    (h : (p.shown.tree table).writtenModel scope = .ok p.shown.unnamed) :
    ((fieldTree table p).map (TypeNode.writtenModel scope)).params = .ok [unnamedParam p] := by
  rw [fieldTree_eq, Field.map, Field.params]
  dsimp only
  rw [h]
  rcases p with ⟨name, _ | _, type⟩
  · rfl
  · cases type with
    | slice elem => rfl
    | _ => simp [Parameter.isSpread] at hvariadic

theorem params_fieldTrees {ps : List Param}
    (hvariadic : ∀ p ∈ ps, p.variadic = true → p.isSpread = true)
    (h : ∀ p ∈ ps, (p.shown.tree table).writtenModel scope = .ok p.shown.unnamed)
    (lparen rparen : Span) :
    (FieldList.map (TypeNode.writtenModel scope) ⟨lparen, fieldTrees table ps, rparen⟩).params
      = .ok (unnamedAll ps) := by
  have hall : ((fieldTrees table ps).map (Field.map (TypeNode.writtenModel scope))).mapM
      Field.params = .ok (ps.map fun p => [unnamedParam p]) := by
    rw [fieldTrees_eq_map, List.map_map]
    induction ps with
    | nil => rfl
    | cons p ps ih =>
      have hp := params_fieldTree (hvariadic p (by simp)) (h p (by simp))
      have ih := ih (fun q hq => hvariadic q (by simp [hq])) fun q hq => h q (by simp [hq])
      rw [List.map_cons, List.mapM_cons, Function.comp_apply, hp, ih]
      rfl
  show (List.mapM Field.params ((fieldTrees table ps).map (Field.map _)) >>= _) = _
  rw [hall, unnamedAll_eq_map]
  show Except.ok _ = _
  rw [← List.flatMap_def, List.map_eq_flatMap]

theorem params_resultsOf {ps : List Param} (hplain : ∀ p ∈ ps, p.variadic = false)
    (h : ∀ p ∈ ps, (p.shown.tree table).writtenModel scope = .ok p.shown.unnamed) :
    ((resultsOf (fieldTrees table ps)).map (TypeNode.writtenModel scope)).params
      = .ok (unnamedAll ps) := by
  rcases ps with _ | ⟨p, _ | ⟨q, ps⟩⟩
  · rfl
  · have hp := h p (by simp)
    have hv := hplain p (by simp)
    show Except.bind ((fieldTree table p).type.writtenModel scope) _ = _
    rcases p with ⟨name, _ | _, type⟩
    · rw [fieldTree_eq]
      dsimp only
      rw [hp]
      rfl
    · simp at hv
  · exact params_fieldTrees (fun p hp hv => by simp [hplain p hp] at hv) h _ _

/-- The model of what is written for a type is the type, without names of parameters. -/
theorem TypeExpr.Writable.model_tree {t : TypeExpr} (h : t.Writable table)
    (hscope : scope.Knows table t.packages) :
    (t.tree table).writtenModel scope = .ok t.unnamed := by
  induction h with
  | @array length elem hlength _ ih =>
    have ih := ih hscope
    have hread : writtenLength (.point length) = .ok length := by
      rw [writtenLength, Span.point, readLength_toString hlength]
    rw [tree, writtenModel_unplaced, TypeForm.map, ih, TypeForm.modelBy, hread]
    rfl
  | slice _ ih | pointer _ ih | chan _ _ ih =>
    have ih := ih hscope
    rw [tree, writtenModel_unplaced, TypeForm.map, ih]
    rfl
  | @mapping key value _ _ ihkey ihvalue =>
    have hkey := ihkey ⟨fun p hp => hscope.imported p (List.mem_append_left _ hp), hscope.own⟩
    have hvalue := ihvalue ⟨fun p hp => hscope.imported p (List.mem_append_right _ hp), hscope.own⟩
    rw [tree, writtenModel_unplaced, TypeForm.map, hkey, hvalue]
    rfl
  | @func args results _ _ hvariadic hplain _ _ ihargs ihresults =>
    have hknows {ps : List Param}
        (hps : ∀ q ∈ packagesOfAll ps, q ∈ (TypeExpr.func args results).packages)
        {p : Param} (hp : p ∈ ps) : scope.Knows table p.shown.packages := by
      refine ⟨fun q hq => hscope.imported q (hps q ?_), hscope.own⟩
      rw [packagesOfAll_eq_flatMap]
      exact List.mem_flatMap.2 ⟨p, hp, packagesOfParam_shown p ▸ hq⟩
    have hargs := params_fieldTrees hvariadic
      (fun p hp => ihargs p hp (hknows (fun _ => List.mem_append_left _) hp)) .nowhere .nowhere
    have hresults := params_resultsOf hplain
      fun p hp => ihresults p hp (hknows (fun _ => List.mem_append_right _) hp)
    rw [tree, writtenModel_unplaced]
    simp only [TypeForm.map, TypeForm.modelBy, TypeForm.model, Signature.map, Signature.model,
      hargs, hresults, unnamed]
    rfl
  | @imported package name hpackage _ _ =>
    have hempty : package.isEmpty = false := by simpa using hpackage
    have hlookup := hscope.imported package (by simp [packages, hempty])
    simp only [tree, writtenModel_unplaced, hempty]
    show mute (scope.named (some ⟨table.qualifier package, .nowhere⟩) ⟨name, .nowhere⟩) = _
    simp only [FileScope.named, hlookup]
    rfl
  | @exported name _ hcase =>
    simp only [tree, writtenModel_unplaced, TypeForm.map, TypeForm.modelBy, TypeForm.model,
      FileScope.named, hcase, hscope.own]
    rfl
  | @predeclared name hname hcase =>
    simp only [tree, writtenModel_unplaced, emptyLiteral?_of_isIdentifier hname, Option.getD,
      TypeForm.map, TypeForm.modelBy, TypeForm.model, FileScope.named, hcase]
    rfl
  | @emptyLiteral name hname =>
    rw [tree, writtenModel_unplaced]
    rcases emptyLiteral?_isSome hname with rfl | rfl
    · rfl
    · rfl

end Model

end GoIface
