import GoIface.Model.Conversion
import GoIface.Model.Packages
import GoIface.Model.Rendering
import GoIface.Proofs.Lexing
import GoIface.Proofs.Writing

/-!
# What is written for a type

The rendering of a type is the text of a tree (`TypeExpr.tree`): it lexes to the tokens of that
tree (`Writable.phrase`), and the tree can be told from them (`Writable.printable`). This takes
names that are identifiers and parameters that can be told from names; and since no parentheses are
written, a channel of both directions must not hold one that is received from.
-/

namespace GoIface

open Piece

/-! ## Trees of types -/

/-- The parameter is written with dots. -/
def Parameter.isSpread : Param → Bool
  | ⟨_, true, .slice _⟩ => true
  | _ => false

/-- The type that is written for a parameter, after the dots if it has them. -/
def Parameter.shown : Param → TypeExpr
  | ⟨_, true, .slice elem⟩ => elem
  | ⟨_, _, type⟩ => type

/-- The types without a name of their own that count as predeclared. -/
def emptyLiteral? (name : String) : Option (TypeForm TypeNode) :=
  if name = "struct\x7b\x7d" then some (.struct .nowhere [])
  else if name = "interface\x7b\x7d" then some (.interface .nowhere [])
  else none

def TypeForm.unplaced (form : TypeForm TypeNode) : TypeNode := .mk 0 .nowhere form

/-- A single result stands without parentheses. -/
def resultsOf : List (Field TypeNode) → Results TypeNode
  | [] => .absent
  | [x] => .single x.type
  | xs => .list ⟨.nowhere, xs, .nowhere⟩

mutual

/-- The tree that a type is written for. It keeps the length of an array as a place. -/
def TypeExpr.tree (table : AliasTable) : TypeExpr → TypeNode
  | .array length elem => (TypeForm.array (.point length) (elem.tree table)).unplaced
  | .slice elem => (TypeForm.slice .nowhere (elem.tree table)).unplaced
  | .pointer elem => (TypeForm.pointer .nowhere (elem.tree table)).unplaced
  | .mapping key value =>
    (TypeForm.mapping .nowhere (key.tree table) (value.tree table)).unplaced
  | .chan direction elem => (TypeForm.chan direction .nowhere (elem.tree table)).unplaced
  | .func args results =>
    (TypeForm.func .nowhere ⟨0, .nowhere, ⟨.nowhere, fieldTrees table args, .nowhere⟩,
      resultsOf (fieldTrees table results)⟩).unplaced
  | .named package name =>
    let qualifier := if package.isEmpty then none else some ⟨table.qualifier package, .nowhere⟩
    (TypeForm.named qualifier ⟨name, .nowhere⟩ []).unplaced
  | .predeclared name =>
    ((emptyLiteral? name).getD (.named none ⟨name, .nowhere⟩ [])).unplaced

def fieldTree (table : AliasTable) : Param → Field TypeNode
  | ⟨_, true, .slice elem⟩ => ⟨0, .nowhere, [], some .nowhere, elem.tree table, none, false⟩
  | ⟨_, _, type⟩ => ⟨0, .nowhere, [], none, type.tree table, none, false⟩

def fieldTrees (table : AliasTable) : List Param → List (Field TypeNode)
  | [] => []
  | p :: ps => fieldTree table p :: fieldTrees table ps

end

theorem fieldTrees_eq_map (table : AliasTable) :
    ∀ ps : List Param, fieldTrees table ps = ps.map (fieldTree table)
  | [] => rfl
  | _ :: ps => by simp [fieldTrees, fieldTrees_eq_map table ps]

theorem fieldTree_eq (table : AliasTable) (p : Param) :
    fieldTree table p = ⟨0, .nowhere, [], if p.isSpread then some .nowhere else none,
      p.shown.tree table, none, false⟩ := by
  rcases p with ⟨_, _ | _, type⟩
  · cases type <;> rfl
  · cases type <;> rfl

theorem renderParam_eq (table : AliasTable) (p : Param) :
    renderParam table p = (if p.isSpread then "..." else "") ++ p.shown.render table := by
  rcases p with ⟨_, _ | _, type⟩
  · cases type <;> simp [renderParam, Parameter.isSpread, Parameter.shown]
  · cases type <;> simp [renderParam, Parameter.isSpread, Parameter.shown]

/-! ## Types that can be told from what is written for them -/

/-- Written as an identifier alone. -/
def TypeExpr.isName : TypeExpr → Bool
  | .named package _ => package.isEmpty
  | .predeclared name => (emptyLiteral? name).isNone
  | _ => false

def TypeExpr.isReceive : TypeExpr → Bool
  | .chan .receive _ => true
  | _ => false

/-- Written as an identifier alone, which may be taken for a name. -/
def Parameter.isBare (p : Param) : Bool := !p.isSpread && p.shown.isName

/-- Bare parameters come after all others. -/
def BareLast (ps : List Param) : Prop := ps.Pairwise fun p q => p.isBare → q.isBare

inductive TypeExpr.Writable (table : AliasTable) : TypeExpr → Prop
  | array {length : Nat} {elem : TypeExpr} (hlength : length < lengthLimit)
      (helem : elem.Writable table) : Writable table (.array length elem)
  | slice {elem : TypeExpr} (helem : elem.Writable table) : Writable table (.slice elem)
  | pointer {elem : TypeExpr} (helem : elem.Writable table) : Writable table (.pointer elem)
  | mapping {key value : TypeExpr} (hkey : key.Writable table) (hvalue : value.Writable table) :
      Writable table (.mapping key value)
  | chan {direction : Direction} {elem : TypeExpr} (helem : elem.Writable table)
      (harrow : direction = .both → elem.isReceive = false) : Writable table (.chan direction elem)
  | func {args results : List Param} (hargs : ∀ p ∈ args, p.shown.Writable table)
      (hresults : ∀ p ∈ results, p.shown.Writable table)
      (hvariadic : ∀ p ∈ args, p.variadic = true → p.isSpread = true)
      (hplain : ∀ p ∈ results, p.variadic = false)
      (hlast : BareLast args) (hlast' : 2 ≤ results.length → BareLast results) :
      Writable table (.func args results)
  | imported {package name : String} (hpackage : package ≠ "")
      (hqualifier : isIdentifier (table.qualifier package) = true)
      (hname : isIdentifier name = true) : Writable table (.named package name)
  | exported {name : String} (hname : isIdentifier name = true) (hcase : isExported name = true) :
      Writable table (.named "" name)
  | predeclared {name : String} (hname : isIdentifier name = true)
      (hcase : isExported name = false) : Writable table (.predeclared name)
  | emptyLiteral {name : String} (hname : (emptyLiteral? name).isSome = true) :
      Writable table (.predeclared name)

theorem emptyLiteral?_of_isIdentifier {name : String} (h : isIdentifier name = true) :
    emptyLiteral? name = none := by
  have hne (s : String) (hs : isIdentifier s = false) : name ≠ s := by
    rintro rfl
    rw [h] at hs
    simp at hs
  rw [emptyLiteral?, if_neg (hne _ (by decide)), if_neg (hne _ (by decide))]

theorem emptyLiteral?_isSome {name : String} (h : (emptyLiteral? name).isSome = true) :
    name = "struct\x7b\x7d" ∨ name = "interface\x7b\x7d" := by
  unfold emptyLiteral? at h
  split at h
  · exact .inl ‹_›
  · split at h
    · exact .inr ‹_›
    · simp at h

/-! ## Phrases -/

/-- What is written for the length of an array that is kept as a place. -/
def spellLength (s : Span) : List Token := [.literal .int (toString s.start)]

/-- Text that lexes to the tokens wherever it stands, if a word may end before what follows. It
starts with what may follow a space and a star. -/
structure Phrase (cs : List Char) (ts : List Token) : Prop where
  lexes : ∀ ends, Lexes ends cs ts true (noneAhead continuesIdent)
  starts : ∃ d ds, cs = d :: ds ∧ isSpace d = false ∧ d ≠ '='

namespace Phrase

variable {cs : List Char} {ts : List Token}

theorem noSpace (h : Phrase cs ts) (o : Option Char) : noneAhead isSpace (cs.head?.or o) := by
  obtain ⟨d, ds, rfl, hd, -⟩ := h.starts
  simpa [noneAhead] using hd

theorem noAssign (h : Phrase cs ts) (o : Option Char) : noneAhead (· == '=') (cs.head?.or o) := by
  obtain ⟨d, ds, rfl, -, hd⟩ := h.starts
  simpa [noneAhead] using hd

theorem starts_of_isWord (h : IsWord cs) : ∃ d ds, cs = d :: ds ∧ isSpace d = false ∧ d ≠ '=' := by
  obtain ⟨d, ds, hs, hd, -⟩ := h
  have hspace := ne_of_startsIdent hd (rfl : startsIdent ' ' = false)
  have htab := ne_of_startsIdent hd (rfl : startsIdent '\t' = false)
  have hassign := ne_of_startsIdent hd (rfl : startsIdent '=' = false)
  exact ⟨d, ds, hs, by simp [isSpace, hspace, htab], hassign⟩

theorem of_isIdentifier {s : String} (h : isIdentifier s = true) : Phrase s.toList [.ident s] :=
  ⟨fun _ => .ident h, starts_of_isWord (isWord_of_isIdentifier h)⟩

/-- Text before a phrase. -/
theorem after {ds : List Char} {us : List Token} {b : Bool} {F : Ahead} (h : Phrase cs ts)
    (hds : ∀ ends, Lexes ends ds us b F) (hF : ∀ o, F (cs.head?.or o))
    (hstarts : ∃ e es, ds = e :: es ∧ isSpace e = false ∧ e ≠ '=') :
    Phrase (ds ++ cs) (us ++ ts) := by
  refine ⟨fun ends => (hds ends).append (h.lexes b) fun o _ => hF o, ?_⟩
  obtain ⟨e, es, rfl, he⟩ := hstarts
  exact ⟨e, es ++ cs, rfl, he⟩

/-- Phrases with commas between them. -/
theorem commaSeparated {γ : Type} {text : γ → String} {tok : γ → List Token} :
    ∀ {xs : List γ}, xs ≠ [] → (∀ x ∈ xs, Phrase (text x).toList (tok x)) →
      Phrase (commaSeparated (xs.map text)).toList (joined .comma (xs.map tok))
  | [], h, _ => absurd rfl h
  | [x], _, h => by simpa [GoIface.commaSeparated] using h x (by simp)
  | x :: y :: xs, _, h => by
    have hx := h x (by simp)
    have ih : Phrase (GoIface.commaSeparated ((y :: xs).map text)).toList _ :=
      commaSeparated (by simp) fun z hz => h z (by simp_all)
    have htext : (GoIface.commaSeparated ((x :: y :: xs).map text)).toList
        = (text x).toList ++ (",".toList
          ++ ([' '] ++ (GoIface.commaSeparated ((y :: xs).map text)).toList)) := by
      simp [GoIface.commaSeparated]
    have hcomma (ends : Bool) : Lexes ends ",".toList [.mark .comma] false anyAhead :=
      .mark (m := .comma) rfl
    have hrest := (Lexes.space (a := false)).append (ih.lexes false) fun o _ => ih.noSpace o
    have hlist := (hcomma true).append hrest fun _ _ => trivial
    show Phrase _ (joined .comma (tok x :: (y :: xs).map tok))
    rw [htext, joined_cons _ _ (by simp)]
    refine ⟨fun ends => (hx.lexes ends).append hlist fun _ _ => rfl, ?_⟩
    obtain ⟨d, ds, hd, hstarts⟩ := hx.starts
    exact ⟨d, _, by rw [hd]; rfl, hstarts⟩

/-- Phrases between parentheses, perhaps none. -/
theorem parentheses {γ : Type} {text : γ → String} {tok : γ → List Token} {xs : List γ}
    (h : ∀ x ∈ xs, Phrase (text x).toList (tok x)) (ends : Bool) :
    Lexes ends ("(" ++ GoIface.commaSeparated (xs.map text) ++ ")").toList
      (.mark .lparen :: (joined .comma (xs.map tok) ++ [Token.mark .rparen])) true anyAhead := by
  have hopen : Lexes ends "(".toList [.mark .lparen] false anyAhead := .mark (m := .lparen) rfl
  have hclose (b : Bool) : Lexes b ")".toList [.mark .rparen] true anyAhead :=
    .mark (m := .rparen) rfl
  rw [String.toList_append, String.toList_append, List.append_assoc]
  rcases xs with _ | ⟨x, xs⟩
  · exact hopen.append (hclose false) fun _ _ => trivial
  · have hlist := commaSeparated (by simp) h
    exact hopen.append ((hlist.lexes false).append (hclose true) fun _ _ => rfl) fun _ _ => trivial

end Phrase

theorem digits_toString (n : Nat) : ∀ c ∈ (toString n).toList, c.isDigit = true := by
  have htext : (toString n).toList = Nat.toDigits 10 n := Nat.toList_repr
  rw [htext]
  exact fun c hc => Nat.isDigit_of_mem_toDigits (by decide) (by decide) hc

theorem lexes_digits (n : Nat) (ends : Bool) :
    Lexes ends (toString n).toList (spellLength (.point n)) true (noneAhead continuesDigits) := by
  have htext : (toString n).toList = Nat.toDigits 10 n := Nat.toList_repr
  have hne : (toString n).toList ≠ [] := by
    rw [htext]
    exact Nat.toDigits_ne_nil
  exact .token (scans_digits hne (digits_toString n)) rfl (by simp)

/-! ## What is written -/

@[simp] theorem TypeForm.tokens_unplaced (spell : Span → List Token) (form : TypeForm TypeNode) :
    form.unplaced.tokens spell = (form.map (TypeNode.tokens spell)).tokens spell :=
  TypeNode.tokens_mk spell _ _ form

/-- The tokens of a parameter, dots included. -/
def Parameter.tokens (table : AliasTable) (p : Param) : List Token :=
  (if p.isSpread then [Token.mark .ellipsis] else []) ++ (p.shown.tree table).tokens spellLength

theorem fieldTree_tokens (table : AliasTable) (p : Param) :
    ((fieldTree table p).map (TypeNode.tokens spellLength)).paramTokens = p.tokens table := by
  rw [fieldTree_eq]
  cases h : p.isSpread <;> simp [Field.map, Field.paramTokens, Parameter.tokens, namesTokens, h]

theorem fieldTrees_tokens (table : AliasTable) (ps : List Param) :
    ((fieldTrees table ps).map (Field.map (TypeNode.tokens spellLength))).map Field.paramTokens
      = ps.map (·.tokens table) := by
  simp [fieldTrees_eq_map, Function.comp_def, fieldTree_tokens]

/-- The tokens of the results of a signature. -/
def resultsTokens : List (List Token) → List Token
  | [] => []
  | [ts] => ts
  | runs => .mark .lparen :: (joined .comma runs ++ [Token.mark .rparen])

theorem resultsOf_tokens (table : AliasTable) {ps : List Param}
    (hplain : ∀ p ∈ ps, p.variadic = false) :
    ((resultsOf (fieldTrees table ps)).map (TypeNode.tokens spellLength)).tokens
      = resultsTokens (ps.map (·.tokens table)) := by
  have htokens := fieldTrees_tokens table ps
  rcases ps with _ | ⟨p, _ | ⟨q, ps⟩⟩
  · rfl
  · have hspread : p.isSpread = false := by
      rcases p with ⟨_, _ | _, type⟩
      · rfl
      · simp at hplain
    simp [fieldTrees, resultsOf, Results.map, Results.tokens, resultsTokens, fieldTree_eq,
      Parameter.tokens, hspread]
  · show FieldList.tokens ⟨_, (fieldTrees table (p :: q :: ps)).map _, _⟩ = _
    rw [FieldList.tokens, htokens]
    rfl

theorem lexes_lbrack (ends : Bool) : Lexes ends "[".toList [.mark .lbrack] false anyAhead :=
  .mark (m := .lbrack) rfl

theorem lexes_rbrack (ends : Bool) : Lexes ends "]".toList [.mark .rbrack] true anyAhead :=
  .mark (m := .rbrack) rfl

namespace Phrase

variable {s k v : String} {ts us : List Token}

theorem array (h : Phrase s.toList ts) (n : Nat) :
    Phrase ("[" ++ toString n ++ "]" ++ s).toList
      ((TypeForm.array (.point n) ts).tokens spellLength) := by
  have hlength (ends : Bool) := (lexes_lbrack ends).append
    ((lexes_digits n false).append (lexes_rbrack true) fun _ _ => rfl) fun _ _ => trivial
  have htext : ("[" ++ toString n ++ "]" ++ s).toList
      = ("[".toList ++ ((toString n).toList ++ "]".toList)) ++ s.toList := by
    simp
  have htokens : (TypeForm.array (.point n) ts).tokens spellLength
      = ([Token.mark .lbrack] ++ (spellLength (.point n) ++ [Token.mark .rbrack])) ++ ts := by
    simp [TypeForm.tokens]
  rw [htext, htokens]
  exact h.after hlength (fun _ => trivial) ⟨'[', _, rfl, rfl, by decide⟩

theorem slice (h : Phrase s.toList ts) :
    Phrase ("[]" ++ s).toList ((TypeForm.slice .nowhere ts).tokens spellLength) := by
  have hbrackets (ends : Bool) :=
    (lexes_lbrack ends).append (lexes_rbrack false) fun _ _ => trivial
  have htext : ("[]" ++ s).toList = ("[".toList ++ "]".toList) ++ s.toList := by
    simp
  rw [htext]
  exact h.after hbrackets (fun _ => trivial) ⟨'[', _, rfl, rfl, by decide⟩

theorem pointer (h : Phrase s.toList ts) :
    Phrase ("*" ++ s).toList ((TypeForm.pointer .nowhere ts).tokens spellLength) := by
  have hstar (ends : Bool) : Lexes ends ['*'] [.mark .star] false (noneAhead (· == '=')) :=
    .token scans_star rfl (by simp)
  have htext : ("*" ++ s).toList = ['*'] ++ s.toList := by
    simp
  rw [htext]
  exact h.after hstar h.noAssign ⟨'*', _, rfl, rfl, by decide⟩

theorem mapping (hk : Phrase k.toList us) (hv : Phrase v.toList ts) :
    Phrase ("map[" ++ k ++ "]" ++ v).toList
      ((TypeForm.mapping .nowhere us ts).tokens spellLength) := by
  have hinside := (lexes_lbrack false).append
    ((hk.lexes false).append (lexes_rbrack true) fun _ _ => rfl) fun _ _ => trivial
  have hkey (ends : Bool) := (Lexes.keyword (a := ends) .mapKw).append hinside fun _ _ => rfl
  have htext : ("map[" ++ k ++ "]" ++ v).toList
      = ("map".toList ++ ("[".toList ++ (k.toList ++ "]".toList))) ++ v.toList := by
    simp
  have htokens : (TypeForm.mapping .nowhere us ts).tokens spellLength
      = ([Token.keyword .mapKw] ++ ([Token.mark .lbrack] ++ (us ++ [Token.mark .rbrack])))
        ++ ts := by
    simp [TypeForm.tokens]
  rw [htext, htokens]
  exact hv.after hkey (fun _ => trivial) ⟨'m', _, rfl, rfl, by decide⟩

theorem chan (h : Phrase s.toList ts) (direction : Direction) :
    Phrase (direction.keyword ++ " " ++ s).toList
      ((TypeForm.chan direction .nowhere ts).tokens spellLength) := by
  have harrow (ends : Bool) : Lexes ends "<-".toList [.mark .arrow] false anyAhead :=
    .mark (m := .arrow) rfl
  have hchan (ends : Bool) := Lexes.keyword (a := ends) .chanKw
  have hspace := Lexes.space (a := false)
  cases direction with
  | both =>
    have hopen (ends : Bool) := (hchan ends).append hspace fun _ _ => rfl
    have htext : (Direction.both.keyword ++ " " ++ s).toList
        = ("chan".toList ++ [' ']) ++ s.toList := by
      simp [Direction.keyword]
    rw [htext]
    exact h.after hopen h.noSpace ⟨'c', _, rfl, rfl, by decide⟩
  | send =>
    have hrest := (harrow false).append hspace fun _ _ => trivial
    have hopen (ends : Bool) := (hchan ends).append hrest fun _ _ => rfl
    have htext : (Direction.send.keyword ++ " " ++ s).toList
        = ("chan".toList ++ ("<-".toList ++ [' '])) ++ s.toList := by
      simp [Direction.keyword]
    rw [htext]
    exact h.after hopen h.noSpace ⟨'c', _, rfl, rfl, by decide⟩
  | receive =>
    have hrest := (hchan false).append hspace fun _ _ => rfl
    have hopen (ends : Bool) := (harrow ends).append hrest fun _ _ => trivial
    have htext : (Direction.receive.keyword ++ " " ++ s).toList
        = ("<-".toList ++ ("chan".toList ++ [' '])) ++ s.toList := by
      simp [Direction.keyword]
    rw [htext]
    exact h.after hopen h.noSpace ⟨'<', _, rfl, rfl, by decide⟩

/-- A name in a package. -/
theorem qualified {q n : String} (hq : isIdentifier q = true) (hn : isIdentifier n = true) :
    Phrase (q ++ "." ++ n).toList [.ident q, .mark .dot, .ident n] := by
  have hdot : Lexes true ['.'] [.mark .dot] false (noneAhead fun c => c == '.' || c.isDigit) :=
    .token scans_dot rfl (by simp)
  have hopen (ends : Bool) := (Lexes.ident (a := ends) hq).append hdot fun _ _ => rfl
  have htext : (q ++ "." ++ n).toList = (q.toList ++ ['.']) ++ n.toList := by
    simp
  rw [htext]
  obtain ⟨d, ds, hd, hstarts⟩ := (of_isIdentifier hq).starts
  refine (of_isIdentifier hn).after hopen (fun o => ?_) ⟨d, ds ++ ['.'], by rw [hd]; rfl, hstarts⟩
  obtain ⟨e, es, he, hletter, -⟩ := isWord_of_isIdentifier hn
  have hne := ne_of_startsIdent hletter (rfl : startsIdent '.' = false)
  have hdigit : e.isDigit = false := by
    rw [← Bool.not_eq_true]
    intro hdigit
    rw [startsIdent_of_isDigit hdigit] at hletter
    simp at hletter
  rw [he]
  simp [noneAhead, hne, hdigit]

/-- A keyword with nothing between its braces. -/
theorem emptyBraces (kw : Keyword) :
    Phrase (kw.text ++ "\x7b\x7d").toList (.keyword kw :: inBraces []) := by
  have hopen (ends : Bool) : Lexes ends "\x7b".toList [.mark .lbrace] false anyAhead :=
    .mark (m := .lbrace) rfl
  have hclose : Lexes false "\x7d".toList [.mark .rbrace] true anyAhead := .mark (m := .rbrace) rfl
  have hbraces (ends : Bool) := (hopen ends).append hclose fun _ _ => trivial
  have htext : (kw.text ++ "\x7b\x7d").toList
      = kw.text.toList ++ ("\x7b".toList ++ "\x7d".toList) := by
    simp
  rw [htext]
  have hlexes (ends : Bool) := (Lexes.keyword (a := ends) kw).append (hbraces _) fun _ _ => rfl
  refine ⟨fun ends => (hlexes ends).mono fun _ _ => trivial, ?_⟩
  obtain ⟨d, ds, hd, hstarts⟩ := starts_of_isWord (isWord_keyword kw)
  exact ⟨d, _, by rw [hd]; rfl, hstarts⟩

end Phrase

section Forms

variable {table : AliasTable}

theorem phrase_param {p : Param}
    (h : Phrase (p.shown.render table).toList ((p.shown.tree table).tokens spellLength)) :
    Phrase (renderParam table p).toList (p.tokens table) := by
  rw [renderParam_eq, Parameter.tokens, String.toList_append]
  cases p.isSpread with
  | false => simpa using h
  | true =>
    have hdots (ends : Bool) : Lexes ends "...".toList [.mark .ellipsis] false anyAhead :=
      .mark (m := .ellipsis) rfl
    exact h.after hdots (fun _ => trivial) ⟨'.', _, rfl, rfl, by decide⟩

theorem lexes_results {ps : List Param}
    (h : ∀ p ∈ ps, Phrase (renderParam table p).toList (p.tokens table)) :
    Lexes true (resultsText (renderAll table ps)).toList
      (resultsTokens (ps.map (·.tokens table))) true (noneAhead continuesIdent) := by
  rw [renderAll_eq_map]
  rcases ps with _ | ⟨p, _ | ⟨q, ps⟩⟩
  · exact .nil
  · have hp := h p (by simp)
    rw [List.map_singleton, resultsText, String.toList_append]
    exact Lexes.space.append (hp.lexes true) fun o _ => hp.noSpace o
  · have hlist : Lexes true _ _ true (noneAhead continuesIdent) :=
      (Phrase.parentheses h true).mono fun _ _ => trivial
    have htext : (resultsText ((p :: q :: ps).map (renderParam table))).toList
        = [' ']
          ++ ("(" ++ commaSeparated ((p :: q :: ps).map (renderParam table)) ++ ")").toList := by
      simp [resultsText]
    rw [htext]
    refine Lexes.space.append hlist fun o _ => ?_
    simp [noneAhead, isSpace]

theorem phrase_func {args results : List Param}
    (hargs : ∀ p ∈ args, Phrase (renderParam table p).toList (p.tokens table))
    (hresults : ∀ p ∈ results, Phrase (renderParam table p).toList (p.tokens table)) :
    Phrase ("func(" ++ commaSeparated (renderAll table args) ++ ")"
        ++ resultsText (renderAll table results)).toList
      (.keyword .funcKw :: ((.mark .lparen
        :: (joined .comma (args.map (·.tokens table)) ++ [Token.mark .rparen]))
        ++ resultsTokens (results.map (·.tokens table)))) := by
  have hlist := (Phrase.parentheses hargs false).append (lexes_results hresults) fun _ _ => trivial
  have hfunc (ends : Bool) := (Lexes.keyword (a := ends) .funcKw).append hlist fun o _ => by
    simp only [String.toList_append, List.append_assoc]
    rfl
  have htext : ("func(" ++ commaSeparated (renderAll table args) ++ ")"
        ++ resultsText (renderAll table results)).toList
      = "func".toList ++ (("(" ++ commaSeparated (args.map (renderParam table)) ++ ")").toList
        ++ (resultsText (renderAll table results)).toList) := by
    simp [renderAll_eq_map]
  rw [htext]
  exact ⟨hfunc, 'f', _, rfl, rfl, by decide⟩

end Forms

/-- What is written for a type lexes to the tokens of its tree. -/
theorem TypeExpr.Writable.phrase {table : AliasTable} {t : TypeExpr} (h : t.Writable table) :
    Phrase (t.render table).toList ((t.tree table).tokens spellLength) := by
  induction h with
  | @array length elem _ _ ih =>
    rw [render, tree, TypeForm.tokens_unplaced]
    exact ih.array length
  | slice _ ih =>
    rw [render, tree, TypeForm.tokens_unplaced]
    exact ih.slice
  | pointer _ ih =>
    rw [render, tree, TypeForm.tokens_unplaced]
    exact ih.pointer
  | mapping _ _ ihkey ihvalue =>
    rw [render, tree, TypeForm.tokens_unplaced]
    exact ihkey.mapping ihvalue
  | @chan direction elem _ _ ih =>
    rw [render, tree, TypeForm.tokens_unplaced]
    exact ih.chan direction
  | @func args results _ _ _ hplain _ _ ihargs ihresults =>
    rw [render, tree, TypeForm.tokens_unplaced]
    have htokens : ((fieldTrees table args).map (Field.map _)).map Field.paramTokens = _ :=
      fieldTrees_tokens table args
    simp only [TypeForm.map, TypeForm.tokens, Signature.map, Signature.tokens, FieldList.map,
      FieldList.tokens, htokens, resultsOf_tokens table hplain]
    exact phrase_func (fun p hp => phrase_param (ihargs p hp))
      fun p hp => phrase_param (ihresults p hp)
  | @imported package name hpackage hqualifier hname =>
    have hempty : package.isEmpty = false := by simpa using hpackage
    simp only [render, tree, hempty, TypeForm.tokens_unplaced]
    exact Phrase.qualified hqualifier hname
  | exported hname _ =>
    rw [render, tree, TypeForm.tokens_unplaced]
    exact .of_isIdentifier hname
  | predeclared hname _ =>
    rw [render, tree, TypeForm.tokens_unplaced, emptyLiteral?_of_isIdentifier hname]
    exact .of_isIdentifier hname
  | emptyLiteral hname =>
    rw [render, tree, TypeForm.tokens_unplaced]
    rcases emptyLiteral?_isSome hname with rfl | rfl
    · exact .emptyBraces .structKw
    · exact .emptyBraces .interfaceKw

end GoIface
