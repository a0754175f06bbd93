import GoIface.Tree.Cursor

/-!
# Brackets

What is not read in full is passed over with its brackets closed, each by its own kind. Passing
over keeps the order and the sum of the lexemes (`passOver_append`). Where an identifier is
followed by a square bracket, looking ahead tells type arguments from the length of an array: type
arguments are not followed by the start of a type.
-/

namespace GoIface

inductive Bracket where
  | round | square | curly
deriving Repr, DecidableEq

namespace Token

def opens? : Token → Option Bracket
  | mark .lparen => some .round
  | mark .lbrack => some .square
  | mark .lbrace => some .curly
  | _ => none

def closes? : Token → Option Bracket
  | mark .rparen => some .round
  | mark .rbrack => some .square
  | mark .rbrace => some .curly
  | _ => none

def startsType : Token → Bool
  | ident _ => true
  | mark m => (m matches .star | .lbrack | .lparen | .arrow)
  | keyword k => (k matches .mapKw | .chanKw | .funcKw | .interfaceKw | .structKw)
  | _ => false

end Token

/-- Splits off what comes before the first lexeme outside brackets at which `stop` holds. The
brackets open at the start are given from the innermost out, with the span of the outermost. -/
def passOver (stop : Token → Bool) :
    List Bracket → Span → List Lexeme → Except (Located ParseFault) (List Lexeme × List Lexeme)
  | [], _, [] => .ok ([], [])
  | _ :: _, opener, [] => .error ⟨.missingCloser, opener⟩
  | [], _, l :: ls =>
    if stop l.token then .ok ([], l :: ls)
    else if l.token.closes?.isSome then .error ⟨.unexpected l.token, l.span⟩
    else (passOver stop l.token.opens?.toList l.span ls).map (·.map (l :: ·) id)
  | b :: bs, opener, l :: ls =>
    match l.token.opens?, l.token.closes? with
    | some inner, _ => (passOver stop (inner :: b :: bs) opener ls).map (·.map (l :: ·) id)
    | none, some closed =>
      if closed = b then (passOver stop bs opener ls).map (·.map (l :: ·) id)
      else .error ⟨.unexpected l.token, l.span⟩
    | none, none => (passOver stop (b :: bs) opener ls).map (·.map (l :: ·) id)

theorem passOver_append {stop : Token → Bool} {bs : List Bracket} {opener : Span}
    {ls before after : List Lexeme} (h : passOver stop bs opener ls = .ok (before, after)) :
    before ++ after = ls := by
  have hmap {l : Lexeme} {before ls : List Lexeme} {r : Except (Located ParseFault) _}
      (ih : ∀ {b : List Lexeme}, r = .ok (b, after) → b ++ after = ls)
      (h : r.map (fun p : List Lexeme × List Lexeme => p.map (l :: ·) id) = .ok (before, after)) :
      before ++ after = l :: ls := by
    rcases r with e | ⟨b, a⟩
    · simp [Except.map] at h
    · simp only [Except.map, Prod.map, id, Except.ok.injEq, Prod.mk.injEq] at h
      obtain ⟨rfl, rfl⟩ := h
      simp [ih rfl]
  fun_induction passOver stop bs opener ls generalizing before with
  | case1 => simp_all
  | case2 => simp at h
  | case3 => simp_all
  | case4 => simp at h
  | case5 _ _ _ _ _ ih => exact hmap ih h
  | case6 _ _ _ _ _ _ _ ih => exact hmap ih h
  | case7 _ _ _ _ _ _ _ ih => exact hmap ih h
  | case8 => simp at h
  | case9 _ _ _ _ _ _ _ ih => exact hmap ih h

/-- Whether the bracket that the lexemes start with closes before something other than a type. -/
def holdsTypeArgs (depth : Nat) : List Lexeme → Bool
  | [] => false
  | l :: ls =>
    if l.token.opens?.isSome then holdsTypeArgs (depth + 1) ls
    else if l.token.closes?.isSome then
      if depth ≤ 1 then !(ls.head?.any (·.token.startsType)) else holdsTypeArgs (depth - 1) ls
    else holdsTypeArgs depth ls

namespace Parse

variable {μ : Type}

/-- Reads what `passOver` splits off. -/
def pass (stop : Token → Bool) (start : Span) (open? : Option Bracket) : ParseOf μ (List Lexeme) :=
  fun c =>
    match passOver stop open?.toList start c.rest with
    | .error e => .error e
    | .ok (passed, rest) =>
      .ok (passed, { c with rest, last := (passed.getLast?.map Lexeme.span).getD c.last })

/-- Reads the bracket that comes next and everything up to the one that closes it. -/
def bracketed : ParseOf μ Span := do
  let c ← get
  let start ← bump
  let _ ← pass (fun _ => true) start (c.next?.bind Token.opens?)
  spanFrom start

/-- Reads everything up to the first lexeme outside brackets at which `stop` holds, which must be
something. -/
def through (wanted : Wanted) (stop : Token → Bool) : ParseOf μ Span := do
  let c ← get
  let passed ← pass stop c.here none
  if passed.isEmpty then expected wanted else spanFrom c.here

end Parse

end GoIface
