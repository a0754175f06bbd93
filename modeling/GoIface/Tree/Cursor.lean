import GoIface.Diagnostic
import GoIface.Tree

/-!
# Reading lexemes

A cursor stands before the lexemes not yet read. It keeps the span of the last one read, the place
where the text ends and what was made so far: an arena, or the counts of the nodes for a `Parse`,
which makes trees. A reader moves a cursor on or fails at a span. `block`, `listed` and `separated`
are the three kinds of sequence; each reads at most as many items as lexemes are left, and an item
takes one at least.
-/

namespace GoIface

structure Cursor (μ : Type := Counts) where
  rest : List Lexeme
  last : Span
  textEnd : Nat
  made : μ
deriving Repr

namespace Cursor

variable {μ : Type}

def next? (c : Cursor μ) : Option Token := c.rest.head?.map Lexeme.token

/-- The span of the next lexeme, empty at the end of the text. -/
def here (c : Cursor μ) : Span := (c.rest.head?.map Lexeme.span).getD (.point c.textEnd)

def isAt (m : Mark) (c : Cursor μ) : Bool := c.next? == some (.mark m)

def atEnd (c : Cursor μ) : Bool := c.rest.isEmpty

end Cursor

abbrev ParseOf (μ : Type) := StateT (Cursor μ) (Except (Located ParseFault))

abbrev Parse := ParseOf Counts

namespace Parse

variable {μ α : Type}

def fail (fault : ParseFault) (span : Span) : ParseOf μ α := throw ⟨fault, span⟩

/-- Fails at the next lexeme. -/
def failHere (fault : ParseFault) : ParseOf μ α := fun c => .error ⟨fault, c.here⟩

def expected (wanted : Wanted) : ParseOf μ α := fun c =>
  .error ⟨.expected wanted (.ofNext c.rest), c.here⟩

/-- Reads the next lexeme, whatever it is. At the end of the text the cursor stays. -/
def bump : ParseOf μ Span := fun c =>
  match c.rest with
  | [] => .ok (c.here, c)
  | l :: rest => .ok (l.span, { c with rest, last := l.span })

def eat (m : Mark) : ParseOf μ (Option Span) := do
  if (← get).isAt m then some <$> bump else return none

/-- Reads the given token and nothing else. -/
def expect (t : Token) : ParseOf μ Span := do
  if (← get).next? == some t then bump else expected (.token t)

def ident : ParseOf μ Ident := do
  match (← get).next? with
  | some (.ident name) => return ⟨name, ← bump⟩
  | _ => expected .identifier

/-- The span from `start` to the last lexeme read. -/
def spanFrom (start : Span) : ParseOf μ Span := do return start.hull (← get).last

/-- A semicolon may be left out before the mark that closes a block. -/
def semiBefore (close : Mark) : ParseOf μ Unit := do
  if (← get).isAt close || (← eat .semi).isSome then return () else expected .semicolon

/-- Items that end in semicolons, up to the mark `close`, with at most `n` of them. -/
def blockItems (close : Mark) (item : ParseOf μ α) : Nat → ParseOf μ (List α)
  | 0 => return []
  | n + 1 => do
    let c ← get
    if c.isAt close || c.atEnd then return []
    let x ← item
    semiBefore close
    return x :: (← blockItems close item n)

/-- The items of a block and the span of the mark that closes it. -/
def block (close : Mark) (item : ParseOf μ α) : ParseOf μ (List α × Span) := do
  let items ← blockItems close item (← get).rest.length
  return (items, ← expect (.mark close))

/-- Items with commas between them and perhaps one after the last, up to where `stop` holds. -/
def listedItems (stop : Cursor μ → Bool) (item : ParseOf μ α) : Nat → ParseOf μ (List α)
  | 0 => do
    if stop (← get) then return [] else return [← item]
  | n + 1 => do
    if stop (← get) then return []
    let x ← item
    match ← eat .comma with
    | some _ => return x :: (← listedItems stop item n)
    | none => return [x]

def listed (stop : Cursor μ → Bool) (item : ParseOf μ α) : ParseOf μ (List α) := do
  listedItems stop item (← get).rest.length

def moreItems (separator : Mark) (item : ParseOf μ α) : Nat → ParseOf μ (List α)
  | 0 => return []
  | n + 1 => do
    match ← eat separator with
    | some _ =>
      let x ← item
      return x :: (← moreItems separator item n)
    | none => return []

/-- One item or more with `separator` between them. -/
def separated (separator : Mark) (item : ParseOf μ α) : ParseOf μ (List α) := do
  let x ← item
  return x :: (← moreItems separator item (← get).rest.length)

def makeType (start : Span) (form : TypeForm TypeNode) : Parse TypeNode := fun c =>
  .ok (.mk c.made.types (start.hull c.last) form,
    { c with made := { c.made with types := c.made.types + 1 } })

def makeField (start : Span) (names : List Ident) (type : TypeNode) (tag : Option StringLiteral)
    (embedded : Bool) : Parse (Field TypeNode) := fun c =>
  .ok (⟨c.made.fields, start.hull c.last, names, none, type, tag, embedded⟩,
    { c with made := { c.made with fields := c.made.fields + 1 } })

def makeSignature (params : FieldList TypeNode) (results : Results TypeNode) :
    Parse (Signature TypeNode) := fun c =>
  .ok (⟨c.made.signatures, params.lparen.hull c.last, params, results⟩,
    { c with made := { c.made with signatures := c.made.signatures + 1 } })

def makeSpecDecl (keyword : Span) (parens : Option Parens) (specs : Specs) : Parse Decl := fun c =>
  .ok (.specs ⟨c.made.decls, keyword.hull c.last, keyword, parens, specs⟩,
    { c with made := { c.made with decls := c.made.decls + 1 } })

def makeFunc (keyword : Span) (receiver : Option (FieldList TypeNode)) (name : Ident)
    (typeParams : Option Span) (signature : Signature TypeNode) (body : Option Span) :
    Parse Decl := fun c =>
  .ok (.func ⟨c.made.funcs, keyword.hull c.last, keyword, receiver, name, typeParams, signature,
      body⟩,
    { c with made := { c.made with funcs := c.made.funcs + 1 } })

end Parse

end GoIface
