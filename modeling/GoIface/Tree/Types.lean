import GoIface.Tree.Brackets
import GoIface.Tree.Grouping

/-!
# Reading types

Every form of a type is read with a reader `type` for the types inside it. Closing the knot,
`typeWithin room` reads a type with at most `room` types around one another, so the limit on
nesting is also what the recursion ends by.
-/

namespace GoIface.Parse

/-- How an entry of a parameter list starts. -/
inductive EntryStart where
  | bare | named | unnamed
deriving Repr, DecidableEq

def entryStart : List Lexeme → EntryStart
  | ⟨.ident _, _⟩ :: rest =>
    match rest.head?.map Lexeme.token with
    | some (.mark .comma) | some (.mark .rparen) => .bare
    | some (.mark .dot) => .unnamed
    | some (.mark .lbrack) => if holdsTypeArgs 0 rest then .unnamed else .named
    | some (.mark .ellipsis) => .named
    | some t => if t.startsType then .named else .unnamed
    | none => .unnamed
  | _ => .unnamed

/-- Whether an entry of a struct embeds a type, if it starts as one can. -/
def embeds? : List Lexeme → Option Bool
  | ⟨.mark .star, _⟩ :: _ => some true
  | ⟨.ident _, _⟩ :: rest =>
    match rest.head?.map Lexeme.token with
    | none | some (.mark .dot) | some (.mark .semi) | some (.mark .rbrace)
    | some (.literal .string _) | some (.literal .rawString _) => some true
    | some (.mark .lbrack) => some (holdsTypeArgs 0 rest)
    | some _ => some false
  | _ => none

def declaresMethod : List Lexeme → Bool
  | ⟨.ident _, _⟩ :: ⟨.mark .lparen, _⟩ :: _ => true
  | _ => false

variable {μ τ : Type}

def stringLiteral? : ParseOf μ (Option StringLiteral) := do
  match (← get).next? with
  | some (.literal .string _) | some (.literal .rawString _) => return some ⟨← bump⟩
  | _ => return none

def paramEntry (type : ParseOf μ τ) : ParseOf μ (ParamEntry τ) := do
  let c ← get
  match entryStart c.rest with
  | .bare =>
    let name ← ident
    return ⟨[name], none, none, name.span⟩
  | start =>
    let names ← if start = .named then List.singleton <$> ident else pure []
    let ellipsis ← eat .ellipsis
    let type ← type
    return ⟨names, ellipsis, some type, ← spanFrom c.here⟩

def typeArgs (type : ParseOf μ τ) : ParseOf μ (List τ) := do
  match ← eat .lbrack with
  | none => return []
  | some _ =>
    let args ← listed (·.isAt .rbrack) type
    let rbrack ← expect (.mark .rbrack)
    if args.isEmpty then fail .noTypeArguments rbrack else return args

def term (type : ParseOf μ τ) : ParseOf μ (Term τ) := do
  let tilde ← eat .tilde
  return ⟨tilde, ← type⟩

section

variable (type : Parse TypeNode)

def params : Parse (FieldList TypeNode) := do
  let lparen ← expect (.mark .lparen)
  let entries ← listed (fun c => c.isAt .rparen || c.atEnd) (paramEntry type)
  let rparen ← expect (.mark .rparen)
  return ⟨lparen, ← resolve entries, rparen⟩

def results : Parse (Results TypeNode) := do
  let c ← get
  if c.isAt .lparen then .list <$> params type
  else if c.next?.any Token.startsType then .single <$> type
  else return .absent

def signature : Parse (Signature TypeNode) := do
  let params ← params type
  let results ← results type
  makeSignature params results

def typeName : Parse (TypeForm TypeNode) := do
  let first ← ident
  match ← eat .dot with
  | some _ =>
    let name ← ident
    return .named (some first) name (← typeArgs type)
  | none => return .named none first (← typeArgs type)

def arrayOrSlice : Parse (TypeForm TypeNode) := do
  let lbrack ← bump
  match ← eat .rbrack with
  | some _ => return .slice lbrack (← type)
  | none =>
    if (← get).isAt .ellipsis then failHere .openLength
    else
      let length ← through .arrayLength (· == .mark .rbrack)
      let _ ← expect (.mark .rbrack)
      return .array length (← type)

def mapType : Parse (TypeForm TypeNode) := do
  let keyword ← bump
  let _ ← expect (.mark .lbrack)
  let key ← type
  let _ ← expect (.mark .rbrack)
  return .mapping keyword key (← type)

def chanType : Parse (TypeForm TypeNode) := do
  let keyword ← bump
  let direction := if (← eat .arrow).isSome then .send else .both
  return .chan direction keyword (← type)

def receiveType : Parse (TypeForm TypeNode) := do
  let _ ← bump
  let keyword ← expect (.keyword .chanKw)
  return .chan .receive keyword (← type)

def element : Parse (Element TypeNode) := do
  if declaresMethod (← get).rest then
    let name ← ident
    return .method name (← signature type)
  else .union <$> separated .pipe (term type)

def interfaceType : Parse (TypeForm TypeNode) := do
  let keyword ← bump
  let _ ← expect (.mark .lbrace)
  return .interface keyword (← block .rbrace (element type)).1

def structField : Parse (Field TypeNode) := do
  let c ← get
  match embeds? c.rest with
  | none => expected .structField
  | some embedded =>
    let names ← if embedded then pure [] else separated .comma ident
    let type ← type
    let tag ← stringLiteral?
    makeField c.here names type tag embedded

def structType : Parse (TypeForm TypeNode) := do
  let keyword ← bump
  let _ ← expect (.mark .lbrace)
  return .struct keyword (← block .rbrace (structField type)).1

def parenType : Parse (TypeForm TypeNode) := do
  let lparen ← bump
  let inner ← type
  let _ ← expect (.mark .rparen)
  return .paren lparen inner

def typeForm : Parse (TypeForm TypeNode) := do
  match (← get).next? with
  | some (.ident _) => typeName type
  | some (.mark .star) => do return .pointer (← bump) (← type)
  | some (.mark .lbrack) => arrayOrSlice type
  | some (.keyword .mapKw) => mapType type
  | some (.keyword .chanKw) => chanType type
  | some (.mark .arrow) => receiveType type
  | some (.keyword .funcKw) => do return .func (← bump) (← signature type)
  | some (.keyword .interfaceKw) => interfaceType type
  | some (.keyword .structKw) => structType type
  | some (.mark .lparen) => parenType type
  | _ => expected .type

end

/-- A type with at most `room` types around one another, itself included. -/
def typeWithin : Nat → Parse TypeNode
  | 0 => failHere .tooDeep
  | room + 1 => do
    let c ← get
    let form ← typeForm (typeWithin room)
    makeType c.here form

/-- The deepest nesting of types that is read. -/
def nestingLimit : Nat := 100

def type : Parse TypeNode := typeWithin nestingLimit

end GoIface.Parse
