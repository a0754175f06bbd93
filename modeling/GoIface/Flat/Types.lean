import GoIface.Flat.Arena
import GoIface.Tree.Types

/-!
# Reading types into an arena

A `Build` reads lexemes as a `Parse` does and puts what it makes into an arena. The parts of a node
are there before the node is, and the items of a list before the list: a list goes into its buffer
when its last item has been read, the names of a group of parameters when the group is made into a
field.
-/

namespace GoIface

abbrev Build := ParseOf Arena

namespace Build

open Parse

def alloc (k : NodeKind) (node : Node k) (span : Span) : Build (NodeId k) := fun c =>
  let (id, made) := c.made.alloc k node span
  .ok (id, { c with made })

/-- Adds a node that goes from `start` to the last lexeme read. -/
def make (k : NodeKind) (start : Span) (node : Node k) : Build (NodeId k) := do
  alloc k node (← spanFrom start)

def push (k : ListKind) (items : List (Item k)) : Build (ListRef k) := fun c =>
  let (r, made) := c.made.push k items
  .ok (r, { c with made })

/-- The field of a group. A group without names takes no place among the lists of names. -/
def groupField (g : ParamGroup (NodeId .type)) : Build (NodeId .field) := do
  let names ← if g.allNames.isEmpty then pure .empty else push .names g.allNames
  alloc .field ⟨names, g.ellipsis, g.type, none, false⟩ ⟨g.start, g.span.stop⟩

/-- The anonymous parameter whose type is a bare identifier. -/
def identField (x : Ident) : Build (NodeId .field) := do
  let type ← alloc .type (.named none x .empty) x.span
  alloc .field ⟨.empty, none, type, none, false⟩ x.span

/-- The fields of a list of entries, which are made even if the list is refused then. -/
def resolve (entries : List (ParamEntry (NodeId .type))) : Build (List (NodeId .field)) := do
  let (groups, left) := groupEntries [] none entries
  let named ← groups.mapM groupField
  let unnamed ← left.mapM identField
  match mixedAt? groups left with
  | some span => fail .mixedParameters span
  | none => return named ++ unnamed

section

variable (type : Build (NodeId .type))

def params : Build Flat.FieldList := do
  let lparen ← expect (.mark .lparen)
  let entries ← listed (fun c => c.isAt .rparen || c.atEnd) (paramEntry type)
  let rparen ← expect (.mark .rparen)
  let fields ← resolve entries
  return ⟨lparen, ← push .fields fields, rparen⟩

def results : Build Flat.Results := do
  let c ← get
  if c.isAt .lparen then .list <$> params type
  else if c.next?.any Token.startsType then .single <$> type
  else return .absent

def signature : Build (NodeId .signature) := do
  let params ← params type
  let results ← results type
  make .signature params.lparen ⟨params, results⟩

def typeName : Build Flat.TypeForm := do
  let first ← ident
  match ← eat .dot with
  | some _ =>
    let name ← ident
    let args ← typeArgs type
    return .named (some first) name (← push .types args)
  | none =>
    let args ← typeArgs type
    return .named none first (← push .types args)

def arrayOrSlice : Build Flat.TypeForm := do
  let lbrack ← bump
  match ← eat .rbrack with
  | some _ => return .slice lbrack (← type)
  | none =>
    if (← get).isAt .ellipsis then failHere .openLength
    else
      let length ← through .arrayLength (· == .mark .rbrack)
      let _ ← expect (.mark .rbrack)
      return .array length (← type)

def mapType : Build Flat.TypeForm := do
  let keyword ← bump
  let _ ← expect (.mark .lbrack)
  let key ← type
  let _ ← expect (.mark .rbrack)
  return .mapping keyword key (← type)

def chanType : Build Flat.TypeForm := do
  let keyword ← bump
  let direction := if (← eat .arrow).isSome then .send else .both
  return .chan direction keyword (← type)

def receiveType : Build Flat.TypeForm := do
  let _ ← bump
  let keyword ← expect (.keyword .chanKw)
  return .chan .receive keyword (← type)

def element : Build Flat.Element := do
  if declaresMethod (← get).rest then
    let name ← ident
    return .method name (← signature type)
  else
    let terms ← separated .pipe (term type)
    return .union (← push .terms terms)

def interfaceType : Build Flat.TypeForm := do
  let keyword ← bump
  let _ ← expect (.mark .lbrace)
  let (elements, _) ← block .rbrace (element type)
  return .interface keyword (← push .elements elements)

def structField : Build (NodeId .field) := do
  let c ← get
  match embeds? c.rest with
  | none => expected .structField
  | some embedded =>
    let names ← if embedded then pure [] else separated .comma ident
    let type ← type
    let tag ← stringLiteral?
    let names ← push .names names
    make .field c.here ⟨names, none, type, tag, embedded⟩

def structType : Build Flat.TypeForm := do
  let keyword ← bump
  let _ ← expect (.mark .lbrace)
  let (fields, _) ← block .rbrace (structField type)
  return .struct keyword (← push .fields fields)

def parenType : Build Flat.TypeForm := do
  let lparen ← bump
  let inner ← type
  let _ ← expect (.mark .rparen)
  return .paren lparen inner

def typeForm : Build Flat.TypeForm := do
  match (← get).next? with
  | some (.ident _) => typeName type
  | some (.mark .star) => do return .pointer (← bump) (← type)
  | some (.mark .lbrack) => arrayOrSlice type
  | some (.keyword .mapKw) => mapType type
  | some (.keyword .chanKw) => chanType type
  | some (.mark .arrow) => receiveType type
  | some (.keyword .funcKw) => do return .func (← bump) (← signature type)
  | some (.keyword .interfaceKw) => interfaceType type
  | some (.keyword .structKw) => structType type
  | some (.mark .lparen) => parenType type
  | _ => expected .type

end

/-- A type with at most `room` types around one another, itself included. -/
def typeWithin : Nat → Build (NodeId .type)
  | 0 => failHere .tooDeep
  | room + 1 => do
    let c ← get
    let form ← typeForm (typeWithin room)
    make .type c.here form

def type : Build (NodeId .type) := typeWithin nestingLimit

end Build

end GoIface
