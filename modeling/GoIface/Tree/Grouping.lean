import GoIface.Tree.Cursor

/-!
# Grouping parameters

A parameter list is read as entries between commas. Whether a bare identifier is a name or a type
shows only in the whole list: identifiers wait for the next entry with a type, whose names they
become, and those that still wait at the end are types themselves. A list that then has both named
and anonymous parameters is refused at the first anonymous one.
-/

namespace GoIface

structure ParamEntry (τ : Type) where
  names : List Ident
  ellipsis : Option Span
  type : Option τ
  span : Span
deriving Repr

/-- An entry with a type, and the names that waited for it. -/
structure ParamGroup (τ : Type) where
  waiting : List Ident
  names : List Ident
  ellipsis : Option Span
  type : τ
  /-- Where the first of the waiting names starts, or the entry itself. -/
  start : Nat
  span : Span
deriving Repr

variable {τ : Type}

def ParamGroup.allNames (g : ParamGroup τ) : List Ident := g.waiting ++ g.names

/-- The groups of a list of entries, and the identifiers that no type follows. The first two
arguments are the names that wait and where the first of them starts. -/
def groupEntries (waiting : List Ident) (start : Option Nat) :
    List (ParamEntry τ) → List (ParamGroup τ) × List Ident
  | [] => ([], waiting)
  | e :: es =>
    match e.type with
    | none =>
      let start := if waiting.isEmpty then some e.span.start else start
      groupEntries (waiting ++ e.names) start es
    | some type =>
      let group := ⟨waiting, e.names, e.ellipsis, type, start.getD e.span.start, e.span⟩
      (groupEntries [] none es).map (group :: ·) id

def ParamGroup.field (serial : Nat) (g : ParamGroup TypeNode) : Field TypeNode :=
  ⟨serial, ⟨g.start, g.span.stop⟩, g.allNames, g.ellipsis, g.type, none, false⟩

/-- The anonymous parameter whose type is a bare identifier. -/
def Ident.field (serial typeSerial : Nat) (x : Ident) : Field TypeNode :=
  ⟨serial, x.span, [], none, .mk typeSerial x.span (.named none x []), none, false⟩

/-- The first anonymous parameter of a list that also has named ones. -/
def mixedAt? (groups : List (ParamGroup τ)) (left : List Ident) : Option Span :=
  if groups.any (!·.allNames.isEmpty) then
    ((groups.filter (·.allNames.isEmpty)).map (·.span) ++ left.map (·.span)).head?
  else none

/-- The fields of a list of entries and the counts after they are made. -/
def resolveEntries (entries : List (ParamEntry TypeNode)) (made : Counts) :
    Except (Located ParseFault) (List (Field TypeNode) × Counts) :=
  let (groups, left) := groupEntries [] none entries
  match mixedAt? groups left with
  | some span => .error ⟨.mixedParameters, span⟩
  | none =>
    let fields := groups.mapIdx (fun i g => g.field (made.fields + i))
      ++ left.mapIdx (fun i x => x.field (made.fields + groups.length + i) (made.types + i))
    .ok (fields, { made with
      fields := made.fields + fields.length, types := made.types + left.length })

def Parse.resolve (entries : List (ParamEntry TypeNode)) : Parse (List (Field TypeNode)) := fun c =>
  match resolveEntries entries c.made with
  | .ok (fields, made) => .ok (fields, { c with made })
  | .error e => .error e

end GoIface
