import Std.Data.HashMap

/-!
# Symbols

A symbol stands for a name and is numbered by the name's first appearance. Names are looked up in
buckets by their hash; as a bucket compares the names themselves, any hash will do. A number has 32
bits and loses what does not fit, so that the table runs out of numbers after `Symbols.room` names.
-/

namespace GoIface

structure Symbol where
  index : UInt32
deriving Repr, DecidableEq

structure Symbols (hash : String → UInt64) where
  names : Array String
  buckets : Std.HashMap UInt64 (List Symbol)

namespace Symbols

variable {hash : String → UInt64}

def empty : Symbols hash := ⟨#[], ∅⟩

/-- How many numbers there are. -/
def room : Nat := UInt32.size

def resolve? (s : Symbols hash) (x : Symbol) : Option String := s.names[x.index.toNat]?

/-- The symbol of a name, a new one if the name has none yet. -/
def intern (s : Symbols hash) (name : String) : Symbol × Symbols hash :=
  let bucket := s.buckets.getD (hash name) []
  match bucket.find? (s.resolve? · == some name) with
  | some x => (x, s)
  | none =>
    let x := ⟨s.names.size.toUInt32⟩
    (x, ⟨s.names.push name, s.buckets.insert (hash name) (bucket ++ [x])⟩)

/-- The table after several names. -/
def internAll (s : Symbols hash) (names : List String) : Symbols hash :=
  names.foldl (fun s name => (s.intern name).2) s

theorem toNat_toUInt32 {n : Nat} (h : n < room) : n.toUInt32.toNat = n :=
  UInt32.toNat_ofNat_of_lt h

theorem resolve?_intern {s : Symbols hash} (hroom : s.names.size < room) (name : String) :
    (s.intern name).2.resolve? (s.intern name).1 = some name := by
  simp only [intern]
  split
  · next hfind => simpa using List.find?_some hfind
  · simp [resolve?, toNat_toUInt32 hroom]

theorem resolve?_of_intern {s : Symbols hash} {x : Symbol} {name : String}
    (h : s.resolve? x = some name) (other : String) :
    (s.intern other).2.resolve? x = some name := by
  simp only [intern]
  split
  · exact h
  · obtain ⟨hlt, -⟩ := Array.getElem?_eq_some_iff.1 h
    rwa [resolve?, Array.getElem?_push_lt hlt, ← Array.getElem?_eq_getElem hlt]

/-- A name stays the name of its symbol, whatever names come after. -/
theorem resolve?_internAll {s : Symbols hash} {x : Symbol} {name : String}
    (h : s.resolve? x = some name) (names : List String) :
    (s.internAll names).resolve? x = some name := by
  induction names generalizing s with
  | nil => exact h
  | cons other names ih => exact ih (resolve?_of_intern h other)

end Symbols

end GoIface
