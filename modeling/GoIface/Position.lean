import GoIface.Span

/-!
# Lines and columns

Lines start at the beginning of a text and after every line feed. A position counts both from one,
columns in bytes, and may lie past the end of the text. The line of an offset is found by halving
the list of the starts. Starts, lines and columns are kept in 32 bits.
-/

namespace GoIface

structure Position where
  line : Nat
  column : Nat
deriving Repr, DecidableEq

def lineFeed : UInt8 := 10

/-- Where lines start after the line feeds of bytes that themselves start at `offset`. -/
def lineStartsFrom (offset : Nat) : List UInt8 → List Nat
  | [] => []
  | b :: bytes =>
    if b = lineFeed then (offset + 1) :: lineStartsFrom (offset + 1) bytes
    else lineStartsFrom (offset + 1) bytes

def bytes (source : String) : List UInt8 := source.toUTF8.data.toList

/-- Where the lines of a text start. -/
def startOffsets (source : String) : List Nat := 0 :: lineStartsFrom 0 (bytes source)

def lineStarts (source : String) : Array UInt32 :=
  ((startOffsets source).map UInt32.ofNat).toArray

/-- Where an item is in ascending items, or the index that it could be inserted at. -/
inductive SearchResult where
  | found (index : Nat)
  | missing (next : Nat)
deriving Repr, DecidableEq

/-- Looks for an item at the indices from `lo` up to `hi`, halving these at most `n` times. -/
def searchWithin (items : Array UInt32) (item : UInt32) (lo hi : Nat) (h : hi ≤ items.size) :
    Nat → SearchResult
  | 0 => .missing lo
  | n + 1 =>
    if hlt : lo < hi then
      let mid := (lo + hi) / 2
      if items[mid] < item then searchWithin items item (mid + 1) hi h n
      else if item < items[mid] then searchWithin items item lo mid (by omega) n
      else .found mid
    else .missing lo

def search (items : Array UInt32) (item : UInt32) : SearchResult :=
  searchWithin items item 0 items.size (Nat.le_refl _) items.size

/-- The index of the line whose start is found, or else of the line before the next start. -/
def SearchResult.line : SearchResult → Nat
  | found index => index
  | missing next => next - 1

def lineIndex (starts : Array UInt32) (offset : UInt32) : Nat := (search starts offset).line

/-- The position of an offset in a text whose lines start at `starts`. -/
def positionIn (starts : Array UInt32) (offset : Nat) : Position :=
  let offset := UInt32.ofNat offset
  let line := lineIndex starts offset
  ⟨(UInt32.ofNat line + 1).toNat, (offset - starts.getD line 0 + 1).toNat⟩

def positionOf (source : String) (offset : Nat) : Position :=
  positionIn (lineStarts source) offset

end GoIface
