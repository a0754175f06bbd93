/-!
# Spans of a text

Places in a text are counted in bytes of its UTF-8 form. A span runs from its first byte up to the
byte after its last, so an empty span still has a place. `take_append_drop` says that cutting at a
place loses nothing.
-/

namespace GoIface

structure Span where
  start : Nat
  stop : Nat
deriving Repr, DecidableEq, Inhabited

namespace Span

/-- The smallest span over both. -/
def hull (a b : Span) : Span := ⟨min a.start b.start, max a.stop b.stop⟩

/-- Zero also when a span stops before it starts. -/
def size (s : Span) : Nat := s.stop - s.start

def isEmpty (s : Span) : Bool := s.size == 0

/-- The empty span at a place. -/
def point (n : Nat) : Span := ⟨n, n⟩

end Span

/-- A fault with the span it is reported at. -/
structure Located (ε : Type) where
  fault : ε
  span : Span
deriving Repr, DecidableEq

/-- The number of bytes of a text. -/
def byteCount (cs : List Char) : Nat := cs.foldr (fun c n => c.utf8Size + n) 0

@[simp] theorem byteCount_nil : byteCount [] = 0 := rfl

@[simp] theorem byteCount_cons (c : Char) (cs : List Char) :
    byteCount (c :: cs) = c.utf8Size + byteCount cs := rfl

@[simp] theorem byteCount_append (cs ds : List Char) :
    byteCount (cs ++ ds) = byteCount cs + byteCount ds := by
  induction cs with
  | nil => simp
  | cons c cs ih => simp [ih, Nat.add_assoc]

/-- The characters that start before byte `n`. -/
def takeBytes : Nat → List Char → List Char
  | 0, _ | _ + 1, [] => []
  | n + 1, c :: cs => c :: takeBytes (n + 1 - c.utf8Size) cs

/-- The characters that start at byte `n` or later. -/
def dropBytes : Nat → List Char → List Char
  | 0, cs => cs
  | _ + 1, [] => []
  | n + 1, c :: cs => dropBytes (n + 1 - c.utf8Size) cs

theorem take_append_drop : ∀ (n : Nat) (cs : List Char), takeBytes n cs ++ dropBytes n cs = cs
  | 0, cs => by simp [takeBytes, dropBytes]
  | _ + 1, [] => rfl
  | n + 1, c :: cs => by simp [takeBytes, dropBytes, take_append_drop (n + 1 - c.utf8Size) cs]

/-- The part of a text that a span covers. -/
def Span.slice (s : Span) (cs : List Char) : List Char :=
  takeBytes s.size (dropBytes s.start cs)

def Span.text (s : Span) (source : String) : String := String.ofList (s.slice source.toList)

end GoIface
