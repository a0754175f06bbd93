import GoIface.Text.Blank

/-!
# Lengths of arrays

A length is read from its text if that is a row of decimal digits, perhaps after a `+`, that a
machine word can hold. Digits are read from the left, and the first fault met is the one reported.
-/

namespace GoIface

inductive LengthFault where
  | empty
  | invalidDigit
  | tooLarge
deriving Repr, DecidableEq

def LengthFault.message : LengthFault → String
  | empty => "cannot parse integer from empty string"
  | invalidDigit => "invalid digit found in string"
  | tooLarge => "number too large to fit in target type"

/-- Lengths are words of 64 bits. -/
def lengthLimit : Nat := UInt64.size

def readDigits (n : Nat) : List Char → Except LengthFault Nat
  | [] => .ok n
  | c :: cs =>
    if !c.isDigit then .error .invalidDigit
    else
      let next := 10 * n + (c.toNat - '0'.toNat)
      if next < lengthLimit then readDigits next cs else .error .tooLarge

def readLength : List Char → Except LengthFault Nat
  | [] => .error .empty
  | ['+'] => .error .invalidDigit
  | '+' :: cs => readDigits 0 cs
  | cs => readDigits 0 cs

theorem readDigits_lt {n m : Nat} {cs : List Char} (hn : n < lengthLimit)
    (h : readDigits n cs = .ok m) : m < lengthLimit := by
  induction cs generalizing n with
  | nil => simp_all [readDigits]
  | cons c cs ih =>
    unfold readDigits at h
    split at h
    · simp at h
    · dsimp only at h
      split at h
      · exact ih ‹_› h
      · simp at h

end GoIface
