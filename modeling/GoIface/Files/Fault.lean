/-!
# Faults of files

Why a file or directory could not be read or written, in the words of the system.
-/

namespace GoIface

inductive FileFault where
  | missing
  | notDirectory
  | isDirectory
  | alreadyExists
  | nameTooLong
  | nulInName
  /-- The content is not UTF-8. -/
  | notText
  /-- Any other fault, with its number and text. -/
  | other (code : Nat) (text : String)
deriving Repr, DecidableEq

/-- The fault that the system gives a number and a text. -/
def FileFault.ofCode (code : Nat) (text : String) : FileFault :=
  match code with
  | 2 => .missing
  | 17 => .alreadyExists
  | 20 => .notDirectory
  | 21 => .isDirectory
  | 36 => .nameTooLong
  | code => .other code text

def systemText (text : String) (code : Nat) : String :=
  text ++ " (os error " ++ toString code ++ ")"

def FileFault.message : FileFault → String
  | missing => systemText "No such file or directory" 2
  | notDirectory => systemText "Not a directory" 20
  | isDirectory => systemText "Is a directory" 21
  | alreadyExists => systemText "File exists" 17
  | nameTooLong => systemText "File name too long" 36
  | nulInName => "file name contained an unexpected NUL byte"
  | notText => "stream did not contain valid UTF-8"
  | other code text => systemText text code

end GoIface
