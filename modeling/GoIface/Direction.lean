/-!
# Directions of channels
-/

namespace GoIface

inductive Direction where
  | both | send | receive
deriving Repr, DecidableEq

def Direction.keyword : Direction → String
  | both => "chan"
  | send => "chan<-"
  | receive => "<-chan"

end GoIface
