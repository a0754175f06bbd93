import GoIface.Files.FileSystem

/-!
# Reading from a file system

A `Reading` asks a file system one question after another and ends in a value. It changes nothing,
so on a given file system it is the value it ends in (`on_bind`), and a program may put the same
questions to the machine it runs on.
-/

namespace GoIface

inductive Query where
  | list (dir : String)
  | read (file : String)
  | isDir (path : String)
deriving Repr, DecidableEq

def Query.Answer : Query → Type
  | list _ => Except FileFault (List String)
  | read _ => Except FileFault ByteArray
  | isDir _ => Bool

inductive Reading (α : Type) where
  | done (value : α)
  | ask (query : Query) (next : query.Answer → Reading α)

namespace Reading

variable {α β : Type}

def bind : Reading α → (α → Reading β) → Reading β
  | done a, f => f a
  | ask q next, f => ask q fun answer => (next answer).bind f

instance : Monad Reading where
  pure := done
  bind := bind

def query (q : Query) : Reading q.Answer := ask q done

def list (dir : String) : Reading (Except FileFault (List String)) := query (.list dir)

def isDir (path : String) : Reading Bool := query (.isDir path)

/-- The content of a file that holds text. -/
def readText (file : String) : Reading (Except FileFault String) := do
  match ← (query (.read file) : Reading (Except FileFault ByteArray)) with
  | .error fault => return .error fault
  | .ok content =>
    match String.fromUTF8? content with
    | some text => return .ok text
    | none => return .error .notText

end Reading

def FileSystem.answer (fs : FileSystem) : (q : Query) → q.Answer
  | .list dir => fs.list dir
  | .read file => fs.read file
  | .isDir path => fs.isDir path

namespace Reading

variable {α β : Type}

/-- What a reading ends in on a file system. -/
def on (fs : FileSystem) : Reading α → α
  | done a => a
  | ask q next => (next (fs.answer q)).on fs

@[simp] theorem on_pure (fs : FileSystem) (a : α) : (pure a : Reading α).on fs = a := rfl

@[simp] theorem on_bind (fs : FileSystem) (r : Reading α) (f : α → Reading β) :
    (r >>= f).on fs = (f (r.on fs)).on fs := by
  show (r.bind f).on fs = _
  induction r with
  | done => rfl
  | ask q next ih => exact ih _

@[simp] theorem on_list (fs : FileSystem) (dir : String) : (list dir).on fs = fs.list dir := rfl

@[simp] theorem on_isDir (fs : FileSystem) (path : String) :
    (isDir path).on fs = fs.isDir path := rfl

@[simp] theorem on_findSomeM? (fs : FileSystem) (f : α → Reading (Option β)) :
    ∀ as : List α, (as.findSomeM? f).on fs = as.findSome? fun a => (f a).on fs
  | [] => rfl
  | a :: as => by
    rw [List.findSomeM?, on_bind, List.findSome?_cons]
    rcases (f a).on fs with _ | b
    · exact on_findSomeM? fs f as
    · rfl

@[simp] theorem on_filterMapM (fs : FileSystem) (f : α → Reading (Option β)) (as : List α) :
    (as.filterMapM f).on fs = as.filterMap fun a => (f a).on fs := by
  suffices ∀ bs, (List.filterMapM.loop f as bs).on fs
      = bs.reverse ++ as.filterMap fun a => (f a).on fs from this []
  induction as with
  | nil => simp [List.filterMapM.loop]
  | cons a as ih =>
    intro bs
    rw [List.filterMapM.loop, on_bind, List.filterMap_cons]
    rcases (f a).on fs with _ | b
    · exact ih bs
    · rw [ih (b :: bs), List.reverse_cons, List.append_assoc]
      rfl

end Reading

end GoIface
