/-!
# Text cut in two

A scanner cuts a text into what it takes and what it leaves. `whole` puts the two together again,
and the lemmas here say that no way of cutting loses or moves a character.
-/

namespace GoIface.Text

structure Cut where
  text : List Char
  rest : List Char
deriving Repr, DecidableEq

namespace Cut

def whole (k : Cut) : List Char := k.text ++ k.rest

/-- The cut is one of `cs` and takes something of it. -/
def Cuts (k : Cut) (cs : List Char) : Prop := k.whole = cs ∧ k.text ≠ []

/-- Takes the longest run of characters of which `p` holds. -/
def run (p : Char → Bool) (cs : List Char) : Cut := ⟨cs.takeWhile p, cs.dropWhile p⟩

/-- The cut of the longer text that starts with `before`, which is taken too. -/
def after (before : List Char) (k : Cut) : Cut := ⟨before ++ k.text, k.rest⟩

/-- Goes on with `scan` from where the cut is, or stays if `scan` takes nothing. -/
def extend (k : Cut) (scan : List Char → Option Cut) : Cut :=
  ((scan k.rest).map (·.after k.text)).getD k

@[simp] theorem whole_run (p : Char → Bool) (cs : List Char) : (run p cs).whole = cs := by
  simp [run, whole]

@[simp] theorem whole_after (before : List Char) (k : Cut) :
    (k.after before).whole = before ++ k.whole := by
  simp [after, whole]

theorem whole_extend (k : Cut) (scan : List Char → Option Cut)
    (h : ∀ cs k, scan cs = some k → k.whole = cs) : (k.extend scan).whole = k.whole := by
  unfold extend
  rcases hk : scan k.rest with _ | e
  · rfl
  · show (after k.text e).whole = _
    rw [whole_after, h _ _ hk, whole]

theorem Cuts.length_rest {k : Cut} {c : Char} {cs : List Char} (h : k.Cuts (c :: cs)) :
    k.rest.length ≤ cs.length := by
  have hw := congrArg List.length h.1
  have hn := List.length_pos_iff.2 h.2
  simp only [whole, List.length_append, List.length_cons] at hw
  omega

theorem extend_text_ne_nil {k : Cut} (h : k.text ≠ []) (scan : List Char → Option Cut) :
    (k.extend scan).text ≠ [] := by
  unfold extend
  rcases scan k.rest with _ | e
  · exact h
  · simp [after, h]

end Cut

end GoIface.Text
