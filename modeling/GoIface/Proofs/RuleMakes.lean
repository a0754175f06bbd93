import GoIface.Proofs.Clipping
import GoIface.Proofs.Patterns

/-!
# What rules make of their matches

Scanning makes the same of the text a rule matches as the rule says (`Rule.makes_iff`). A comment
is found up to the first text that closes it, a raw string up to the first quote, and items of a
quoted literal are found one after the other, as many as there are (`Delimited.items_longest`).
-/

namespace GoIface

open GoIface.Text GoIface.Pattern Computability

/-! ## Items of quoted literals -/

theorem Pattern.append_mem_kstar {l : Language Char} {v w : List Char} (hv : v ∈ l) (hw : w ∈ l∗) :
    v ++ w ∈ l∗ := by
  obtain ⟨ws, rfl, hws⟩ := hw
  exact ⟨v :: ws, rfl, List.forall_mem_cons.2 ⟨hv, hws⟩⟩

theorem Pattern.mem_item {quote : Char} {w : List Char} : w ∈ item quote ↔
    (∃ c, w = [c] ∧ (c == quote || c == '\\' || Delimited.isLineBreak c) = false) ∨
      ∃ c, w = ['\\', c] ∧ c ≠ '\n' := by
  simp only [item, Language.mem_add, Language.mem_mul, mem_oneOf, mem_one, Bool.not_eq_true',
    List.mem_singleton]
  refine or_congr ⟨?_, ?_⟩ ⟨?_, ?_⟩
  · rintro ⟨c, hc, rfl⟩
    exact ⟨c, rfl, hc⟩
  · rintro ⟨c, rfl, hc⟩
    exact ⟨c, hc, rfl⟩
  · rintro ⟨_, ⟨_, rfl, rfl⟩, _, ⟨c, hc, rfl⟩, rfl⟩
    exact ⟨c, rfl, by simpa using hc⟩
  · rintro ⟨c, rfl, hc⟩
    exact ⟨_, ⟨_, rfl, rfl⟩, _, ⟨c, by simpa using hc, rfl⟩, rfl⟩

namespace Delimited

variable {quote : Char} {cs v : List Char}

theorem items_mem (quote : Char) (cs : List Char) : (items quote cs).text ∈ (item quote)∗ := by
  fun_induction items quote cs with
  | case1 => exact Language.nil_mem_kstar _
  | case2 c cs hc ih =>
    have hc : c ≠ '\n' := by simpa using hc
    exact append_mem_kstar (mem_item.2 (.inr ⟨c, rfl, hc⟩)) ih
  | case3 => exact Language.nil_mem_kstar _
  | case4 c cs hne hgo ih =>
    exact append_mem_kstar (mem_item.2 (.inl ⟨c, rfl, Bool.eq_false_iff.2 hgo⟩)) ih
  | case5 => exact Language.nil_mem_kstar _

/-- Items are found one after the other. -/
theorem items_append (hv : v ∈ (item quote)∗) (rest : List Char) :
    items quote (v ++ rest) = (items quote rest).after v := by
  obtain ⟨ws, rfl, hws⟩ := hv
  induction ws with
  | nil => rfl
  | cons w ws ih =>
    obtain ⟨hw, hrest⟩ := List.forall_mem_cons.1 hws
    rcases mem_item.1 hw with ⟨c, rfl, hc⟩ | ⟨c, rfl, hc⟩
    · have hne : c ≠ '\\' := by
        rintro rfl
        simp at hc
      have hgo : ¬ (c == quote || isLineBreak c) = true := by simp_all
      rw [List.flatten_cons, List.append_assoc, List.singleton_append, items_cons hne, if_neg hgo,
        ih hrest]
      rfl
    · rw [List.flatten_cons, List.append_assoc]
      show items quote ('\\' :: c :: (ws.flatten ++ rest)) = _
      rw [items_escape hc, ih hrest]
      rfl

theorem items_longest (hv : v ∈ (item quote)∗) (hpre : v <+: cs) :
    v.length ≤ (items quote cs).text.length := by
  obtain ⟨rest, rfl⟩ := hpre
  rw [items_append hv]
  simp [Cut.after]

theorem items_closed (hquote : quote ≠ '\\') (hv : v ∈ (item quote)∗) (rest : List Char) :
    items quote (v ++ quote :: rest) = ⟨v, quote :: rest⟩ := by
  rw [items_append hv, items_cons hquote, if_pos (by simp), Cut.after, List.append_nil]

/-! ## Comments -/

theorem throughCommentEnd_closed {body : List Char} (hbody : ¬ ['*', '/'] <:+: body ++ ['*'])
    (rest : List Char) :
    throughCommentEnd (body ++ '*' :: '/' :: rest) = some ⟨body ++ ['*', '/'], rest⟩ := by
  induction body with
  | nil => rfl
  | cons c body ih =>
    rw [List.cons_append, List.infix_cons_iff, not_or] at hbody
    have hopen : ¬ (c = '*' ∧ (body ++ '*' :: '/' :: rest).head? = some '/') := by
      rintro ⟨rfl, hhead⟩
      rcases body with _ | ⟨d, body⟩
      · simp at hhead
      · obtain rfl : d = '/' := Option.some.inj hhead
        exact hbody.1 ⟨body ++ ['*'], rfl⟩
    rw [List.cons_append, throughCommentEnd_cons hopen, ih hbody.2]
    rfl

theorem throughCommentEnd_eq_none_iff : throughCommentEnd cs = none ↔ ¬ ['*', '/'] <:+: cs := by
  fun_induction throughCommentEnd cs with
  | case1 cs => simp [List.infix_cons_iff]
  | case2 c cs hne ih =>
    rw [Option.map_eq_none_iff, ih, List.infix_cons_iff, not_or, iff_and_self]
    rintro - ⟨rest, hrest⟩
    obtain ⟨rfl, rfl⟩ : '*' = c ∧ '/' :: rest = cs := by simpa using hrest
    exact hne _ rfl rfl
  | case3 => simp

end Delimited

/-! ## Numbers -/

namespace Numeral

theorem hasPair_iff {c : Char} {cs : List Char} : hasPair c cs = true ↔ [c, c] <:+: cs := by
  fun_induction hasPair c cs with
  | case1 a b cs ih =>
    rw [Bool.or_eq_true]
    refine (or_congr ?_ ih).trans List.infix_cons_iff.symm
    rw [Bool.and_eq_true, beq_iff_eq, beq_iff_eq, List.cons_prefix_cons, List.cons_prefix_cons]
    exact ⟨fun ⟨ha, hb⟩ => ⟨ha.symm, hb.symm, List.nil_prefix⟩,
      fun ⟨ha, hb, _⟩ => ⟨ha.symm, hb.symm⟩⟩
  | case2 cs hne =>
    refine iff_of_false Bool.false_ne_true fun h => ?_
    obtain ⟨before, after, rfl⟩ := h
    rcases before with _ | ⟨a, _ | ⟨b, before⟩⟩
    · exact hne _ _ _ rfl
    · exact hne _ _ _ rfl
    · exact hne _ _ _ rfl

theorem misplacesBar_iff {cs : List Char} : misplacesBar cs = true ↔ Rule.MisplacesBar cs := by
  rw [misplacesBar, Bool.or_eq_true, hasPair_iff, beq_iff_eq, List.getLast?_eq_some_iff]
  exact or_congr_left (exists_congr fun ds => eq_comm)

end Numeral

/-! ## What rules make -/

namespace Rule

/-- What a number becomes when its underscores and the letter after it are looked at. -/
def makeNumber (kind : LiteralKind) (text after : List Char) : PieceKind × Cut :=
  if Numeral.misplacesBar text then (.token (.faulty .invalidNumber), ⟨text, after⟩)
  else if after.head? = some 'i' then
    (.token (.literal .imaginary (String.ofList (text ++ ['i']))), ⟨text ++ ['i'], after.tail⟩)
  else (.token (.literal kind (String.ofList text)), ⟨text, after⟩)

/-- The piece that is scanned where a rule wins with `text` before `after`. -/
def make (text after : List Char) : Rule → PieceKind × Cut
  | lineComment => (.lineComment, (Cut.run (!Delimited.isLineBreak ·) after).after text)
  | blockComment =>
    match Delimited.throughCommentEnd after with
    | some k => (.blockComment, k.after text)
    | none => (.token (.faulty .unterminatedComment), ⟨text ++ after, []⟩)
  | rawString =>
    let body := Cut.run (· != '\x60') after
    match body.rest with
    | c :: rest => (.token (.literal .rawString (String.ofList (text ++ (body.text ++ [c])))),
        ⟨text ++ (body.text ++ [c]), rest⟩)
    | [] => (.token (.faulty .unterminatedRawString), ⟨text ++ body.text, []⟩)
  | int => makeNumber .int text after
  | float => makeNumber .float text after
  | blank => (.blank, ⟨text, after⟩)
  | byteOrderMark => (.byteOrderMark, ⟨text, after⟩)
  | newline => (.newline, ⟨text, after⟩)
  | keyword k => (.token (.keyword k), ⟨text, after⟩)
  | ident => (.token (.ident (String.ofList text)), ⟨text, after⟩)
  | string => (.token (.literal .string (String.ofList text)), ⟨text, after⟩)
  | rune => (.token (.literal .rune (String.ofList text)), ⟨text, after⟩)
  | mark m => (.token (.mark m), ⟨text, after⟩)

variable {r : Rule} {text after : List Char}

theorem make_of_plain {kind : PieceKind} (h : r.plainKind? text = some kind) :
    r.make text after = (kind, ⟨text, after⟩) := by
  cases r <;> cases h <;> rfl

theorem make_of_number {kind : LiteralKind} (h : r.numberKind? = some kind) :
    r.make text after = makeNumber kind text after := by
  cases r <;> cases h <;> rfl

theorem Makes.make_eq {kind : PieceKind} {k : Cut} (h : Makes text after r kind k) :
    r.make text after = (kind, k) := by
  have hbar (h : ¬ MisplacesBar text) : ¬ Numeral.misplacesBar text = true :=
    fun hbar => h (Numeral.misplacesBar_iff.1 hbar)
  cases h with
  | plain h => exact make_of_plain h
  | @lineComment body rest hafter hbody hrest =>
    have hbody : ∀ c ∈ body, (!Delimited.isLineBreak c) = true := by simpa using hbody
    have hstop : noneAhead (!Delimited.isLineBreak ·) rest.head? := by
      rcases rest with _ | ⟨c, rest⟩
      · rfl
      · simpa [noneAhead] using hrest
    rw [make, hafter, Cut.run_append hbody hstop]
    rfl
  | blockComment hafter hbody =>
    rw [make, hafter, Delimited.throughCommentEnd_closed hbody]
    rfl
  | openComment hafter => rw [make, Delimited.throughCommentEnd_eq_none_iff.2 hafter]
  | @rawString body rest hafter hbody =>
    have hbody : ∀ c ∈ body, (c != '\x60') = true := by
      intro c hc
      simpa using fun h : c = '\x60' => hbody (h ▸ hc)
    have hrun : Cut.run (· != '\x60') after = ⟨body, '\x60' :: rest⟩ := by
      rw [hafter]
      exact Cut.run_append hbody rfl
    simp only [make, hrun]
  | openRawString hafter =>
    have hrun : Cut.run (· != '\x60') after = ⟨after, []⟩ := by
      have hall : ∀ c ∈ after, (c != '\x60') = true := by
        intro c hc
        simpa using fun h : c = '\x60' => hafter (h ▸ hc)
      simpa using Cut.run_append hall (rfl : noneAhead _ [].head?)
    simp only [make, hrun]
  | badNumber h hbad => rw [make_of_number h, makeNumber, if_pos (Numeral.misplacesBar_iff.2 hbad)]
  | imaginary h hgood hafter =>
    rw [make_of_number h, makeNumber, if_neg (hbar hgood), hafter, List.head?_cons,
      if_pos rfl]
    rfl
  | number h hgood hafter => rw [make_of_number h, makeNumber, if_neg (hbar hgood), if_neg hafter]

theorem makes_makeNumber {kind : LiteralKind} (h : r.numberKind? = some kind) :
    Makes text after r (makeNumber kind text after).1 (makeNumber kind text after).2 := by
  unfold makeNumber
  split
  · next hbar => exact .badNumber h (Numeral.misplacesBar_iff.1 hbar)
  · next hbar =>
    have hbar : ¬ MisplacesBar text := fun hbad => hbar (Numeral.misplacesBar_iff.2 hbad)
    split
    · next hi =>
      obtain ⟨rest, rfl⟩ := List.head?_eq_some_iff.1 hi
      exact .imaginary h hbar rfl
    · next hi => exact .number h hbar hi

/-- What is scanned is what the rule makes. -/
theorem makes_make (r : Rule) (text after : List Char) :
    Makes text after r (r.make text after).1 (r.make text after).2 := by
  cases r with
  | lineComment =>
    have hwhole := Cut.whole_run (!Delimited.isLineBreak ·) after
    refine .lineComment hwhole.symm (fun c hc => ?_) fun c hc => ?_
    · simpa using Cut.of_mem_run hc
    · simpa using Cut.run_stops hc
  | blockComment =>
    rw [make]
    split
    · next k hk =>
      obtain ⟨body, hbody, hinside⟩ := Piece.text_of_throughCommentEnd hk
      have hwhole := Delimited.whole_of_throughCommentEnd hk
      rw [Cut.whole, hbody] at hwhole
      rw [Cut.after, hbody]
      exact .blockComment (by simp [← hwhole]) hinside
    · next hk => exact .openComment (Delimited.throughCommentEnd_eq_none_iff.1 hk)
  | rawString =>
    have hwhole := Cut.whole_run (· != '\x60') after
    have hbody : '\x60' ∉ (Cut.run (· != '\x60') after).text := by
      intro h
      simpa using Cut.of_mem_run h
    simp only [make]
    split
    · next c rest hrest =>
      have hhead : c ∈ (Cut.run (· != '\x60') after).rest.head? := by simp [hrest]
      have hc : (c != '\x60') = false := Cut.run_stops (p := (· != '\x60')) hhead
      obtain rfl : c = '\x60' := by simpa using hc
      exact .rawString (by rw [← hrest]; exact hwhole.symm) hbody
    · next hrest =>
      rw [Cut.whole, hrest, List.append_nil] at hwhole
      rw [hwhole] at hbody ⊢
      exact .openRawString hbody
  | int => exact makes_makeNumber rfl
  | float => exact makes_makeNumber rfl
  | _ => exact .plain rfl

theorem makes_iff {kind : PieceKind} {k : Cut} :
    Makes text after r kind k ↔ r.make text after = (kind, k) := by
  refine ⟨Makes.make_eq, fun h => ?_⟩
  have hmakes := makes_make r text after
  rwa [h] at hmakes

end Rule

end GoIface
