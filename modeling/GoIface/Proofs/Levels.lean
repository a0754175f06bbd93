import GoIface.Proofs.Entries

/-!
# What readers of types take

A reader that succeeds has taken some of the lexemes, and a reader of types never leaves a bracket
open or closes one that was open before. More than that, what a reader of types takes is what
looking ahead expects of a type (`Consumes.typeWithin`), so looking ahead can never go wrong about
a type that is then read.
-/

namespace GoIface

namespace Parse

variable {α β : Type}

/-- If the reader succeeds, `Q` holds of the tokens that it takes. -/
def Consumes (p : Parse α) (Q : List Token → Prop) (c : Cursor) : Prop :=
  ∀ x c', p c = .ok (x, c') → ∃ ls, c.rest = ls ++ c'.rest ∧ Q (ls.map Lexeme.token)

/-- From `n` open brackets to `m`. -/
abbrev Moves (p : Parse α) (n m : Nat) (c : Cursor) : Prop :=
  Consumes p (fun ts => openAfter n ts = some m) c

theorem ok_of_bind {μ : Type} {p : ParseOf μ α} {f : α → ParseOf μ β} {c c' : Cursor μ} {y : β}
    (h : (p >>= f) c = .ok (y, c')) : ∃ x c₁, p c = .ok (x, c₁) ∧ f x c₁ = .ok (y, c') := by
  have h : Except.bind (p c) (fun r => f r.1 r.2) = .ok (y, c') := h
  rcases hp : p c with e | ⟨x, c₁⟩
  · rw [hp] at h
    simp [Except.bind] at h
  · rw [hp] at h
    exact ⟨x, c₁, rfl, h⟩

namespace Consumes

variable {c : Cursor} {p : Parse α} {f : α → Parse β} {Q R S : List Token → Prop} {n m k : Nat}

theorem pure {x : α} (h : Q []) : Consumes (pure x) Q c := by
  rintro _ _ ⟨⟩
  exact ⟨[], rfl, h⟩

theorem bind (hp : Consumes p Q c) (hf : ∀ x c', p c = .ok (x, c') → Consumes (f x) R c')
    (h : ∀ ts us, Q ts → R us → S (ts ++ us)) : Consumes (p >>= f) S c := by
  intro y c₂ hok
  obtain ⟨x, c₁, hx, hy⟩ := ok_of_bind hok
  obtain ⟨ls, hls, hQ⟩ := hp x c₁ hx
  obtain ⟨ms, hms, hR⟩ := hf x c₁ hx y c₂ hy
  refine ⟨ls ++ ms, by rw [hls, hms, List.append_assoc], ?_⟩
  rw [List.map_append]
  exact h _ _ hQ hR

theorem mono (hp : Consumes p Q c) (h : ∀ ts, Q ts → R ts) : Consumes p R c := by
  intro x c' hx
  obtain ⟨ls, hls, hQ⟩ := hp x c' hx
  exact ⟨ls, hls, h _ hQ⟩

theorem error {e : Cursor → Located ParseFault} (h : ∀ c, p c = .error (e c)) :
    Consumes p Q c := by
  intro x c' hx
  simp [h] at hx

/-- One reader after the other, with the brackets counted through. -/
theorem seq (hp : Moves p n m c) (hf : ∀ x c', p c = .ok (x, c') → Moves (f x) m k c') :
    Moves (p >>= f) n k c :=
  hp.bind hf fun _ _ => openAfter_append

theorem map {g : α → β} (hp : Consumes p Q c) : Consumes (g <$> p) Q c :=
  hp.bind (R := (· = [])) (fun _ _ _ => .pure rfl) fun ts us hts hus => by
    rw [hus, List.append_nil]
    exact hts

theorem bump {t : Token} (hc : c.next? = some t) : Consumes bump (· = [t]) c := by
  intro x c' hx
  rcases hrest : c.rest with _ | ⟨l, ls⟩
  · simp [Cursor.next?, hrest] at hc
  · obtain rfl : l.token = t := by simpa [Cursor.next?, hrest] using hc
    simp only [Parse.bump, hrest] at hx
    cases hx
    exact ⟨[l], rfl, rfl⟩

theorem look {f : Cursor → Parse α} (h : Consumes (f c) Q c) : Consumes (get >>= f) Q c :=
  h

theorem expect (t : Token) : Consumes (expect t) (· = [t]) c := by
  refine look ?_
  split
  · next h => exact bump (eq_of_beq h)
  · exact error fun _ => rfl

/-- A reader that takes what the first does and makes something of it. -/
theorem finish {g : α → β} (hp : Consumes p Q c) : Consumes (p >>= fun x => Pure.pure (g x)) Q c :=
  hp.map

theorem ident : Consumes ident (fun ts => ∃ name, ts = [.ident name]) c := by
  refine look ?_
  split
  · next name h => exact (bump h).finish.mono fun ts hts => ⟨name, hts⟩
  · exact error fun _ => rfl

/-- A mark that may be there, and what is read with it or without. -/
theorem eat {mark : Mark} {f : Option Span → Parse β}
    (hsome : ∀ s c', Consumes (f (some s)) Q c') (hnone : Consumes (f none) R c)
    (hQ : ∀ ts, Q ts → S (.mark mark :: ts)) (hR : ∀ ts, R ts → S ts) :
    Consumes (eat mark >>= f) S c := by
  have heat : Parse.eat mark >>= f = get >>= fun c =>
      if c.isAt mark then Parse.bump >>= fun s => f (some s) else f none := by
    simp only [Parse.eat, bind_assoc]
    congr
    funext c
    split <;> simp
  rw [heat]
  refine look ?_
  split
  · next h =>
    refine (bump (Cursor.isAt_iff.1 h)).bind (fun s c' _ => hsome s c') ?_
    rintro _ us rfl hus
    exact hQ us hus
  · exact hnone.mono hR

/-- A token that is known, and what is read after it. -/
theorem bumped {t : Token} {f : Span → Parse β} (hc : c.next? = some t)
    (hf : ∀ s c', Consumes (f s) Q c') :
    Consumes (Parse.bump >>= f) (fun ts => ∃ us, ts = t :: us ∧ Q us) c :=
  (bump hc).bind (fun s c' _ => hf s c') fun ts us hts hus => ⟨us, by rw [hts]; rfl, hus⟩

/-- The same for a token that is expected. -/
theorem expected {t : Token} {f : Span → Parse β} (hf : ∀ s c', Consumes (f s) Q c') :
    Consumes (Parse.expect t >>= f) (fun ts => ∃ us, ts = t :: us ∧ Q us) c :=
  (expect t).bind (fun s c' _ => hf s c') fun ts us hts hus => ⟨us, by rw [hts]; rfl, hus⟩

theorem «at» (h : Consumes p Level c) (n : Nat) : Moves p n n c :=
  h.mono fun _ h => h.at n

theorem level_eat {mark : Mark} {f : Option Span → Parse β} (hmark : Level [.mark mark])
    (hf : ∀ s c', Consumes (f s) Level c') : Consumes (Parse.eat mark >>= f) Level c :=
  eat (fun s => hf (some s)) (hf none c) (fun _ => openAfter_append hmark) fun _ h => h

theorem moves_expect {t : Token} (ht : openAfter n [t] = some m) :
    Moves (Parse.expect t) n m c :=
  (expect t).mono fun _ hts => hts ▸ ht

theorem level_ident : Consumes Parse.ident Level c :=
  ident.mono fun _ ⟨_, hts⟩ => by rw [hts]; rfl

/-! ## Sequences -/

section Sequence

variable {item : Parse α} (hitem : ∀ c, Consumes item Level c)

include hitem

theorem moreItems {separator : Mark} (hseparator : Level [.mark separator]) :
    ∀ (n : Nat) (c : Cursor), Consumes (moreItems separator item n) Level c
  | 0, _ => pure rfl
  | n + 1, c => by
    refine level_eat hseparator fun s c => ?_
    cases s with
    | none => exact pure rfl
    | some s => exact (hitem c).seq fun _ c _ => (moreItems hseparator n c).finish

theorem separated {separator : Mark} (hseparator : Level [.mark separator]) (c : Cursor) :
    Consumes (separated separator item) Level c :=
  (hitem c).seq fun _ _ _ => look (moreItems hitem hseparator _ _).finish

theorem listedItems (stop : Cursor → Bool) :
    ∀ (n : Nat) (c : Cursor), Consumes (listedItems stop item n) Level c
  | 0, c => by
    refine look ?_
    split
    · exact pure rfl
    · exact (hitem c).finish
  | n + 1, c => by
    refine look ?_
    split
    · exact pure rfl
    · refine (hitem c).seq fun x c _ => level_eat rfl fun s c => ?_
      cases s with
      | none => exact pure rfl
      | some s => exact (listedItems stop n c).finish

theorem listed (stop : Cursor → Bool) (c : Cursor) : Consumes (listed stop item) Level c :=
  look (listedItems hitem stop _ c)

theorem blockItems (close : Mark) :
    ∀ (n : Nat) (c : Cursor), Consumes (blockItems close item n) Level c
  | 0, _ => pure rfl
  | n + 1, c => by
    have hsemi (c : Cursor) : Consumes (semiBefore close) Level c := by
      refine look (level_eat rfl fun s c => ?_)
      split
      · exact pure rfl
      · exact error fun _ => rfl
    refine look ?_
    split
    · exact pure rfl
    · exact (hitem c).seq fun _ c _ => (hsemi c).seq fun _ c _ => (blockItems close n c).finish

/-- A block takes the bracket that closes it. -/
theorem block {close : Mark} (hclose : openAfter 1 [.mark close] = some 0) (c : Cursor) :
    Moves (block close item) 1 0 c := by
  refine look ?_
  refine ((blockItems hitem close _ c).at 1).seq fun _ c _ => ?_
  exact (moves_expect hclose).finish

end Sequence

end Consumes

end Parse

/-- What is passed over closes the brackets that are open and no others. -/
theorem openAfter_of_passOver {stop : Token → Bool} {bs : List Bracket} {opener : Span}
    {ls before after : List Lexeme} (h : passOver stop bs opener ls = .ok (before, after)) :
    openAfter bs.length (before.map Lexeme.token) = some 0 := by
  have hmap {l : Lexeme} {before : List Lexeme} {n m : Nat}
      {r : Except (Located ParseFault) (List Lexeme × List Lexeme)}
      (ih : ∀ {b : List Lexeme}, r = .ok (b, after) → openAfter m (b.map Lexeme.token) = some 0)
      (hl : openAfter n [l.token] = some m)
      (h : r.map (fun p : List Lexeme × List Lexeme => p.map (l :: ·) id) = .ok (before, after)) :
      openAfter n (before.map Lexeme.token) = some 0 := by
    rcases r with e | ⟨b, a⟩
    · simp [Except.map] at h
    · simp only [Except.map, Prod.map, id, Except.ok.injEq, Prod.mk.injEq] at h
      obtain ⟨rfl, rfl⟩ := h
      exact openAfter_append hl (ih rfl)
  fun_induction passOver stop bs opener ls generalizing before with
  | case1 =>
    cases h
    rfl
  | case2 => simp at h
  | case3 =>
    cases h
    rfl
  | case4 => simp at h
  | case5 _ l ls hstop hclose ih =>
    have hclose : l.token.closes?.isSome = false := by simpa using hclose
    refine hmap ih ?_ h
    cases hopen : l.token.opens? with
    | none => simp [openAfter, hopen, hclose]
    | some b => simp [openAfter, hopen]
  | case6 b bs _ l ls inner hopen ih => exact hmap ih (by simp [openAfter, hopen]) h
  | case7 b bs _ l ls hopen hclose ih => exact hmap ih (by simp [openAfter, hopen, hclose]) h
  | case8 => simp at h
  | case9 b bs _ l ls hopen hclose ih => exact hmap ih (by simp [openAfter, hopen, hclose]) h

namespace Parse

namespace Consumes

variable {c : Cursor}

theorem through {wanted : Wanted} {stop : Token → Bool} :
    Consumes (through wanted stop) Level c := by
  have hpass : Consumes (pass stop c.here none) Level c := by
    intro passed c' hok
    unfold pass at hok
    split at hok
    · simp at hok
    · next hp =>
      cases hok
      exact ⟨_, (passOver_append hp).symm, openAfter_of_passOver hp⟩
  refine look (hpass.seq fun passed c _ => ?_)
  split
  · exact error fun _ => rfl
  · exact look (pure rfl)

/-! ## Readers of types -/

section Types

variable {type : Parse TypeNode} (htype : ∀ c, Consumes type Level c)

theorem stringLiteral? : Consumes stringLiteral? Level c := by
  refine look ?_
  split
  · next h => exact ((bump h).mono fun ts hts => by rw [hts]; rfl).finish
  · next h => exact ((bump h).mono fun ts hts => by rw [hts]; rfl).finish
  · exact pure rfl

include htype

theorem paramEntry : Consumes (paramEntry type) Level c := by
  have hrest (names : List Ident) (c₀ c : Cursor) :
      Consumes (do
        let ellipsis ← Parse.eat .ellipsis
        let type ← type
        return (⟨names, ellipsis, some type, ← spanFrom c₀.here⟩ : ParamEntry TypeNode)) Level c :=
    level_eat rfl fun _ c => (htype c).seq fun _ _ _ => look (pure rfl)
  refine look ?_
  split
  · exact level_ident.finish
  · split
    · exact level_ident.map.seq fun names c' _ => hrest names c c'
    · exact hrest [] c c

theorem params : Consumes (params type) Level c := by
  have hresolve (entries : List (ParamEntry TypeNode)) (c : Cursor) :
      Consumes (resolve entries) Level c := by
    intro fields c' hok
    unfold resolve at hok
    split at hok
    · cases hok
      exact ⟨[], rfl, rfl⟩
    · simp at hok
  have hopen : openAfter 0 [.mark .lparen] = some 1 := rfl
  refine (moves_expect hopen).seq fun _ c _ => ?_
  refine ((listed (fun c => paramEntry htype) _ c).at 1).seq fun entries c _ => ?_
  exact (moves_expect rfl).seq fun _ c _ => (hresolve entries c).finish

theorem results : Consumes (results type) Level c := by
  refine look ?_
  split
  · exact (params htype).map
  · split
    · exact (htype c).map
    · exact pure rfl

theorem signature : Consumes (signature type) Level c := by
  refine (params htype).seq fun ps c _ => (results htype).seq fun rs c _ => ?_
  rintro _ _ ⟨⟩
  exact ⟨[], rfl, rfl⟩

/-! The forms of a type, from their first token on. -/

/-- Type arguments after their bracket, with the one that closes it. -/
theorem argsToClose : Consumes (do
      let args ← Parse.listed (·.isAt .rbrack) type
      let rbrack ← Parse.expect (.mark .rbrack)
      if args.isEmpty then fail .noTypeArguments rbrack else return args)
    (fun ts => ∃ inner, ts = inner ++ [Token.mark .rbrack] ∧ Level inner) c := by
  refine (listed htype _ c).bind (fun args c _ => ?_) (R := (· = [.mark .rbrack])) ?_
  · refine (expect (.mark .rbrack)).bind (R := (· = [])) (fun _ c _ => ?_) ?_
    · split
      · exact error fun _ => rfl
      · exact pure rfl
    · rintro _ _ rfl rfl
      rfl
  · rintro inner _ hinner rfl
    exact ⟨inner, rfl, hinner⟩

theorem typeArgs : Consumes (typeArgs type)
    (fun ts => ts = [] ∨
      ∃ inner, ts = .mark .lbrack :: (inner ++ [Token.mark .rbrack]) ∧ Level inner) c := by
  refine eat (R := (· = [])) (fun s c => argsToClose htype) (pure rfl) ?_ fun _ h => .inl h
  rintro _ ⟨inner, rfl, hinner⟩
  exact .inr ⟨inner, rfl, hinner⟩

/-- What comes after the identifier that a type starts with. -/
def AfterName (us : List Token) : Prop :=
  us = [] ∨ us.head? = some (.mark .dot) ∨
    ∃ inner, us = .mark .lbrack :: (inner ++ [Token.mark .rbrack]) ∧ Level inner

theorem typeName : Consumes (typeName type)
    (fun ts => ∃ n us, ts = .ident n :: us ∧ AfterName us ∧ Level us) c := by
  have hargs (c : Cursor) :
      Consumes (Parse.typeArgs type) (fun us => AfterName us ∧ Level us) c := by
    refine (typeArgs htype).mono ?_
    rintro _ (rfl | ⟨inner, rfl, hinner⟩)
    · exact ⟨.inl rfl, rfl⟩
    · exact ⟨.inr (.inr ⟨inner, rfl, hinner⟩), .enclosed rfl rfl hinner⟩
  refine ident.bind (fun x c _ => ?_) (R := fun us => AfterName us ∧ Level us) ?_
  · refine eat (Q := Level) (fun s c => ?_) (hargs c).finish (fun ts hts => ?_) fun _ h => h
    · exact level_ident.seq fun _ c _ => ((hargs c).mono fun _ h => h.2).finish
    · have hdot : Level [.mark .dot] := rfl
      exact ⟨.inr (.inl rfl), openAfter_append hdot hts⟩
  · rintro _ us ⟨n, rfl⟩ h
    exact ⟨n, us, rfl, h⟩

end Types

/-- Braces after a keyword. -/
theorem braces {t : Token} {item : Parse α} {f : Span → List α → β}
    (hitem : ∀ c, Consumes item Level c) (hc : c.next? = some t) :
    Consumes (do
      let keyword ← Parse.bump
      let _ ← Parse.expect (.mark .lbrace)
      return f keyword (← Parse.block .rbrace item).1)
      (fun ts => ∃ us, ts = t :: us ∧ Level us) c := by
  refine bumped hc fun s c => ?_
  have hopen : openAfter 0 [.mark .lbrace] = some 1 := rfl
  exact (moves_expect hopen).seq fun _ c _ => (block hitem rfl c).finish

/-- What a type is to a reader that looks ahead and to one that passes by. -/
def IsType (ts : List Token) : Prop := LooksLikeType ts ∧ Level ts

theorem IsType.of_head {t : Token} {us : List Token} (ht : t.startsType = true)
    (hident : ∀ n, t ≠ .ident n) (hbrack : t ≠ .mark .lbrack) (h : Level (t :: us)) :
    IsType (t :: us) := by
  refine ⟨⟨⟨t, us, rfl, ht⟩, fun vs hvs => ?_, fun n vs hvs => ?_⟩, h⟩
  · exact absurd (List.cons_eq_cons.1 hvs).1 hbrack
  · exact absurd (List.cons_eq_cons.1 hvs).1 (hident n)

theorem IsType.of_name {n : String} {us : List Token} (hus : AfterName us) (h : Level us) :
    IsType (.ident n :: us) := by
  have hname : Level [.ident n] := rfl
  refine ⟨⟨⟨_, _, rfl, rfl⟩, by simp, fun m vs hvs => ?_⟩, openAfter_append hname h⟩
  obtain ⟨-, rfl⟩ := List.cons_eq_cons.1 hvs
  exact hus

theorem IsType.of_bracket {inner us : List Token} (hinner : Level inner) (h : IsType us) :
    IsType (.mark .lbrack :: (inner ++ .mark .rbrack :: us)) := by
  obtain ⟨⟨⟨u, vs, rfl, hu⟩, -, -⟩, hlevel⟩ := h
  refine ⟨⟨⟨_, _, rfl, rfl⟩, fun ws hws => ?_, by simp⟩, ?_⟩
  · exact ⟨inner, u, vs, (List.cons_eq_cons.1 hws).2.symm, hinner, hu⟩
  · have hclosed : Level (.mark .lbrack :: (inner ++ [Token.mark .rbrack])) :=
      .enclosed rfl rfl hinner
    have hall := openAfter_append hclosed hlevel
    rwa [List.cons_append, List.append_assoc] at hall

section Forms

variable {type : Parse TypeNode} (htype : ∀ c, Consumes type IsType c)

include htype

theorem level (c : Cursor) : Consumes type Level c :=
  (htype c).mono fun _ h => h.2

theorem arrayOrSlice (hc : c.next? = some (.mark .lbrack)) :
    Consumes (arrayOrSlice type) (fun ts => ∃ inner us,
      ts = .mark .lbrack :: (inner ++ .mark .rbrack :: us) ∧ Level inner ∧ IsType us) c := by
  refine (bumped hc (Q := fun ts => ∃ inner us, ts = inner ++ .mark .rbrack :: us ∧
    Level inner ∧ IsType us) fun s c => ?_).mono ?_
  · refine eat (Q := IsType) (fun s c => (htype c).finish) ?_
      (fun us hus => ⟨[], us, rfl, rfl, hus⟩) fun _ h => h
    refine look ?_
    split
    · exact error fun _ => rfl
    · refine through.bind (fun length c _ => expected fun _ c => (htype c).finish) ?_
      rintro inner _ hinner ⟨us, rfl, hus⟩
      exact ⟨inner, us, rfl, hinner, hus⟩
  · rintro _ ⟨_, rfl, inner, us, rfl, h⟩
    exact ⟨inner, us, rfl, h⟩

theorem element (c : Cursor) : Consumes (element type) Level c := by
  have hterm (c : Cursor) : Consumes (term type) Level c :=
    level_eat rfl fun _ c => (level htype c).finish
  refine look ?_
  split
  · exact level_ident.seq fun _ c _ => (signature (level htype)).finish
  · have hpipe : Level [.mark .pipe] := rfl
    exact (separated hterm hpipe _).map

theorem structField (c : Cursor) : Consumes (structField type) Level c := by
  have hrest (names : List Ident) (embedded : Bool) (c₀ c : Cursor) :
      Consumes (do
        let type ← type
        let tag ← Parse.stringLiteral?
        makeField c₀.here names type tag embedded) Level c := by
    refine (level htype c).seq fun t c _ => stringLiteral?.seq fun tag c _ => ?_
    rintro _ _ ⟨⟩
    exact ⟨[], rfl, rfl⟩
  refine look ?_
  split
  · exact error fun _ => rfl
  · next embedded _ =>
    split
    · exact hrest [] embedded c c
    · have hcomma : Level [.mark .comma] := rfl
      refine (separated (fun _ => level_ident) hcomma _).seq fun names c' _ => ?_
      exact hrest names embedded c c'

theorem typeForm : Consumes (typeForm type) IsType c := by
  -- after a token that is neither an identifier nor a square bracket
  have hhead {t : Token} {p : Parse (TypeForm TypeNode)} (ht : t.startsType = true)
      (hident : ∀ n, t ≠ .ident n) (hbrack : t ≠ .mark .lbrack) {n : Nat}
      (hn : openAfter 0 [t] = some n)
      (hp : Consumes p (fun ts => ∃ us, ts = t :: us ∧ openAfter n us = some 0) c) :
      Consumes p IsType c := by
    refine hp.mono ?_
    rintro _ ⟨us, rfl, hus⟩
    exact .of_head ht hident hbrack (openAfter_append hn hus)
  refine look ?_
  split
  · refine (typeName (level htype)).mono ?_
    rintro _ ⟨n, us, rfl, hname, hus⟩
    exact .of_name hname hus
  · next h =>
    exact hhead rfl (by simp) (by simp) rfl (bumped h fun s c => (level htype c).finish)
  · next h =>
    refine (arrayOrSlice htype h).mono ?_
    rintro _ ⟨inner, us, rfl, hinner, hus⟩
    exact .of_bracket hinner hus
  · next h =>
    refine hhead rfl (by simp) (by simp) rfl (bumped h fun s c => ?_)
    have hopen : openAfter 0 [.mark .lbrack] = some 1 := rfl
    refine (moves_expect hopen).seq fun _ c _ => ((level htype c).at 1).seq fun _ c _ => ?_
    exact (moves_expect rfl).seq fun _ c _ => (level htype c).finish
  · next h =>
    refine hhead rfl (by simp) (by simp) rfl (bumped h fun s c => ?_)
    exact level_eat rfl fun _ c => (level htype c).finish
  · next h =>
    refine hhead rfl (by simp) (by simp) rfl (bumped h fun s c => ?_)
    have hchan : Level [.keyword .chanKw] := rfl
    exact (moves_expect hchan).seq fun _ c _ => (level htype c).finish
  · next h =>
    exact hhead rfl (by simp) (by simp) rfl
      (bumped h fun s c => (signature (level htype)).finish)
  · next h =>
    have helements := braces (f := TypeForm.interface) (element htype) h
    exact hhead rfl (by simp) (by simp) rfl helements
  · next h =>
    have hfields := braces (f := TypeForm.struct) (structField htype) h
    exact hhead rfl (by simp) (by simp) rfl hfields
  · next h =>
    refine hhead rfl (by simp) (by simp) rfl (bumped h fun s c => ?_)
    exact ((level htype c).at 1).seq fun _ c _ => (moves_expect rfl).finish
  · exact error fun _ => rfl

end Forms

/-- Whatever is read as a type is one to a reader that looks ahead. -/
theorem typeWithin : ∀ (room : Nat) (c : Cursor), Consumes (typeWithin room) IsType c
  | 0, _ => error fun _ => rfl
  | room + 1, c => by
    refine look ((typeForm (typeWithin room)).bind (R := (· = [])) (fun form c _ => ?_) ?_)
    · rintro _ _ ⟨⟩
      exact ⟨[], rfl, rfl⟩
    · rintro ts _ hts rfl
      rwa [List.append_nil]

end Consumes

end Parse

end GoIface
