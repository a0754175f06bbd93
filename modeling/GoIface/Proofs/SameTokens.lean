import GoIface.Proofs.ImportPaths
import GoIface.Proofs.Lines
import GoIface.Proofs.PlacedModels
import GoIface.Proofs.PlacedTrees

/-!
# Texts with the same tokens

What is read of a text, and what its interfaces are, does not depend on how it is laid out
(`same_tokens_same_model`). The tokens alone, numbered in a row, are lexemes of their own
(`LexedText.numbered`), and the lexemes of every text with these tokens are the same ones at other
places. So the trees of two such texts are one tree at two places. Their models are equal because
the only texts that the model takes from the source are then those of single tokens.
-/

namespace GoIface

/-- The token, and whether it is a semicolon that was inserted. -/
def Lexeme.sign (l : Lexeme) : Token × Bool := (l.token, l.isInserted)

/-- Lexemes with these signs, numbered from `n` on. -/
def numberedFrom (n : Nat) : List (Token × Bool) → List Lexeme
  | [] => []
  | (t, inserted) :: ss => ⟨t, n, if inserted then n else n + 1⟩ :: numberedFrom (n + 2) ss

/-- Where lexemes start and stop. -/
def bounds (ls : List Lexeme) : List Nat := ls.flatMap fun l => [l.span.start, l.span.stop]

theorem monotone_getD {xs : List Nat} {e : Nat} (hxs : xs.Pairwise (· ≤ ·))
    (he : ∀ x ∈ xs, x ≤ e) : Monotone fun n => xs.getD n e := by
  intro i j hij
  simp only [List.getD_eq_getElem?_getD]
  rcases Nat.lt_or_ge j xs.length with hj | hj
  · rw [List.getElem?_eq_getElem hj, List.getElem?_eq_getElem (Nat.lt_of_le_of_lt hij hj)]
    rcases Nat.lt_or_eq_of_le hij with hlt | rfl
    · exact List.pairwise_iff_getElem.1 hxs i j _ hj hlt
    · exact Nat.le_refl _
  · rw [List.getElem?_eq_none hj]
    rcases Nat.lt_or_ge i xs.length with hi | hi
    · rw [List.getElem?_eq_getElem hi]
      exact he _ (List.getElem_mem hi)
    · rw [List.getElem?_eq_none hi]

theorem pairwise_bounds {ls : List Lexeme}
    (hls : ls.Pairwise fun l m => l.span.stop ≤ m.span.start)
    (hle : ∀ l ∈ ls, l.span.start ≤ l.span.stop) : (bounds ls).Pairwise (· ≤ ·) := by
  induction ls with
  | nil => exact .nil
  | cons l ls ih =>
    obtain ⟨hl, hls⟩ := List.pairwise_cons.1 hls
    obtain ⟨hlle, hle⟩ := List.forall_mem_cons.1 hle
    have hstop : ∀ n ∈ bounds ls, l.span.stop ≤ n := by
      intro n hn
      obtain ⟨m, hm, hn⟩ := List.mem_flatMap.1 hn
      have := hl m hm
      have := hle m hm
      simp only [List.mem_cons, List.not_mem_nil, or_false] at hn
      omega
    have hstart : ∀ n ∈ l.span.stop :: bounds ls, l.span.start ≤ n :=
      List.forall_mem_cons.2 ⟨hlle, fun n hn => Nat.le_trans hlle (hstop n hn)⟩
    exact .cons hstart (.cons hstop (ih hls hle))

/-- The lexemes are found again at their own places. -/
theorem map_numberedFrom {P : Placement} {e : Nat} {ls : List Lexeme}
    (hle : ∀ l ∈ ls, l.span.start ≤ l.span.stop) :
    ∀ {before : List Nat}, (∀ n, P.place n = (before ++ bounds ls).getD n e) →
      (numberedFrom before.length (ls.map Lexeme.sign)).map (Lexeme.placed P) = ls := by
  induction ls with
  | nil => exact fun _ => rfl
  | cons l ls ih =>
    intro before hP
    obtain ⟨hlle, hle⟩ := List.forall_mem_cons.1 hle
    have hstart : P.place before.length = l.span.start := by simp [hP, bounds]
    have hstop : P.place (before.length + 1) = l.span.stop := by simp [hP, bounds]
    have hl : Lexeme.placed P ⟨l.token, before.length,
        if l.isInserted then before.length else before.length + 1⟩ = l := by
      obtain ⟨t, start, stop⟩ := l
      simp only [Lexeme.placed, Span.placed, Lexeme.mk.injEq, Span.mk.injEq, true_and]
      refine ⟨hstart, ?_⟩
      split
      · next hinserted =>
        rw [hstart]
        simp only [Lexeme.isInserted, Span.isEmpty, Span.size, Bool.and_eq_true, beq_iff_eq]
          at hinserted hlle ⊢
        omega
      · exact hstop
    have ih := @ih hle (before ++ [l.span.start, l.span.stop]) (by simpa [bounds] using hP)
    rw [List.length_append] at ih
    rw [List.map_cons, Lexeme.sign, numberedFrom, List.map_cons, hl]
    exact congrArg (l :: ·) ih

theorem bounds_numberedFrom {n : Nat} {ss : List (Token × Bool)} :
    ∀ l ∈ numberedFrom n ss,
      n ≤ l.span.start ∧ l.span.start ≤ l.span.stop ∧ l.span.stop < n + 2 * ss.length := by
  induction ss generalizing n with
  | nil => simp [numberedFrom]
  | cons p ss ih =>
    rw [numberedFrom, List.length_cons]
    refine List.forall_mem_cons.2 ⟨?_, fun l hl => ?_⟩
    · simp only
      split <;> omega
    · have := ih l hl
      omega

theorem pairwise_numberedFrom (n : Nat) (ss : List (Token × Bool)) :
    (numberedFrom n ss).Pairwise fun l m => l.span.stop ≤ m.span.start := by
  induction ss generalizing n with
  | nil => exact .nil
  | cons p ss ih =>
    refine .cons (fun m hm => ?_) (ih _)
    have := (bounds_numberedFrom m hm).1
    simp only
    split <;> omega

/-- Only semicolons are inserted. -/
def Signs (ss : List (Token × Bool)) : Prop := ∀ p ∈ ss, p.2 = true → p.1 = .mark .semi

theorem signs_map_sign (ls : List Lexeme) : Signs (ls.map Lexeme.sign) := by
  intro p hp hinserted
  obtain ⟨l, -, rfl⟩ := List.mem_map.1 hp
  exact Lexeme.token_of_isInserted hinserted

theorem sign_numberedFrom {n : Nat} {ss : List (Token × Bool)} (h : Signs ss) :
    (numberedFrom n ss).map Lexeme.sign = ss := by
  induction ss generalizing n with
  | nil => rfl
  | cons p ss ih =>
    obtain ⟨t, inserted⟩ := p
    obtain ⟨hp, hss⟩ := List.forall_mem_cons.1 h
    rw [numberedFrom, List.map_cons, ih hss]
    cases inserted with
    | true =>
      obtain rfl : t = .mark .semi := hp rfl
      simp [Lexeme.sign, Lexeme.isInserted, Span.isEmpty, Span.size]
    | false => simp [Lexeme.sign, Lexeme.isInserted, Span.isEmpty, Span.size]

namespace LexedText

/-- Tokens as lexemes of their own. -/
def numbered (signs : List (Token × Bool)) : LexedText where
  lexemes := numberedFrom 1 signs
  textEnd := 2 * signs.length + 1
  pairwise := pairwise_numberedFrom 1 signs
  bounded l hl := by
    have := bounds_numberedFrom l hl
    omega

variable (T : LexedText)

def signs : List (Token × Bool) := T.lexemes.map Lexeme.sign

/-- Where the places of the numbered tokens are in the text. -/
def placement : Placement where
  place n := (0 :: bounds T.lexemes).getD n T.textEnd
  mono := by
    have hle : ∀ l ∈ T.lexemes, l.span.start ≤ l.span.stop := fun l hl => (T.bounded l hl).1
    refine monotone_getD (.cons (fun _ _ => Nat.zero_le _) (pairwise_bounds T.pairwise hle)) ?_
    refine List.forall_mem_cons.2 ⟨Nat.zero_le _, fun n hn => ?_⟩
    obtain ⟨l, hl, hn⟩ := List.mem_flatMap.1 hn
    have := T.bounded l hl
    simp only [List.mem_cons, List.not_mem_nil, or_false] at hn
    omega
  made := ⟨0, 0, 0, 0, 0⟩

theorem lexemes_placed :
    (numbered T.signs).lexemes.map (Lexeme.placed T.placement) = T.lexemes :=
  @map_numberedFrom _ _ _ (fun l hl => (T.bounded l hl).1) [0] fun _ => rfl

theorem keeps_numbered : T.placement.Keeps (numbered T.signs).lexemes := by
  have hsigns : (numbered T.signs).lexemes.map Lexeme.sign = T.signs :=
    sign_numberedFrom (signs_map_sign _)
  have hplaced := congrArg (List.map Lexeme.sign) T.lexemes_placed
  rw [List.map_map, ← signs] at hplaced
  replace hplaced := hplaced.trans hsigns.symm
  intro l hl
  have hl := List.map_inj_left.1 hplaced l hl
  exact congrArg Prod.snd hl

/-- The cursor before the whole of the text. -/
def cursor : Cursor := .ofLexemes T.lexemes T.textEnd

theorem cursor_placed : (numbered T.signs).cursor.placed T.placement = T.cursor := by
  have hlength : ∀ ls : List Lexeme, (bounds ls).length = 2 * ls.length := by
    intro ls
    induction ls with
    | nil => rfl
    | cons l ls ih =>
      have ih : (List.flatMap _ ls).length = _ := ih
      simp [bounds, ih]
      omega
  have htextEnd : T.placement.place (numbered T.signs).textEnd = T.textEnd := by
    simp [placement, numbered, signs, hlength]
  rw [Cursor.placed, cursor, Cursor.ofLexemes, cursor, Cursor.ofLexemes, T.lexemes_placed,
    htextEnd]
  rfl

/-- What is read of the numbered tokens is what is read of the text. -/
theorem read_numbered : match Parse.file (numbered T.signs).cursor with
    | .ok (f, c) =>
      Parse.file T.cursor = .ok (f.placed T.placement, c.placed T.placement)
    | .error e => Parse.file T.cursor = .error (e.placed T.placement) := by
  have hfile := Parse.Natural.file (P := T.placement)
  have hkeeps : T.placement.Keeps (numbered T.signs).cursor.rest := T.keeps_numbered
  rw [← T.cursor_placed]
  split
  · next h => exact (hfile.made hkeeps h).1
  · next h => exact hfile.failed hkeeps h

end LexedText

/-! ## Array lengths -/

def TypeForm.lengths : TypeForm (List Span) → List Span
  | .array n elem => n :: elem
  | form => form.children.flatten

/-- The lengths of the arrays in a type. -/
def TypeNode.lengths (t : TypeNode) : List Span := t.fold fun _ _ form => form.lengths

/-- The lengths of all arrays in a file. -/
def File.lengths (f : File) : List Span :=
  f.decls.flatMap fun d => d.roots.flatMap TypeNode.lengths

theorem TypeNode.lengths_subset {t u : TypeNode} (h : u ∈ t.form.children) :
    u.lengths ⊆ t.lengths := by
  obtain ⟨serial, span, form⟩ := t
  have hmem : u.lengths ∈ (form.map TypeNode.lengths).children := by
    rw [TypeForm.children_map]
    exact List.mem_map_of_mem h
  have hsub {form : TypeForm (List Span)} {ls : List Span} (h : ls ∈ form.children) :
      ls ⊆ form.lengths := by
    intro n hn
    cases form with
    | array m elem =>
      obtain rfl : ls = elem := by simpa [TypeForm.children] using h
      exact .tail _ hn
    | _ => exact List.mem_flatten.2 ⟨ls, h, hn⟩
  conv_rhs => rw [lengths, fold_mk]
  exact hsub hmem

theorem TypeNode.length_mem {t u : TypeNode} (hu : u.Within t) {n : Span} {elem : TypeNode}
    (hform : u.form = .array n elem) : n ∈ t.lengths := by
  induction hu with
  | @self t =>
    obtain ⟨serial, span, form⟩ := t
    obtain rfl : form = _ := hform
    rw [lengths, fold_mk]
    exact .head _
  | child hv _ ih => exact TypeNode.lengths_subset hv (ih hform)

/-- The lexeme lies in the span. -/
def Lexeme.isInside (s : Span) (l : Lexeme) : Bool :=
  s.start ≤ l.span.start && l.span.stop ≤ s.stop

/-- Every array length in the tree of a text is a single token of it. -/
def File.LengthsAreTokens (f : File) (source : String) : Prop :=
  ∀ n ∈ f.lengths, ((lex source).filter (Lexeme.isInside n)).length = 1

instance (f : File) (source : String) : Decidable (f.LengthsAreTokens source) :=
  inferInstanceAs (Decidable (∀ n ∈ f.lengths, _))

/-! ## Texts of tokens -/

section

variable {source : String}

/-- The text at the place of a numbered token is that of the token. -/
theorem slice_of_numbered (hfault : ∀ l ∈ lex source, l.fault? = none) {l : Lexeme}
    (hl : l ∈ (LexedText.numbered (LexedText.ofSource source).signs).lexemes) :
    (l.span.placed (LexedText.ofSource source).placement).slice source.toList
      = if l.isInserted then [] else l.token.text.toList := by
  let T := LexedText.ofSource source
  have hmem : l.placed T.placement ∈ lex source := by
    have hmem := List.mem_map_of_mem (f := Lexeme.placed T.placement) hl
    rwa [T.lexemes_placed] at hmem
  have hinserted := T.keeps_numbered l hl
  have hstands := (tiled_lex source).standsIn _ hmem
  split
  · next h =>
    rw [h, Lexeme.isInserted, Bool.and_eq_true, Span.isEmpty, beq_iff_eq] at hinserted
    have hsize : (l.span.placed T.placement).size = 0 := eq_of_beq hinserted.2
    rw [Span.slice, hsize, takeBytes]
  · next h =>
    have htext := hstands.text_eq (hinserted.trans (by simpa using h)) (hfault _ hmem)
    exact String.ofList_injective (htext.trans (String.ofList_toList).symm)

/-- What covers numbered tokens covers a single one if its place has room for no more. -/
theorem single_of_covers {n : Span} {run : List Lexeme}
    (hrun : run <:+: (LexedText.numbered (LexedText.ofSource source).signs).lexemes)
    (hn : n.Covers run) (hone : ((lex source).filter
      (Lexeme.isInside (n.placed (LexedText.ofSource source).placement))).length = 1) :
    ∃ l, run = [l] ∧ n = l.span := by
  let T := LexedText.ofSource source
  have hinside : ∀ l ∈ run, (l.placed T.placement).isInside (n.placed T.placement) = true := by
    intro l hl
    obtain ⟨first, hfirst, last, hlast, rfl⟩ := id hn
    obtain ⟨hstart, hstop⟩ := (LexedText.numbered T.signs).run_bounds hrun hfirst hlast hl
    rw [Lexeme.isInside, Bool.and_eq_true, decide_eq_true_iff, decide_eq_true_iff]
    exact ⟨T.placement.mono hstart, T.placement.mono hstop⟩
  have hsub := (hrun.map (Lexeme.placed T.placement)).sublist.filter
    (Lexeme.isInside (n.placed T.placement))
  rw [T.lexemes_placed] at hsub
  have hall : (run.map (Lexeme.placed T.placement)).filter
      (Lexeme.isInside (n.placed T.placement)) = run.map (Lexeme.placed T.placement) :=
    List.filter_eq_self.2 (by simpa using hinside)
  have hlength := Nat.le_trans hsub.length_le (Nat.le_of_eq hone)
  rw [hall, List.length_map] at hlength
  rcases run with _ | ⟨l, _ | ⟨m, run⟩⟩
  · exact absurd rfl hn.ne_nil
  · obtain ⟨first, hfirst, last, hlast, rfl⟩ := hn
    obtain rfl : l = first := by simpa using hfirst
    obtain rfl : l = last := by simpa using hlast
    exact ⟨l, rfl, rfl⟩
  · simp at hlength

end

/-! ## Two texts -/

/-- What an import binds does not depend on where its name stands. -/
theorem boundName_placed (P : Placement) (resolve : Resolver) (path : String)
    (name : Option ImportName) :
    boundName resolve path (name.map (ImportName.placed P)) = boundName resolve path name := by
  rcases name with _ | _ | _ | _ <;> rfl

theorem importBindings_placed {P P' : Placement} {resolve : Resolver} {source source' : String} :
    ∀ {imports : List ImportSpec},
      (∀ i ∈ imports, (i.path.placed P).value source = (i.path.placed P').value source') →
      importBindings resolve source (imports.map (ImportSpec.placed P))
        = importBindings resolve source' (imports.map (ImportSpec.placed P'))
  | [], _ => rfl
  | i :: imports, h => by
    obtain ⟨hi, himports⟩ := List.forall_mem_cons.1 h
    have ih : importBindings resolve source _ = _ := importBindings_placed himports
    simp only [importBindings, List.map_cons, List.filterMap_cons, ImportSpec.placed,
      boundName_placed, hi] at ih ⊢
    rw [ih]

/-- The spans are left out. -/
def Placement.nowhere : Placement := ⟨fun _ => 0, fun _ _ _ => Nat.le_refl 0, ⟨0, 0, 0, 0, 0⟩⟩

/-- Errors of one kind, and for the same reason where that does not depend on places. -/
def ExtractError.Alike : ExtractError → ExtractError → Prop
  | .io _ fault, .io _ fault' => fault = fault'
  | .rejected _ fault, .rejected _ fault' => fault = fault'
  | .refused _ _, .refused _ _ => True
  | .collision _ twice, .collision _ twice' => twice = twice'
  | .notFound name, .notFound name' => name = name'
  | _, _ => False

/-- The same model, or errors of one kind. -/
def OutcomesAlike : Except ExtractError FileModel → Except ExtractError FileModel → Prop
  | .ok m, .ok m' => m = m'
  | .error e, .error e' => e.Alike e'
  | _, _ => False

section

variable {s t : String} (hs : ∀ l ∈ lex s, l.fault? = none) (ht : ∀ l ∈ lex t, l.fault? = none)
  (hst : (LexedText.ofSource s).signs = (LexedText.ofSource t).signs)

include hs ht hst

/-- The texts at the places of a token are the same. -/
theorem slice_of_same {l : Lexeme}
    (hl : l ∈ (LexedText.numbered (LexedText.ofSource s).signs).lexemes) :
    (l.span.placed (LexedText.ofSource s).placement).slice s.toList
      = (l.span.placed (LexedText.ofSource t).placement).slice t.toList := by
  rw [slice_of_numbered hs hl, slice_of_numbered ht (hst ▸ hl)]

variable {f : File} {c : Cursor}
  (hread : Parse.file (LexedText.numbered (LexedText.ofSource s).signs).cursor = .ok (f, c))

include hread

theorem value_of_same : ∀ i ∈ f.imports,
    (i.path.placed (LexedText.ofSource s).placement).value s
      = (i.path.placed (LexedText.ofSource t).placement).value t := by
  intro i hi
  let N := LexedText.numbered (LexedText.ofSource s).signs
  obtain ⟨l, hl, hspan, -⟩ :=
    LexedText.path_of_import (T := N) ⟨List.suffix_refl _, rfl⟩ hread hi
  have hslice := slice_of_same hs ht hst hl
  simp only [StringLiteral.value, StringLiteral.placed, hspan, hslice]

/-- Lengths that are single tokens are read alike. -/
theorem lengthsAgree_of_same {scope scope' : FileScope} (hsource : scope.source = s)
    (hsource' : scope'.source = t)
    (hlengths : (f.placed (LexedText.ofSource s).placement).LengthsAreTokens s) :
    ∀ d ∈ f.decls, ∀ root ∈ d.roots,
      LengthsAgree (LexedText.ofSource s).placement (LexedText.ofSource t).placement scope scope'
        root := by
  intro d hd root hroot u hu n elem hform
  let N := LexedText.numbered (LexedText.ofSource s).signs
  obtain ⟨run, hmoves, hholds⟩ := LexedText.Spec.of_ok LexedText.file (T := N)
    ⟨List.suffix_refl _, rfl⟩ hread
  have hmade := hholds.typed root (List.mem_flatMap.2 ⟨d, hd, hroot⟩) u hu
  have hplace : n ∈ u.places :=
    TypeNode.places_of_form (by simp [hform, TypeForm.map, TypeForm.places])
  obtain ⟨ls, hls, hcovers⟩ := (hmade.placed n hplace).mono hmoves.isInfix
  obtain ⟨d', hd', root', hroot', hwithin⟩ :=
    File.HasType.placed (LexedText.ofSource s).placement ⟨d, hd, root, hroot, hu⟩
  have hlength := TypeNode.length_mem hwithin (by rw [TypeNode.form_placed, hform]; rfl)
  have hone := hlengths _
    (List.mem_flatMap.2 ⟨d', hd', List.mem_flatMap.2 ⟨root', hroot', hlength⟩⟩)
  obtain ⟨l, rfl, rfl⟩ := single_of_covers hls hcovers hone
  refine mute_arrayLength_congr ?_
  rw [hsource, hsource']
  exact slice_of_same hs ht hst (hls.subset (.head _))

/-- The tree has the same interfaces at both places, or what is wrong with them is of one kind. -/
theorem model_of_same (resolve : Resolver) (name name' importPath : String)
    (hlengths : (f.placed (LexedText.ofSource s).placement).LengthsAreTokens s) :
    OutcomesAlike
      (FileModel.ofFile resolve name s importPath (f.placed (LexedText.ofSource s).placement))
      (FileModel.ofFile resolve name' t importPath
        (f.placed (LexedText.ofSource t).placement)) := by
  have hbind : bindImports resolve s (f.placed (LexedText.ofSource s).placement).imports
      = bindImports resolve t (f.placed (LexedText.ofSource t).placement).imports := by
    have hbindings : importBindings resolve s _ = _ :=
      importBindings_placed (value_of_same hs ht hst hread)
    simp only [bindImports, File.placed, hbindings]
  rcases hb : bindImports resolve t (f.placed (LexedText.ofSource t).placement).imports with
    twice | bindings
  · rw [FileModel.ofFile_of_collision (hbind.trans hb), FileModel.ofFile_of_collision hb]
    rfl
  · have hscope : FileScope.Alike ⟨s, bindings, importPath⟩ ⟨t, bindings, importPath⟩ :=
      ⟨rfl, rfl⟩
    have hmodel := mute_modelAll_placed hscope
      (lengthsAgree_of_same hs ht hst hread rfl rfl hlengths)
    rw [FileModel.ofFile_of_bound (hbind.trans hb), FileModel.ofFile_of_bound hb]
    simp only [File.placed]
    generalize modelAll ⟨s, bindings, importPath⟩ _ = x at hmodel ⊢
    generalize modelAll ⟨t, bindings, importPath⟩ _ = y at hmodel ⊢
    rcases x with e | xs <;> rcases y with e' | xs'
    · trivial
    · simp at hmodel
    · simp at hmodel
    · obtain rfl : xs = xs' := Except.ok.inj hmodel
      rfl

end

theorem ofSource_of_sound {source : String} (h : lexDiagnostics source = []) :
    File.ofSource source = match Parse.file (LexedText.ofSource source).cursor with
      | .ok (file, c) => .ok (file, c.made)
      | .error e => .error (.grammatical e) := by
  rw [File.ofSource, readSource_of_sound h,
    show Cursor.start ⟨0, 0, 0, 0, 0⟩ (lex source) (byteCount source.toList)
      = (LexedText.ofSource source).cursor from rfl]
  cases Parse.file (LexedText.ofSource source).cursor <;> rfl

/-- Texts with the same tokens, whatever stands between them, have the same tree but for its
places, or the same fault. They also have the same interfaces, or none for the same kind of
reason, if every array length is a single token. -/
theorem same_tokens_same_model {s t : String} (hs : lexDiagnostics s = [])
    (ht : lexDiagnostics t = []) (hst : (lex s).map Lexeme.sign = (lex t).map Lexeme.sign) :
    (match File.ofSource s, File.ofSource t with
      | .ok (f, made), .ok (g, made') => f.placed .nowhere = g.placed .nowhere ∧ made = made'
      | .error e, .error e' => e.diagnostics.map (·.fault) = e'.diagnostics.map (·.fault)
      | _, _ => False) ∧
    ((∀ f made, File.ofSource s = .ok (f, made) → f.LengthsAreTokens s) →
      ∀ resolve name name' importPath,
        OutcomesAlike (FileModel.ofSource resolve name s importPath)
          (FileModel.ofSource resolve name' t importPath)) := by
  have hsigns : (LexedText.ofSource s).signs = (LexedText.ofSource t).signs := hst
  have hreads := (LexedText.ofSource s).read_numbered
  have hreadt := (LexedText.ofSource t).read_numbered
  rw [← hsigns] at hreadt
  have hfiles := ofSource_of_sound hs
  have hfilet := ofSource_of_sound ht
  rcases hread : Parse.file (LexedText.numbered (LexedText.ofSource s).signs).cursor with
    e | ⟨f, c⟩
  · simp only [hread] at hreads hreadt
    simp only [hreads] at hfiles
    simp only [hreadt] at hfilet
    refine ⟨by rw [hfiles, hfilet]; rfl, fun _ resolve name name' importPath => ?_⟩
    simp only [FileModel.ofSource, readFile, hfiles, hfilet]
    rfl
  · simp only [hread] at hreads hreadt
    simp only [hreads] at hfiles
    simp only [hreadt] at hfilet
    refine ⟨?_, fun hlengths resolve name name' importPath => ?_⟩
    · rw [hfiles, hfilet]
      refine ⟨?_, rfl⟩
      rw [File.placed_placed, File.placed_placed]
      rfl
    · have hmodel := model_of_same (lexDiagnostics_eq_nil_iff.1 hs) (lexDiagnostics_eq_nil_iff.1 ht)
        hsigns hread resolve name name' importPath (hlengths _ _ hfiles)
      simp only [FileModel.ofSource, readFile, hfiles, hfilet]
      exact hmodel

/-- A method with an array, on one line and spread out between comments. -/
theorem spread_method_same_model : ∃ s t : String,
    s = "package p\ntype I interface { M(x [2]T) }" ∧
    t = "package p // c\n\ntype I interface \x7b\tM(x [ 2 /* d */]T) \x7d\n" ∧
    lexDiagnostics s = [] ∧ lexDiagnostics t = [] ∧
    (lex s).map Lexeme.sign = (lex t).map Lexeme.sign ∧
    (∀ f made, File.ofSource s = .ok (f, made) → f.LengthsAreTokens s) ∧
    (∃ f g made, File.ofSource s = .ok (f, made) ∧ File.ofSource t = .ok (g, made) ∧
      f.placed .nowhere = g.placed .nowhere) ∧
    ∀ resolve name name' importPath,
      OutcomesAlike (FileModel.ofSource resolve name s importPath)
        (FileModel.ofSource resolve name' t importPath) := by
  refine ⟨_, _, rfl, rfl, ?_⟩
  have hs : lexDiagnostics "package p\ntype I interface { M(x [2]T) }" = [] := by decide +kernel
  have ht : lexDiagnostics
      "package p // c\n\ntype I interface \x7b\tM(x [ 2 /* d */]T) \x7d\n" = [] := by
    decide +kernel
  have hst : (lex "package p\ntype I interface { M(x [2]T) }").map Lexeme.sign
      = (lex "package p // c\n\ntype I interface \x7b\tM(x [ 2 /* d */]T) \x7d\n").map
        Lexeme.sign := by
    decide +kernel
  have hread : (File.ofSource "package p\ntype I interface { M(x [2]T) }").toOption.any
      (fun p => p.1.LengthsAreTokens "package p\ntype I interface { M(x [2]T) }") = true := by
    decide +kernel
  obtain ⟨htrees, hmodels⟩ := same_tokens_same_model hs ht hst
  rcases hf : File.ofSource "package p\ntype I interface { M(x [2]T) }" with e | ⟨f, made⟩
  · rw [hf] at hread
    cases hread
  rcases hg : File.ofSource
      "package p // c\n\ntype I interface \x7b\tM(x [ 2 /* d */]T) \x7d\n" with e | ⟨g, made'⟩
  · simp [hf, hg] at htrees
  · simp only [hf, hg] at htrees hmodels hread
    have hlengths : f.LengthsAreTokens "package p\ntype I interface { M(x [2]T) }" :=
      of_decide_eq_true hread
    obtain ⟨htree, rfl⟩ := htrees
    have hlengths : ∀ f' made', Except.ok (f, made) = Except.ok (ε := Rejection) (f', made') →
        f'.LengthsAreTokens "package p\ntype I interface { M(x [2]T) }" := by
      rintro _ _ ⟨⟩
      exact hlengths
    exact ⟨hs, ht, hst, hlengths, ⟨f, g, made, rfl, rfl, htree⟩, hmodels hlengths⟩

end GoIface
