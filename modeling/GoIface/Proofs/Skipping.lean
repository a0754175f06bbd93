import GoIface.Proofs.Fillings
import GoIface.Proofs.Independence

/-!
# What the model of a file does not depend on

The text of a function body may be exchanged for another body, and that of initial values for other
values (`File.MayReplace`): the declarations before it are read as they were, those after it at
their new places (`ofSource_replaced`), and the one that it is in declares no interfaces. So the
model of the file stays (`bodies_and_values_are_skipped`).
-/

namespace GoIface

open GoIface.Text Parse

/-! ## What may be replaced -/

def Decl.bodies : Decl → List Span
  | .specs _ => []
  | .func d => d.body.toList

def Decl.values : Decl → List Span
  | .specs d => d.specs.values.filterMap ValueSpec.values
  | .func _ => []

/-- In the file of a source, the text of the span may be replaced. -/
inductive File.MayReplace (f : File) (source : String) : Span → String → Prop
  | body {s : Span} {text : String} (h : s ∈ f.decls.flatMap Decl.bodies) (htext : BodyText text) :
      MayReplace f source s text
  | values {s : Span} {text : String} (h : s ∈ f.decls.flatMap Decl.values)
      (htext : ValuesText text) (hline : ¬ SemicolonBelow source s.stop) :
      MayReplace f source s text

/-- Reading a declaration from the cursor on, the text may be put in the place of the span. -/
structure Parse.FillsIn (text source : String) (s : Span) (c c' : Cursor) : Prop where
  hole : ∃ was fits, HoleAt decl was fits s c c' ∧ Fills fits text.toList ∧
    ∀ ts, was ts → Complete ts ∧ (EndsLine ts ∨ ¬ SemicolonBelow source s.stop)
  next : c.next? ≠ some (.keyword .typeKw)

theorem File.MayReplace.fillsIn {f : File} {source text : String} {s : Span}
    (h : f.MayReplace source s text) : ∃ ds d es, f.decls = ds ++ d :: es ∧
      ∀ {c c' : Cursor}, decl c = .ok (d, c') → FillsIn text source s c c' := by
  cases h with
  | body h htext =>
    obtain ⟨d, hd, hs⟩ := List.mem_flatMap.1 h
    obtain ⟨ds, es, hdecls⟩ := List.append_of_mem hd
    refine ⟨ds, d, es, hdecls, fun {c c'} hok => ?_⟩
    rcases d with _ | d
    · simp [Decl.bodies] at hs
    · obtain ⟨hhole, hnext⟩ := hole_of_body hok (by simpa [Decl.bodies] using hs)
      exact ⟨⟨_, _, hhole, htext.fills, fun ts hts => ⟨hts.complete, .inl hts⟩⟩, hnext⟩
  | values h htext hline =>
    obtain ⟨d, hd, hs⟩ := List.mem_flatMap.1 h
    obtain ⟨ds, es, hdecls⟩ := List.append_of_mem hd
    refine ⟨ds, d, es, hdecls, fun {c c'} hok => ?_⟩
    rcases d with d | _
    · obtain ⟨spec, hspec, hs⟩ := List.mem_filterMap.1 hs
      obtain ⟨hhole, hnext⟩ := hole_of_value hok hspec hs
      exact ⟨⟨_, _, hhole, htext.fills, fun ts hts => ⟨hts, .inr hline⟩⟩, hnext⟩
    · simp [Decl.values] at hs

/-! ## What stays in front -/

/-- What is made of the file, its package clause aside, covers stretches of the lexemes. -/
structure File.LiesIn (f : File) (ls : List Lexeme) : Prop where
  places : ∀ s ∈ f.places, s.CoversIn ls
  types : ∀ t, f.HasType t → ∀ s ∈ t.places, s.CoversIn ls

theorem File.LiesIn.mono {f : File} {ls ms : List Lexeme} (h : f.LiesIn ls) (hle : ls <:+: ms) :
    f.LiesIn ms :=
  ⟨fun s hs => (h.places s hs).mono hle, fun t ht s hs => (h.types t ht s hs).mono hle⟩

/-- The first lexemes of a text. -/
def LexedText.part (T : LexedText) {ls : List Lexeme} (h : ls <+: T.lexemes) : LexedText where
  lexemes := ls
  textEnd := T.textEnd
  pairwise := T.pairwise.sublist h.sublist
  bounded l hl := T.bounded l (h.subset hl)

namespace Parse

variable {c c' : Cursor} {p : Span × Ident} {imports : List (List ImportSpec)} {ds : List Decl}

theorem Items.row_of_rest {α : Type} {more : Cursor → Bool} (hloops : Loops more declEnd)
    {item : Parse α} {xs : List α} (h : Items more declEnd item c xs c') (hne : c'.rest ≠ []) :
    Row more item c xs c' := by
  induction h with
  | stop => exact .nil
  | @item c c₁ c₂ c' x xs hmore hx hend h ih =>
    rcases declEnd_cases hend with ⟨l, ls, hc, hl⟩ | hc
    · rw [hloops.semi hc hl] at hend
      cases hend
      exact .cons hmore hx hc hl (ih hne)
    · have hrest : c₁.rest = [] := by simpa [Cursor.next?] using hc
      rw [declEnd_of_end hc] at hend
      cases hend
      obtain ⟨-, rfl⟩ := h.of_stop (hloops.atEnd hrest)
      exact absurd hrest hne

theorem Head.textEnd_eq (h : Head c p imports c') : c'.textEnd = c.textEnd := by
  obtain ⟨c₁, hclause, hrow⟩ := h
  obtain ⟨a, b, l, rest, name, -, -, -, -, -, rfl⟩ := clause_eq_ok_iff.1 hclause
  exact hrow.textEnd_eq (c := { c with rest, last := l.span })
    fun _ hmore => Steady.importDecl (next?_of_startsImport hmore)

/-- What is read up to some place of a source lies in the lexemes before it. -/
theorem liesIn_of_row {source : String} {k : Cursor}
    (hhead : Head (.ofSource source) p imports k) (hstop : startsImport k = false)
    (hrow : Row (!·.atEnd) decl k ds c) :
    ∃ ls, lex source = ls ++ c.rest ∧ File.LiesIn ⟨p.1, p.2, imports.flatten, ds⟩ ls := by
  obtain ⟨ks, hks, hhead⟩ := hhead.steady
  obtain ⟨ms, hms, hrow⟩ := hrow.steady loops_decls
    (fun _ _ => Consumes.decl.mono fun _ h => h.ne_nil) fun _ _ => Steady.decl
  have hlex : lex source = (ks ++ ms) ++ c.rest := by
    rw [List.append_assoc, ← hms]
    exact hks
  refine ⟨ks ++ ms, hlex, ?_⟩
  -- what was read is the file of a text that stops there
  let T := (LexedText.ofSource source).part
    (hlex ▸ List.prefix_append _ _ : ks ++ ms <+: lex source)
  have hstop' : startsImport (k.before ms T.textEnd) = false := by
    rcases ms with _ | ⟨l, ms⟩
    · exact loops_imports.atEnd rfl
    · refine (loops_imports.congr ?_).trans hstop
      simp [Cursor.next?, Cursor.before, hms]
  have hrow := hrow [] T.textEnd
  rw [List.append_nil] at hrow
  have hitems := hrow.append loops_decls (.stop (loops_decls.atEnd rfl))
  rw [List.append_nil] at hitems
  have hfile := ((hhead ms T.textEnd).file_iff (f := ⟨p.1, p.2, imports.flatten, ds⟩) hstop').2
    ⟨hitems, rfl, rfl⟩
  obtain ⟨run, hmoves, hholds⟩ :=
    LexedText.file.of_ok (T := T) ⟨List.suffix_refl _, rfl⟩ hfile
  refine ⟨fun s hs => (hholds.placed s hs).mono hmoves.isInfix, ?_⟩
  rintro t ⟨d, hd, root, hroot, ht⟩ s hs
  have hmade := hholds.typed root (List.mem_flatMap.2 ⟨d, hd, hroot⟩) t ht
  exact (hmade.placed s hs).mono hmoves.isInfix

theorem Items.stopped {α : Type} {more : Cursor → Bool} {ender : Parse Unit} {item : Parse α}
    {xs : List α} (h : Items more ender item c xs c') : more c' = false := by
  induction h with
  | stop hstop => exact hstop
  | item _ _ _ _ ih => exact ih

end Parse

/-! ## The file -/

theorem prefix_of_byteCount_le {cs ds es : List Char} (hcs : cs <+: es) (hds : ds <+: es)
    (hle : byteCount cs ≤ byteCount ds) : cs <+: ds := by
  rcases List.prefix_or_prefix_of_prefix hcs hds with h | ⟨gap, rfl⟩
  · exact h
  · rw [byteCount_append] at hle
    have hnil : gap = [] := Classical.byContradiction fun hne => by
      have := byteCount_pos hne
      omega
    rw [hnil, List.append_nil]

/-- A text with a stretch exchanged starts and ends as it did. -/
theorem Span.CutsOut.replaced {s : Span} {source : String} {cs : List Char}
    (h : s.CutsOut source cs) (text : String) : ∃ before after,
      source.toList = before ++ (cs ++ after) ∧ byteCount before = s.start ∧
        byteCount (before ++ cs) = s.stop ∧
          (s.replaced source text).toList = before ++ (text.toList ++ after) := by
  obtain ⟨before, after, hsource, rfl⟩ := h
  refine ⟨before, after, hsource, rfl, byteCount_append _ _, ?_⟩
  rw [Span.replaced, String.toList_ofList, ← byteCount_append]
  congr 1
  · rw [hsource, takeBytes_byteCount]
  · rw [hsource, ← List.append_assoc, dropBytes_byteCount]

/-- What lies before the stretch is written as it was. -/
theorem Span.CutsOut.slice_replaced {p s : Span} {source : String} {cs ds : List Char}
    (hp : p.CutsOut source cs) (hs : s.CutsOut source ds) (hle : p.stop ≤ s.start) (text : String) :
    p.slice source.toList = p.slice (s.replaced source text).toList := by
  obtain ⟨before, after, hsource, hstart, -, hnew⟩ := hs.replaced text
  obtain ⟨before', after', hsource', rfl⟩ := hp
  have hprefix : before' ++ cs <+: before := by
    refine prefix_of_byteCount_le (?_ : _ <+: source.toList) ?_ ?_
    · rw [hsource', ← List.append_assoc]
      exact List.prefix_append _ _
    · rw [hsource]
      exact List.prefix_append _ _
    · rw [byteCount_append, hstart]
      exact hle
  obtain ⟨gap, rfl⟩ := hprefix
  rw [hsource', hnew, slice_append, List.append_assoc, List.append_assoc, slice_append]

theorem LexedText.covers_runSpan (T : LexedText) {run : List Lexeme} (hrun : run <:+: T.lexemes)
    (hne : run ≠ []) : (runSpan run).Covers run := by
  obtain ⟨l, ls, rfl⟩ := List.exists_cons_of_ne_nil hne
  exact T.covers_hull hrun rfl (by simp [List.getLast?_cons])

theorem Complete.getLast?_ne {run : List Lexeme} (h : Complete (run.map Lexeme.token)) {l : Lexeme}
    (hl : l ∈ run.getLast?) : l.token ≠ .mark .semi := by
  obtain ⟨init, t, hrun, ht⟩ := h
  obtain ⟨ls, rfl⟩ := List.getLast?_eq_some_iff.1 hl
  rw [List.map_append] at hrun
  obtain rfl : l.token = t := by simpa using (List.append_inj' hrun rfl).2
  exact ht

theorem ofSource_replaced {source text : String} {f : File} {made : Counts} {s : Span}
    (hf : File.ofSource source = .ok (f, made)) (h : f.MayReplace source s text) :
    ∃ (before run after : List Lexeme) (ds : List Decl) (d d' : Decl) (es : List Decl)
      (a a' made' : Counts),
      lex source = before ++ (run ++ after) ∧ s.Covers run ∧
      File.LiesIn ⟨f.package, f.name, f.imports, ds⟩ before ∧
      f.decls = ds ++ d :: es.map (Decl.placed (.shift s.stop a)) ∧
      d.interfaces = [] ∧ d'.interfaces = [] ∧
      File.ofSource (s.replaced source text) = .ok (⟨f.package, f.name, f.imports, ds ++
        d' :: es.map (Decl.placed (.shift (s.start + byteCount text.toList) a'))⟩, made') := by
  obtain ⟨hsound, c, hfile, rfl⟩ := ofSource_eq_ok_iff.1 hf
  obtain ⟨c₁, imports, c₂, hclause, himports, hdecls, hflat⟩ := file_eq_ok_iff.1 hfile
  obtain ⟨ds, d, es, hsplit, hfills⟩ := h.fillsIn
  rw [hsplit] at hdecls
  obtain ⟨k₀, k₁, k₂, hrow, hmore, hdecl, hend, hes⟩ := hdecls.split loops_decls
  obtain ⟨⟨was, fits, ⟨before, run, after, hhole, hspanned⟩, htext, hwas⟩, hnext⟩ := hfills hdecl
  have hwords := hwas _ hspanned.tokens
  obtain ⟨ls, hls, hfilled⟩ := hrow.filled loops_decls
    (fun _ _ => Consumes.decl.mono fun _ h => h.ne_nil) (fun _ _ => Steady.decl)
    (fun _ => Natural.decl) (fun _ => Fresh.decl) (fun _ => Natural.declEnd) hmore hhole hend hes
  have hrest : k₀.rest ≠ [] := fun hnil => by simp [loops_decls.atEnd hnil] at hmore
  have hhead : Head (.ofSource source) (f.package, f.name) imports c₂ :=
    ⟨c₁, hclause, himports.row_of_rest loops_imports (by simp [hls, hrest])⟩
  obtain ⟨first, hlex, hlies⟩ := liesIn_of_row hhead himports.stopped hrow
  obtain ⟨ks, hks, hsteady⟩ := hhead.steady
  obtain rfl : first = ks ++ ls := by
    have hall : lex source = ks ++ c₂.rest := hks
    rw [hlex, hls, ← List.append_assoc] at hall
    exact List.append_cancel_right hall
  have hlex' : lex source = (ks ++ ls ++ before) ++ (run ++ after) := by
    rw [hlex, hhole.rest, List.append_assoc _ before]
  have hne : run ≠ [] := mt (congrArg (List.map Lexeme.token)) hwords.1.ne_nil
  have hcovers : s.Covers run := hspanned.span ▸
    (LexedText.ofSource source).covers_runSpan ⟨_, _, (List.append_assoc ..).trans hlex'.symm⟩ hne
  have hslash : ∀ l ∈ (ks ++ ls ++ before).getLast?, l.token ≠ .mark .slash := by
    obtain ⟨init, k, hinit, hk⟩ := (hspanned.after (ks ++ ls)).before
    rw [hinit, List.getLast?_concat]
    rintro _ ⟨⟩
    exact hk
  obtain ⟨run', after', hnew, hfits, hsound', hresumes⟩ := lex_exchanged hsound hlex' hcovers
    (fun l hl => Lexeme.isInserted_of_ne (hspanned.first l hl))
    (fun l hl => Lexeme.isInserted_of_ne (hwords.1.getLast?_ne hl)) hslash htext hwords.2
  have hr := hresumes (c₂.before after c₂.textEnd)
    (c₂.before after' (byteCount (s.replaced source text).toList)) rfl hhead.textEnd_eq rfl rfl
  obtain ⟨hnext₂, hnext', d', k', zs, a, a', c', hdecl', rfl, hitems, -⟩ := hfilled hfits hr
  have hcursor : Cursor.ofSource (s.replaced source text) = (Cursor.ofSource source).before
      (ks ++ (ls ++ (before ++ (run' ++ after')))) (byteCount (s.replaced source text).toList) := by
    rw [Cursor.ofSource, hnew, List.append_assoc, List.append_assoc]
    rfl
  have hhead' := hsteady (ls ++ (before ++ (run' ++ after')))
    (byteCount (s.replaced source text).toList)
  rw [← hcursor] at hhead'
  have hfile' := (hhead'.file_iff (f := ⟨f.package, f.name, f.imports, _⟩)
    ((loops_imports.congr hnext₂).trans himports.stopped)).2 ⟨hitems, rfl, hflat⟩
  rw [← hflat] at hlies
  exact ⟨_, run, after, ds, d, d', zs, a, a', c'.made, hlex', hcovers,
    hlies.mono (List.prefix_append _ _).isInfix, hsplit, interfaces_of_decl hdecl hnext,
    interfaces_of_decl hdecl' (hnext' ▸ hnext), ofSource_eq_ok_iff.2 ⟨hsound', c', hfile', rfl⟩⟩

section

variable {source : String} {before run after : List Lexeme} {s : Span}
  (hlex : lex source = before ++ (run ++ after)) (hs : s.Covers run)

include hlex hs

theorem cutsOut_of_lex : ∃ cs, s.CutsOut source cs :=
  ((LexedText.ofSource source).atLexemes
    (hs.inside.mono ⟨before, after, (List.append_assoc ..).trans hlex.symm⟩)).cutsOut

/-- What covers lexemes before the stretch is written as it was. -/
theorem slice_replaced_of_lex (text : String) {p : Span} (hp : p.CoversIn before) :
    p.slice (s.replaced source text).toList = p.slice source.toList := by
  have hp' : p.CoversIn (lex source) := hp.mono (hlex ▸ (List.prefix_append _ _).isInfix)
  obtain ⟨cs, hcut⟩ := ((LexedText.ofSource source).atLexemes hp').cutsOut
  obtain ⟨ds, hcut'⟩ := cutsOut_of_lex hlex hs
  refine (hcut.slice_replaced hcut' ?_ text).symm
  obtain ⟨ls, hls, _, -, l, hl, rfl⟩ := hp
  obtain ⟨k, hk, _, -, rfl⟩ := hs
  have hpairwise := (tiled_lex source).pairwise
  rw [hlex] at hpairwise
  exact (List.pairwise_append.1 hpairwise).2.2 l (hls.subset (List.mem_of_getLast? hl)) k
    (List.mem_append_left _ (List.mem_of_head? hk))

end

/-- Whatever is written in the bodies of functions and in the initial values of constants and
variables, the package has the same name and the same interfaces. -/
theorem bodies_and_values_are_skipped {source text : String} {f : File} {made : Counts} {s : Span}
    (hf : File.ofSource source = .ok (f, made)) (h : f.MayReplace source s text)
    {resolve : Resolver} {name importPath : String} {m : FileModel}
    (hm : FileModel.ofSource resolve name source importPath = .ok m) :
    FileModel.ofSource resolve name (s.replaced source text) importPath = .ok m := by
  obtain ⟨before, run, after, ds, d, d', es, a, a', made', hlex, hs, hlies, hdecls, hd, hd', hf'⟩ :=
    ofSource_replaced hf h
  obtain ⟨f₁, made₁, hf₁, hmodel⟩ := FileModel.ofSource_eq_ok_iff.1 hm
  cases hf.symm.trans hf₁
  obtain ⟨bindings, hbind, hall, hname⟩ := FileModel.ofFile_eq_ok_iff.1 hmodel
  rw [hdecls, modelAll_append_eq_ok_iff] at hall
  obtain ⟨xs, ys, hxs, hys, hzs⟩ := hall
  rw [modelAll_cons_of_interfaces_eq_nil hd] at hys
  have hscope : FileScope.Alike ⟨s.replaced source text, bindings, importPath⟩
      ⟨source, bindings, importPath⟩ := ⟨rfl, rfl⟩
  obtain ⟨cs, hcut⟩ := cutsOut_of_lex hlex hs
  have hslice {p : Span} (hp : p.CoversIn before) := slice_replaced_of_lex hlex hs text hp
  have hbind' : bindImports resolve (s.replaced source text) f.imports = .ok bindings := by
    refine (bindImports_congr fun i hi => hslice (hlies.places _ ?_)).trans hbind
    have hmem : i.path.span ∈ f.imports.flatMap ImportSpec.places :=
      List.mem_flatMap.2 ⟨i, hi, by simp [ImportSpec.places]⟩
    exact .tail _ (.tail _ (List.mem_append_left _ hmem))
  have hxs' : modelAll ⟨s.replaced source text, bindings, importPath⟩ ds = .ok xs := by
    rw [← mute_eq_ok_iff] at hxs ⊢
    refine (mute_modelAll_congr hscope fun d hd root hroot u hu n elem hform => ?_).trans hxs
    refine hslice (hlies.types u ⟨d, hd, root, hroot, hu⟩ n (TypeNode.places_of_form ?_))
    simp [hform, TypeForm.map, TypeForm.places]
  -- and what comes after it is as far from the end
  have hys' : modelAll ⟨s.replaced source text, bindings, importPath⟩
      (es.map (Decl.placed (.shift (s.start + byteCount text.toList) a'))) = .ok ys := by
    obtain ⟨before', after', hsource, hstart, hstop, hnew⟩ := hcut.replaced text
    rw [← hstart, ← byteCount_append]
    rw [← hstop, ← mute_eq_ok_iff] at hys
    rw [← mute_eq_ok_iff]
    rw [← List.append_assoc] at hsource hnew
    exact (mute_modelAll_parallel hscope hnew hsource es a' a).trans hys
  refine FileModel.ofSource_eq_ok_iff.2 ⟨_, made', hf', FileModel.ofFile_eq_ok_iff.2
    ⟨bindings, hbind', modelAll_append_eq_ok_iff.2 ⟨xs, ys, hxs', ?_, hzs⟩, hname⟩⟩
  rwa [modelAll_cons_of_interfaces_eq_nil hd']

/-- An interface in a body, with a brace in a comment before it. -/
def otherBody : String := "/* \x7b */ \x7b type J interface { } \x7d "

theorem bodyText_otherBody : BodyText otherBody := by
  have hpair : Balanced [.mark .lbrace, .mark .rbrace] :=
    @Balanced.nested (.mark .lbrace) (.mark .rbrace) .curly [] [] rfl rfl .nil .nil
  refine ⟨by decide +kernel, (lex otherBody).dropLast, ⟨8, 32⟩, 33,
    by decide +kernel, ?_, ?_, ?_, ?_⟩
  · unfold Span.Covers
    decide +kernel
  · have htokens : (lex otherBody).dropLast.map Lexeme.token
        = .mark .lbrace :: ([.keyword .typeKw, .ident "J", .keyword .interfaceKw, .mark .lbrace,
          .mark .rbrace] ++ [.mark .rbrace]) := by decide +kernel
    rw [htokens]
    exact ⟨_, rfl, .plain rfl rfl (.plain rfl rfl (.plain rfl rfl hpair))⟩
  · have hlead : takeBytes 8 otherBody.toList
        = '/' :: '*' :: ([' ', '\x7b', ' '] ++ '*' :: '/' :: [' ']) := by decide +kernel
    rw [hlead]
    exact .comment (by decide) (by simp [Delimited.isLineBreak]) (.space rfl .nil)
  · have htrail : dropBytes 32 otherBody.toList = [' '] := by
      decide +kernel
    rw [htrail]
    exact .space rfl .nil

def otherValues : String := " func ( ) { } "

theorem valuesText_otherValues : ValuesText otherValues := by
  refine ⟨[.keyword .funcKw, .mark .lparen, .mark .rparen, .mark .lbrace, .mark .rbrace],
    ⟨by simp, .plain rfl rfl rfl ?_⟩,
    ⟨[.keyword .funcKw, .mark .lparen, .mark .rparen, .mark .lbrace], .mark .rbrace, rfl, rfl⟩,
    fun t ht => ⟨"func(){}", by decide +kernel, by revert t; decide +kernel⟩, by decide +kernel⟩
  exact @Unbroken.nested _ (.mark .lparen) (.mark .rparen) .round [] _ rfl rfl rfl .nil
    (@Unbroken.nested _ (.mark .lbrace) (.mark .rbrace) .curly [] [] rfl rfl rfl .nil .nil)

def storeSource : String :=
  "package p\n\nvar limit = max(1, 2)\n\nfunc max(a, b int) int { return b }\n\n"
    ++ "type Store interface { Put(k [2]int) }\n"

/-- Neither an interface in a body nor braces among the values make a difference. -/
theorem store_with_other_body_and_limit : ∃ f made m,
    File.ofSource storeSource = .ok (f, made) ∧
    f.MayReplace storeSource ⟨57, 69⟩ otherBody ∧
    f.MayReplace storeSource ⟨23, 32⟩ otherValues ∧
    FileModel.ofSource (fun _ => none) "p.go" storeSource "p" = .ok m ∧
    m.interfaces.map Interface.name = ["Store"] ∧
    FileModel.ofSource (fun _ => none) "p.go"
      (Span.replaced ⟨57, 69⟩ storeSource otherBody) "p" = .ok m ∧
    FileModel.ofSource (fun _ => none) "p.go"
      (Span.replaced ⟨23, 32⟩ storeSource otherValues) "p" = .ok m := by
  have hspans : (File.ofSource storeSource).toOption.map (fun p =>
      (p.1.decls.flatMap Decl.bodies, p.1.decls.flatMap Decl.values))
        = some ([⟨57, 69⟩], [⟨23, 32⟩]) := by decide +kernel
  have hnames : (FileModel.ofSource (fun _ => none) "p.go" storeSource "p").toOption.map
      (·.interfaces.map Interface.name) = some ["Store"] := by decide +kernel
  rcases hf : File.ofSource storeSource with e | ⟨f, made⟩
  · rw [hf] at hspans
    cases hspans
  rcases hm : FileModel.ofSource (fun _ => none) "p.go" storeSource "p" with e | m
  · rw [hm] at hnames
    cases hnames
  rw [hf] at hspans
  rw [hm] at hnames
  obtain ⟨hbodies, hvalues⟩ := Prod.mk.inj (Option.some_inj.1 hspans)
  have hnext : (lex storeSource).find? (32 ≤ ·.span.start) = some ⟨.mark .semi, ⟨32, 32⟩⟩ := by
    decide +kernel
  have hgap : (Span.mk 32 32).slice storeSource.toList = [] := by decide +kernel
  have hline : ¬ SemicolonBelow storeSource 32 := by
    rintro ⟨l, hl, -, c, hc, -⟩
    obtain rfl := Option.some_inj.1 (hnext.symm.trans hl)
    simp [hgap] at hc
  have hbody : f.MayReplace storeSource ⟨57, 69⟩ otherBody :=
    .body (by simp [hbodies]) bodyText_otherBody
  have hvalue : f.MayReplace storeSource ⟨23, 32⟩ otherValues :=
    .values (by simp [hvalues]) valuesText_otherValues hline
  exact ⟨f, made, m, rfl, hbody, hvalue, rfl, Option.some_inj.1 hnames,
    bodies_and_values_are_skipped hf hbody hm, bodies_and_values_are_skipped hf hvalue hm⟩

def unfinishedSumSource : String := "package p\nvar x = 1 +\n; type Store interface { }\n"

/-- The semicolon after the sum stands on a line of its own. A line may end after other values, and
then nothing is left for that semicolon to end. -/
theorem number_for_unfinished_sum : ∃ f made m,
    File.ofSource unfinishedSumSource = .ok (f, made) ∧
    ⟨18, 21⟩ ∈ f.decls.flatMap Decl.values ∧ ValuesText " 2 " ∧
    FileModel.ofSource (fun _ => none) "p.go" unfinishedSumSource "p" = .ok m ∧
    FileModel.ofSource (fun _ => none) "p.go" (Span.replaced ⟨18, 21⟩ unfinishedSumSource " 2 ") "p"
      = .error (.rejected ⟨"p.go", 3, 1⟩
        (.parse (.expected .declaration (.token (.mark .semi))))) := by
  have hspans : (File.ofSource unfinishedSumSource).toOption.map
      (·.1.decls.flatMap Decl.values) = some [⟨18, 21⟩] := by decide +kernel
  have hnames : (FileModel.ofSource (fun _ => none) "p.go" unfinishedSumSource "p").toOption.map
      (·.package) = some "p" := by decide +kernel
  rcases hf : File.ofSource unfinishedSumSource with e | ⟨f, made⟩
  · rw [hf] at hspans
    cases hspans
  rcases hm : FileModel.ofSource (fun _ => none) "p.go" unfinishedSumSource "p" with e | m
  · rw [hm] at hnames
    cases hnames
  rw [hf] at hspans
  have htext : ValuesText " 2 " := by
    refine ⟨[.literal .int "2"], ⟨by simp, .plain rfl rfl rfl .nil⟩, ⟨[], _, rfl, rfl⟩,
      fun t ht => ⟨"2", by decide +kernel, by revert t; decide +kernel⟩, by decide +kernel⟩
  have hfault : (FileModel.ofSource (fun _ => none) "p.go"
      (Span.replaced ⟨18, 21⟩ unfinishedSumSource " 2 ") "p").map (fun _ => ())
        = .error (.rejected ⟨"p.go", 3, 1⟩
          (.parse (.expected .declaration (.token (.mark .semi))))) := by decide +kernel
  refine ⟨f, made, m, rfl, by simp [Option.some_inj.1 hspans], htext, rfl, ?_⟩
  rcases hm' : FileModel.ofSource (fun _ => none) "p.go"
    (Span.replaced ⟨18, 21⟩ unfinishedSumSource " 2 ") "p" with e | m' <;> rw [hm'] at hfault
  · exact congrArg Except.error (Except.error.inj hfault)
  · cases hfault

end GoIface
