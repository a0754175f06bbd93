import GoIface.Proofs.LineFeeds
import GoIface.Proofs.Parallel
import GoIface.Proofs.SpanSafety

/-!
# Declarations one after another

A file has a head, its package clause and its imports (`Parse.Head`). Where every item of a text
has a semicolon after it and the text ends in a line feed, another text may be written after it:
the lexemes of the one and of the other follow one another, and what is read of the first stays
as it is (`Head.steady`, `Row.steady`). So the interfaces of two texts of declarations after one
head are those of the one and those of the other (`declarations_are_independent`).
-/

namespace GoIface

open GoIface.Text

/-! ## Heads -/

namespace Parse

/-- The package clause and the imports, each with a semicolon after it. -/
def Head (c : Cursor) (p : Span × Ident) (imports : List (List ImportSpec)) (c' : Cursor) : Prop :=
  ∃ c₁, clause c = .ok (p, c₁) ∧ Row startsImport importDecl c₁ imports c'

theorem next?_of_startsImport {c : Cursor} (h : startsImport c = true) :
    c.next? = some (.keyword .importKw) :=
  eq_of_beq h

section

variable {c c' : Cursor} {p : Span × Ident} {imports : List (List ImportSpec)}

/-- A head is read the same however the text goes on after it. -/
theorem Head.steady (h : Head c p imports c') : ∃ ls, c.rest = ls ++ c'.rest ∧
    ∀ r e, Head (c.before (ls ++ r) e) p imports (c'.before r e) := by
  obtain ⟨c₁, hclause, hrow⟩ := h
  obtain ⟨a, b, l, rest, name, hc, ha, hb, hl, rfl, rfl⟩ := clause_eq_ok_iff.1 hclause
  obtain ⟨ls, hls, hsteady⟩ := hrow.steady loops_imports
    (fun _ _ => Consumes.importDecl.mono fun _ h => h.ne_nil)
    fun _ hmore => Steady.importDecl (next?_of_startsImport hmore)
  obtain rfl : rest = ls ++ c'.rest := hls
  refine ⟨a :: b :: l :: ls, hc, fun r e => ⟨_, ?_, hsteady r e⟩⟩
  exact clause_eq_ok_iff.2 ⟨a, b, l, ls ++ r, name, rfl, ha, hb, hl, rfl, rfl⟩

/-- A file is its head and its declarations. -/
theorem Head.file_iff {f : File} {c₂ : Cursor} (h : Head c p imports c')
    (hmore : startsImport c' = false) : file c = .ok (f, c₂) ↔
      Items (!·.atEnd) declEnd decl c' f.decls c₂ ∧ p = (f.package, f.name) ∧
        f.imports = imports.flatten := by
  obtain ⟨c₁, hclause, hrow⟩ := h
  have himports := hrow.append loops_imports (.stop hmore)
  rw [List.append_nil] at himports
  rw [file_eq_ok_iff]
  constructor
  · rintro ⟨c₁', is, c₂', hclause', his, hdecls, hflat⟩
    cases hclause.symm.trans hclause'
    obtain ⟨rfl, rfl⟩ := himports.functional his
    exact ⟨hdecls, rfl, hflat⟩
  · rintro ⟨hdecls, rfl, hflat⟩
    exact ⟨c₁, imports, c', hclause, himports, hdecls, hflat⟩

/-- Nothing is left after the declarations. -/
theorem Items.rest_eq_nil {ds : List Decl} (h : Items (!·.atEnd) declEnd decl c ds c') :
    c'.rest = [] := by
  induction h with
  | stop hstop => simpa [Cursor.atEnd] using hstop
  | item _ _ _ _ ih => exact ih

/-- A file without declarations that ends in a semicolon is a head. -/
theorem head_of_file {f : File} (hfile : file c = .ok (f, c')) (hdecls : f.decls = [])
    (hlast : ∀ l ∈ c.rest.getLast?, l.token = .mark .semi) :
    ∃ imports c₂, Head c (f.package, f.name) imports c₂ ∧ c₂.rest = [] := by
  obtain ⟨c₁, imports, c₂, hclause, himports, hdecls', -⟩ := file_eq_ok_iff.1 hfile
  rw [hdecls] at hdecls'
  have hrest : c₂.rest = [] := by
    cases hdecls' with
    | stop hstop => simpa [Cursor.atEnd] using hstop
  obtain ⟨a, b, l, rest, name, hc, -, -, -, -, rfl⟩ := clause_eq_ok_iff.1 hclause
  refine ⟨imports, c₂, ⟨_, hclause, ?_⟩, hrest⟩
  refine himports.row loops_imports (fun _ _ => Consumes.importDecl) hrest fun k hk => hlast k ?_
  have hk : rest.getLast? = some k := hk
  simp [hc, List.getLast?_cons, hk]

end

end Parse

/-- Files with one head are told apart by their declarations. -/
theorem File.eq_of_head {f g : File} (hclause : (g.package, g.name) = (f.package, f.name))
    (himports : g.imports = f.imports) : f = ⟨g.package, g.name, g.imports, f.decls⟩ := by
  obtain ⟨package, name, is, decls⟩ := f
  obtain ⟨rfl, rfl⟩ := Prod.mk.inj hclause
  rw [himports]

/-! ## One text after another -/

/-- The text ends in a line feed, and its lexemes end in a semicolon. -/
structure Finished (text : String) : Prop where
  lineFeed : text.toList.getLast? = some '\n'
  semicolon : ∀ l ∈ (lex text).getLast?, l.token = .mark .semi

/-- The text starts with an import. -/
def StartsWithImport (text : String) : Prop :=
  ∃ l ∈ (lex text).head?, l.token = .keyword .importKw

namespace Parse

theorem ofSource_before {s t : String} {ls : List Lexeme} (h : lex t = lex s ++ ls) :
    Cursor.ofSource t = (Cursor.ofSource s).before (lex s ++ ls) (byteCount t.toList) := by
  rw [Cursor.ofSource, h]
  rfl

theorem startsImport_of_lex {c : Cursor} {d : String} {n : Nat} {ls : List Lexeme}
    (hc : c.rest = (lex d).map (Lexeme.shift n) ++ ls) (hd : ¬ StartsWithImport d)
    (hls : ls.head?.map Lexeme.token ≠ some (.keyword .importKw)) : startsImport c = false := by
  refine Bool.eq_false_iff.2 fun hstarts => ?_
  have hnext := next?_of_startsImport hstarts
  rw [Cursor.next?, hc] at hnext
  rcases hlex : lex d with _ | ⟨l, ms⟩
  · rw [hlex] at hnext
    exact hls hnext
  · rw [hlex] at hnext
    exact hd ⟨l, by simp [hlex], by simpa using hnext⟩

theorem head?_of_not_startsWithImport {d : String} (hd : ¬ StartsWithImport d) (n : Nat) :
    ((lex d).map (Lexeme.shift n)).head?.map Lexeme.token ≠ some (.keyword .importKw) := by
  intro hhead
  rcases hlex : lex d with _ | ⟨l, ls⟩
  · simp [hlex] at hhead
  · exact hd ⟨l, by simp [hlex], by simpa [hlex] using hhead⟩

/-- Declarations that end as a finished text does make a row, whatever comes after them. -/
theorem row_of_finished {k c : Cursor} {s t : String} {ls : List Lexeme} {e : Nat} {ds : List Decl}
    (hlex : lex t = lex s ++ ls) (hfin : Finished t)
    (h : Items (!·.atEnd) declEnd decl (k.before ls e) ds c) (r : List Lexeme) (e' : Nat) :
    Row (!·.atEnd) decl (k.before (ls ++ r) e') ds (c.before r e') := by
  have hrow := h.row loops_decls (fun _ _ => Consumes.decl) h.rest_eq_nil fun l hl => by
    have hl : ls.getLast? = some l := hl
    refine hfin.semicolon l ?_
    simp [hlex, List.getLast?_append, hl]
  obtain ⟨ms, hms, hsteady⟩ := hrow.steady loops_decls
    (fun _ _ => Consumes.decl.mono fun _ h => h.ne_nil) fun _ _ => Steady.decl
  rw [h.rest_eq_nil, List.append_nil] at hms
  obtain rfl : ls = ms := hms
  exact hsteady r e'

end Parse

section

variable {h d₁ d₂ : String} {head f₁ f₂ : File} {made made₁ made₂ : Counts}
  (hh : File.ofSource h = .ok (head, made)) (hdecls : head.decls = []) (hfin : Finished h)
  (hfin₁ : Finished (h ++ d₁)) (hd₁ : ¬ StartsWithImport d₁) (hd₂ : ¬ StartsWithImport d₂)
  (h₁ : File.ofSource (h ++ d₁) = .ok (f₁, made₁)) (h₂ : File.ofSource (h ++ d₂) = .ok (f₂, made₂))

include hh hdecls hfin hfin₁ hd₁ hd₂ h₁ h₂

open Parse

/-- A file of two texts of declarations after one head has the declarations of the first text, and
those of the second one where they are now. -/
theorem ofSource_append : ∃ (ds : List Decl) (a a' made₃ : Counts),
    f₁ = ⟨head.package, head.name, head.imports, f₁.decls⟩ ∧
    f₂ = ⟨head.package, head.name, head.imports,
      ds.map (Decl.placed (.shift (byteCount h.toList) a))⟩ ∧
    File.ofSource (h ++ d₁ ++ d₂) = .ok (⟨head.package, head.name, head.imports, f₁.decls ++
      ds.map (Decl.placed (.shift (byteCount (h ++ d₁).toList) a'))⟩, made₃) := by
  obtain ⟨hs, c, hfile, -⟩ := read_ofSource hh
  obtain ⟨hs₁, c₁, hfile₁, -⟩ := read_ofSource h₁
  obtain ⟨hs₂, c₂, hfile₂, -⟩ := read_ofSource h₂
  have hmark₂ := head?_ne_of_lineFeed hfin.lineFeed hs hs₂
  have hlex₁ := lex_of_lineFeed hfin.lineFeed hs (head?_ne_of_lineFeed hfin.lineFeed hs hs₁)
  have hlex₂ := lex_of_lineFeed hfin.lineFeed hs hmark₂
  have hlex := lex_of_lineFeed hfin₁.lineFeed hs₁ hmark₂
  -- the head is read alike in the three texts
  obtain ⟨imports, k, hhead, hk⟩ := head_of_file hfile hdecls hfin.semicolon
  obtain ⟨-, -, himports⟩ := (hhead.file_iff (loops_imports.atEnd hk)).1 hfile
  obtain ⟨ls, hls, hsteady⟩ := hhead.steady
  rw [hk, List.append_nil] at hls
  obtain rfl : lex h = ls := hls
  have hread {d : String} {ms : List Lexeme} {f : File} {c : Cursor}
      (hlex : lex (h ++ d) = lex h ++ ms)
      (hms : startsImport (k.before ms (byteCount (h ++ d).toList)) = false) :
      file (.ofSource (h ++ d)) = .ok (f, c) ↔ _ :=
    (ofSource_before hlex ▸ hsteady ms (byteCount (h ++ d).toList)).file_iff hms
  obtain ⟨hitems₁, hclause₁, himports₁⟩ := (hread hlex₁ (startsImport_of_lex
    (List.append_nil _).symm hd₁ (by simp))).1 hfile₁
  obtain ⟨hitems₂, hclause₂, himports₂⟩ := (hread hlex₂ (startsImport_of_lex
    (List.append_nil _).symm hd₂ (by simp))).1 hfile₂
  -- the declarations of the second text are read after the first as after the head
  have hrow := row_of_finished hlex₁ hfin₁ hitems₁
    ((lex d₂).map (.shift (byteCount (h ++ d₁).toList))) (byteCount (h ++ (d₁ ++ d₂)).toList)
  have hparallel : (k.before ((lex d₂).map (.shift (byteCount h.toList)))
      (byteCount (h ++ d₂).toList)).Parallel (byteCount h.toList) (byteCount (h ++ d₁).toList)
      (c₁.before ((lex d₂).map (.shift (byteCount (h ++ d₁).toList)))
        (byteCount (h ++ (d₁ ++ d₂)).toList)) :=
    ⟨lex d₂, byteCount d₂.toList, rfl, rfl, by simp [Cursor.before],
      by simp [Cursor.before, Nat.add_assoc]⟩
  obtain ⟨ds, c₃, hds, hitems, -⟩ :=
    Items.parallel (fun _ => Natural.decl) (fun _ => Fresh.decl) loops_decls
      (fun _ => Natural.declEnd) hparallel hitems₂
  rw [String.append_assoc] at hlex ⊢
  rw [hlex₁, List.append_assoc] at hlex
  have hfile₃ := (hread (f := ⟨head.package, head.name, head.imports, _⟩) hlex
    (startsImport_of_lex rfl hd₁ (head?_of_not_startsWithImport hd₂ _))).2
    ⟨hrow.append loops_decls hitems, rfl, himports⟩
  refine ⟨ds, k.made, _, c₃.made, File.eq_of_head hclause₁ (himports.trans himports₁.symm), ?_,
    ofSource_eq_ok_iff.2 ⟨fun l hl => ?_, c₃, hfile₃, rfl⟩⟩
  · rw [Cursor.before_made] at hds
    rw [← hds]
    exact File.eq_of_head hclause₂ (himports.trans himports₂.symm)
  · rw [hlex, ← List.append_assoc, ← hlex₁] at hl
    rw [hlex₂] at hs₂
    exact faultless_append_shift hs₂ hs₁ l hl

omit hh hdecls hfin hfin₁ hd₁ hd₂ h₁ h₂ in
theorem Span.CutsOut.append {s : Span} {source : String} {text : List Char}
    (h : s.CutsOut source text) (d : String) : s.CutsOut (source ++ d) text := by
  obtain ⟨before, after, hsource, hs⟩ := h
  exact ⟨before, after ++ d.toList, by simp [hsource], hs⟩

omit hdecls hfin hfin₁ hd₁ hd₂ h₁ h₂ in
/-- Whatever is written after a head, it binds the same names. -/
theorem bindImports_append (resolve : Resolver) (d : String) :
    bindImports resolve (h ++ d) head.imports = bindImports resolve h head.imports := by
  refine bindImports_congr fun i hi => ?_
  obtain ⟨text, inside, hcut, -⟩ := (spansSafe_ofSource hh).paths i hi
  rw [hcut.slice_eq, (hcut.append d).slice_eq]

omit hh hdecls hfin hfin₁ hd₁ hd₂ h₂ in
/-- And so it is with the declarations that are there already. -/
theorem modelAll_append_text {bindings : Bindings} {importPath : String} {xs : List Interface}
    (hmodel : modelAll ⟨h ++ d₁, bindings, importPath⟩ f₁.decls = .ok xs) :
    modelAll ⟨h ++ d₁ ++ d₂, bindings, importPath⟩ f₁.decls = .ok xs := by
  have hscope : FileScope.Alike ⟨h ++ d₁ ++ d₂, bindings, importPath⟩
      ⟨h ++ d₁, bindings, importPath⟩ := ⟨rfl, rfl⟩
  rw [← mute_eq_ok_iff] at hmodel ⊢
  refine (mute_modelAll_congr hscope fun d hd root hroot u hu n elem hform => ?_).trans hmodel
  obtain ⟨text, hcut⟩ := (spansSafe_ofSource h₁).slices n (.length ⟨d, hd, root, hroot, hu⟩ hform)
  exact (hcut.append d₂).slice_eq.trans hcut.slice_eq.symm

end

/-- The interfaces of two texts of declarations, put after one head, are those of the first text
and those of the second. -/
theorem declarations_are_independent {h d₁ d₂ : String} {head : File} {made : Counts}
    (hh : File.ofSource h = .ok (head, made)) (hdecls : head.decls = []) (hfin : Finished h)
    (hfin₁ : Finished (h ++ d₁)) (hd₁ : ¬ StartsWithImport d₁) (hd₂ : ¬ StartsWithImport d₂)
    {resolve : Resolver} {name₁ name₂ importPath : String} {m₁ m₂ : FileModel}
    (h₁ : FileModel.ofSource resolve name₁ (h ++ d₁) importPath = .ok m₁)
    (h₂ : FileModel.ofSource resolve name₂ (h ++ d₂) importPath = .ok m₂) (name : String) :
    FileModel.ofSource resolve name h importPath = .ok ⟨head.name.name, []⟩ ∧
      m₁.package = head.name.name ∧ m₂.package = head.name.name ∧
      FileModel.ofSource resolve name (h ++ d₁ ++ d₂) importPath
        = .ok ⟨head.name.name, m₁.interfaces ++ m₂.interfaces⟩ := by
  obtain ⟨f₁, made₁, hf₁, hm₁⟩ := FileModel.ofSource_eq_ok_iff.1 h₁
  obtain ⟨f₂, made₂, hf₂, hm₂⟩ := FileModel.ofSource_eq_ok_iff.1 h₂
  obtain ⟨ds, a, a', made₃, hfields₁, hfields₂, hf⟩ :=
    ofSource_append hh hdecls hfin hfin₁ hd₁ hd₂ hf₁ hf₂
  obtain ⟨bindings, hbind, hmodel₁, hname₁⟩ := FileModel.ofFile_eq_ok_iff.1 hm₁
  obtain ⟨bindings₂, hbind₂, hmodel₂, hname₂⟩ := FileModel.ofFile_eq_ok_iff.1 hm₂
  -- the three texts bind the same names
  rw [hfields₁, bindImports_append hh] at hbind
  rw [hfields₂, bindImports_append hh] at hbind₂
  obtain rfl : bindings = bindings₂ := Except.ok.inj (hbind.symm.trans hbind₂)
  have hbind₃ := (bindImports_append hh resolve (d₁ ++ d₂)).trans hbind
  rw [← String.append_assoc] at hbind₃
  -- and the second declarations are converted alike after the first
  rw [hfields₂, ← mute_eq_ok_iff] at hmodel₂
  have hscope : FileScope.Alike ⟨h ++ d₁ ++ d₂, bindings, importPath⟩
      ⟨h ++ d₂, bindings, importPath⟩ := ⟨rfl, rfl⟩
  have hmodel := mute_eq_ok_iff.1 ((mute_modelAll_parallel hscope String.toList_append
    String.toList_append ds a' a).trans hmodel₂)
  refine ⟨FileModel.ofSource_eq_ok_iff.2 ⟨head, made, hh, FileModel.ofFile_eq_ok_iff.2
    ⟨bindings, hbind, by rw [hdecls]; rfl, rfl⟩⟩, by rw [hname₁, hfields₁],
    by rw [hname₂, hfields₂], FileModel.ofSource_eq_ok_iff.2 ⟨_, made₃, hf,
      FileModel.ofFile_eq_ok_iff.2 ⟨bindings, hbind₃, ?_, rfl⟩⟩⟩
  exact modelAll_append_eq_ok_iff.2 ⟨_, _, modelAll_append_text hf₁ hmodel₁, hmodel, rfl⟩

def queueHead : String := "package q\nimport list \"container/list\"\n"

def storeDecls : String :=
  "type Store interface { Put(k [2]list.Key); Len() int }\nvar size = max(1,\n2)\n"

/-- A text whose last declaration goes on to the end. -/
def queueDecls : String := "func max(int, int) int\ntype Queue interface { Pop() list.Node }"

theorem queue_after_store : ∃ head made m₁ m₂,
    File.ofSource queueHead = .ok (head, made) ∧ head.decls = [] ∧ Finished queueHead ∧
    Finished (queueHead ++ storeDecls) ∧ ¬ StartsWithImport storeDecls ∧
    ¬ StartsWithImport queueDecls ∧
    FileModel.ofSource (fun _ => none) "store.go" (queueHead ++ storeDecls) "q" = .ok m₁ ∧
    FileModel.ofSource (fun _ => none) "queue.go" (queueHead ++ queueDecls) "q" = .ok m₂ ∧
    m₁.interfaces.map Interface.name = ["Store"] ∧ m₂.interfaces.map Interface.name = ["Queue"] ∧
    FileModel.ofSource (fun _ => none) "both.go" queueHead "q" = .ok ⟨head.name.name, []⟩ ∧
    m₁.package = head.name.name ∧ m₂.package = head.name.name ∧
    FileModel.ofSource (fun _ => none) "both.go" (queueHead ++ storeDecls ++ queueDecls) "q"
      = .ok ⟨head.name.name, m₁.interfaces ++ m₂.interfaces⟩ := by
  have hhead : (File.ofSource queueHead).toOption.map (·.1.decls.length) = some 0 := by
    decide +kernel
  have hstore : (FileModel.ofSource (fun _ => none) "store.go" (queueHead ++ storeDecls)
      "q").toOption.map (·.interfaces.map Interface.name) = some ["Store"] := by
    decide +kernel
  have hqueue : (FileModel.ofSource (fun _ => none) "queue.go" (queueHead ++ queueDecls)
      "q").toOption.map (·.interfaces.map Interface.name) = some ["Queue"] := by
    decide +kernel
  have hfin : Finished queueHead := ⟨by decide +kernel, by decide +kernel⟩
  have hfin₁ : Finished (queueHead ++ storeDecls) := ⟨by decide +kernel, by decide +kernel⟩
  have hd₁ : ¬ StartsWithImport storeDecls := by
    unfold StartsWithImport
    decide +kernel
  have hd₂ : ¬ StartsWithImport queueDecls := by
    unfold StartsWithImport
    decide +kernel
  rcases hf : File.ofSource queueHead with e | ⟨head, made⟩
  · rw [hf] at hhead
    cases hhead
  rcases h₁ : FileModel.ofSource (fun _ => none) "store.go" (queueHead ++ storeDecls) "q" with
    e | m₁
  · rw [h₁] at hstore
    cases hstore
  rcases h₂ : FileModel.ofSource (fun _ => none) "queue.go" (queueHead ++ queueDecls) "q" with
    e | m₂
  · rw [h₂] at hqueue
    cases hqueue
  rw [hf] at hhead
  rw [h₁] at hstore
  rw [h₂] at hqueue
  have hdecls : head.decls = [] := List.eq_nil_of_length_eq_zero (Option.some_inj.1 hhead)
  exact ⟨head, made, m₁, m₂, rfl, hdecls, hfin, hfin₁, hd₁, hd₂, rfl, rfl,
    Option.some_inj.1 hstore, Option.some_inj.1 hqueue,
    declarations_are_independent hf hdecls hfin hfin₁ hd₁ hd₂ h₁ h₂ "both.go"⟩

end GoIface
