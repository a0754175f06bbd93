import GoIface.Proofs.Exchanging
import GoIface.Proofs.Independence
import GoIface.Proofs.Skipping

/-!
# Sources under their heads

A source is a head, a text of its own with the package clause and the imports, and the text that
goes on after it (`Headed`). Every source that is read falls apart so (`exists_headed`), and its
declarations are read from the text after the head alone: under another head they are the same, at
other places (`ofSource_reheaded`).
-/

namespace GoIface

open GoIface.Text

/-- The source is the text `h`, which reads as `head` and has no declarations, and then `d`. The
two do not run into one another, and all the imports are in the head. -/
structure Headed (source h d : String) (head : File) : Prop where
  text : source = h ++ d
  lexemes : lex source = lex h ++ (lex d).map (Lexeme.shift (byteCount h.toList))
  read : ∃ made, File.ofSource h = .ok (head, made)
  decls : head.decls = []
  rest : ¬ StartsWithImport d

/-- A text that is finished makes a head for whatever is written after it. -/
theorem Headed.of_finished {h d : String} {head : File} {made : Counts}
    (hread : File.ofSource h = .ok (head, made)) (hdecls : head.decls = []) (hfin : Finished h)
    (hd : ¬ StartsWithImport d) (hsound : ∀ l ∈ lex (h ++ d), l.fault? = none) :
    Headed (h ++ d) h d head := by
  obtain ⟨hs, -⟩ := read_ofSource hread
  exact ⟨rfl, lex_of_lineFeed hfin.lineFeed hs (head?_ne_of_lineFeed hfin.lineFeed hs hsound),
    ⟨made, hread⟩, hdecls, hd⟩

/-! ## Reading under a head -/

theorem getLast?_endsStatement {source : String} :
    ∀ l ∈ (lex source).getLast?, l.token.endsStatement = false := by
  intro l hl
  obtain ⟨init, hinit⟩ := List.getLast?_eq_some_iff.1 hl
  have hends : endsAfter false ((lex source).map Lexeme.token) = false :=
    endsAfter_lexemesFrom 0 false _
  rwa [hinit, List.map_append, endsAfter_append] at hends

namespace Parse

theorem Consumes.importDecl_endsLine {c : Cursor} : Consumes Parse.importDecl EndsLine c := by
  refine bump_advances.bind (R := EndsLine) (fun s c _ => Consumes.finish ?_)
    fun ts us _ hus => hus.after ts
  refine eat (Q := EndsLine) (R := EndsLine) (fun s c => ?_) ?_ (fun ts h => h.after [_])
    fun _ h => h
  · exact (block_endsLine rfl (fun c => importSpec.mono fun _ h => h.1) c).finish
  · exact (importSpec.mono fun _ h => h.2).finish

/-- Items that end lines make a row if the text is read to its end. -/
theorem Items.row_of_endsLine {α : Type} {more : Cursor → Bool} (hloops : Loops more declEnd)
    {item : Parse α} {c c' : Cursor} {xs : List α}
    (hitem : ∀ c, more c = true → Consumes item EndsLine c)
    (h : Items more declEnd item c xs c')
    (hlast : ∀ l ∈ c.rest.getLast?, l.token.endsStatement = false) : Row more item c xs c' := by
  induction h with
  | stop => exact .nil
  | @item c c₁ c₂ c' x xs hmore hx hend h ih =>
    obtain ⟨ms, hms, hends⟩ := hitem c hmore x c₁ hx
    rcases declEnd_cases hend with ⟨l, ls, hc, hl⟩ | hc
    · rw [hloops.semi hc hl] at hend
      cases hend
      refine .cons hmore hx hc hl (ih fun k hk => hlast k ?_)
      have hk : ls.getLast? = some k := hk
      simp [hms, hc, List.getLast?_append, List.getLast?_cons, hk]
    · have hrest : c₁.rest = [] := by simpa [Cursor.next?] using hc
      obtain ⟨init, t, ht, hstop⟩ := hends
      obtain ⟨ms₁, ms₂, rfl, rfl, hms₂⟩ := List.map_eq_append_iff.1 ht
      obtain ⟨l, rfl, rfl⟩ := List.map_eq_singleton_iff.1 hms₂
      have hfalse := hlast l (by simp [hms, hrest])
      simp [hstop] at hfalse

/-- A text without declarations is a head. -/
theorem head_of_source {h : String} {head : File} {made : Counts}
    (hread : File.ofSource h = .ok (head, made)) (hdecls : head.decls = []) :
    ∃ imports k, Head (.ofSource h) (head.package, head.name) imports k ∧ k.rest = [] ∧
      head.imports = imports.flatten := by
  obtain ⟨-, c, hfile, -⟩ := read_ofSource hread
  obtain ⟨c₁, imports, k, hclause, himports, hitems, hflat⟩ := file_eq_ok_iff.1 hfile
  rw [hdecls] at hitems
  have hrest : k.rest = [] := by
    cases hitems with
    | stop hstop => simpa [Cursor.atEnd] using hstop
  refine ⟨imports, k, ⟨c₁, hclause, ?_⟩, hrest, hflat⟩
  refine himports.row_of_endsLine loops_imports (fun _ _ => Consumes.importDecl_endsLine)
    fun l hl => @getLast?_endsStatement h l ?_
  obtain ⟨a, b, s, rest, name, hc, -, -, -, -, rfl⟩ := clause_eq_ok_iff.1 hclause
  have hl : rest.getLast? = some l := hl
  have hlex : lex h = a :: b :: s :: rest := hc
  simp [hlex, List.getLast?_cons, hl]

end Parse

section

variable {source h d : String} {head : File}

open Parse

/-- A source is its head and the declarations in the text after it. -/
theorem Headed.file_iff (hh : Headed source h d head) : ∃ k : Cursor, ∀ f c,
    file (.ofSource source) = .ok (f, c) ↔
      Items (!·.atEnd) declEnd decl (k.before ((lex d).map (Lexeme.shift (byteCount h.toList)))
        (byteCount source.toList)) f.decls c ∧
      f = ⟨head.package, head.name, head.imports, f.decls⟩ := by
  obtain ⟨made, hread⟩ := hh.read
  obtain ⟨imports, k, hhead, hk, hflat⟩ := head_of_source hread hh.decls
  obtain ⟨ls, hls, hsteady⟩ := hhead.steady
  rw [hk, List.append_nil] at hls
  obtain rfl : lex h = ls := hls
  have hhead := ofSource_before hh.lexemes ▸
    hsteady ((lex d).map (Lexeme.shift (byteCount h.toList))) (byteCount source.toList)
  have hstop : startsImport (k.before ((lex d).map (Lexeme.shift (byteCount h.toList)))
      (byteCount source.toList)) = false :=
    startsImport_of_lex (List.append_nil _).symm hh.rest (by simp)
  refine ⟨k, fun f c => (hhead.file_iff hstop).trans (and_congr_right fun _ => ?_)⟩
  obtain ⟨package, name, is, decls⟩ := f
  simp [hflat, eq_comm, and_assoc]

/-- What is read under a head is read under another one. -/
theorem ofSource_reheaded {source' h' : String} {head' f : File} {made : Counts}
    (hh : Headed source h d head) (hh' : Headed source' h' d head')
    (hread : File.ofSource source = .ok (f, made)) : ∃ (ds : List Decl) (a a' made' : Counts),
      f = ⟨head.package, head.name, head.imports,
        ds.map (Decl.placed (.shift (byteCount h.toList) a))⟩ ∧
      File.ofSource source' = .ok (⟨head'.package, head'.name, head'.imports,
        ds.map (Decl.placed (.shift (byteCount h'.toList) a'))⟩, made') := by
  obtain ⟨hsound, c, hfile, -⟩ := read_ofSource hread
  obtain ⟨made₀, hread'⟩ := hh'.read
  obtain ⟨hsound', -⟩ := read_ofSource hread'
  obtain ⟨k, hk⟩ := hh.file_iff
  obtain ⟨k', hk'⟩ := hh'.file_iff
  obtain ⟨hitems, hf⟩ := (hk f c).1 hfile
  have hparallel : (k.before ((lex d).map (Lexeme.shift (byteCount h.toList)))
      (byteCount source.toList)).Parallel (byteCount h.toList) (byteCount h'.toList)
      (k'.before ((lex d).map (Lexeme.shift (byteCount h'.toList)))
        (byteCount source'.toList)) :=
    ⟨lex d, byteCount d.toList, rfl, rfl, by simp [Cursor.before, hh.text],
      by simp [Cursor.before, hh'.text]⟩
  obtain ⟨ds, c', hds, hitems', -⟩ := Items.parallel (fun _ => Natural.decl)
    (fun _ => Fresh.decl) loops_decls (fun _ => Natural.declEnd) hparallel hitems
  refine ⟨ds, _, _, _, hds ▸ hf, ofSource_eq_ok_iff.2 ⟨fun l hl => ?_, c',
    (hk' ⟨head'.package, head'.name, head'.imports, _⟩ c').2 ⟨hitems', rfl⟩, rfl⟩⟩
  rw [hh.lexemes] at hsound
  rw [hh'.lexemes] at hl
  exact faultless_append_shift hsound hsound' l hl

end

/-! ## Every source has a head -/

namespace Parse

/-- No line may end after a row that starts where none could end. -/
theorem Row.exists_run {α : Type} {more : Cursor → Bool} {item : Parse α} {c c' : Cursor}
    {xs : List α} (htakes : ∀ c, more c = true → Consumes item (· ≠ []) c)
    (h : Row more item c xs c') :
    ∃ ls, c.rest = ls ++ c'.rest ∧ endsAfter false (ls.map Lexeme.token) = false := by
  induction h with
  | nil => exact ⟨[], rfl, rfl⟩
  | @cons c c₁ c' x xs l ls hmore hx hrest hl _ ih =>
    obtain ⟨ms, hms, -⟩ := htakes c hmore x c₁ hx
    obtain ⟨ks, hks, hends⟩ := ih
    obtain rfl : ls = ks ++ c'.rest := hks
    refine ⟨ms ++ l :: ks, by simp [hms, hrest], ?_⟩
    rw [List.map_append, endsAfter_append, List.map_cons, hl]
    exact hends

theorem Head.exists_run {c c' : Cursor} {p : Span × Ident} {imports : List (List ImportSpec)}
    (h : Head c p imports c') :
    ∃ ls, c.rest = ls ++ c'.rest ∧ endsAfter false (ls.map Lexeme.token) = false := by
  obtain ⟨c₁, hclause, hrow⟩ := h
  obtain ⟨a, b, l, rest, name, hc, ha, hb, hl, -, rfl⟩ := clause_eq_ok_iff.1 hclause
  obtain ⟨ls, hls, hends⟩ :=
    hrow.exists_run fun _ _ => Consumes.importDecl.mono fun _ h => h.ne_nil
  obtain rfl : rest = ls ++ c'.rest := hls
  refine ⟨a :: b :: l :: ls, hc, ?_⟩
  rw [List.map_cons, List.map_cons, List.map_cons, hl]
  exact hends

end Parse

section

variable {source : String} {f : File} {made : Counts}

open Parse

/-- A text may be cut before a lexeme where no line may end. -/
theorem lex_cut (hsound : ∀ l ∈ lex source, l.fault? = none) {before after : List Lexeme}
    {l : Lexeme} (hlex : lex source = before ++ l :: after) (hl : l.isInserted = false)
    (hends : endsAfter false (before.map Lexeme.token) = false) : ∃ h d, source = h ++ d ∧
      lex h = before ∧ (lex d).map (Lexeme.shift (byteCount h.toList)) = l :: after := by
  obtain ⟨ps, p, qs, hpieces, hp, htext, hps, hqs, hstart, -, hmade⟩ :=
    exists_pieces_before hsound hlex hl
  rw [hends] at hmade
  refine ⟨String.ofList (ps.flatMap (·.text)), String.ofList ((p :: qs).flatMap (·.text)), ?_, ?_,
    ?_⟩
  · rw [← String.toList_inj, htext]
    simp
  · rw [lex, String.toList_ofList, hps, ← List.append_nil ps, hmade]
    simp [lexemesFrom]
  · -- the text after the cut starts with a token, and not with a byte order mark
    have hmark : ((p :: qs).flatMap (·.text)).head? ≠ some '\ufeff' := by
      intro hmark
      obtain ⟨es, hes⟩ := List.head?_eq_some_iff.1 hmark
      have hkind : (Piece.scan '\ufeff' es).1 = .byteOrderMark := rfl
      rw [hes, pieces, List.cons.injEq] at hqs
      simp [← hqs.1, hkind] at hp
    have hrest := hmade (p :: qs)
    rw [← hpieces] at hrest
    rw [lex, String.toList_ofList, String.toList_ofList, hstart, ← lexemesFrom_moved hmark, hqs]
    exact List.append_cancel_left (hrest.symm.trans hlex)

/-- Every source that is read has a head. -/
theorem exists_headed (hread : File.ofSource source = .ok (f, made)) :
    ∃ h d head, Headed source h d head := by
  obtain ⟨hsound, c, hfile, -⟩ := read_ofSource hread
  obtain ⟨c₁, imports, k, hclause, himports, hitems, -⟩ := file_eq_ok_iff.1 hfile
  rcases hk : k.rest with _ | ⟨l, after⟩
  · -- without declarations the source is a head itself
    have hdecls := (hitems.of_stop (loops_decls.atEnd hk)).1
    have hnil : lex "" = [] := by simp [lex, pieces, lexemesFrom]
    exact ⟨source, "", f, by simp, by simp [hnil], ⟨made, hread⟩, hdecls,
      by simp [StartsWithImport, hnil]⟩
  · have hhead : Head (.ofSource source) (f.package, f.name) imports k :=
      ⟨c₁, hclause, himports.row_of_rest loops_imports (by simp [hk])⟩
    obtain ⟨ls, hls, hends⟩ := hhead.exists_run
    obtain ⟨ls', hls', hsteady⟩ := hhead.steady
    obtain rfl := List.append_cancel_right (hls.symm.trans hls')
    have hl : l.isInserted = false := by
      refine Lexeme.isInserted_of_ne fun hsemi => ?_
      have hnext : k.next? = some (.mark .semi) := by simp [Cursor.next?, hk, hsemi]
      generalize f.decls = ds at hitems
      cases hitems with
      | stop hstop => simp [Cursor.atEnd, hk] at hstop
      | item _ hdecl => rcases decl_cases hdecl with ⟨h, -⟩ | ⟨h, -⟩ | ⟨h, -⟩ | ⟨h, -⟩ <;>
          simp [hnext] at h
    have hlex : lex source = ls ++ l :: after := hk ▸ hls
    obtain ⟨h, d, hsource, hbefore, hafter⟩ := lex_cut hsound hlex hl hends
    have hhead' := hsteady [] (byteCount h.toList)
    rw [List.append_nil, ← hbefore] at hhead'
    have hfile' := (hhead'.file_iff (f := ⟨f.package, f.name, imports.flatten, []⟩)
      (loops_imports.atEnd rfl)).2 ⟨.stop (loops_decls.atEnd rfl), rfl, rfl⟩
    refine ⟨h, d, ⟨f.package, f.name, imports.flatten, []⟩, hsource, ?_,
      ⟨_, ofSource_eq_ok_iff.2 ⟨fun m hm => ?_, _, hfile', rfl⟩⟩, rfl, ?_⟩
    · rw [hbefore, hafter]
      exact hlex
    · exact hsound m (hlex ▸ List.mem_append_left _ (hbefore ▸ hm))
    · rintro ⟨m, hm, hstarts⟩
      obtain ⟨ms, hms⟩ := List.head?_eq_some_iff.1 hm
      rw [hms, List.map_cons, List.cons.injEq] at hafter
      have hstop := himports.stopped
      rw [startsImport, Cursor.next?, hk, ← hafter.1] at hstop
      simp [hstarts] at hstop

end

end GoIface
