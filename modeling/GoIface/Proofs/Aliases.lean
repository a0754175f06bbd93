import GoIface.Proofs.ImportTable
import GoIface.Proofs.RenamedModels
import GoIface.Proofs.RenamedTrees
import GoIface.Proofs.Respellings
import GoIface.Proofs.SameTokens
import GoIface.Proofs.Skipping
import GoIface.Proofs.SpanSafety

/-!
# Renaming an alias

The alias of an import is written in its clause and as the qualifier of types. Where another name
is written in these places and in no others, the table of imports has the new name for what the old
one stood for (`File.RenamesAlias.rebound`), and the types are told apart as they were. No
identifier stands in a length that is read (`apart_of_arrayLength`), and whatever else is cut out of
the source only moves. So the model is the same (`ofSource_renamed_alias`).
-/

namespace GoIface

/-! ## Lengths hold no identifiers -/

namespace Text

theorem mem_trim {cs : List Char} {c : Char} (hc : c ∈ cs) (hblank : isBlank c = false) :
    c ∈ trim cs := by
  have hdrop {cs : List Char} (hc : c ∈ cs) : c ∈ cs.dropWhile isBlank := by
    rw [← List.takeWhile_append_dropWhile (p := isBlank) (l := cs)] at hc
    refine (List.mem_append.1 hc).resolve_left fun htake => ?_
    simp [List.mem_takeWhile_imp htake] at hblank
  rw [trim, trimBy]
  exact List.mem_reverse.2 (hdrop (List.mem_reverse.2 (hdrop hc)))

theorem isBlank_of_isLetter {c : Char} (h : isLetter c = true) : isBlank c = false := by
  have hall : ∀ n ∈ blankRanges.flatMap fun r => List.range' r.1 (r.2 + 1 - r.1),
      letterRanges.has n = false := by
    decide +kernel
  refine Bool.eq_false_iff.2 fun hblank => ?_
  rw [isLetter, hall _ (Ranges.mem_of_has hblank)] at h
  cases h

end Text

theorem Piece.isBlank_of_startsIdent {c : Char} (h : startsIdent c = true) :
    Text.isBlank c = false := by
  rcases Bool.or_eq_true _ _ ▸ h with h | h
  · exact Text.isBlank_of_isLetter h
  · obtain rfl := eq_of_beq h
    decide

theorem digits_of_readDigits {n k : Nat} {cs : List Char} (h : readDigits n cs = .ok k) :
    ∀ c ∈ cs, c.isDigit = true := by
  induction cs generalizing n with
  | nil => simp
  | cons c cs ih =>
    unfold readDigits at h
    split at h
    · cases h
    · next hc =>
      dsimp only at h
      split at h
      · exact List.forall_mem_cons.2 ⟨by simpa using hc, ih h⟩
      · cases h

theorem digits_of_readLength {k : Nat} {cs : List Char} (h : readLength cs = .ok k) :
    ∀ c ∈ cs, c.isDigit = true ∨ c = '+' := by
  unfold readLength at h
  split at h
  · cases h
  · cases h
  · exact List.forall_mem_cons.2 ⟨.inr rfl, fun c hc => .inl (digits_of_readDigits h c hc)⟩
  · exact fun c hc => .inl (digits_of_readDigits h c hc)

/-- No identifier starts in the text of a length. -/
theorem startsIdent_of_readLength {k : Nat} {cs : List Char}
    (h : readLength (Text.trim cs) = .ok k) : ∀ c ∈ cs, Piece.startsIdent c = false := by
  intro c hc
  refine Bool.eq_false_iff.2 fun hstarts => ?_
  have hmem := Text.mem_trim hc (Piece.isBlank_of_startsIdent hstarts)
  rcases digits_of_readLength h c hmem with hdigit | rfl
  · rw [Piece.startsIdent_of_isDigit hdigit] at hstarts
    cases hstarts
  · revert hstarts
    decide

theorem FileScope.readLength_of_arrayLength {scope : FileScope} {n : Span} {k : Nat}
    (h : scope.arrayLength n = .ok k) :
    readLength (Text.trim (n.slice scope.source.toList)) = .ok k := by
  unfold arrayLength at h
  dsimp only at h
  split at h
  · next hk => exact hk.trans (by cases h; rfl)
  · cases h

/-- What is cut out inside another stretch is written in it. -/
theorem Span.CutsOut.isInfix {s t : Span} {source : String} {cs ds : List Char}
    (hs : s.CutsOut source cs) (ht : t.CutsOut source ds) (hstart : t.start ≤ s.start)
    (hstop : s.stop ≤ t.stop) : cs <:+: ds := by
  obtain ⟨before, after, hsource, rfl⟩ := hs
  obtain ⟨before', after', hsource', rfl⟩ := ht
  have hprefix : before ++ cs <+: source.toList :=
    ⟨after, by rw [hsource, List.append_assoc]⟩
  have hprefix' : before' ++ ds <+: source.toList :=
    ⟨after', by rw [hsource', List.append_assoc]⟩
  have hbefore : before' <+: before := prefix_of_byteCount_le
    ((List.prefix_append _ _).trans hprefix') ((List.prefix_append _ _).trans hprefix) hstart
  obtain ⟨gap, rfl⟩ := hbefore
  have hcut := prefix_of_byteCount_le hprefix hprefix' (by
    rw [byteCount_append, byteCount_append before' ds]
    exact hstop)
  rw [List.append_assoc, List.prefix_append_right_inj] at hcut
  exact (List.suffix_append gap cs).isInfix.trans hcut.isInfix

section

variable {source : String} (hsound : ∀ l ∈ lex source, l.fault? = none)

include hsound

/-- An identifier is written with a letter or a bar first. -/
theorem exists_startsIdent {l : Lexeme} (hl : l ∈ lex source) {x : String}
    (hx : l.token = .ident x) :
    ∃ c cs, l.span.CutsOut source (c :: cs) ∧ Piece.startsIdent c = true := by
  have hwritten : l.isInserted = false := Lexeme.isInserted_of_ne (by simp [hx])
  obtain ⟨before, text, after, hsource, hspan, -⟩ := id ((tiled_lex source).standsIn l hl)
  have hcut : l.span.CutsOut source text :=
    ⟨before, after, hsource, by rw [hspan, Nat.zero_add]⟩
  have htext := ((tiled_lex source).standsIn l hl).text_eq hwritten (hsound l hl)
  rw [Span.text, hcut.slice_eq, hx] at htext
  have hname : x.toList = text := by
    rw [← String.toList_ofList (l := text), htext]
    rfl
  have hident : Piece.isIdentifier x = true := by
    have hspelled := wellSpelled_lex source l hl
    rwa [hx] at hspelled
  obtain ⟨c, cs, hc, hstarts, -⟩ := Piece.isWord_of_isIdentifier hident
  exact ⟨c, cs, by rw [← hc, hname]; exact hcut, hstarts⟩

/-- No identifier stands in a length that is read. -/
theorem apart_of_arrayLength {scope : FileScope} (hscope : scope.source = source) {n : Span}
    {k : Nat} (hn : n.AtLexemes (lex source)) (hk : scope.arrayLength n = .ok k) {l : Lexeme}
    (hl : l ∈ lex source) {x : String} (hx : l.token = .ident x) :
    l.span.stop ≤ n.start ∨ n.stop ≤ l.span.start := by
  by_contra hinside
  obtain ⟨⟨a, ha, hstart⟩, ⟨b, hb, hstop⟩, -⟩ := id hn
  have hle (m : Lexeme) (hm : m ∈ lex source) : m.span.start ≤ m.span.stop :=
    ((LexedText.ofSource source).bounded m hm).1
  have hfrom : n.start ≤ l.span.start := by
    by_cases heq : a = l
    · rw [hstart, heq]
    · have := hle a ha
      have := apart_of_ne ha hl heq
      omega
  have hto : l.span.stop ≤ n.stop := by
    by_cases heq : b = l
    · rw [hstop, heq]
    · have := hle b hb
      have := apart_of_ne hb hl heq
      omega
  obtain ⟨text, hcut⟩ := hn.cutsOut
  obtain ⟨c, cs, hcut', hstarts⟩ := exists_startsIdent hsound hl hx
  have hmem : c ∈ text := (hcut'.isInfix hcut hfrom hto).subset (.head _)
  have hread := FileScope.readLength_of_arrayLength hk
  rw [hscope, hcut.slice_eq] at hread
  rw [startsIdent_of_readLength hread c hmem] at hstarts
  cases hstarts

end

/-! ## Tables under another name -/

namespace Bindings

variable {table : Bindings} {f : String → String}

/-- A table is looked up under new names as under the old ones, if no two names are confused. -/
theorem lookup_map {x : String} (h : ∀ b ∈ table, f x = f b.1 → x = b.1) :
    List.lookup (f x) (table.map (Prod.map f id)) = table.lookup x := by
  induction table with
  | nil => rfl
  | cons b table ih =>
    obtain ⟨hb, htable⟩ := List.forall_mem_cons.1 h
    obtain ⟨y, path⟩ := b
    rw [List.map_cons, Prod.map, List.lookup_cons, List.lookup_cons, ih htable]
    by_cases hxy : x = y
    · rw [hxy]
      simp
    · have hne : (x == y) = false ∧ (f x == f y) = false :=
        ⟨beq_false_of_ne hxy, beq_false_of_ne (mt hb hxy)⟩
      rw [hne.1, hne.2]

theorem pairwise_map (h : table.Pairwise fun a b => a.1 ≠ b.1)
    (hf : ∀ a ∈ table, ∀ b ∈ table, f a.1 = f b.1 → a.1 = b.1) :
    (table.map (Prod.map f id)).Pairwise fun a b => a.1 ≠ b.1 := by
  rw [List.pairwise_map]
  exact h.imp_of_mem fun ha hb hne heq => hne (hf _ ha _ hb heq)

end Bindings

/-- The new name in place of the old one. -/
def Respelling.swap (R : Respelling) (x : String) : String := if x = R.old then R.new else x

theorem Respelling.swap_inj {R : Respelling} {x y : String} (hx : x ≠ R.new) (hy : y ≠ R.new)
    (h : R.swap x = R.swap y) : x = y := by
  unfold swap at h
  split at h <;> split at h <;> simp_all

/-! ## Files under another name -/

def ImportSpec.alias? (i : ImportSpec) : Option Ident :=
  match i.name with
  | some (.name x) => some x
  | _ => none

/-- The qualifier is respelled if it is the old name, and no other identifier of the form is. -/
structure TypeForm.Renames {α : Type} (R : Respelling) (form : TypeForm α) : Prop where
  qualifier : ∀ q ∈ form.qualifier?, q.name = R.old → R.places q.span.start = true
  names : ∀ x ∈ form.names, R.places x.span.start = false

/-- The identifier is an alias of an import. It is respelled as this alias and as a qualifier of
all the types in the file, and whatever else is named so in the model keeps its name. -/
structure File.RenamesAlias (f : File) (R : Respelling) : Prop where
  aliased : ∃ i ∈ f.imports, ∃ x ∈ i.alias?, x.name = R.old
  imports : ∀ i ∈ f.imports, ∀ x ∈ i.alias?, x.name = R.old → R.places x.span.start = true
  types : ∀ t, f.HasType t → t.form.Renames R
  declared : ∀ d ∈ f.decls, ∀ s ∈ d.typeSpecs, R.places s.name.span.start = false
  package : R.places f.name.span.start = false

section

variable {α β : Type} {R : Respelling}

theorem Field.names_map (g : α → β) (x : Field α) : (x.map g).names = x.names := rfl

theorem TypeForm.names_map (g : α → β) (form : TypeForm α) : (form.map g).names = form.names := by
  have hlist (l : FieldList α) : (l.map g).names = l.names := by
    simp [FieldList.names, FieldList.map, List.flatMap_map, Field.names_map]
  have hsignature (s : Signature α) : (s.map g).names = s.names := by
    rcases s with ⟨_, _, _, _ | _ | _⟩ <;>
      simp [Signature.names, Signature.map, Results.names, Results.map, hlist]
  have helement (e : Element α) : (e.map g).names = e.names := by
    cases e <;> simp [Element.names, Element.map, hsignature]
  cases form <;>
    simp [names, map, List.flatMap_map, Field.names_map, hsignature, helement]

theorem TypeForm.renames_map_iff (g : α → β) (form : TypeForm α) :
    (form.map g).Renames R ↔ form.Renames R := by
  have hqualifier : (form.map g).qualifier? = form.qualifier? := by cases form <;> rfl
  constructor <;> rintro ⟨hq, hnames⟩
  · exact ⟨hqualifier ▸ hq, TypeForm.names_map g form ▸ hnames⟩
  · exact ⟨hqualifier.symm ▸ hq, (TypeForm.names_map g form).symm ▸ hnames⟩

instance (form : TypeForm α) : Decidable (form.Renames R) :=
  decidable_of_iff ((∀ q ∈ form.qualifier?, q.name = R.old → R.places q.span.start = true) ∧
      ∀ x ∈ form.names, R.places x.span.start = false)
    ⟨fun h => ⟨h.1, h.2⟩, fun h => ⟨h.1, h.2⟩⟩

/-- Whether all the types in a type are respelled so. -/
def TypeNode.renames (R : Respelling) (t : TypeNode) : Bool :=
  t.fold fun _ _ form => decide (form.Renames R) && form.children.all id

theorem TypeNode.renames_iff {t : TypeNode} :
    t.renames R = true ↔ ∀ u : TypeNode, u.Within t → u.form.Renames R := by
  induction t using TypeNode.induct with
  | h serial span form ih =>
    rw [renames, fold_mk, Bool.and_eq_true, decide_eq_true_iff, TypeForm.renames_map_iff,
      TypeForm.children_map, List.all_map, List.all_eq_true]
    constructor
    · rintro ⟨hform, hchildren⟩ u (_ | ⟨hv, hu⟩)
      · exact hform
      · exact (ih _ hv).1 (hchildren _ hv) u hu
    · intro h
      exact ⟨h _ .self, fun v hv => (ih v hv).2 fun u hu => h u (.child hv hu)⟩

instance (f : File) : Decidable (f.RenamesAlias R) :=
  decidable_of_iff ((∃ i ∈ f.imports, ∃ x ∈ i.alias?, x.name = R.old) ∧
      (∀ i ∈ f.imports, ∀ x ∈ i.alias?, x.name = R.old → R.places x.span.start = true) ∧
      (∀ d ∈ f.decls, ∀ root ∈ d.roots, root.renames R = true) ∧
      (∀ d ∈ f.decls, ∀ s ∈ d.typeSpecs, R.places s.name.span.start = false) ∧
      R.places f.name.span.start = false) <| by
    constructor
    · rintro ⟨haliased, himports, htypes, hdeclared, hpackage⟩
      refine ⟨haliased, himports, ?_, hdeclared, hpackage⟩
      rintro t ⟨d, hd, root, hroot, ht⟩
      exact TypeNode.renames_iff.1 (htypes d hd root hroot) t ht
    · rintro ⟨haliased, himports, htypes, hdeclared, hpackage⟩
      exact ⟨haliased, himports, fun d hd root hroot => TypeNode.renames_iff.2 fun t ht =>
        htypes t ⟨d, hd, root, hroot, ht⟩, hdeclared, hpackage⟩

end

section

variable {R : Respelling} {source source' : String} {f : File} {made : Counts}
  (hread : File.ofSource source = .ok (f, made)) (hspell : R.Respells source source')

include hread hspell

/-- The text is read as it was, but for the names and the places. -/
theorem ofSource_respelled : ∃ made', File.ofSource source'
    = .ok ((f.renamed R.rename).placed (R.placement source), made') := by
  obtain ⟨hsound, c, hfile, -⟩ := read_ofSource hread
  obtain ⟨hlex, hkeeps⟩ := hspell.lex_eq
  have hzero : (R.placement source).place 0 = 0 :=
    Respelling.place_self (fun p hp => Piece.size_pos hp) 0 0
  have hcursor : Cursor.ofSource source'
      = ((Cursor.ofSource source).renamed R.rename).placed (R.placement source) := by
    simp only [Cursor.ofSource, Cursor.ofLexemes, Cursor.renamed, Cursor.placed, Span.placed, hzero,
      hspell.place_textEnd, hlex]
    rfl
  have hrenamed := Parse.Renames.file (ρ := R.rename) _ _ _ hfile
  have hplaced := (Parse.Natural.file.made hkeeps hrenamed).1
  rw [← hcursor] at hplaced
  refine ⟨_, ofSource_eq_ok_iff.2 ⟨fun l hl => ?_, _, hplaced, rfl⟩⟩
  rw [hlex, List.map_map] at hl
  obtain ⟨k, hk, rfl⟩ := List.mem_map.1 hl
  have hfault := k.renamed_congr R.rename (g := fun t => Lexeme.fault? ⟨t, k.span⟩) fun _ _ => rfl
  exact hfault.trans (hsound k hk)

end

section

variable {R : Respelling} {resolve : Resolver} {source source' importPath : String} {f : File}
  {made : Counts} {table : Bindings}

theorem name_of_alias? {i : ImportSpec} {x : Ident} (h : i.alias? = some x) :
    i.name = some (.name x) := by
  unfold ImportSpec.alias? at h
  split at h
  · next hname => rw [hname, Option.some.inj h]
  · cases h

theorem Respelling.rename_eq_swap {x : Ident} (h : x.name = R.old → R.places x.span.start = true) :
    R.rename.name x = R.swap x.name := by
  rw [rename_name, swap]
  by_cases hx : x.name = R.old
  · simp [hx, h hx]
  · simp [hx]

/-- A path is written as it was. -/
theorem value_respelled (hread : File.ofSource source = .ok (f, made))
    (hspell : R.Respells source source') {i : ImportSpec} (hi : i ∈ f.imports) :
    (i.path.placed (R.placement source)).value source' = i.path.value source := by
  obtain ⟨-, c, hok, -⟩ := read_ofSource hread
  obtain ⟨l, hl, hspan, text, htoken⟩ :=
    LexedText.path_of_import (LexedText.at_ofSource source) hok hi
  have hslice : (i.path.span.placed (R.placement source)).slice source'.toList
      = i.path.span.slice source.toList := by
    refine hspell.slice_placed ?_ fun k hk hchanges => ?_
    · refine ((spansSafe_ofSource hread).places _ ?_).1
      refine .tail _ (.tail _ (List.mem_append_left _ (List.mem_flatMap.2 ⟨i, hi, ?_⟩)))
      simp [ImportSpec.places]
    · rw [hspan]
      refine apart_of_ne hk hl ?_
      rintro rfl
      simp [hchanges.2] at htoken
  unfold StringLiteral.value
  exact congrArg (fun cs => if byteCount cs < 2 then "" else String.ofList cs.tail.dropLast) hslice

/-- What binds the identifier is named so. -/
theorem File.RenamesAlias.named_of_binds (hrename : f.RenamesAlias R)
    (honce : BoundOnce resolve source f.imports) {i : ImportSpec} (hi : i ∈ f.imports)
    (h : i.Binds resolve source R.old) : ∃ x, i.name = some (.name x) := by
  obtain ⟨j, hj, x, hx, hold⟩ := hrename.aliased
  have hx := name_of_alias? hx
  have hbinds : j.Binds resolve source R.old := hold ▸ .named hx
  by_contra hnamed
  have hne : i ≠ j := by
    rintro rfl
    exact hnamed ⟨x, hx⟩
  let Apart (i j : ImportSpec) : Prop :=
    ∀ x, i.Binds resolve source x → ¬ j.Binds resolve source x
  have : Std.Symm Apart := ⟨fun _ _ hapart x hj hi => hapart x hi hj⟩
  have hapart : f.imports.Pairwise Apart := honce
  exact hapart.forall hi hj hne _ h hbinds

theorem boundName_respelled {path : String} {name : Option ImportName}
    (halias : ∀ x, name = some (.name x) → x.name = R.old → R.places x.span.start = true)
    (hnamed : boundName resolve path name = some R.old → ∃ x, name = some (.name x)) :
    boundName resolve path (name.map (ImportName.renamed R.rename))
      = (boundName resolve path name).map R.swap := by
  have hkept {y : String} (hname : ∀ x, name ≠ some (.name x))
      (hy : boundName resolve path name = some y) : R.swap y = y := by
    refine if_neg ?_
    rintro rfl
    obtain ⟨x, hx⟩ := hnamed hy
    exact hname x hx
  rcases name with _ | s | s | x
  · exact congrArg some (hkept (by simp) rfl).symm
  · exact congrArg some (hkept (by simp) rfl).symm
  · rfl
  · exact congrArg some (R.rename_eq_swap (halias x rfl))

/-- The imports bind to their paths what they bound, but for the new name. -/
theorem importBindings_respelled (hread : File.ofSource source = .ok (f, made))
    (hspell : R.Respells source source') (hrename : f.RenamesAlias R)
    (honce : BoundOnce resolve source f.imports) :
    importBindings resolve source' ((f.renamed R.rename).placed (R.placement source)).imports
      = (importBindings resolve source f.imports).map (Prod.map R.swap id) := by
  rw [importBindings, importBindings, List.map_filterMap]
  show List.filterMap _ ((f.imports.map _).map _) = _
  rw [List.filterMap_map, List.filterMap_map]
  refine List.filterMap_congr fun i hi => ?_
  have hvalue : ((i.renamed R.rename).placed (R.placement source)).path.value source'
      = i.path.value source := value_respelled hread hspell (i := i) hi
  have hbound : boundName resolve (i.path.value source)
      ((i.renamed R.rename).placed (R.placement source)).name
        = (boundName resolve (i.path.value source) i.name).map R.swap := by
    refine (boundName_placed _ _ _ _).trans (boundName_respelled (fun x hx => ?_) fun hbinds => ?_)
    · exact hrename.imports i hi x (by simp [ImportSpec.alias?, hx])
    · exact hrename.named_of_binds honce hi (ImportSpec.binds_iff.2 hbinds)
  simp only [Function.comp_apply, hvalue, hbound, Option.map_map]
  rfl

/-- Under the new table the types are as under the old one. -/
theorem File.RenamesAlias.rebound (hread : File.ofSource source = .ok (f, made))
    (hspell : R.Respells source source') (hrename : f.RenamesAlias R)
    (htable : ∀ b ∈ table, b.1 ≠ R.new) {t : TypeNode} (ht : f.HasType t) :
    t.form.Rebound R.rename (R.placement source) ⟨source, table, importPath⟩
      ⟨source', table.map (Prod.map R.swap id), importPath⟩ := by
  obtain ⟨hqualifier, hnames⟩ := hrename.types t ht
  refine ⟨fun x hx => ?_, fun {q path} hq hpath => ?_, fun {n elem} hform k hk => ?_⟩
  · simp [hnames x hx]
  · have hbound : q.name ≠ R.new := by
      obtain ⟨before, after, rfl, -⟩ := List.lookup_eq_some_iff.1 hpath
      exact htable (q.name, path) (List.mem_append_right _ (.head _))
    rw [R.rename_eq_swap (hqualifier q hq)]
    refine (Bindings.lookup_map fun b hb heq => ?_).trans hpath
    exact Respelling.swap_inj hbound (htable b hb) heq
  · have hn : n.AtLexemes (lex source) := by
      refine atLexemes_of_hasType hread ht n (TypeNode.places_of_form ?_)
      simp [hform, TypeForm.map, TypeForm.places]
    have hslice : (n.placed (R.placement source)).slice source'.toList
        = n.slice source.toList :=
      hspell.slice_placed hn fun l hl hchanges =>
        apart_of_arrayLength (read_ofSource hread).1 rfl hn hk hl hchanges.2
    have htext := FileScope.readLength_of_arrayLength hk
    simp only [FileScope.arrayLength, hslice, htext]

/-- A file has the model that it had if an alias is renamed, with all qualifiers that are so, to a
name that nothing is bound to. -/
theorem ofSource_renamed_alias {name name' : String} {m : FileModel}
    (hread : File.ofSource source = .ok (f, made))
    (hmodel : FileModel.ofSource resolve name source importPath = .ok m)
    (hspell : R.Respells source source') (hrename : f.RenamesAlias R)
    (hfree : ∀ i ∈ f.imports, ¬ i.Binds resolve source R.new)
    (hold : R.old ≠ importPath) (hnew : R.new ≠ importPath) :
    FileModel.ofSource resolve name' source' importPath = .ok m := by
  obtain ⟨f', made', hread', hofFile⟩ := FileModel.ofSource_eq_ok_iff.1 hmodel
  obtain ⟨rfl, -⟩ := Prod.mk.inj (Except.ok.inj (hread.symm.trans hread'))
  obtain ⟨table, hbind, hall, hpackage⟩ := FileModel.ofFile_eq_ok_iff.1 hofFile
  obtain ⟨honce, htable⟩ := bindImports_eq_ok_iff.1 hbind
  have hunbound : ∀ b ∈ table, b.1 ≠ R.new := by
    intro b hb hnewName
    obtain ⟨i, hi, hbinds, -⟩ := mem_importBindings_iff.1 (htable ▸ hb)
    exact hfree i hi (hnewName ▸ hbinds)
  obtain ⟨made'', hrespelled⟩ := ofSource_respelled hread hspell
  have hbindings := importBindings_respelled hread hspell hrename honce
  rw [htable] at hbindings
  refine FileModel.ofSource_eq_ok_iff.2 ⟨_, _, hrespelled, FileModel.ofFile_eq_ok_iff.2
    ⟨table.map (Prod.map R.swap id), ?_, ?_, ?_⟩⟩
  · refine bindImports_eq_ok_iff.2 ⟨?_, hbindings⟩
    rw [← pairwise_importBindings_iff, hbindings]
    refine Bindings.pairwise_map ?_ fun a ha b hb heq =>
      Respelling.swap_inj (hunbound a ha) (hunbound b hb) heq
    rw [← htable]
    exact pairwise_importBindings_iff.2 honce
  · refine carries_modelAll_renamed ?_ (fun d hd s hs => ⟨fun u hu => ?_, ?_⟩) _ hall
    · have hswap : R.swap importPath = importPath := if_neg hold.symm
      have hlookup := @Bindings.lookup_map table R.swap importPath
        fun b hb heq => Respelling.swap_inj hnew.symm (hunbound b hb) heq
      rw [hswap] at hlookup
      simp only [FileScope.ownPackage, hlookup]
    · exact hrename.rebound hread hspell hunbound ⟨d, hd, _, Decl.type_mem_roots hs, hu⟩
    · simp [hrename.declared d hd s hs]
  · rw [hpackage]
    simp [File.placed, File.renamed, Ident.placed, Ident.renamed, hrename.package]

end

end GoIface
