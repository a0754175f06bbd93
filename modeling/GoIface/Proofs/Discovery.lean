import GoIface.Proofs.FileContents
import GoIface.Proofs.FileModels
import Mathlib.Data.List.Forall2
import Mathlib.Data.List.Pairwise

/-!
# The interfaces that are found

The interfaces of a file are those that its top level names: the type specs, in a group or alone,
whose type is written out as an interface (`interfaces_are_declared`). A reader of the tree meets
no other type specs, wherever it looks, and a type is written out as an interface just where the
keyword stands at its start.
-/

namespace GoIface

variable {α β : Type}

def File.typeSpecs (f : File) : List TypeSpec := f.decls.flatMap Decl.typeSpecs

/-- The spec names an interface literal, whose elements are the methods under their names. -/
structure TypeSpec.Declares (s : TypeSpec) (i : Interface) : Prop where
  name : i.name = s.name.name
  methods : ∃ keyword elements, s.type.form = .interface keyword elements ∧
    List.Forall₂ (fun e (m : Method) => ∃ x signature, e = .method x signature ∧ m.name = x.name)
      elements i.methods

/-! ## From specs to interfaces -/

theorem Convert.ok_of_bind {x : Convert α} {f : α → Convert β} {b : β} (h : x >>= f = .ok b) :
    ∃ a, x = .ok a ∧ f a = .ok b := by
  rcases x with e | a
  · cases h
  · exact ⟨a, rfl, h⟩

theorem forall₂_of_mapM {f : α → Convert β} :
    ∀ {xs : List α} {ys : List β}, xs.mapM f = .ok ys → List.Forall₂ (f · = .ok ·) xs ys
  | [], _, h => by
    cases h
    exact .nil
  | x :: xs, ys, h => by
    rw [List.mapM_cons] at h
    obtain ⟨y, hy, h⟩ := Convert.ok_of_bind h
    obtain ⟨zs, hzs, h⟩ := Convert.ok_of_bind h
    cases h
    exact .cons hy (forall₂_of_mapM hzs)

theorem Element.method_of_model {scope : FileScope} {e : Element TypeNode} {m : Method}
    (h : e.model scope = .ok m) : ∃ x signature, e = .method x signature ∧ m.name = x.name := by
  cases e with
  | method x s =>
    obtain ⟨_, -, h⟩ := Convert.ok_of_bind h
    cases h
    exact ⟨x, s, rfl, rfl⟩
  | union terms => cases h

theorem TypeSpec.declares_of_model {scope : FileScope} {s : TypeSpec}
    {elements : List (Element TypeNode)} {i : Interface} (hs : s.elements? = some elements)
    (h : s.model scope elements = .ok i) : s.Declares i := by
  unfold model at h
  split at h
  · cases h
  · obtain ⟨methods, hmethods, h⟩ := Convert.ok_of_bind h
    cases h
    unfold elements? at hs
    split at hs
    · next keyword _ hform =>
      cases hs
      refine ⟨rfl, keyword, elements, hform, ?_⟩
      exact (forall₂_of_mapM hmethods).imp fun _ _ => Element.method_of_model
    · cases hs

/-- The specs that the visitor notes are those that name interface literals. -/
theorem File.specs_of_interfaces (f : File) :
    f.interfaces.map Prod.fst = f.typeSpecs.filter (·.elements?.isSome) := by
  rw [interfaces_eq_filterMap, typeSpecs]
  induction f.decls.flatMap Decl.typeSpecs with
  | nil => rfl
  | cons s specs ih => cases hs : s.elements? <;> simp [hs, ih]

/-- The interfaces are the models of the specs that name interface literals, in their order. -/
theorem declares_of_modelAll {scope : FileScope} {f : File} {interfaces : List Interface}
    (h : modelAll scope f.decls = .ok interfaces) :
    List.Forall₂ TypeSpec.Declares (f.typeSpecs.filter (·.elements?.isSome)) interfaces := by
  rw [modelAll, ← File.interfaces_eq_flatMap] at h
  have hmem : ∀ p ∈ f.interfaces, p.1.elements? = some p.2 := by
    intro p hp
    rw [File.interfaces_eq_filterMap] at hp
    obtain ⟨s, -, hs⟩ := List.mem_filterMap.1 hp
    obtain ⟨elements, helements, rfl⟩ := Option.map_eq_some_iff.1 hs
    exact helements
  rw [← f.specs_of_interfaces, List.forall₂_map_left_iff]
  have hboth := (List.forall₂_and_left _ _).2 ⟨hmem, forall₂_of_mapM h⟩
  exact hboth.imp fun p i hp => TypeSpec.declares_of_model hp.1 hp.2

/-! ## What a reader meets -/

def Event.specName? : Event → Option String
  | .typeSpec name => some name
  | _ => none

section

variable {stop : Kind → Bool}

/-- The type specs that a reader meets who does not look inside the kinds of `stop`. -/
def Outline.specNames (stop : Kind → Bool) (o : Outline) : List String :=
  (o.events stop).filterMap Event.specName?

theorem specNames_all (os : List Outline) :
    (eventsOfAll stop os).filterMap Event.specName? = os.flatMap (·.specNames stop) := by
  rw [eventsOfAll_eq_flatMap, List.filterMap_flatMap]
  rfl

theorem Outline.specNames_node (event : Event) (inside : List Outline) :
    (node event inside).specNames stop = event.specName?.toList ++
      if stop event.kind then [] else inside.flatMap (·.specNames stop) := by
  rw [specNames, events, List.filterMap_cons, ← specNames_all]
  cases event.specName? <;> cases stop event.kind <;> simp

/-- No type specs are met. -/
def NoSpecs (stop : Kind → Bool) (os : List Outline) : Prop := ∀ o ∈ os, o.specNames stop = []

theorem NoSpecs.node {event : Event} {inside : List Outline} (hevent : event.specName? = none)
    (h : NoSpecs stop inside) : (Outline.node event inside).specNames stop = [] := by
  rw [Outline.specNames_node, hevent, List.flatMap_eq_nil_iff.2 h]
  simp

theorem NoSpecs.fields {xs : List (Field Outline)} (h : NoSpecs stop (xs.map (·.type))) :
    NoSpecs stop (xs.map (·.outline)) := by
  intro o ho
  obtain ⟨x, hx, rfl⟩ := List.mem_map.1 ho
  exact NoSpecs.node rfl (by simpa [NoSpecs] using h _ (List.mem_map_of_mem hx))

theorem NoSpecs.signature {s : Signature Outline} (h : NoSpecs stop s.children) :
    s.outline.specNames stop = [] := by
  obtain ⟨hparams, hresults⟩ := List.forall_mem_append.1 h
  refine NoSpecs.node rfl (List.forall_mem_append.2 ⟨NoSpecs.fields hparams, ?_⟩)
  rcases hr : s.results with _ | t | l <;> rw [hr] at hresults
  · simp [Results.outlines]
  · exact hresults
  · exact NoSpecs.fields hresults

theorem NoSpecs.element {e : Element Outline} (h : NoSpecs stop e.children) :
    NoSpecs stop e.outlines := by
  cases e with
  | method x s => simpa [NoSpecs, Element.outlines] using NoSpecs.signature h
  | union terms => exact h

theorem NoSpecs.form {form : TypeForm Outline} (h : NoSpecs stop form.children) :
    NoSpecs stop form.outlines := by
  cases form with
  | struct keyword fields => exact NoSpecs.fields h
  | interface keyword elements =>
    intro o ho
    obtain ⟨e, he, ho⟩ := List.mem_flatMap.1 ho
    exact NoSpecs.element (fun p hp => h p (List.mem_flatMap.2 ⟨e, he, hp⟩)) o ho
  | func keyword s => simpa [NoSpecs, TypeForm.outlines] using NoSpecs.signature h
  | _ => exact h

/-- There are no type specs inside types. -/
theorem TypeNode.specNames_outline (t : TypeNode) : t.outline.specNames stop = [] := by
  induction t using TypeNode.induct with
  | h serial span form ih =>
    rw [outline, fold_mk]
    refine NoSpecs.node rfl (NoSpecs.form ?_)
    rw [NoSpecs, TypeForm.children_map, List.forall_mem_map]
    exact ih

theorem noSpecs_outlines (ts : List TypeNode) : NoSpecs stop (ts.map TypeNode.outline) :=
  List.forall_mem_map.2 fun t _ => t.specNames_outline

theorem Signature.noSpecs_map (s : Signature TypeNode) :
    (s.map TypeNode.outline).outline.specNames stop = [] := by
  refine NoSpecs.signature ?_
  rw [Signature.children_map]
  exact noSpecs_outlines _

theorem FieldList.noSpecs_map (l : FieldList TypeNode) :
    NoSpecs stop (l.map TypeNode.outline).outlines := by
  refine NoSpecs.fields ?_
  have hmap : (l.map TypeNode.outline).fields.map (·.type) = l.children.map TypeNode.outline := by
    simp [FieldList.map, FieldList.children, Field.map]
  rw [hmap]
  exact noSpecs_outlines _

theorem FuncDecl.specNames_outline (d : FuncDecl) : d.outline.specNames stop = [] := by
  refine NoSpecs.node rfl (List.forall_mem_append.2 ⟨fun o ho => ?_, ?_⟩)
  · obtain ⟨l, -, ho⟩ := List.mem_flatMap.1 ho
    exact l.noSpecs_map o ho
  · simpa using d.signature.noSpecs_map

theorem ValueSpec.noSpecs_outlines (s : ValueSpec) : NoSpecs stop s.outlines :=
  GoIface.noSpecs_outlines s.type.toList

theorem TypeSpec.specNames_outline (s : TypeSpec) :
    s.outline.specNames stop = [s.name.name] := by
  simp [outline, Outline.specNames_node, Event.specName?, TypeNode.specNames_outline]

theorem Decl.specNames_outline (hdecl : stop .decl = false) :
    ∀ d : Decl, d.outline.specNames stop = d.typeSpecs.map (·.name.name)
  | .func d => d.specNames_outline
  | .specs ⟨_, _, _, _, items⟩ => by
    rw [outline, Outline.specNames_node, Event.kind, hdecl]
    cases items with
    | consts | vars =>
      refine List.flatMap_eq_nil_iff.2 fun o ho => ?_
      obtain ⟨s, -, ho⟩ := List.mem_flatMap.1 ho
      exact s.noSpecs_outlines o ho
    | types items =>
      show (items.map TypeSpec.outline).flatMap _ = items.map _
      rw [List.flatMap_map, List.map_eq_flatMap]
      simp only [TypeSpec.specNames_outline]

/-- So a reader who goes into declarations meets the type specs of the top level, in order. -/
theorem File.specNames_outline (f : File) (hfile : stop .file = false)
    (hdecl : stop .decl = false) :
    f.outline.specNames stop = f.typeSpecs.map (·.name.name) := by
  rw [outline, Outline.specNames_node, typeSpecs, List.map_flatMap, Event.kind, hfile]
  simp [Event.specName?, List.flatMap_map, Decl.specNames_outline hdecl]

end

/-! ## Where interface literals are written -/

def TypeForm.IsLiteral (form : TypeForm β) : Prop :=
  ∃ keyword elements, form = .interface keyword elements

theorem TypeSpec.isSome_elements_iff (s : TypeSpec) :
    s.elements?.isSome = true ↔ s.type.form.IsLiteral := by
  unfold elements? TypeForm.IsLiteral
  split <;> simp_all

namespace Parse

/-- What the reader makes at the cursor has the property, if it makes something. -/
def Ensures (p : Parse α) (c : Cursor) (P : α → Prop) : Prop := ∀ x c', p c = .ok (x, c') → P x

namespace Ensures

variable {p : Parse α} {k : α → Parse β} {c : Cursor} {P : α → Prop} {Q : β → Prop}

theorem pure {x : α} (h : P x) : Ensures (pure x) c P := by
  rintro y c' ⟨⟩
  exact h

theorem bind (h : ∀ x c', Ensures (k x) c' Q) : Ensures (p >>= k) c Q := by
  intro y c' hok
  obtain ⟨x, c₁, -, hy⟩ := ok_of_bind hok
  exact h x c₁ y c' hy

theorem look {g : Cursor → Parse α} (h : Ensures (g c) c P) : Ensures (get >>= g) c P := h

theorem mono {P' : α → Prop} (h : Ensures p c P) (hP : ∀ x, P x → P' x) : Ensures p c P' :=
  fun x c' hok => hP x (h x c' hok)

theorem failHere {fault : ParseFault} : Ensures (failHere fault) c P := by
  rintro x c' ⟨⟩

theorem expected {wanted : Wanted} : Ensures (expected wanted) c P := by
  rintro x c' ⟨⟩

section

variable {type : Parse TypeNode}

theorem other {form : TypeForm TypeNode}
    (h : ∀ keyword elements, form ≠ .interface keyword elements) :
    Ensures (Pure.pure form) c (¬ ·.IsLiteral) :=
  pure fun ⟨keyword, elements, hform⟩ => h keyword elements hform

theorem typeName : Ensures (typeName type) c (¬ ·.IsLiteral) := by
  refine bind fun first _ => bind fun dot _ => ?_
  split
  · exact bind fun name _ => bind fun args _ => other (by simp)
  · exact bind fun args _ => other (by simp)

theorem arrayOrSlice : Ensures (arrayOrSlice type) c (¬ ·.IsLiteral) := by
  refine bind fun lbrack _ => bind fun rbrack _ => ?_
  split
  · exact bind fun elem _ => other (by simp)
  · refine bind fun c _ => ?_
    split
    · exact failHere
    · exact bind fun length _ => bind fun _ _ => bind fun elem _ => other (by simp)

/-- Only at its keyword is an interface literal read. -/
theorem typeForm : Ensures (typeForm type) c fun form =>
    form.IsLiteral ↔ c.next? = some (.keyword .interfaceKw) := by
  have hother {p : Parse (TypeForm TypeNode)} {t : Token} (hnext : c.next? = some t)
      (ht : t ≠ .keyword .interfaceKw) (h : Ensures p c (¬ ·.IsLiteral)) :
      Ensures p c fun form => form.IsLiteral ↔ c.next? = some (.keyword .interfaceKw) :=
    h.mono fun form hform => iff_of_false hform (by simpa [hnext] using ht)
  refine look ?_
  split
  · next h => exact hother h (by simp) typeName
  · next h => exact hother h (by simp) (bind fun _ _ => bind fun _ _ => other (by simp))
  · next h => exact hother h (by simp) arrayOrSlice
  · next h =>
    refine hother h (by simp) (bind fun _ _ => bind fun _ _ => bind fun _ _ => ?_)
    exact bind fun _ _ => bind fun _ _ => other (by simp)
  · next h =>
    exact hother h (by simp) (bind fun _ _ => bind fun _ _ => bind fun _ _ => other (by simp))
  · next h =>
    exact hother h (by simp) (bind fun _ _ => bind fun _ _ => bind fun _ _ => other (by simp))
  · next h => exact hother h (by simp) (bind fun _ _ => bind fun _ _ => other (by simp))
  · next h =>
    exact bind fun _ _ => bind fun _ _ => bind fun _ _ => pure (iff_of_true ⟨_, _, rfl⟩ h)
  · next h =>
    exact hother h (by simp) (bind fun _ _ => bind fun _ _ => bind fun _ _ => other (by simp))
  · next h =>
    exact hother h (by simp) (bind fun _ _ => bind fun _ _ => bind fun _ _ => other (by simp))
  · exact expected

end

end Ensures

end Parse

/-- Lexemes do not overlap. -/
theorem apart_of_ne {source : String} {l m : Lexeme} (hl : l ∈ lex source) (hm : m ∈ lex source)
    (hne : l ≠ m) : l.span.stop ≤ m.span.start ∨ m.span.stop ≤ l.span.start := by
  let Apart (l m : Lexeme) : Prop := l.span.stop ≤ m.span.start ∨ m.span.stop ≤ l.span.start
  have : Std.Symm Apart := ⟨fun _ _ => Or.symm⟩
  have hapart : (lex source).Pairwise Apart := (tiled_lex source).pairwise.imp Or.inl
  exact hapart.forall hl hm hne

/-- No two written tokens start at one place. -/
theorem eq_of_same_start {source : String} {l m : Lexeme} (hl : l ∈ lex source)
    (hm : m ∈ lex source) (hlw : l.isInserted = false) (hmw : m.isInserted = false)
    (h : l.span.start = m.span.start) : l = m := by
  have hstands := (tiled_lex source).standsIn
  have hlne := (hstands l hl).nonempty_iff.1 hlw
  have hmne := (hstands m hm).nonempty_iff.1 hmw
  by_contra hne
  rcases apart_of_ne hl hm hne with h' | h' <;> omega

theorem Lexeme.not_inserted_of_startsType {l : Lexeme} (h : l.token.startsType = true) :
    l.isInserted = false := by
  rw [isInserted, Bool.and_eq_false_iff]
  left
  rw [beq_eq_false_iff_ne]
  intro htoken
  rw [htoken] at h
  cases h

/-- A type starts with a token, and is an interface literal if that is the keyword. -/
theorem LexedText.Reads.exists_first {T : LexedText} {t : TypeNode} (h : T.Reads t) :
    ∃ l ∈ T.lexemes, l.token.startsType = true ∧ l.span.start = t.span.start ∧
      (t.form.IsLiteral ↔ l.token = .keyword .interfaceKw) := by
  rcases h with ⟨room, c, c', hroom, hat, hok⟩ | ⟨l, hl, serial, name, htoken, rfl⟩
  · obtain ⟨run, hmoves, hcovers, -⟩ := (typeWithin hroom c).of_ok hat hok
    obtain ⟨ls, hls, ⟨⟨u, us, hus, hu⟩, -⟩, -⟩ := Parse.Consumes.typeWithin room c t c' hok
    obtain ⟨l, ls, rfl, rfl, -⟩ := List.map_eq_cons_iff.1 hus
    obtain rfl : run = l :: ls := List.append_cancel_right (hmoves.rest.symm.trans hls)
    obtain ⟨first, hfirst, last, -, hspan⟩ := hcovers
    obtain rfl : l = first := by simpa using hfirst
    refine ⟨l, hmoves.isInfix.subset (.head _), hu, by rw [hspan], ?_⟩
    have hnext : c.next? = some l.token := by simp [Cursor.next?, hls]
    cases room with
    | zero => cases hok
    | succ room =>
      have hok : (Parse.typeForm (Parse.typeWithin room) >>= Parse.makeType c.here) c
          = .ok (t, c') := hok
      obtain ⟨form, c₁, hform, hmade⟩ := Parse.ok_of_bind hok
      cases hmade
      have hiff := Parse.Ensures.typeForm form c₁ hform
      rwa [hnext, Option.some_inj] at hiff
  · refine ⟨l, hl, by rw [htoken]; rfl, rfl, iff_of_false ?_ (by simp [htoken])⟩
    rintro ⟨keyword, elements, hform⟩
    cases hform

/-- A type that was read is an interface literal just where the keyword stands. -/
theorem LexedText.Reads.isLiteral_iff {source : String} {t : TypeNode}
    (h : (LexedText.ofSource source).Reads t) : t.form.IsLiteral ↔
      ∃ l ∈ lex source, l.token = .keyword .interfaceKw ∧ l.span.start = t.span.start := by
  obtain ⟨l, hl, hstarts, hstart, hiff⟩ := h.exists_first
  rw [hiff]
  constructor
  · exact fun htoken => ⟨l, hl, htoken, hstart⟩
  · rintro ⟨m, hm, htoken, hm_start⟩
    obtain rfl := eq_of_same_start hl hm (Lexeme.not_inserted_of_startsType hstarts)
      (by simp [Lexeme.isInserted, htoken]) (hstart.trans hm_start.symm)
    exact htoken

/-! ## The order in the source -/

theorem mem_allEvents {o : Outline} {os : List Outline} {e : Event} (ho : o ∈ os)
    (he : e ∈ allEvents [o]) : e ∈ allEvents os := by
  obtain ⟨before, after, rfl⟩ := List.append_of_mem ho
  rw [List.append_cons, allEvents_append, allEvents_append]
  exact List.mem_append_left _ (List.mem_append_right _ he)

theorem orderly_of_mem : ∀ {os : List Outline}, OrderlyAll os → ∀ o ∈ os, o.Orderly
  | [], _, _, ho => nomatch ho
  | _ :: _, ⟨ho, _, hos⟩, _, hmem => by
    rcases List.mem_cons.1 hmem with rfl | hmem
    · exact ho
    · exact orderly_of_mem hos _ hmem

theorem pairwise_of_orderly : ∀ {os : List Outline}, OrderlyAll os →
    os.Pairwise fun o p => ∀ e ∈ allEvents [o], ∀ f ∈ allEvents [p], ∀ s ∈ e.span?,
      ∀ t ∈ f.span?, s.stop ≤ t.start
  | [], _ => .nil
  | _ :: _, ⟨_, hapart, hos⟩ =>
    .cons (fun _ hp e he f hf => hapart e he f (mem_allEvents hp hf)) (pairwise_of_orderly hos)

theorem TypeNode.event_mem (t : TypeNode) : .type t.serial t.span ∈ allEvents [t.outline] := by
  obtain ⟨serial, span, form⟩ := t
  rw [outline, fold_mk]
  exact .head _

theorem TypeSpec.event_mem (s : TypeSpec) :
    .type s.type.serial s.type.span ∈ allEvents [s.outline] := by
  rw [outline, allEvents_node]
  exact .tail _ (List.mem_append_left _ s.type.event_mem)

/-- The types of specs lie in the order of the specs. -/
def InOrder (specs : List TypeSpec) : Prop :=
  specs.Pairwise fun s t => s.type.span.stop ≤ t.type.span.start

theorem Decl.typeSpecs_inOrder {d : Decl} (h : d.outline.Orderly) : InOrder d.typeSpecs := by
  unfold typeSpecs
  split
  · next items =>
    obtain ⟨-, hspecs⟩ := h
    refine (List.pairwise_map.1 (pairwise_of_orderly hspecs)).imp fun {s t} hapart => ?_
    exact hapart _ s.event_mem _ t.event_mem _ rfl _ rfl
  · exact .nil

theorem Decl.event_mem {d : Decl} {s : TypeSpec} (h : s ∈ d.typeSpecs) :
    .type s.type.serial s.type.span ∈ allEvents [d.outline] := by
  unfold typeSpecs at h
  split at h
  · rw [outline, allEvents_node]
    exact .tail _ (List.mem_append_left _ (mem_allEvents (List.mem_map_of_mem h) s.event_mem))
  · cases h

theorem File.typeSpecs_inOrder {f : File} (h : f.outline.Orderly) : InOrder f.typeSpecs := by
  obtain ⟨-, hdecls⟩ := h
  refine List.pairwise_flatMap.2 ⟨fun d hd => ?_, ?_⟩
  · exact d.typeSpecs_inOrder (orderly_of_mem hdecls _ (List.mem_map_of_mem hd))
  · refine (List.pairwise_map.1 (pairwise_of_orderly hdecls)).imp fun {d e} hapart s hs t ht => ?_
    exact hapart _ (d.event_mem hs) _ (e.event_mem ht) _ rfl _ rfl

/-! ## The interfaces of a source -/

theorem Decl.type_mem_roots {d : Decl} {s : TypeSpec} (h : s ∈ d.typeSpecs) : s.type ∈ d.roots := by
  unfold typeSpecs at h
  split at h
  · exact List.mem_map_of_mem h
  · cases h

/-- The type specs of a file: all that a reader can meet, in the order of the source, each with an
interface literal for a type just where the keyword stands at the start of it. -/
structure File.DeclaresInOrder (f : File) (source : String) : Prop where
  met : ∀ stop : Kind → Bool, stop .file = false → stop .decl = false →
    f.outline.specNames stop = f.typeSpecs.map (·.name.name)
  inOrder : InOrder f.typeSpecs
  literal_iff : ∀ s ∈ f.typeSpecs, s.elements?.isSome = true ↔
    ∃ l ∈ lex source, l.token = .keyword .interfaceKw ∧ l.span.start = s.type.span.start

theorem declaresInOrder_ofSource {source : String} {file : File} {made : Counts}
    (h : File.ofSource source = .ok (file, made)) : file.DeclaresInOrder source where
  met _ hfile hdecl := file.specNames_outline hfile hdecl
  inOrder := by
    obtain ⟨run, hrun, hholds⟩ := holds_ofSource h
    refine File.typeSpecs_inOrder ⟨by simp [Event.span?], ?_⟩
    exact laidAll_orderly (LexedText.ofSource source) hrun hholds.laid
  literal_iff s hs := by
    obtain ⟨run, hrun, hholds⟩ := holds_ofSource h
    obtain ⟨d, hd, hs⟩ := List.mem_flatMap.1 hs
    have hroot : s.type ∈ file.content.types :=
      List.mem_flatMap.2 ⟨d, hd, Decl.type_mem_roots hs⟩
    rw [s.isSome_elements_iff]
    exact (hholds.typed _ hroot _ .self).reads.isLiteral_iff

/-- Discovery is exact: the interfaces of a source are those of the type specs at its top level
whose types are interface literals, one for each and in their order, with one method for each
element of the literal. -/
theorem interfaces_are_declared {resolve : Resolver} {name source importPath : String}
    {m : FileModel} (h : FileModel.ofSource resolve name source importPath = .ok m) :
    ∃ file made, File.ofSource source = .ok (file, made) ∧ file.DeclaresInOrder source ∧
      (file.visit interfaceDecls []).map Prod.fst
        = file.typeSpecs.filter (·.elements?.isSome) ∧
      List.Forall₂ TypeSpec.Declares (file.typeSpecs.filter (·.elements?.isSome)) m.interfaces := by
  obtain ⟨file, made, hfile, hmodel⟩ := FileModel.ofSource_eq_ok_iff.1 h
  obtain ⟨bindings, -, hinterfaces, -⟩ := FileModel.ofFile_eq_ok_iff.1 hmodel
  exact ⟨file, made, hfile, declaresInOrder_ofSource hfile, file.specs_of_interfaces,
    declares_of_modelAll hinterfaces⟩

/-- Literals in a variable, a struct, a signature and a body, beside two that are declared. -/
def scatteredLiterals : String :=
  "package p\nvar v interface { A() }\ntype (\n\tT struct { x interface { B() } }\n"
    ++ "\tI interface { M(interface {}); N() }\n)\n"
    ++ "func f(interface {}) { type J interface {} }\ntype K = interface {}\n"

theorem scatteredLiterals_declared : ∃ m,
    FileModel.ofSource (fun _ => none) "p.go" scatteredLiterals "" = .ok m ∧
      m.interfaces.map (fun i => (i.name, i.methods.map Method.name))
        = [("I", ["M", "N"]), ("K", [])] ∧
      ∃ file made, File.ofSource scatteredLiterals = .ok (file, made) ∧
        file.DeclaresInOrder scatteredLiterals ∧
        (file.visit interfaceDecls []).map Prod.fst
          = file.typeSpecs.filter (·.elements?.isSome) ∧
        List.Forall₂ TypeSpec.Declares (file.typeSpecs.filter (·.elements?.isSome))
          m.interfaces := by
  have hmodel : (FileModel.ofSource (fun _ => none) "p.go" scatteredLiterals "").toOption.map
      (fun m => m.interfaces.map fun i => (i.name, i.methods.map Method.name))
      = some [("I", ["M", "N"]), ("K", [])] := by
    decide +kernel
  rcases h : FileModel.ofSource (fun _ => none) "p.go" scatteredLiterals "" with e | m
  · rw [h] at hmodel
    cases hmodel
  · rw [h] at hmodel
    exact ⟨m, rfl, Option.some_inj.1 hmodel, interfaces_are_declared h⟩

end GoIface
