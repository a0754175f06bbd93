import GoIface.Proofs.Readings

/-!
# What parameter lists hold

The entries of a parameter list are read one after the other, and their types are made before any
of the fields. A group of entries covers the run from the first name that waits for its type up to
this type (`LexedText.exists_groups`), so the fields lie in a row as the entries did. What is left
over are identifiers, and with each a type is made along with its field.
-/

namespace GoIface

open GoIface.Parse

variable {α β : Type}

namespace LexedText

variable {T : LexedText} {run w : List Lexeme} {a b : Counts}

/-- An identifier with a lexeme to itself. -/
def Bare (run : List Lexeme) (x : Ident) : Prop :=
  ∃ l, run = [l] ∧ l.token = .ident x.name ∧ x.span = l.span

/-- A type read from the run, from its first lexeme to its last. -/
def ReadsType (T : LexedText) (a : Counts) (run : List Lexeme) (b : Counts) (t : TypeNode) : Prop :=
  t.span.Covers run ∧ T.Holds run a b t.content

def ReadsEntry (T : LexedText) (a : Counts) (run : List Lexeme) (b : Counts)
    (e : ParamEntry TypeNode) : Prop :=
  e.span.Covers run ∧ match e.type with
    | none => b = a ∧ ∃ x, e.names = [x] ∧ Bare run x
    | some t =>
      T.Holds run a b (.ofPlaces (e.names.map Ident.span ++ e.ellipsis.toList) ++ t.content)

/-- The names and the type of a group. -/
def groupContent (g : ParamGroup TypeNode) : Content :=
  .ofPlaces (g.allNames.map Ident.span ++ g.ellipsis.toList) ++ g.type.content

structure ReadsGroup (T : LexedText) (a : Counts) (run : List Lexeme) (b : Counts)
    (g : ParamGroup TypeNode) : Prop where
  covers : (Span.mk g.start g.span.stop).Covers run
  entry : g.span.CoversIn run
  holds : T.Holds run a b (groupContent g)

theorem Bare.covers {x : Ident} (h : Bare run x) : x.span.Covers run := by
  obtain ⟨l, rfl, -, hspan⟩ := h
  exact hspan ▸ .singleton l

/-! ## Entries -/

theorem paramEntry {type : Parse TypeNode}
    (htype : ∀ c, T.Spec type c (T.ReadsType c.made)) (c : Cursor) :
    T.Spec (paramEntry type) c (T.ReadsEntry c.made) := by
  have hrest (names : Parse (List Ident))
      (hnames : T.Yields names c fun xs => .ofPlaces (xs.map Ident.span)) :
      T.Spec (do
        let names ← names
        let ellipsis ← eat .ellipsis
        let type ← type
        return (⟨names, ellipsis, some type, ← spanFrom c.here⟩ : ParamEntry TypeNode)) c
        (T.ReadsEntry c.made) := by
    refine Spec.bind hnames fun names c₁ run₁ hmoves₁ h₁ => ?_
    refine Spec.bind (Yields.eat .ellipsis) fun ellipsis c₂ run₂ hmoves₂ h₂ => ?_
    refine (htype c₂).bind fun t c₃ run₃ hmoves₃ ⟨hcovers, h₃⟩ => Spec.look (Spec.pure ?_)
    have hne : run₁ ++ (run₂ ++ run₃) ≠ [] := by simp [hcovers.ne_nil]
    have hholds := h₁.append (h₂.append h₃)
    rw [List.append_nil]
    refine ⟨(hmoves₁.trans (hmoves₂.trans hmoves₃)).covers hne, hholds.sub ⟨?_, rfl, rfl⟩⟩
    simp [Content.ofPlaces]
  refine Spec.look ?_
  split
  · refine Spec.finish (Spec.ident.mono fun run b x _ h => ?_)
    have hbare : Bare run x := h.2
    exact ⟨hbare.covers, h.1, x, rfl, hbare⟩
  · split
    · refine hrest _ (Yields.map (Yields.ident.mono fun x => ?_))
      exact ⟨fun _ h => h, rfl, rfl⟩
    · exact hrest _ (Yields.pure rfl)

/-! ## Groups -/

/-- The names that wait are in a row that starts with the first of them. -/
structure Waits (w : List Lexeme) (waiting : List Ident) (start : Option Nat) : Prop where
  inRow : InRow Bare w waiting
  start : start = w.head?.map (·.span.start)
  nil : waiting = [] ↔ w = []

namespace Waits

variable {waiting : List Ident} {start : Option Nat}

theorem none : Waits [] [] .none := ⟨.nil, rfl, by simp⟩

/-- The run from the first name that waits, or from the next entry if none does, to the end of this
entry. -/
theorem reach (h : Waits w waiting start) (before : List Lexeme) {s : Span} (hs : s.Covers run) :
    ∃ dropped lead, w ++ (before ++ run) = dropped ++ (lead ++ run) ∧ InRow Bare lead waiting ∧
      (Span.mk (start.getD s.start) s.stop).Covers (lead ++ run) := by
  obtain ⟨first, hfirst, last, hlast, rfl⟩ := hs
  obtain ⟨hrow, rfl, hnil⟩ := h
  rcases w with _ | ⟨l, ls⟩
  · obtain rfl := hnil.2 rfl
    exact ⟨before, [], rfl, .nil, first, hfirst, last, hlast, rfl⟩
  · refine ⟨[], l :: ls ++ before, by simp, hrow.widen [] before, l, rfl, last, ?_, rfl⟩
    rw [List.getLast?_append, Option.mem_def.1 hlast]
    rfl

/-- One more name waits. -/
theorem snoc (h : Waits w waiting start) (before : List Lexeme) {x : Ident} {s : Span}
    (hs : s.Covers run) (hx : Bare run x) : ∃ dropped w', w ++ (before ++ run) = dropped ++ w' ∧
      Waits w' (waiting ++ [x]) (if waiting.isEmpty then some s.start else start) := by
  obtain ⟨dropped, lead, hcut, hrow, first, hfirst, last, -, hspan⟩ := h.reach before hs
  refine ⟨dropped, lead ++ run, hcut, hrow.append (.single hx), ?_, by simp [hs.ne_nil]⟩
  have hstart : start.getD s.start = first.span.start := congrArg Span.start hspan
  rw [Option.mem_def.1 hfirst, Option.map_some, ← hstart, h.start]
  cases hw : w with
  | nil => simp [h.nil.2 hw]
  | cons l ls => simp [h.nil, hw]

/-- The names that wait get their type. -/
theorem readsGroup (h : Waits w waiting start) (before : List Lexeme) {e : ParamEntry TypeNode}
    {t : TypeNode} (he : T.ReadsEntry a run b e) (ht : e.type = some t) :
    ∃ dropped lead, w ++ (before ++ run) = dropped ++ (lead ++ run) ∧
      T.ReadsGroup a (lead ++ run) b
        ⟨waiting, e.names, e.ellipsis, t, start.getD e.span.start, e.span⟩ := by
  obtain ⟨hcovers, hholds⟩ := he
  rw [ht] at hholds
  obtain ⟨dropped, lead, hcut, hrow, hreach⟩ := h.reach before hcovers
  have hrun : run <:+: lead ++ run := (List.suffix_append _ _).isInfix
  have hwaiting : T.Holds lead a a (.ofPlaces (waiting.map Ident.span)) := by
    refine .places rfl fun s hs => ?_
    obtain ⟨x, hx, rfl⟩ := List.mem_map.1 hs
    obtain ⟨part, hpart, hbare⟩ := hrow.exists_of_mem hx
    exact ⟨part, hpart, hbare.covers⟩
  refine ⟨dropped, lead, hcut, hreach, hcovers.inside.mono hrun, (hwaiting.append hholds).sub ?_⟩
  refine ⟨?_, rfl, rfl⟩
  simp [groupContent, Content.ofPlaces, ParamGroup.allNames]

end Waits

/-- Entries in a row make groups in a row, and the identifiers left over come after them. -/
theorem exists_groups {es : List (ParamEntry TypeNode)} (h : Series T.ReadsEntry a run b es) :
    ∀ {w : List Lexeme} {waiting : List Ident} {start : Option Nat}, Waits w waiting start →
      ∃ run₁ run₂, w ++ run = run₁ ++ run₂ ∧
        Series T.ReadsGroup a run₁ b (groupEntries waiting start es).1 ∧
        InRow Bare run₂ (groupEntries waiting start es).2 := by
  induction h with
  | @nil a run =>
    intro w waiting start hw
    exact ⟨[], w ++ run, rfl, .nil, hw.inRow.widen [] run⟩
  | @cons a b c before run after e es he _ ih =>
    intro w waiting start hw
    have hsplit (rest : List Lexeme) :
        w ++ (before ++ (run ++ rest)) = w ++ (before ++ run) ++ rest := by simp
    rw [hsplit]
    cases htype : e.type with
    | none =>
      obtain ⟨hcovers, hbare⟩ := he
      rw [htype] at hbare
      obtain ⟨rfl, x, hnames, hx⟩ := hbare
      obtain ⟨dropped, w', hcut, hw'⟩ := hw.snoc before hcovers hx
      obtain ⟨run₁, run₂, hruns, hgroups, hleft⟩ := ih hw'
      rw [groupEntries, htype, hnames, hcut, List.append_assoc, hruns, ← List.append_assoc]
      exact ⟨dropped ++ run₁, run₂, rfl, hgroups.drop dropped, hleft⟩
    | some t =>
      obtain ⟨dropped, lead, hcut, hgroup⟩ := hw.readsGroup before he htype
      obtain ⟨run₁, run₂, hruns, hgroups, hleft⟩ := ih .none
      rw [List.nil_append] at hruns
      rw [groupEntries, htype, hcut, hruns]
      exact ⟨dropped ++ (lead ++ run ++ run₁), run₂, by simp, .cons hgroup hgroups, hleft⟩

/-! ## Fields -/

/-- What a list of fields holds. -/
def fieldsContent (xs : List (Field TypeNode)) : Content := .concat (xs.map Field.content)

/-- The field lies in the run with what is inside it. -/
def LiesIn (run : List Lexeme) (x : Field TypeNode) : Prop :=
  LaidAll x.content.outlines run ∧ ∀ s ∈ x.content.places, s.CoversIn run

theorem ReadsGroup.liesIn {g : ParamGroup TypeNode} (h : T.ReadsGroup a run b g) (serial : Nat) :
    LiesIn run (g.field serial) := by
  refine ⟨laidAll_iff.2 (.single ⟨?_, h.holds.laid⟩), ?_⟩
  · rintro _ ⟨⟩
    exact h.covers
  · have hplaced := h.holds.placed
    simp only [groupContent, Content.places_append, Content.ofPlaces, TypeNode.content] at hplaced
    intro s hs
    rcases List.mem_cons.1 hs with rfl | hs
    · exact h.covers.inside
    · refine hplaced s ?_
      simpa [ParamGroup.field, Field.map] using hs

theorem Bare.liesIn {x : Ident} (h : Bare run x) (serial typeSerial : Nat) :
    LiesIn run (x.field serial typeSerial) := by
  have htype : LaidAll [Outline.node (.type typeSerial x.span) []] run := by
    refine laidAll_iff.2 (.single ⟨?_, trivial⟩)
    rintro _ ⟨⟩
    exact h.covers
  refine ⟨laidAll_iff.2 (.single ⟨?_, htype⟩), fun s hs => ?_⟩
  · rintro _ ⟨⟩
    exact h.covers
  · have hspan : s = x.span := by
      simpa [Field.content, Field.places, Ident.field, Field.map, TypeNode.places,
        TypeNode.fold_mk, TypeForm.places, TypeForm.map] using hs
    exact hspan ▸ h.covers.inside

/-- The events of fields are those of their types and one more for each field. -/
theorem perm_events_fields (xs : List (Field TypeNode)) :
    (allEvents (fieldsContent xs).outlines).Perm
      (allEvents (xs.map (·.type.outline)) ++ xs.map fun x => .field x.serial x.span) := by
  induction xs with
  | nil => exact .refl _
  | cons x xs ih =>
    have hfield : allEvents (fieldsContent (x :: xs)).outlines
        = .field x.serial x.span ::
          (allEvents [x.type.outline] ++ allEvents (fieldsContent xs).outlines) := rfl
    have htypes : allEvents ((x :: xs).map (·.type.outline))
        = allEvents [x.type.outline] ++ allEvents (xs.map (·.type.outline)) :=
      allEvents_append [x.type.outline] _
    rw [hfield, htypes, List.map_cons, List.append_assoc]
    refine ((ih.append_left _).cons _).trans ?_
    rw [← List.append_assoc, ← List.append_assoc]
    exact List.perm_middle.symm

/-- The type of an identifier that is a parameter by itself. -/
def leftType (serial : Nat) (x : Ident) : TypeNode := .mk serial x.span (.named none x [])

/-- The fields made when `made` were made before. -/
def fieldsOf (made : Counts) (groups : List (ParamGroup TypeNode)) (left : List Ident) :
    List (Field TypeNode) :=
  groups.mapIdx (fun i g => g.field (made.fields + i))
    ++ left.mapIdx fun i x => x.field (made.fields + groups.length + i) (made.types + i)

/-- The counts after the fields are made. -/
def madeAfter (made : Counts) (groups : List (ParamGroup TypeNode)) (left : List Ident) : Counts :=
  { made with
    fields := made.fields + (fieldsOf made groups left).length
    types := made.types + left.length }

section

variable (made : Counts) (groups : List (ParamGroup TypeNode)) (left : List Ident)

theorem serial_fieldsOf (i : Nat) (hi : i < (fieldsOf made groups left).length) :
    (fieldsOf made groups left)[i].serial = made.fields + i := by
  simp only [fieldsOf, List.getElem_append, List.getElem_mapIdx, List.length_mapIdx]
  split
  · rfl
  · simp only [Ident.field]
    omega

theorem types_fieldsOf (f : TypeNode → β) : (fieldsOf made groups left).map (fun x => f x.type)
    = groups.map (fun g => f g.type) ++ left.mapIdx fun i x => f (leftType (made.types + i) x) := by
  rw [fieldsOf, List.map_append]
  congr 1 <;>
  exact List.ext_getElem (by simp) fun i _ _ => by simp [ParamGroup.field, Ident.field, leftType]

theorem allEvents_leaves {f : Nat → α → Event} : ∀ xs : List α,
    allEvents (xs.mapIdx fun i x => .node (f i x) []) = xs.mapIdx f
  | [] => rfl
  | x :: xs => by
    rw [List.mapIdx_cons, List.mapIdx_cons, allEvents_node, allEvents_leaves xs]
    rfl

theorem counted_fieldsOf {a : Counts}
    (h : Counted a made (allEvents (groups.map (·.type.outline)))) :
    Counted a (madeAfter made groups left)
      (allEvents (fieldsContent (fieldsOf made groups left)).outlines) := by
  have hleft : Counted made { made with types := made.types + left.length }
      (left.mapIdx fun i x => .type (made.types + i) x.span) := by
    refine .row (k := .type) ?_ (by simp [Event.serial?, Counts.get]) fun k => ?_
    · simp only [List.mem_mapIdx]
      rintro _ ⟨i, _, rfl⟩
      rfl
    · cases k <;> simp [Counts.get]
  have hfields : Counted { made with types := made.types + left.length }
      (madeAfter made groups left)
      ((fieldsOf made groups left).map fun x => .field x.serial x.span) := by
    refine .row (k := .field) ?_ (fun i hi => ?_) fun k => ?_
    · simp only [List.mem_map]
      rintro _ ⟨x, _, rfl⟩
      rfl
    · simp [Event.serial?, Counts.get, serial_fieldsOf]
    · cases k <;> simp [Counts.get, madeAfter]
  have houtlines : (fieldsOf made groups left).map (·.type.outline)
      = groups.map (·.type.outline) ++ left.mapIdx fun i x =>
        .node (.type (made.types + i) x.span) [] :=
    types_fieldsOf made groups left TypeNode.outline
  refine ((h.append hleft).append hfields).perm ?_
  rw [← allEvents_leaves, ← allEvents_append, ← houtlines]
  exact (perm_events_fields _).symm

end

theorem span_of_mixedAt? {groups : List (ParamGroup TypeNode)} {left : List Ident} {s : Span}
    (h : mixedAt? groups left = some s) :
    (∃ g ∈ groups, s = g.span) ∨ ∃ x ∈ left, s = x.span := by
  unfold mixedAt? at h
  split at h
  · have hmem := List.mem_of_head? h
    simp only [List.mem_append, List.mem_map, List.mem_filter] at hmem
    rcases hmem with ⟨g, ⟨hg, _⟩, rfl⟩ | ⟨x, hx, rfl⟩
    · exact .inl ⟨g, hg, rfl⟩
    · exact .inr ⟨x, hx, rfl⟩
  · simp at h

theorem Bare.madeType {x : Ident} (h : Bare run x) (hrun : run <:+: T.lexemes) (serial : Nat) :
    T.MadeType run (serial + 1) (leftType serial x) where
  serial := Nat.lt_succ_self serial
  descends := by simp [TypeNode.Descends, leftType, TypeNode.form, TypeForm.children]
  reads := by
    obtain ⟨l, rfl, htoken, hspan⟩ := h
    obtain ⟨name, span⟩ := x
    obtain rfl : span = l.span := hspan
    exact .inr ⟨l, hrun.subset (by simp), serial, name, htoken, rfl⟩
  placed s hs := by
    have hspan : s = x.span := by
      simpa [leftType, TypeNode.places, TypeNode.fold_mk, TypeForm.places, TypeForm.map] using hs
    exact hspan ▸ h.covers.inside

theorem fieldsOf_holds {groups : List (ParamGroup TypeNode)} {left : List Ident}
    {run₁ run₂ : List Lexeme}
    (hgroups : Series T.ReadsGroup a run₁ b groups) (hleft : InRow Bare run₂ left)
    (hrun : run₁ ++ run₂ <:+: T.lexemes) :
    T.Holds (run₁ ++ run₂) a (madeAfter b groups left)
      (fieldsContent (fieldsOf b groups left)) := by
  have htypes : T.Holds run₁ a b (.concat (groups.map groupContent)) :=
    (hgroups.mono fun _ _ _ _ hg => hg.holds).holds
  have hlies : InRow LiesIn (run₁ ++ run₂) (fieldsOf b groups left) := by
    refine .append (.mapIdx (hgroups.inRow (P := fun run g => ∃ a b, T.ReadsGroup a run b g)
      fun a run b g hg => ⟨a, b, hg⟩) ?_) (hleft.mapIdx fun i run x hx => hx.liesIn _ _)
    rintro i run g ⟨a, b, hg⟩
    exact hg.liesIn _
  have houtlines : (Content.concat (groups.map groupContent)).outlines
      = groups.map (·.type.outline) := by
    rw [Content.outlines_concat]
    exact List.map_eq_flatMap.symm
  refine ⟨?_, ?_, fun s hs => ?_, fun t ht u hu => ?_⟩
  · refine counted_fieldsOf _ _ _ ?_
    rw [← houtlines]
    exact htypes.counted
  · rw [fieldsContent, Content.outlines_concat]
    exact laidAll_flatMap (hlies.mono fun _ _ _ hx => hx.1)
  · rw [fieldsContent, Content.places_concat] at hs
    obtain ⟨x, hx, hs⟩ := List.mem_flatMap.1 hs
    obtain ⟨part, hpart, -, hplaced⟩ := hlies.exists_of_mem hx
    exact (hplaced s hs).mono hpart
  · have hmem : t ∈ groups.map (·.type) ++
        left.mapIdx fun i x => leftType (b.types + i) x := by
      have htypes := types_fieldsOf b groups left (fun t => t)
      rw [List.map_eq_flatMap] at htypes
      rw [fieldsContent, Content.types_concat] at ht
      exact htypes ▸ ht
    have hle : b.types + left.length = (madeAfter b groups left).types := rfl
    rcases List.mem_append.1 hmem with ht | ht
    · have ht : t ∈ (Content.concat (groups.map groupContent)).types := by
        rw [Content.types_concat]
        rwa [List.map_eq_flatMap] at ht
      exact (htypes.typed t ht u hu).mono (List.prefix_append _ _).isInfix (by omega)
    · obtain ⟨i, hi, rfl⟩ := List.mem_mapIdx.1 ht
      obtain ⟨part, hpart, hbare⟩ := hleft.exists_of_mem (List.getElem_mem hi)
      have hpart : part <:+: run₁ ++ run₂ := hpart.trans (List.suffix_append run₁ run₂).isInfix
      cases hu with
      | self =>
        have hmade := hbare.madeType (hpart.trans hrun) (b.types + i)
        exact hmade.mono hpart (by omega)
      | child hv => simp [leftType, TypeNode.form, TypeForm.children] at hv

theorem blames_of_mixed {groups : List (ParamGroup TypeNode)} {left : List Ident}
    {run₁ run₂ : List Lexeme} (hgroups : Series T.ReadsGroup a run₁ b groups)
    (hleft : InRow Bare run₂ left) (hrun : run₁ ++ run₂ <:+: T.lexemes) {s : Span}
    (h : mixedAt? groups left = some s) : T.Blames s := by
  refine .inr (Span.CoversIn.mono ?_ hrun)
  rcases span_of_mixedAt? h with ⟨g, hg, rfl⟩ | ⟨x, hx, rfl⟩
  · have hrow := hgroups.inRow (P := fun run g => g.span.CoversIn run) fun _ _ _ _ hg => hg.entry
    obtain ⟨part, hpart, hspan⟩ := hrow.exists_of_mem hg
    exact hspan.mono (hpart.trans (List.prefix_append _ _).isInfix)
  · obtain ⟨part, hpart, hbare⟩ := hleft.exists_of_mem hx
    exact ⟨part, hpart.trans (List.suffix_append _ _).isInfix, hbare.covers⟩

/-- The entries of a list are refused at one of them, or become fields in the same run. -/
theorem resolveEntries_spec {entries : List (ParamEntry TypeNode)}
    (h : Series T.ReadsEntry a run b entries) (hrun : run <:+: T.lexemes) :
    (∃ e, resolveEntries entries b = .error e ∧ T.Blames e.span) ∨
      ∃ fields made, resolveEntries entries b = .ok (fields, made) ∧
        T.Holds run a made (fieldsContent fields) := by
  obtain ⟨run₁, run₂, hruns, hgroups, hleft⟩ := exists_groups h .none
  rw [List.nil_append] at hruns
  subst hruns
  unfold resolveEntries
  generalize groupEntries [] none entries = p at hgroups hleft
  obtain ⟨groups, left⟩ := p
  cases hmixed : mixedAt? groups left with
  | some s =>
    refine .inl ⟨⟨.mixedParameters, s⟩, ?_, blames_of_mixed hgroups hleft hrun hmixed⟩
    simp only [hmixed]
  | none =>
    refine .inr ⟨fieldsOf b groups left, madeAfter b groups left, ?_,
      fieldsOf_holds hgroups hleft hrun⟩
    simp only [hmixed]
    rfl

end LexedText

end GoIface
