import GoIface.Proofs.Discovery
import GoIface.Proofs.Visits

/-!
# Visits that stop short

A meeting with a node goes with the nodes that it is inside of. A recorder lists the meetings of the
whole tree in order, save those inside a node of a kind that it stops at
(`Outline.events_eq_shown`), as its visit goes through the outline of the file (`File.records`). No
type spec is inside another, so to stop at type specs hides none of them. What is inside a function
is its receiver and its signature.
-/

namespace GoIface

/-! ## Meetings -/

/-- A meeting with a node, and the nodes around it from the outermost to its parent. -/
structure Meeting where
  around : List Event
  event : Event

/-- The node is inside one of a kind to stop at. -/
def Meeting.isHidden (stop : Kind → Bool) (m : Meeting) : Bool := m.around.any (stop ·.kind)

mutual

/-- Every meeting in order: a node comes before what is inside it. -/
def Outline.meetings (around : List Event) : Outline → List Meeting
  | .node event inside => ⟨around, event⟩ :: meetingsOfAll (around ++ [event]) inside

def meetingsOfAll (around : List Event) : List Outline → List Meeting
  | [] => []
  | o :: os => o.meetings around ++ meetingsOfAll around os

end

/-- The events that are not hidden. -/
def shown (stop : Kind → Bool) (ms : List Meeting) : List Event :=
  (ms.filter (!·.isHidden stop)).map Meeting.event

section

variable {stop : Kind → Bool}

@[simp]
theorem shown_append (ms ms' : List Meeting) :
    shown stop (ms ++ ms') = shown stop ms ++ shown stop ms' := by
  simp [shown]

theorem shown_cons (around : List Event) (event : Event) (ms : List Meeting) :
    shown stop (⟨around, event⟩ :: ms) =
      if around.any (stop ·.kind) then shown stop ms else event :: shown stop ms := by
  cases h : around.any (stop ·.kind) <;> simp [shown, Meeting.isHidden, h]

mutual

/-- Nothing of what is inside a node to stop at is shown. -/
theorem Outline.shown_of_stopped {around : List Event}
    (h : around.any (stop ·.kind) = true) :
    ∀ o : Outline, shown stop (o.meetings around) = []
  | .node event inside => by
    rw [Outline.meetings, shown_cons, if_pos h]
    exact shown_of_stoppedAll (by simp [h]) inside

theorem shown_of_stoppedAll {around : List Event}
    (h : around.any (stop ·.kind) = true) :
    ∀ os : List Outline, shown stop (meetingsOfAll around os) = []
  | [] => rfl
  | o :: os => by
    rw [meetingsOfAll, shown_append, o.shown_of_stopped h, shown_of_stoppedAll h os,
      List.append_nil]

end

mutual

theorem Outline.events_eq_shown {around : List Event}
    (h : around.any (stop ·.kind) = false) :
    ∀ o : Outline, o.events stop = shown stop (o.meetings around)
  | .node event inside => by
    rw [Outline.events, Outline.meetings, shown_cons, h]
    refine congrArg (event :: ·) ?_
    have hany : (around ++ [event]).any (stop ·.kind) = stop event.kind := by simp [h]
    cases hstop : stop event.kind <;> rw [hstop] at hany
    · exact events_eq_shownAll hany inside
    · exact (shown_of_stoppedAll hany inside).symm

theorem events_eq_shownAll {around : List Event}
    (h : around.any (stop ·.kind) = false) :
    ∀ os : List Outline, eventsOfAll stop os = shown stop (meetingsOfAll around os)
  | [] => rfl
  | o :: os => by
    rw [eventsOfAll, meetingsOfAll, shown_append, ← o.events_eq_shown h,
      ← events_eq_shownAll h os]

end

/-- Who stops at nothing is shown every meeting. -/
theorem shown_all (ms : List Meeting) : shown (fun _ => false) ms = ms.map Meeting.event := by
  have hnone (m : Meeting) : m.isHidden (fun _ => false) = false := List.any_eq_false.2 (by simp)
  simp [shown, hnone]

end

/-! ## Recorders -/

/-- The walk adds what is met of the outlines. -/
def Records (stop : Kind → Bool) (walk : List Event → List Event) (os : List Outline) : Prop :=
  Appends walk (eventsOfAll stop os)

namespace Records

variable {stop : Kind → Bool} {walk walk' : List Event → List Event} {os ps : List Outline}

theorem nil : Records stop id [] := Appends.nil

theorem append (h : Records stop walk os) (h' : Records stop walk' ps) :
    Records stop (walk' ∘ walk) (os ++ ps) := by
  rw [Records, eventsOfAll_eq_flatMap, List.flatMap_append, ← eventsOfAll_eq_flatMap,
    ← eventsOfAll_eq_flatMap]
  exact Appends.append h h'

theorem node {event : Event} (h : Records stop walk os) :
    Records stop (record stop event walk) [.node event os] := by
  intro seen
  rw [record, eventsOfAll, Outline.events]
  cases stop event.kind
  · simp [h (seen ++ [event]), eventsOfAll]
  · simp [eventsOfAll]

theorem seen_append (h : Records stop walk os) (seen : List Event) :
    walk seen = seen ++ walk [] := by
  rw [h, h [], List.nil_append]

theorem each {α : Type} {visit : α → List Event → List Event} {outlines : α → List Outline}
    (h : ∀ x, Records stop (visit x) (outlines x)) :
    ∀ xs : List α, Records stop (visitEach visit xs) (xs.flatMap outlines)
  | [] => nil
  | x :: xs => (h x).append (each h xs)

theorem each_node {α : Type} {visit : α → List Event → List Event} {outline : α → Outline}
    (h : ∀ x, Records stop (visit x) [outline x]) (xs : List α) :
    Records stop (visitEach visit xs) (xs.map outline) := by
  rw [List.map_eq_flatMap]
  exact each h xs

end Records

section

variable (stop : Kind → Bool)

mutual

theorem TypeNode.records : ∀ t : TypeNode, Records stop (t.visit (recorder stop)) [t.outline]
  | .mk serial span form => by
    rw [TypeNode.outline, TypeNode.fold_mk]
    exact (records_form form).node

theorem records_form : ∀ form : TypeForm TypeNode,
    Records stop (visitForm (recorder stop) form) (form.map TypeNode.outline).outlines
  | .named _ _ args => records_types args
  | .pointer _ t | .array _ t | .slice _ t | .chan _ _ t | .paren _ t => t.records
  | .mapping _ key value => key.records.append value.records
  | .struct _ fields => records_fields fields
  | .interface _ elements => records_elements elements
  | .func _ s => records_signature s

theorem records_types : ∀ ts : List TypeNode,
    Records stop (visitTypes (recorder stop) ts) (ts.map TypeNode.outline)
  | [] => .nil
  | t :: ts => t.records.append (records_types ts)

theorem records_field : ∀ x : Field TypeNode,
    Records stop (visitField (recorder stop) x) [(x.map TypeNode.outline).outline]
  | ⟨_, _, _, _, type, _, _⟩ => type.records.node

theorem records_fields : ∀ xs : List (Field TypeNode),
    Records stop (visitFields (recorder stop) xs)
      ((xs.map (·.map TypeNode.outline)).map (·.outline))
  | [] => .nil
  | x :: xs => (records_field x).append (records_fields xs)

theorem records_fieldList : ∀ l : FieldList TypeNode,
    Records stop (visitFieldList (recorder stop) l) (l.map TypeNode.outline).outlines
  | ⟨_, fields, _⟩ => records_fields fields

theorem records_results : ∀ r : Results TypeNode,
    Records stop (visitResults (recorder stop) r) (r.map TypeNode.outline).outlines
  | .absent => .nil
  | .single t => t.records
  | .list l => records_fieldList l

theorem records_signature : ∀ s : Signature TypeNode,
    Records stop (visitSignature (recorder stop) s) [(s.map TypeNode.outline).outline]
  | ⟨_, _, params, results⟩ => ((records_fieldList params).append (records_results results)).node

theorem records_terms : ∀ ts : List (Term TypeNode),
    Records stop (visitTerms (recorder stop) ts) ((ts.map (·.map TypeNode.outline)).map (·.type))
  | [] => .nil
  | ⟨_, t⟩ :: ts => t.records.append (records_terms ts)

theorem records_element : ∀ e : Element TypeNode,
    Records stop (visitElement (recorder stop) e) (e.map TypeNode.outline).outlines
  | .method _ s => records_signature s
  | .union terms => records_terms terms

theorem records_elements : ∀ es : List (Element TypeNode),
    Records stop (visitElements (recorder stop) es)
      ((es.map (·.map TypeNode.outline)).flatMap (·.outlines))
  | [] => .nil
  | e :: es => (records_element e).append (records_elements es)

end

theorem TypeSpec.records (s : TypeSpec) : Records stop (s.visit (recorder stop)) [s.outline] :=
  (s.type.records stop).node

theorem ValueSpec.records (s : ValueSpec) :
    Records stop (s.visit (recorder stop)) s.outlines :=
  .each_node (TypeNode.records stop) s.type.toList

theorem Specs.records : ∀ s : Specs, Records stop (s.visit (recorder stop)) s.outlines
  | .consts specs | .vars specs => .each (ValueSpec.records stop) specs
  | .types specs => .each_node (TypeSpec.records stop) specs

theorem FuncDecl.records (d : FuncDecl) : Records stop (d.visit (recorder stop)) [d.outline] :=
  ((Records.each (records_fieldList stop) d.receiver.toList).append
    (records_signature stop d.signature)).node

theorem Decl.records : ∀ d : Decl, Records stop (d.visit (recorder stop)) [d.outline]
  | .specs d => (d.specs.records stop).node
  | .func d => d.records stop

/-- A recorder lists what is met of the outline. -/
theorem File.records (f : File) : Records stop (f.visit (recorder stop)) [f.outline] :=
  (Records.each_node (Decl.records stop) f.decls).node

theorem File.visit_recorder (f : File) : f.visit (recorder stop) [] = f.outline.events stop := by
  rw [f.records stop, eventsOfAll, eventsOfAll, List.append_nil, List.nil_append]

end

/-! ## Hooks for what is inside types -/

section

variable {σ : Type} {v w : Visitor σ} (h : v.SameInTypes w)

include h

theorem ValueSpec.visit_congr (s : ValueSpec) : s.visit v = s.visit w := by
  rw [visit, visit, funext h.related.visitType]

theorem Specs.visit_congr (htypeSpec : v.typeSpec = w.typeSpec) (s : Specs) :
    s.visit v = s.visit w := by
  have hspec (t : TypeSpec) : t.visit v = t.visit w := by
    rw [TypeSpec.visit, TypeSpec.visit, htypeSpec, h.related.visitType t.type]
  cases s with
  | consts specs | vars specs => rw [visit, visit, funext (ValueSpec.visit_congr h)]
  | types specs => rw [visit, visit, funext hspec]

end

/-! ## Functions -/

/-- Records every event. -/
def recordAll : Visitor (List Event) := recorder fun _ => false

/-- What is met of a declaration outside of functions, which are met themselves. -/
def Decl.outsideFunc : Decl → List Event
  | .specs d => (Decl.specs d).visit recordAll []
  | .func d => [.func d.serial d.span]

/-- What is met inside a function: its receiver, its signature and all types in them. -/
def Decl.insideFunc : Decl → List Event
  | .specs _ => []
  | .func d => visitSignature recordAll d.signature
      (visitEach (visitFieldList recordAll) d.receiver.toList [])

theorem Decl.visit_recordAll (d : Decl) :
    Appends (d.visit recordAll) (d.outsideFunc ++ d.insideFunc) := by
  intro seen
  cases d with
  | specs d =>
    rw [insideFunc, List.append_nil]
    exact (Decl.records _ (.specs d)).seen_append seen
  | func d =>
    have hinside := (Records.each (records_fieldList fun _ => false) d.receiver.toList).append
      (records_signature (fun _ => false) d.signature)
    refine (hinside.seen_append (seen ++ [.func d.serial d.span])).trans ?_
    rw [List.append_assoc]
    rfl

theorem Decl.visit_outsideFunc (d : Decl) :
    Appends (d.visit (recorder (· == .func))) d.outsideFunc := by
  intro seen
  cases d with
  | specs d =>
    have hsame : (recorder (· == .func)).SameInTypes recordAll := ⟨rfl, rfl, rfl⟩
    have hvisit : (Decl.specs d).visit (recorder (· == .func))
        = (Decl.specs d).visit recordAll := by
      rw [visit, visit, d.specs.visit_congr hsame rfl]
      rfl
    rw [hvisit]
    exact (Decl.records _ (.specs d)).seen_append seen
  | func d => rfl

/-- To stop at some kinds of nodes hides what is inside them and nothing else. Type specs are all
met then, in order, where it is only they that are stopped at. To stop at functions hides their
receivers and signatures with the types in them. -/
theorem stopping_hides_insides (f : File) :
    (∀ stop, f.visit (recorder stop) []
      = ((f.outline.meetings []).filter (!·.isHidden stop)).map Meeting.event) ∧
    f.visit recordAll [] = (f.outline.meetings []).map Meeting.event ∧
    (f.visit (recorder (· == .typeSpec)) []).filterMap Event.specName?
      = f.typeSpecs.map (·.name.name) ∧
    f.visit recordAll []
      = .file f.package :: f.decls.flatMap (fun d => d.outsideFunc ++ d.insideFunc) ∧
    f.visit (recorder (· == .func)) [] = .file f.package :: f.decls.flatMap Decl.outsideFunc := by
  have hshown (stop : Kind → Bool) : f.visit (recorder stop) []
      = shown stop (f.outline.meetings []) := by
    have hnone : ([] : List Event).any (stop ·.kind) = false := rfl
    rw [f.visit_recorder, Outline.events_eq_shown hnone]
  refine ⟨hshown, ?_, ?_, ?_, ?_⟩
  · rw [recordAll, hshown, shown_all]
  · rw [f.visit_recorder]
    exact f.specNames_outline rfl rfl
  · exact Appends.visitEach Decl.visit_recordAll f.decls [.file f.package]
  · exact Appends.visitEach Decl.visit_outsideFunc f.decls [.file f.package]

end GoIface
