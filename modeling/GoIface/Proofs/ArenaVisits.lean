import GoIface.Flat.Visitor
import GoIface.Proofs.Contents
import GoIface.Proofs.StoredTrees
import GoIface.Proofs.Visits

/-!
# Visits of arenas and visits of trees

A visit of an arena does what the visit of the tree does that is stored there, if the hooks do the
same (`Ast.Visitor.Agrees`). The parts of a node are visited alike if the types inside are
(`Agrees.form`), and as these have smaller numbers, a visit has levels enough to go all the way
(`Agrees.type`). A recorder lists the same events in the arena as in the tree (`agrees_recorder`).
-/

namespace GoIface

variable {σ : Type}

/-! ## Walks that succeed -/

/-- The walk succeeds with this change of the state. -/
def Walk.Does (walk : Walk σ Unit) (f : σ → σ) : Prop := ∀ s, walk s = some ((), f s)

namespace Walk.Does

variable {A : Arena} {walk walk' : Walk σ Unit} {f g : σ → σ}

theorem pure : Does (Pure.pure () : Walk σ Unit) id := fun _ => rfl

theorem seq (h : Does walk f) (h' : Does walk' g) : Does (walk >>= fun _ => walk') (g ∘ f) := by
  intro s
  simp only [bind, StateT.bind, h s]
  exact h' (f s)

theorem lift {α : Type} {x : Option α} {a : α} (hx : x = some a) {walk : α → Walk σ Unit}
    (h : Does (walk a) f) : Does (liftM x >>= walk : Walk σ Unit) f := by
  subst hx
  exact h

theorem forM {α β : Type} {walk : β → Walk σ Unit} {visit : α → σ → σ} :
    ∀ {xs : List α} {ys : List β}, List.Forall₂ (fun x y => Does (walk y) (visit x)) xs ys →
      Does (ys.forM walk) (visitEach visit xs)
  | _, _, .nil => pure
  | _, _, .cons h hs => h.seq (forM hs)

theorem walkNode {k : NodeKind} {id : NodeId k} {node : Node k} (hid : A.node? id = some node)
    {walk : Node k → Walk σ Unit} (h : Does (walk node) f) : Does (A.walkNode id walk) f :=
  lift hid h

theorem walkItems {k : ListKind} {r : ListRef k} {items : List (Item k)} {α : Type} {xs : List α}
    (hr : A.items? r = some items) {walk : Item k → Walk σ Unit} {visit : α → σ → σ}
    (h : List.Forall₂ (fun x y => Does (walk y) (visit x)) xs items) :
    Does (A.walkItems r walk) (visitEach visit xs) :=
  lift hr (forM h)

/-- To pass by the items of a list it is enough that they are there. -/
theorem passItems {k : ListKind} {r : ListRef k} {items : List (Item k)}
    (hr : A.items? r = some items) : Does (A.walkItems r fun _ => Pure.pure ()) (id : σ → σ) := by
  have hid (xs : List (Item k)) : visitEach (fun _ => (id : σ → σ)) xs = id := by
    funext s
    exact List.foldl_fixed xs
  rw [← hid items]
  exact walkItems hr (List.forall₂_same.2 fun _ _ => pure)

end Walk.Does

/-! ## Visits of lists in trees -/

section

variable (w : Visitor σ)

theorem visitTypes_eq_visitEach (ts : List TypeNode) :
    visitTypes w ts = visitEach (TypeNode.visit w) ts := by
  induction ts with
  | nil => rfl
  | cons t ts ih =>
    rw [visitTypes, ih]
    rfl

theorem visitFields_eq_visitEach (xs : List (Field TypeNode)) :
    visitFields w xs = visitEach (visitField w) xs := by
  induction xs with
  | nil => rfl
  | cons x xs ih =>
    rw [visitFields, ih]
    rfl

theorem visitTerms_eq_visitEach (ts : List (Term TypeNode)) :
    visitTerms w ts = visitEach (fun t => t.type.visit w) ts := by
  induction ts with
  | nil => rfl
  | cons t ts ih =>
    rw [visitTerms, ih]
    rfl

theorem visitElements_eq_visitEach (es : List (Element TypeNode)) :
    visitElements w es = visitEach (visitElement w) es := by
  induction es with
  | nil => rfl
  | cons e es ih =>
    rw [visitElements, ih]
    rfl

end

/-! ## Hooks that do the same -/

/-- The hooks do the same for what is stored in the arena, if the visits of the insides do. -/
structure Ast.Visitor.Agrees (A : Arena) (v : Ast.Visitor σ) (w : GoIface.Visitor σ) : Prop where
  file {f : File} {f' : Flat.File} (h : f.Stored A f') {inside : Walk σ Unit} {g : σ → σ}
    (hg : inside.Does g) : (v.file ⟨A, f'⟩ inside).Does (w.file f g)
  decl {d : SpecDecl} {id : NodeId .decl} (h : d.Stored A id) {inside : Walk σ Unit} {g : σ → σ}
    (hg : inside.Does g) : (v.decl A id inside).Does (w.decl d g)
  func {d : FuncDecl} {id : NodeId .func} (h : d.Stored A id) {inside : Walk σ Unit} {g : σ → σ}
    (hg : inside.Does g) : (v.func A id inside).Does (w.func d g)
  typeSpec {s : TypeSpec} {s' : Flat.TypeSpec} (h : s.Stored A s') {inside : Walk σ Unit}
    {g : σ → σ} (hg : inside.Does g) : (v.typeSpec A s' inside).Does (w.typeSpec s g)
  type {t : TypeNode} {id : NodeId .type} (h : t.Stored A id) {inside : Walk σ Unit} {g : σ → σ}
    (hg : inside.Does g) : (v.type A id inside).Does (w.type t g)
  field {x : Field TypeNode} {id : NodeId .field} (h : x.Stored A (TypeNode.Stored A) id)
    {inside : Walk σ Unit} {g : σ → σ} (hg : inside.Does g) :
    (v.field A id inside).Does (w.field x g)
  signature {s : Signature TypeNode} {id : NodeId .signature}
    (h : s.Stored A (TypeNode.Stored A) id) {inside : Walk σ Unit} {g : σ → σ}
    (hg : inside.Does g) : (v.signature A id inside).Does (w.signature s g)

namespace Ast.Visitor.Agrees

variable {A : Arena} {v : Ast.Visitor σ} {w : GoIface.Visitor σ}

section

variable {type : NodeId .type → Walk σ Unit}

/-- The type is stored at the number and visited there as in the tree. -/
def Same (A : Arena) (w : GoIface.Visitor σ) (type : NodeId .type → Walk σ Unit) (t : TypeNode)
    (id : NodeId .type) : Prop := t.Stored A id ∧ (type id).Does (t.visit w)

theorem visitField (ha : Agrees A v w) {x : Field TypeNode} {id : NodeId .field}
    (h : x.Stored A (Same A w type) id) :
    (A.visitField v type id).Does (GoIface.visitField w x) := by
  have hstored := h.imp fun _ hid => hid.1
  obtain ⟨-, -, hnode, hnames, htype⟩ := h
  exact ha.field hstored (.walkNode hnode ((Walk.Does.passItems hnames).seq htype.2))

theorem visitFieldList (ha : Agrees A v w) {l : FieldList TypeNode} {l' : Flat.FieldList}
    (h : l.Stored A (Same A w type) l') :
    (A.visitFieldList v type l').Does (GoIface.visitFieldList w l) := by
  obtain ⟨hr, h⟩ := h
  rw [GoIface.visitFieldList, visitFields_eq_visitEach]
  exact .walkItems hr (h.imp fun _ _ => ha.visitField)

theorem visitResults (ha : Agrees A v w) {r : Results TypeNode} {r' : Flat.Results}
    (h : r.Stored A (Same A w type) r') :
    (A.visitResults v type r').Does (GoIface.visitResults w r) := by
  cases h with
  | absent => exact .pure
  | single h => exact h.2
  | list h => exact ha.visitFieldList h

theorem visitSignature (ha : Agrees A v w) {s : Signature TypeNode} {id : NodeId .signature}
    (h : s.Stored A (Same A w type) id) :
    (A.visitSignature v type id).Does (GoIface.visitSignature w s) := by
  have hstored := h.imp fun _ _ _ hid => hid.1
  obtain ⟨-, -, hnode, hparams, hresults⟩ := h
  exact ha.signature hstored
    (.walkNode hnode ((ha.visitFieldList hparams).seq (ha.visitResults hresults)))

theorem visitElement (ha : Agrees A v w) {e : Element TypeNode} {e' : Flat.Element}
    (h : e.Stored A (Same A w type) e') :
    (A.visitElement v type e').Does (GoIface.visitElement w e) := by
  cases h with
  | method h => exact ha.visitSignature h
  | union hr h =>
    rw [GoIface.visitElement, visitTerms_eq_visitEach]
    refine .walkItems hr (h.imp fun _ _ ht => ?_)
    cases ht with
    | mk ht => exact ht.2

theorem visitForm (ha : Agrees A v w) {form : TypeForm TypeNode} {flat : Flat.TypeForm}
    (h : form.Stored A (Same A w type) flat) :
    (A.visitForm v type flat).Does (GoIface.visitForm w form) := by
  cases h with
  | named hr h =>
    rw [GoIface.visitForm, visitTypes_eq_visitEach]
    exact .walkItems hr (h.imp fun _ _ ht => ht.2)
  | pointer h | array h | slice h | chan h | paren h => exact h.2
  | mapping hkey hvalue =>
    rw [GoIface.visitForm]
    exact hkey.2.seq hvalue.2
  | struct hr h =>
    rw [GoIface.visitForm, visitFields_eq_visitEach]
    exact .walkItems hr (h.imp fun _ _ => ha.visitField)
  | interface hr h =>
    rw [GoIface.visitForm, visitElements_eq_visitEach]
    exact .walkItems hr (h.imp fun _ _ => ha.visitElement)
  | func h => exact ha.visitSignature h

end

/-- As the numbers go down from a type to those inside, a visit has levels enough for it. -/
theorem visitWithin (ha : Agrees A v w) (n : Nat) {t : TypeNode} {id : NodeId .type}
    (h : t.Stored A id) (hdown : ∀ u, TypeNode.Within u t → u.Descends) (hn : t.serial < n) :
    (A.visitWithin v n id).Does (t.visit w) := by
  induction n generalizing t id with
  | zero => cases hn
  | succ n ih =>
    have hstored := h
    obtain ⟨-, -, hnode, hform⟩ := h
    refine ha.type hstored (.walkNode hnode (ha.visitForm (hform.imp fun u hu id hid => ⟨hid, ?_⟩)))
    refine ih hid (fun _ hwithin => hdown _ (.child hu hwithin)) ?_
    exact Nat.lt_of_lt_of_le (hdown _ .self u hu u .self) (Nat.lt_succ_iff.1 hn)

/-- The type and those inside are among the types of the arena, with smaller numbers inside. -/
def Deep (A : Arena) (t : TypeNode) : Prop :=
  ∀ u : TypeNode, u.Within t → u.Descends ∧ u.serial < A.size .type

theorem visitType (ha : Agrees A v w) {t : TypeNode} {id : NodeId .type} (h : t.Stored A id)
    (ht : Deep A t) : (A.visitType v id).Does (t.visit w) :=
  ha.visitWithin _ h (fun u hu => (ht u hu).1) (ht t .self).2

theorem visitValueSpec (ha : Agrees A v w) {s : ValueSpec} {s' : Flat.ValueSpec}
    (h : s.Stored A s') (ht : ∀ t ∈ s.type.toList, Deep A t) :
    (A.visitSpec v (.value s')).Does (s.visit w) := by
  obtain ⟨hnames, htype⟩ := h
  cases htype with
  | none => exact (Walk.Does.passItems hnames).seq .pure
  | some h => exact (Walk.Does.passItems hnames).seq (ha.visitType h (ht _ (.head _)))

theorem visitTypeSpec (ha : Agrees A v w) {s : TypeSpec} {s' : Flat.TypeSpec}
    (h : s.Stored A s') (ht : Deep A s.type) :
    (A.visitSpec v (.type s')).Does (s.visit w) := by
  have hstored := h
  obtain ⟨h⟩ := h
  exact ha.typeSpec hstored (ha.visitType h ht)

theorem visitSpecs (ha : Agrees A v w) {specs : Specs} {kind : Flat.SpecKind}
    {r : ListRef .specs} {items : List Flat.Spec} (hr : A.items? r = some items)
    (h : specs.Stored A kind items) (ht : ∀ t ∈ specs.roots, Deep A t) :
    (A.walkItems r (A.visitSpec v)).Does (specs.visit w) := by
  cases h with
  | consts h | vars h =>
    refine .walkItems hr (List.forall₂_map_right_iff.2 ?_)
    refine forall₂_imp_of_mem h fun s hs s' hspec => ?_
    exact ha.visitValueSpec hspec fun t htype => ht t (List.mem_flatMap.2 ⟨s, hs, htype⟩)
  | types h =>
    refine .walkItems hr (List.forall₂_map_right_iff.2 ?_)
    refine forall₂_imp_of_mem h fun s hs s' hspec => ?_
    exact ha.visitTypeSpec hspec (ht _ (List.mem_map_of_mem hs))

theorem visitDecl (ha : Agrees A v w) {d : Decl} {d' : Flat.Decl} (h : d.Stored A d')
    (ht : ∀ t ∈ d.roots, Deep A t) : (A.visitDecl v d').Does (d.visit w) := by
  cases h with
  | specs h =>
    have hstored := h
    obtain ⟨-, -, hnode, hr, h⟩ := h
    exact ha.decl hstored (.walkNode hnode (ha.visitSpecs hr h ht))
  | func h =>
    have hstored := h
    obtain ⟨-, -, hnode, hreceiver, hsignature⟩ := h
    have hsignature := ha.visitSignature <| hsignature.imp fun t hin id hid =>
      ⟨hid, ha.visitType hid (ht t (List.mem_append_right _ hin))⟩
    refine ha.func hstored (.walkNode hnode ?_)
    cases hreceiver with
    | none => exact Walk.Does.pure.seq hsignature
    | some hreceiver =>
      have hreceiver := ha.visitFieldList <| hreceiver.imp fun t hin id hid =>
        ⟨hid, ha.visitType hid (ht t (List.mem_append_left _ (List.mem_flatMap.2
          ⟨_, .head _, hin⟩)))⟩
      exact hreceiver.seq hsignature

/-- The visit of an arena does what the visit of the file does that is stored there. -/
theorem visit (ha : Agrees A v w) {f : File} {f' : Flat.File} (h : f.Stored A f')
    (ht : ∀ t, f.HasType t → t.Descends ∧ t.serial < A.size .type) :
    (Ast.visit v ⟨A, f'⟩).Does (f.visit w) := by
  have hstored := h
  obtain ⟨himports, hr, h⟩ := h
  refine ha.file hstored ((Walk.Does.passItems himports).seq (.walkItems hr ?_))
  exact forall₂_imp_of_mem h fun d hd _ hdecl =>
    ha.visitDecl hdecl fun t hin u hu => ht u ⟨d, hd, t, hin, hu⟩

end Ast.Visitor.Agrees

/-! ## Recorders -/

/-- In the arena a recorder lists what it lists in the tree. -/
theorem agrees_recorder (A : Arena) (stop : Kind → Bool) :
    Ast.Visitor.Agrees A (Ast.recorder stop) (recorder stop) := by
  have hrecord (event : Event) {inside : Walk (List Event) Unit}
      {g : List Event → List Event} (hg : inside.Does g) :
      (Walk.record stop event inside).Does (record stop event g) := by
    intro seen
    unfold Walk.record record
    cases stop event.kind
    · exact hg (seen ++ [event])
    · rfl
  constructor
  case file => exact fun h _ _ hg => by cases h; exact hrecord _ hg
  case typeSpec => exact fun h _ _ hg => by cases h; exact hrecord _ hg
  all_goals
    intro x id h inside g hg
    cases h
    next hserial hspan _ =>
      subst hserial
      exact .lift hspan (hrecord _ hg)

end GoIface
