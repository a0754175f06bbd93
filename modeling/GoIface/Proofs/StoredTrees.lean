import GoIface.Proofs.References
import GoIface.Tree.Fold
import Mathlib.Data.List.Forall2
import Mathlib.Data.Option.Basic

/-!
# Trees that are stored in an arena

A node of a tree is stored at a number if the number is its serial number, and its span and what it
is made of are found there. A list is stored at a place if its items are found there one by one. How
the types inside are stored is left open for the parts of a type (`TypeForm.Stored`), and
`TypeNode.Stored` closes the knot. So everything that a stored tree refers to is in the arena
(`TypeForm.Stored.resolves`).
-/

namespace GoIface

section

variable (A : Arena) {τ : Type} (P : τ → NodeId .type → Prop)

inductive Field.Stored : Field τ → NodeId .field → Prop
  | mk {serial : Nat} {span : Span} {names : List Ident} {ellipsis : Option Span} {type : τ}
      {tag : Option StringLiteral} {embedded : Bool} {id : NodeId .field} {r : ListRef .names}
      {id' : NodeId .type} (hserial : id.raw.toNat = serial) (hspan : A.span? id = some span)
      (hnode : A.node? id = some ⟨r, ellipsis, id', tag, embedded⟩)
      (hnames : A.items? r = some names) (htype : P type id') :
      Stored ⟨serial, span, names, ellipsis, type, tag, embedded⟩ id

inductive FieldList.Stored : FieldList τ → Flat.FieldList → Prop
  | mk {lparen rparen : Span} {fields : List (Field τ)} {r : ListRef .fields}
      {ids : List (NodeId .field)} (hr : A.items? r = some ids)
      (h : List.Forall₂ (Field.Stored A P) fields ids) :
      Stored ⟨lparen, fields, rparen⟩ ⟨lparen, r, rparen⟩

inductive Results.Stored : Results τ → Flat.Results → Prop
  | absent : Stored .absent .absent
  | single {t : τ} {id : NodeId .type} (h : P t id) : Stored (.single t) (.single id)
  | list {l : FieldList τ} {l' : Flat.FieldList} (h : l.Stored A P l') : Stored (.list l) (.list l')

inductive Signature.Stored : Signature τ → NodeId .signature → Prop
  | mk {serial : Nat} {span : Span} {params : FieldList τ} {results : Results τ}
      {id : NodeId .signature} {params' : Flat.FieldList} {results' : Flat.Results}
      (hserial : id.raw.toNat = serial) (hspan : A.span? id = some span)
      (hnode : A.node? id = some ⟨params', results'⟩) (hparams : params.Stored A P params')
      (hresults : results.Stored A P results') : Stored ⟨serial, span, params, results⟩ id

inductive Term.Stored : Term τ → Term (NodeId .type) → Prop
  | mk {tilde : Option Span} {t : τ} {id : NodeId .type} (h : P t id) :
      Stored ⟨tilde, t⟩ ⟨tilde, id⟩

inductive Element.Stored : Element τ → Flat.Element → Prop
  | method {x : Ident} {s : Signature τ} {id : NodeId .signature} (h : s.Stored A P id) :
      Stored (.method x s) (.method x id)
  | union {ts : List (Term τ)} {r : ListRef .terms} {items : List (Term (NodeId .type))}
      (hr : A.items? r = some items) (h : List.Forall₂ (Term.Stored P) ts items) :
      Stored (.union ts) (.union r)

inductive TypeForm.Stored : TypeForm τ → Flat.TypeForm → Prop
  | named {q : Option Ident} {x : Ident} {args : List τ} {r : ListRef .types}
      {ids : List (NodeId .type)} (hr : A.items? r = some ids) (h : List.Forall₂ P args ids) :
      Stored (.named q x args) (.named q x r)
  | pointer {p : Span} {t : τ} {id : NodeId .type} (h : P t id) :
      Stored (.pointer p t) (.pointer p id)
  | array {p : Span} {t : τ} {id : NodeId .type} (h : P t id) : Stored (.array p t) (.array p id)
  | slice {p : Span} {t : τ} {id : NodeId .type} (h : P t id) : Stored (.slice p t) (.slice p id)
  | mapping {p : Span} {key value : τ} {id id' : NodeId .type} (hkey : P key id)
      (hvalue : P value id') : Stored (.mapping p key value) (.mapping p id id')
  | chan {d : Direction} {p : Span} {t : τ} {id : NodeId .type} (h : P t id) :
      Stored (.chan d p t) (.chan d p id)
  | struct {p : Span} {xs : List (Field τ)} {r : ListRef .fields} {ids : List (NodeId .field)}
      (hr : A.items? r = some ids) (h : List.Forall₂ (Field.Stored A P) xs ids) :
      Stored (.struct p xs) (.struct p r)
  | interface {p : Span} {es : List (Element τ)} {r : ListRef .elements}
      {items : List Flat.Element} (hr : A.items? r = some items)
      (h : List.Forall₂ (Element.Stored A P) es items) :
      Stored (.interface p es) (.interface p r)
  | func {p : Span} {s : Signature τ} {id : NodeId .signature} (h : s.Stored A P id) :
      Stored (.func p s) (.func p id)
  | paren {p : Span} {t : τ} {id : NodeId .type} (h : P t id) : Stored (.paren p t) (.paren p id)

end

section

variable (A : Arena)

inductive TypeNode.Stored : TypeNode → NodeId .type → Prop
  | mk {serial : Nat} {span : Span} {form : TypeForm TypeNode} {id : NodeId .type}
      {flat : Flat.TypeForm} (hserial : id.raw.toNat = serial) (hspan : A.span? id = some span)
      (hnode : A.node? id = some flat) (hform : TypeForm.Stored A TypeNode.Stored form flat) :
      Stored (.mk serial span form) id

inductive ValueSpec.Stored : ValueSpec → Flat.ValueSpec → Prop
  | mk {names : List Ident} {type : Option TypeNode} {values : Option Span} {r : ListRef .names}
      {id : Option (NodeId .type)} (hnames : A.items? r = some names)
      (htype : Option.Rel (TypeNode.Stored A) type id) :
      Stored ⟨names, type, values⟩ ⟨r, id, values⟩

inductive TypeSpec.Stored : TypeSpec → Flat.TypeSpec → Prop
  | mk {name : Ident} {params assign : Option Span} {type : TypeNode} {id : NodeId .type}
      (h : type.Stored A id) : Stored ⟨name, params, assign, type⟩ ⟨name, params, assign, id⟩

inductive Specs.Stored : Specs → Flat.SpecKind → List Flat.Spec → Prop
  | consts {xs : List ValueSpec} {ys : List Flat.ValueSpec}
      (h : List.Forall₂ (ValueSpec.Stored A) xs ys) : Stored (.consts xs) .consts (ys.map .value)
  | types {xs : List TypeSpec} {ys : List Flat.TypeSpec}
      (h : List.Forall₂ (TypeSpec.Stored A) xs ys) : Stored (.types xs) .types (ys.map .type)
  | vars {xs : List ValueSpec} {ys : List Flat.ValueSpec}
      (h : List.Forall₂ (ValueSpec.Stored A) xs ys) : Stored (.vars xs) .vars (ys.map .value)

inductive SpecDecl.Stored : SpecDecl → NodeId .decl → Prop
  | mk {serial : Nat} {span keyword : Span} {parens : Option Parens} {specs : Specs}
      {id : NodeId .decl} {kind : Flat.SpecKind} {r : ListRef .specs} {items : List Flat.Spec}
      (hserial : id.raw.toNat = serial) (hspan : A.span? id = some span)
      (hnode : A.node? id = some ⟨keyword, kind, parens, r⟩) (hr : A.items? r = some items)
      (h : specs.Stored A kind items) : Stored ⟨serial, span, keyword, parens, specs⟩ id

inductive FuncDecl.Stored : FuncDecl → NodeId .func → Prop
  | mk {serial : Nat} {span keyword : Span} {receiver : Option (FieldList TypeNode)} {name : Ident}
      {typeParams : Option Span} {signature : Signature TypeNode} {body : Option Span}
      {id : NodeId .func} {receiver' : Option Flat.FieldList} {id' : NodeId .signature}
      (hserial : id.raw.toNat = serial) (hspan : A.span? id = some span)
      (hnode : A.node? id = some ⟨keyword, receiver', name, typeParams, id', body⟩)
      (hreceiver : Option.Rel (FieldList.Stored A (TypeNode.Stored A)) receiver receiver')
      (hsignature : signature.Stored A (TypeNode.Stored A) id') :
      Stored ⟨serial, span, keyword, receiver, name, typeParams, signature, body⟩ id

inductive Decl.Stored : Decl → Flat.Decl → Prop
  | specs {d : SpecDecl} {id : NodeId .decl} (h : d.Stored A id) : Stored (.specs d) (.specs id)
  | func {d : FuncDecl} {id : NodeId .func} (h : d.Stored A id) : Stored (.func d) (.func id)

inductive File.Stored : File → Flat.File → Prop
  | mk {package : Span} {name : Ident} {imports : List ImportSpec} {decls : List Decl}
      {r : ListRef .imports} {r' : ListRef .decls} {items : List Flat.Decl}
      (himports : A.items? r = some imports) (hr : A.items? r' = some items)
      (h : List.Forall₂ (Decl.Stored A) decls items) :
      Stored ⟨package, name, imports, decls⟩ ⟨package, name, r, r'⟩

end

/-! ## What they refer to -/

section

variable {A : Arena} {τ : Type} {P Q : τ → NodeId .type → Prop}

theorem Field.Stored.resolves {x : Field τ} {id : NodeId .field} (h : x.Stored A P id) :
    A.Resolves (.node id) := by
  obtain ⟨-, -, hnode, -, -⟩ := h
  exact ⟨_, hnode⟩

theorem FieldList.Stored.resolves {l : FieldList τ} {l' : Flat.FieldList}
    (h : l.Stored A P l') : ∀ s ∈ l'.refs, A.Resolves s := by
  obtain ⟨hr, -⟩ := h
  simpa [Flat.FieldList.refs] using ⟨_, hr⟩

theorem Signature.Stored.resolves {s : Signature τ} {id : NodeId .signature}
    (h : s.Stored A P id) : A.Resolves (.node id) := by
  obtain ⟨-, -, hnode, -, -⟩ := h
  exact ⟨_, hnode⟩

section

variable (hP : ∀ t id, P t id → A.Resolves (.node id))

include hP

theorem Results.Stored.resolves {r : Results τ} {r' : Flat.Results} (h : r.Stored A P r') :
    ∀ s ∈ r'.refs, A.Resolves s := by
  cases h with
  | absent => simp [Flat.Results.refs]
  | single h => simpa [Flat.Results.refs] using hP _ _ h
  | list h => exact h.resolves

theorem Term.Stored.resolves {t : Term τ} {t' : Term (NodeId .type)} (h : t.Stored P t') :
    A.Resolves (.node t'.type) := by
  cases h with
  | mk h => exact hP _ _ h

theorem TypeForm.Stored.resolves {form : TypeForm τ} {flat : Flat.TypeForm}
    (h : form.Stored A P flat) : ∀ s ∈ flat.refs, A.Resolves s := by
  cases h with
  | named hr | struct hr | interface hr => simpa [Flat.TypeForm.refs] using ⟨_, hr⟩
  | pointer h | array h | slice h | chan h | paren h =>
    simpa [Flat.TypeForm.refs] using hP _ _ h
  | mapping hkey hvalue => simpa [Flat.TypeForm.refs] using ⟨hP _ _ hkey, hP _ _ hvalue⟩
  | func h => simpa [Flat.TypeForm.refs] using h.resolves

end

theorem Element.Stored.resolves {e : Element τ} {e' : Flat.Element} (h : e.Stored A P e') :
    ∀ s ∈ e'.refs, A.Resolves s := by
  cases h with
  | method h => simpa [Flat.Element.refs] using h.resolves
  | union hr => simpa [Flat.Element.refs] using ⟨_, hr⟩

theorem TypeNode.Stored.resolves {t : TypeNode} {id : NodeId .type} (h : t.Stored A id) :
    A.Resolves (.node id) := by
  obtain ⟨-, -, hnode, -⟩ := h
  exact ⟨_, hnode⟩

theorem ValueSpec.Stored.resolves {s : ValueSpec} {s' : Flat.ValueSpec} (h : s.Stored A s') :
    ∀ r ∈ (Flat.Spec.value s').refs, A.Resolves r := by
  obtain ⟨hnames, htype⟩ := h
  cases htype with
  | none => simpa [Flat.Spec.refs] using ⟨_, hnames⟩
  | some ht => simpa [Flat.Spec.refs] using ⟨⟨_, hnames⟩, ht.resolves⟩

theorem TypeSpec.Stored.resolves {s : TypeSpec} {s' : Flat.TypeSpec} (h : s.Stored A s') :
    ∀ r ∈ (Flat.Spec.type s').refs, A.Resolves r := by
  obtain ⟨ht⟩ := h
  simpa [Flat.Spec.refs] using ht.resolves

theorem Decl.Stored.resolves {d : Decl} {d' : Flat.Decl} (h : d.Stored A d') :
    ∀ r ∈ d'.refs, A.Resolves r := by
  cases h with
  | specs h =>
    obtain ⟨-, -, hnode, -, -⟩ := h
    simpa [Flat.Decl.refs] using ⟨_, hnode⟩
  | func h =>
    obtain ⟨-, -, hnode, -, -⟩ := h
    simpa [Flat.Decl.refs] using ⟨_, hnode⟩

theorem File.Stored.resolves {f : File} {f' : Flat.File} (h : f.Stored A f') :
    ∀ r ∈ f'.refs, A.Resolves r := by
  obtain ⟨himports, hr, -⟩ := h
  simpa [Flat.File.refs] using ⟨⟨_, himports⟩, ⟨_, hr⟩⟩

/-! ## What is stored inside -/

theorem forall₂_imp_of_mem {α β : Type} {R S : α → β → Prop} {xs : List α} {ys : List β}
    (h : List.Forall₂ R xs ys) (hRS : ∀ x ∈ xs, ∀ y, R x y → S x y) : List.Forall₂ S xs ys :=
  ((List.forall₂_and_left _ _).2 ⟨hRS, h⟩).imp fun _ _ hxy => hxy.1 _ hxy.2

theorem Field.Stored.imp {x : Field τ} {id : NodeId .field} (h : x.Stored A P id)
    (hPQ : ∀ id, P x.type id → Q x.type id) : x.Stored A Q id := by
  obtain ⟨hserial, hspan, hnode, hnames, htype⟩ := h
  exact ⟨hserial, hspan, hnode, hnames, hPQ _ htype⟩

theorem FieldList.Stored.imp {l : FieldList τ} {l' : Flat.FieldList} (h : l.Stored A P l')
    (hPQ : ∀ t ∈ l.children, ∀ id, P t id → Q t id) : l.Stored A Q l' := by
  obtain ⟨hr, h⟩ := h
  exact ⟨hr, forall₂_imp_of_mem h fun x hx _ hid =>
    hid.imp (hPQ _ (List.mem_map_of_mem hx))⟩

theorem Results.Stored.imp {r : Results τ} {r' : Flat.Results} (h : r.Stored A P r')
    (hPQ : ∀ t ∈ r.children, ∀ id, P t id → Q t id) : r.Stored A Q r' := by
  cases h with
  | absent => exact .absent
  | single h => exact .single (hPQ _ (.head _) _ h)
  | list h => exact .list (h.imp hPQ)

theorem Signature.Stored.imp {s : Signature τ} {id : NodeId .signature} (h : s.Stored A P id)
    (hPQ : ∀ t ∈ s.children, ∀ id, P t id → Q t id) : s.Stored A Q id := by
  obtain ⟨hserial, hspan, hnode, hparams, hresults⟩ := h
  exact ⟨hserial, hspan, hnode, hparams.imp fun t ht => hPQ t (List.mem_append_left _ ht),
    hresults.imp fun t ht => hPQ t (List.mem_append_right _ ht)⟩

theorem Element.Stored.imp {e : Element τ} {e' : Flat.Element} (h : e.Stored A P e')
    (hPQ : ∀ t ∈ e.children, ∀ id, P t id → Q t id) : e.Stored A Q e' := by
  cases h with
  | method h => exact .method (h.imp hPQ)
  | union hr h =>
    refine .union hr (forall₂_imp_of_mem h fun t ht _ hid => ?_)
    cases hid with
    | mk hid => exact ⟨hPQ _ (List.mem_map_of_mem ht) _ hid⟩

theorem TypeForm.Stored.imp {form : TypeForm τ} {flat : Flat.TypeForm} (h : form.Stored A P flat)
    (hPQ : ∀ t ∈ form.children, ∀ id, P t id → Q t id) : form.Stored A Q flat := by
  cases h with
  | named hr h => exact .named hr (forall₂_imp_of_mem h hPQ)
  | pointer h => exact .pointer (hPQ _ (.head _) _ h)
  | array h => exact .array (hPQ _ (.head _) _ h)
  | slice h => exact .slice (hPQ _ (.head _) _ h)
  | mapping hkey hvalue =>
    exact .mapping (hPQ _ (.head _) _ hkey) (hPQ _ (.tail _ (.head _)) _ hvalue)
  | chan h => exact .chan (hPQ _ (.head _) _ h)
  | struct hr h =>
    exact .struct hr (forall₂_imp_of_mem h fun x hx _ hid =>
      hid.imp (hPQ _ (List.mem_map_of_mem hx)))
  | interface hr h =>
    exact .interface hr (forall₂_imp_of_mem h fun e he _ hid =>
      hid.imp fun t ht => hPQ t (List.mem_flatMap.2 ⟨e, he, ht⟩))
  | func h => exact .func (h.imp hPQ)
  | paren h => exact .paren (hPQ _ (.head _) _ h)

end

end GoIface
