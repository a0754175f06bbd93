import GoIface.Proofs.RoundTrip

/-!
# Chains of channels

Channels of channels are written without parentheses, and an arrow joins the `chan` before it. So
where a channel of both directions holds one that is received from, the two are read as a channel
to send on that holds one of both directions, and so on for as long as arrows follow. A chain is
read back as it was exactly if no such two stand in it (`chain_reads_back_iff`).
-/

namespace GoIface

/-- Channels around one another, the outermost first. -/
def chain (directions : List Direction) (elem : TypeExpr) : TypeExpr :=
  directions.foldr .chan elem

/-- The directions that are read for those written. A `chan` before them is open if an arrow may
join it. -/
def reread (isOpen : Bool) : List Direction → List Direction
  | [] => if isOpen then [.both] else []
  | .both :: ds => if isOpen then .both :: reread true ds else reread true ds
  | .receive :: ds => if isOpen then .send :: reread true ds else .receive :: reread false ds
  | .send :: ds => if isOpen then .both :: .send :: reread false ds else .send :: reread false ds

/-- Somewhere a channel of both directions is right outside one that is received from. -/
def LosesArrow (ds : List Direction) : Prop := [.both, .receive] <:+: ds

def Direction.tokens : Direction → List Token
  | .both => [.keyword .chanKw]
  | .send => [.keyword .chanKw, .mark .arrow]
  | .receive => [.mark .arrow, .keyword .chanKw]

/-! ## What is read -/

theorem tokens_reread (ds : List Direction) :
    (reread true ds).flatMap Direction.tokens = .keyword .chanKw :: ds.flatMap Direction.tokens ∧
      (reread false ds).flatMap Direction.tokens = ds.flatMap Direction.tokens := by
  induction ds with
  | nil => exact ⟨rfl, rfl⟩
  | cons d ds ih =>
    obtain ⟨hopen, hclosed⟩ := ih
    cases d <;> simp [reread, Direction.tokens, hopen, hclosed]

example : reread false [.both, .receive, .receive] = [.send, .send, .both] := rfl

theorem length_reread (ds : List Direction) :
    (reread true ds).length = ds.length + 1 ∧ (reread false ds).length = ds.length := by
  induction ds with
  | nil => exact ⟨rfl, rfl⟩
  | cons d ds ih =>
    obtain ⟨hopen, hclosed⟩ := ih
    cases d <;> simp [reread, hopen, hclosed]

@[simp] theorem not_losesArrow_nil : ¬ LosesArrow [] := by simp [LosesArrow]

theorem losesArrow_cons {d : Direction} {ds : List Direction} :
    LosesArrow (d :: ds) ↔ (d = .both ∧ ds.head? = some .receive) ∨ LosesArrow ds := by
  unfold LosesArrow
  rw [List.infix_cons_iff, List.cons_prefix_cons]
  cases ds with
  | nil => simp
  | cons e ds => simp [List.cons_prefix_cons, eq_comm]

/-- What is read loses no arrow. -/
theorem not_losesArrow_reread (ds : List Direction) :
    ((reread true ds).head? ≠ some .receive ∧ ¬ LosesArrow (reread true ds)) ∧
      ¬ LosesArrow (reread false ds) := by
  induction ds with
  | nil => simp [reread, losesArrow_cons]
  | cons d ds ih =>
    obtain ⟨⟨hhead, hopen⟩, hclosed⟩ := ih
    cases d <;> simp [reread, losesArrow_cons, hhead, hopen, hclosed]

theorem reread_of_not_losesArrow {ds : List Direction} (h : ¬ LosesArrow ds) :
    (ds.head? ≠ some .receive → reread true ds = .both :: ds) ∧ reread false ds = ds := by
  induction ds with
  | nil => exact ⟨fun _ => rfl, rfl⟩
  | cons d ds ih =>
    rw [losesArrow_cons, not_or] at h
    obtain ⟨hopen, hclosed⟩ := ih h.2
    cases d with
    | both =>
      have hopen := hopen fun hhead => h.1 ⟨rfl, hhead⟩
      exact ⟨fun _ => by rw [reread, if_pos rfl, hopen], hopen⟩
    | send => exact ⟨fun _ => by rw [reread, if_pos rfl, hclosed], by simp [reread, hclosed]⟩
    | receive => exact ⟨fun hhead => absurd rfl hhead, by simp [reread, hclosed]⟩

/-- The directions that are written are those that are read exactly if no arrow is lost. -/
theorem reread_eq_self_iff {ds : List Direction} : reread false ds = ds ↔ ¬ LosesArrow ds := by
  constructor
  · intro h
    rw [← h]
    exact (not_losesArrow_reread ds).2
  · intro h
    exact (reread_of_not_losesArrow h).2

/-! ## Chains -/

section Chain

variable {table : AliasTable} {elem : TypeExpr} {d : Direction} {ds : List Direction}

@[simp] theorem chain_nil : chain [] elem = elem := rfl

@[simp] theorem chain_cons : chain (d :: ds) elem = .chan d (chain ds elem) := rfl

@[simp] theorem unnamed_chain : (chain ds elem).unnamed = chain ds elem.unnamed := by
  induction ds with
  | nil => rfl
  | cons d ds ih => rw [chain_cons, chain_cons, TypeExpr.unnamed, ih]

@[simp] theorem packages_chain : (chain ds elem).packages = elem.packages := by
  induction ds with
  | nil => rfl
  | cons d ds ih => rw [chain_cons, TypeExpr.packages, ih]

@[simp] theorem depth_chain : (chain ds elem).depth = ds.length + elem.depth := by
  induction ds with
  | nil => simp
  | cons d ds ih =>
    rw [chain_cons, TypeExpr.depth, ih, List.length_cons]
    omega

theorem tokens_chain :
    ((chain ds elem).tree table).tokens spellLength
      = ds.flatMap Direction.tokens ++ (elem.tree table).tokens spellLength := by
  induction ds with
  | nil => rfl
  | cons d ds ih =>
    rw [chain_cons, TypeExpr.tree, TypeForm.tokens_unplaced, TypeForm.map, ih]
    cases d <;> rfl

/-- A chain is written with its tokens even if it cannot be told from them. -/
theorem phrase_chain (h : elem.Writable table) :
    Phrase ((chain ds elem).render table).toList
      (((chain ds elem).tree table).tokens spellLength) := by
  induction ds with
  | nil => exact h.phrase
  | cons d ds ih =>
    rw [chain_cons, TypeExpr.render, TypeExpr.tree, TypeForm.tokens_unplaced]
    exact ih.chan d

theorem isReceive_chain (h : elem.isReceive = false) (hhead : ds.head? ≠ some .receive) :
    (chain ds elem).isReceive = false := by
  rcases ds with _ | ⟨d, ds⟩
  · exact h
  · cases d with
    | receive => simp at hhead
    | both | send => rfl

/-- A chain that loses no arrow can be told from its tokens. -/
theorem writable_chain (h : elem.Writable table) (helem : elem.isReceive = false)
    (hds : ¬ LosesArrow ds) : (chain ds elem).Writable table := by
  induction ds with
  | nil => exact h
  | cons d ds ih =>
    rw [losesArrow_cons, not_or] at hds
    refine .chan (ih hds.2) fun hd => isReceive_chain helem fun hhead => ?_
    exact hds.1 ⟨hd, hhead⟩

/-- Around a leaf, other directions make another chain. -/
theorem chain_predeclared_inj {ds' : List Direction} {leaf : String} :
    chain ds (.predeclared leaf) = chain ds' (.predeclared leaf) ↔ ds = ds' := by
  constructor
  · intro h
    induction ds generalizing ds' with
    | nil => cases ds' <;> simp at h ⊢
    | cons d ds ih =>
      cases ds' with
      | nil => simp at h
      | cons d' ds' =>
        rw [chain_cons, chain_cons] at h
        obtain ⟨hd, h⟩ := TypeExpr.chan.inj h
        rw [hd, ih h]
  · rintro rfl
    rfl

end Chain

/-! ## Reading chains back -/

/-- A file with a parameter that is a chain of channels. -/
def chainFile (ds : List Direction) (leaf : String) : String :=
  interfaceFile [] [] ((chain ds (.predeclared leaf)).render [])

def chainModel (ds : List Direction) (leaf : String) : FileModel :=
  ⟨"p", [interfaceOf (chain ds (.predeclared leaf))]⟩

theorem chainModel_inj {ds ds' : List Direction} {leaf : String} :
    chainModel ds leaf = chainModel ds' leaf ↔ ds = ds' := by
  rw [← @chain_predeclared_inj ds ds' leaf]
  simp [chainModel, interfaceOf]

/-- What is read for a chain, and that it is the chain exactly if no arrow is lost. -/
theorem chain_reads_back_iff {ds : List Direction} {leaf : String}
    (hleaf : (TypeExpr.predeclared leaf).Writable []) (hdepth : ds.length + 2 ≤ Parse.nestingLimit)
    (resolve : Resolver) (name : String) :
    FileModel.ofSource resolve name (chainFile ds leaf) ""
        = .ok (chainModel (reread false ds) leaf) ∧
      (FileModel.ofSource resolve name (chainFile ds leaf) "" = .ok (chainModel ds leaf) ↔
        ¬ LosesArrow ds) := by
  have hwritable : (chain (reread false ds) (.predeclared leaf)).Writable [] :=
    writable_chain hleaf rfl (not_losesArrow_reread ds).2
  have hroom : ((chain (reread false ds) (.predeclared leaf)).tree []).NestsWithin
      (Parse.nestingLimit - 1) := by
    refine hwritable.nestsWithin.mono ?_
    rw [depth_chain, (length_reread ds).2, TypeExpr.depth]
    omega
  have htokens : ((chain ds (.predeclared leaf)).tree []).tokens spellLength
      = ((chain (reread false ds) (.predeclared leaf)).tree []).tokens spellLength := by
    rw [tokens_chain, tokens_chain, (tokens_reread ds).2]
  have hnames : AliasTable.Names [] [] := ⟨by simp, by simp, by simp, by simp⟩
  have hread := ofSource_of_phrase hroom (by simp [TypeExpr.packages]) hnames hwritable
    (htokens ▸ phrase_chain hleaf) resolve name
  rw [unnamed_chain, TypeExpr.unnamed] at hread
  have hread : FileModel.ofSource resolve name (chainFile ds leaf) ""
      = .ok (chainModel (reread false ds) leaf) := hread
  refine ⟨hread, ?_⟩
  rw [hread, Except.ok.injEq, chainModel_inj]
  exact reread_eq_self_iff

/-- A channel of channels to receive from is read as one to send on. -/
theorem chan_of_receive_not_read_back :
    let ds : List Direction := [.both, .receive]
    chainFile ds "int" = "package p\ntype I interface \x7b M(x chan <-chan int) \x7d\n" ∧
      (TypeExpr.predeclared "int").Writable [] ∧ ds.length + 2 ≤ Parse.nestingLimit ∧
      FileModel.ofSource (fun _ => none) "a.go" (chainFile ds "int") ""
        = .ok (chainModel [.send, .both] "int") ∧
      FileModel.ofSource (fun _ => none) "a.go" (chainFile ds "int") ""
        ≠ .ok (chainModel ds "int") := by
  intro ds
  have hleaf : (TypeExpr.predeclared "int").Writable [] := .predeclared (by decide) (by decide)
  have hdepth : ds.length + 2 ≤ Parse.nestingLimit := by decide
  have hlost : LosesArrow ds := ⟨[], [], rfl⟩
  obtain ⟨hread, hiff⟩ := chain_reads_back_iff hleaf hdepth (fun _ => none) "a.go"
  exact ⟨by decide, hleaf, hdepth, hread, fun h => hiff.1 h hlost⟩

end GoIface
