import GoIface.Model.Conversion
import GoIface.Proofs.TypeReading
import GoIface.Tree.Declarations

/-!
# Reading files that are there

A file is read from its package clause, its imports and its declarations if each of these is read
from its own tokens, with a semicolon after it. The imports here are named ones, each on its own,
and the declarations those of one type.
-/

namespace GoIface.Parse.Takes

variable {α β γ : Type} {L : Legend} {F : Follow}

theorem declEnd : Takes L declEnd [.mark .semi] F fun _ => True := by
  refine .peek fun c o _ _ => ?_
  refine (eat_self (F := F) .semi).finish fun s hs => ?_
  rw [if_pos (by simp [hs])]
  exact .pure trivial

theorem length_le_terminated (tok : γ → List Token) : ∀ xs : List γ,
    xs.length ≤ (xs.flatMap fun x => tok x ++ [Token.mark .semi]).length
  | [] => Nat.le_refl 0
  | x :: xs => by
    have ih := length_le_terminated tok xs
    simp only [List.flatMap_cons, List.length_append, List.length_cons, List.length_nil]
    omega

/-- Declarations go on for as long as they start as they should. -/
theorem declsWhile {more : Cursor → Bool} {item : Parse α} {tok : γ → List Token} {G : α → β}
    {H : γ → β} (hF : ∀ c : Cursor, F c.next? → more c = false) :
    ∀ (xs : List γ) (n : Nat), xs.length ≤ n →
      (∀ x ∈ xs, Takes L item (tok x) (· = some (.mark .semi)) fun y => G y = H x) →
      (∀ x ∈ xs, ∃ t us, tok x = t :: us ∧ ∀ c : Cursor, c.next? = some t → more c = true) →
      Takes L (declsWhile more item n) (xs.flatMap fun x => tok x ++ [Token.mark .semi]) F
        fun ys => ys.map G = xs.map H
  | [], 0, _, _, _ => .pure rfl
  | [], n + 1, _, _, _ => by
    refine .peek fun c o ho hc => ?_
    rw [hF c (by rwa [hc])]
    exact .pure rfl
  | x :: xs, n + 1, hn, hitem, hmore => by
    have ih := declsWhile hF xs n (by simpa using hn) (fun y hy => hitem y (by simp [hy]))
      fun y hy => hmore y (by simp [hy])
    obtain ⟨t, us, ht, hstart⟩ := hmore x (by simp)
    refine .peek fun c o _ hc => ?_
    rw [hstart c (by rw [hc, List.flatMap_cons, ht]; rfl), if_pos rfl, List.flatMap_cons,
      List.append_assoc]
    refine (hitem x (by simp)).bind (fun y hy => ?_) fun _ _ => rfl
    refine (declEnd (F := anything)).bind (fun _ _ => ?_) fun _ _ => trivial
    exact ih.map fun ys hys => by simp [hy, hys]

/-! ## Imports -/

/-- What is read from an import under a name: the name, and what is known of the place of the
path. -/
def IsImport (L : Legend) (name path : String) (i : ImportSpec) : Prop :=
  ∃ x, i.name = some (.name x) ∧ x.name = name ∧ L.known [.literal .string path] i.path.span

theorem importSpec {name path : String} (hname : name ≠ "_") :
    Takes L importSpec [.ident name, .literal .string path] F (IsImport L name path) := by
  have hread : Takes L importName? [.ident name] anything
      fun i => ∃ x, i = some (.name x) ∧ x.name = name := by
    refine .peek fun c o _ hc => ?_
    rw [hc, nextOf_cons]
    split
    · next h => simp at h
    · next h => simp_all
    · exact (ident name).finish fun x hx => .pure ⟨x, rfl, hx⟩
    · next h => exact absurd rfl (h name)
  refine hread.step (fun i hi => ?_) fun _ _ => trivial
  have htag : IsTag [.literal .string path] := ⟨_, _, rfl, .inl rfl⟩
  refine (stringLiteral?_some htag).finish fun s hs => ?_
  obtain ⟨l, rfl, hl⟩ := hs
  obtain ⟨x, rfl, hx⟩ := hi
  exact .pure ⟨x, rfl, hx, hl⟩

theorem group_single {spec : Parse α} {t : Token} {ts : List Token} {P : α → Prop}
    (ht : t ≠ .mark .lparen) (h : Takes L spec (t :: ts) F P) :
    Takes L (group spec) (t :: ts) F fun p => ∃ x, p.1 = [x] ∧ P x := by
  refine (eat_other (F := (· = some t)) ?_).skip (fun s hs => ?_) fun _ _ => rfl
  · rintro _ rfl
    simpa using ht
  · rw [hs]
    exact h.finish fun x hx => .pure ⟨x, rfl, hx⟩

def importTokens (name path : String) : List Token :=
  [.keyword .importKw, .ident name, .literal .string path]

theorem importDecl {name path : String} (hname : name ≠ "_") :
    Takes L importDecl (importTokens name path) F
      fun is => ∃ i, is = [i] ∧ IsImport L name path i := by
  refine (bump (F := anything) _).step (fun _ _ => ?_) fun _ _ => trivial
  exact (group_single (by simp) (importSpec hname)).map fun _ h => h

/-! ## Declarations of types -/

/-- A declaration of a type is read if the type is, and starts neither as type parameters do nor
as an alias. -/
theorem typeSpec {name : String} {t : Token} {ts : List Token} {P : TypeNode → Prop}
    (h : Takes L type (t :: ts) F P) (hbrack : t ≠ .mark .lbrack) (hassign : t ≠ .mark .assign) :
    Takes L typeSpec (.ident name :: t :: ts) F
      fun s => s.name.name = name ∧ s.params = none ∧ P s.type := by
  refine (ident (F := anything) name).step (fun x hx => ?_) fun _ _ => trivial
  refine .look fun c ls r hls _ hc => ?_
  have hparams : holdsTypeParams c.rest = false := by
    obtain ⟨l, ls, rfl, rfl, -⟩ := List.map_eq_cons_iff.1 hls
    rw [hc]
    unfold holdsTypeParams
    split
    · next heq =>
      have hl := congrArg (fun ms => ms.head?.map Lexeme.token) heq
      exact absurd (Option.some.inj hl) hbrack
    · rfl
  rw [hparams]
  refine (Takes.pure (F := anything) (P := (· = none)) rfl).skip ?_ fun _ _ => trivial
  rintro _ rfl
  refine (eat_other (F := (· = some t)) ?_).skip (fun s _ => ?_) fun _ _ => rfl
  · rintro _ rfl
    simpa using hassign
  · exact h.finish fun u hu => .pure ⟨hx, rfl, hu⟩

def typeTokens (name : String) (ts : List Token) : List Token :=
  .keyword .typeKw :: .ident name :: ts

theorem typeDecl {name : String} {t : Token} {ts : List Token} {P : TypeNode → Prop}
    (h : Takes L type (t :: ts) F P) (hbrack : t ≠ .mark .lbrack) (hassign : t ≠ .mark .assign) :
    Takes L decl (typeTokens name (t :: ts)) F fun d =>
      ∃ s, d.typeSpecs = [s] ∧ s.name.name = name ∧ s.params = none ∧ P s.type := by
  refine .peek fun c o _ hc => ?_
  rw [hc]
  refine (bump (F := anything) _).step (fun _ _ => ?_) fun _ _ => trivial
  refine (group_single (by simp) (typeSpec h hbrack hassign)).finish fun p hp => ?_
  obtain ⟨s, hs, hspec⟩ := hp
  intro c ls r hls _ _ hc
  obtain rfl := List.map_eq_nil_iff.1 hls
  exact ⟨_, _, rfl, hc, s, by rw [hs]; rfl, hspec⟩

/-! ## Files -/

/-- The tokens of a file, each of its parts with a semicolon after it. -/
def fileTokens (package : String) (imports decls : List (List Token)) : List Token :=
  .keyword .packageKw :: .ident package :: .mark .semi
    :: ((imports.flatMap fun ts => ts ++ [Token.mark .semi])
      ++ decls.flatMap fun ts => ts ++ [Token.mark .semi])

section

variable {δ : Type} {imports : List δ} {name path : δ → String} {G : ImportSpec → β} {H : δ → β}
  (hname : ∀ i ∈ imports, name i ≠ "_")
  (hG : ∀ i ∈ imports, ∀ spec, IsImport L (name i) (path i) spec → G spec = H i)

include hname hG

theorem importDecls {n : Nat} (hn : imports.length ≤ n) :
    Takes L (Parse.declsWhile (fun c => c.next? == some (.keyword .importKw)) Parse.importDecl n)
      (imports.flatMap fun i => importTokens (name i) (path i) ++ [Token.mark .semi])
      (· ≠ some (.keyword .importKw)) fun is => is.flatten.map G = imports.map H := by
  have hread : Takes L
      (Parse.declsWhile (fun c => c.next? == some (.keyword .importKw)) Parse.importDecl n)
      (imports.flatMap fun i => importTokens (name i) (path i) ++ [Token.mark .semi])
      (· ≠ some (.keyword .importKw))
      fun is => is.map (List.map G) = imports.map fun i => [H i] := by
    refine declsWhile (fun c hc => by simpa using hc) imports n hn (fun i hi => ?_)
      fun i _ => ⟨_, _, rfl, fun c hc => by simp [hc]⟩
    refine (importDecl (hname i hi)).mono (fun _ h => h) ?_
    rintro _ ⟨spec, rfl, hspec⟩
    rw [List.map_singleton, hG i hi spec hspec]
  refine hread.mono (fun _ h => h) fun is his => ?_
  rw [List.map_flatten, his, ← List.flatMap_def, List.map_eq_flatMap]

theorem file {package : String} {decls : List γ} {tok : γ → List Token} {G' : Decl → α}
    {H' : γ → α}
    (hdecls : ∀ x ∈ decls, Takes L decl (tok x) (· = some (.mark .semi)) fun d => G' d = H' x)
    (hstart : ∀ x ∈ decls, ∃ t us, tok x = t :: us ∧ t ≠ .keyword .importKw) :
    Takes L file
      (fileTokens package (imports.map fun i => importTokens (name i) (path i)) (decls.map tok))
      (· = none) fun f =>
        f.name.name = package ∧ f.imports.map G = imports.map H ∧
          f.decls.map G' = decls.map H' := by
  refine (expect (F := anything) _).step (fun _ _ => ?_) fun _ _ => trivial
  refine (ident (F := anything) package).step (fun x hx => ?_) fun _ _ => trivial
  refine (eat_self (F := anything) .semi).step (fun s hs => ?_) fun _ _ => trivial
  obtain ⟨s, rfl⟩ := Option.isSome_iff_exists.1 hs
  have hlen := length_le_terminated (fun i => importTokens (name i) (path i)) imports
  have hlen' := length_le_terminated tok decls
  rw [List.flatMap_map, List.flatMap_map]
  refine .look fun c ls r hls _ hc => ?_
  have hls := congrArg List.length hls
  rw [List.length_map, List.length_append] at hls
  have hn : imports.length ≤ c.rest.length := by
    rw [hc, List.length_append]
    omega
  refine (importDecls hname hG hn).bind (fun is his => ?_) fun o ho => ?_
  · refine .look fun c ls r hls _ hc => ?_
    have hls := congrArg List.length hls
    rw [List.length_map] at hls
    have hn : decls.length ≤ c.rest.length := by
      rw [hc, List.length_append]
      omega
    refine (declsWhile (fun c hc => ?_) decls _ hn hdecls fun x hx => ?_).finish
      fun ds hds => .pure ⟨hx, his, hds⟩
    · simpa [Cursor.atEnd_iff] using hc
    · obtain ⟨t, us, ht, -⟩ := hstart x hx
      refine ⟨t, us, ht, fun c hc => ?_⟩
      have hend : c.atEnd = false := by
        rw [← Bool.not_eq_true, Cursor.atEnd_iff, hc]
        simp
      rw [hend]
      rfl
  · rcases decls with _ | ⟨x, decls⟩
    · subst ho
      simp
    · obtain ⟨t, us, ht, hne⟩ := hstart x (by simp)
      simp [ht, hne]

end

end GoIface.Parse.Takes
