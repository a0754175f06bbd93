import Mathlib.Data.List.Pairwise
import Mathlib.Data.Set.Function
import GoIface.Model.Report
import GoIface.Proofs.ImportTable
import GoIface.Proofs.Qualifiers

/-!
# Names of packages in a report

What is written for a type is text with the named types of other packages in between
(`TypeExpr.parts`), and each of these is a name for its package, a point and its own name
(`written_parts`). The packages that stand in the signatures of an interface are the ones its
methods refer to. A report names them after the ends of their paths, so two packages go by one name
if their paths end alike, and only then (`report_tells_packages_apart_iff`).
-/

namespace GoIface

/-! ## Parts of a text -/

inductive Part where
  | text (s : String)
  | named (package name : String)
deriving DecidableEq

/-- What is written for a part if packages go by these names. -/
def Part.written (names : String → String) : Part → String
  | text s => s
  | named package name => names package ++ "." ++ name

def writtenParts (names : String → String) (parts : List Part) : String :=
  String.join (parts.map (Part.written names))

def commaParts : List (List Part) → List Part
  | [] => []
  | [ps] => ps
  | ps :: qs :: pss => ps ++ .text ", " :: commaParts (qs :: pss)

def resultsParts : List (List Part) → List Part
  | [] => []
  | [ps] => .text " " :: ps
  | ps :: qs :: pss => .text " (" :: (commaParts (ps :: qs :: pss) ++ [.text ")"])

mutual

def TypeExpr.parts : TypeExpr → List Part
  | .array length elem => .text ("[" ++ toString length ++ "]") :: elem.parts
  | .slice elem => .text "[]" :: elem.parts
  | .pointer elem => .text "*" :: elem.parts
  | .mapping key value => .text "map[" :: (key.parts ++ .text "]" :: value.parts)
  | .chan direction elem => .text (direction.keyword ++ " ") :: elem.parts
  | .func args results =>
    .text "func(" :: (commaParts (partsOfAll args) ++ .text ")" ::
      resultsParts (partsOfAll results))
  | .named package name => if package.isEmpty then [.text name] else [.named package name]
  | .predeclared name => [.text name]

def partsOfParam : Param → List Part
  | ⟨_, true, .slice elem⟩ => .text "..." :: elem.parts
  | ⟨_, _, type⟩ => type.parts

def partsOfAll : List Param → List (List Part)
  | [] => []
  | x :: xs => partsOfParam x :: partsOfAll xs

end

theorem partsOfAll_eq_map : ∀ xs : List Param, partsOfAll xs = xs.map partsOfParam
  | [] => rfl
  | _ :: xs => by simp [partsOfAll, partsOfAll_eq_map xs]

theorem partsOfParam_eq (x : Param) :
    partsOfParam x = (if x.isSpread then [.text "..."] else []) ++ x.shown.parts := by
  rcases x with ⟨_, _ | _, type⟩
  · cases type <;> simp [partsOfParam, Parameter.isSpread, Parameter.shown]
  · cases type <;> simp [partsOfParam, Parameter.isSpread, Parameter.shown]

def Method.signatureParts (m : Method) : List Part :=
  .text "(" :: (commaParts (m.args.map partsOfParam) ++ .text ")" ::
    resultsParts (m.results.map partsOfParam))

/-! ## The parts put together -/

section

variable (names : String → String)

theorem writtenParts_cons (part : Part) (parts : List Part) :
    writtenParts names (part :: parts) = part.written names ++ writtenParts names parts := by
  simp [writtenParts]

theorem writtenParts_append (parts parts' : List Part) :
    writtenParts names (parts ++ parts')
      = writtenParts names parts ++ writtenParts names parts' := by
  simp [writtenParts]

theorem writtenParts_commaParts : ∀ pss : List (List Part),
    writtenParts names (commaParts pss) = commaSeparated (pss.map (writtenParts names))
  | [] => rfl
  | [ps] => by simp [commaParts, commaSeparated]
  | ps :: qs :: pss => by
    have ih := writtenParts_commaParts (qs :: pss)
    rw [commaParts, writtenParts_append, writtenParts_cons, ih]
    simp [commaSeparated, Part.written, ← String.append_assoc]

theorem writtenParts_resultsParts : ∀ pss : List (List Part),
    writtenParts names (resultsParts pss) = resultsText (pss.map (writtenParts names))
  | [] => rfl
  | [ps] => by simp [resultsParts, resultsText, writtenParts_cons, Part.written]
  | ps :: qs :: pss => by
    simp only [resultsParts, resultsText, writtenParts_cons, writtenParts_append,
      writtenParts_commaParts, List.map_cons]
    simp [writtenParts, Part.written, ← String.append_assoc]

end

variable {table : AliasTable} {p : String}

theorem written_partsOfParam {x : Param}
    (h : writtenParts table.qualifier x.shown.parts = x.shown.render table) :
    writtenParts table.qualifier (partsOfParam x) = renderParam table x := by
  rw [partsOfParam_eq, renderParam_eq, writtenParts_append, h]
  split <;> simp [writtenParts, Part.written]

theorem written_partsOfAll {xs : List Param}
    (h : ∀ x ∈ xs, writtenParts table.qualifier x.shown.parts = x.shown.render table) :
    (partsOfAll xs).map (writtenParts table.qualifier) = renderAll table xs := by
  rw [partsOfAll_eq_map, renderAll_eq_map, List.map_map]
  exact List.map_congr_left fun x hx => written_partsOfParam (h x hx)

/-- What is written for a type are its parts. -/
theorem TypeExpr.written_parts (t : TypeExpr) :
    writtenParts table.qualifier t.parts = t.render table := by
  induction t using TypeExpr.inductShown with
  | array length elem ih | slice elem ih | pointer elem ih | chan direction elem ih =>
    rw [parts, render, writtenParts_cons, ih]
    simp [Part.written]
  | mapping key value ihkey ihvalue =>
    rw [parts, render, writtenParts_cons, writtenParts_append, writtenParts_cons, ihkey, ihvalue]
    simp [Part.written, ← String.append_assoc]
  | func args results ihargs ihresults =>
    rw [parts, render, writtenParts_cons, writtenParts_append, writtenParts_cons,
      writtenParts_commaParts, writtenParts_resultsParts, written_partsOfAll ihargs,
      written_partsOfAll ihresults]
    simp [Part.written, ← String.append_assoc]
  | named package name =>
    rw [parts, render]
    split <;> simp [writtenParts, Part.written]
  | predeclared name => simp [parts, render, writtenParts, Part.written]

theorem Method.written_signatureParts (table : AliasTable) (m : Method) :
    writtenParts table.qualifier m.signatureParts = m.signatureText table := by
  rw [signatureParts, signatureText, ← partsOfAll_eq_map, ← partsOfAll_eq_map, writtenParts_cons,
    writtenParts_append, writtenParts_cons, writtenParts_commaParts, writtenParts_resultsParts,
    written_partsOfAll fun x _ => x.shown.written_parts,
    written_partsOfAll fun x _ => x.shown.written_parts, renderAll_eq_map, renderAll_eq_map]
  simp [Part.written, ← String.append_assoc]

/-! ## The packages that are named -/

/-- A type of the package is among the parts. -/
def Names (p : String) (parts : List Part) : Prop := ∃ name, .named p name ∈ parts

theorem names_cons_text {s : String} {parts : List Part} :
    Names p (.text s :: parts) ↔ Names p parts := by
  simp [Names]

theorem names_append {parts parts' : List Part} :
    Names p (parts ++ parts') ↔ Names p parts ∨ Names p parts' := by
  simp [Names, exists_or]

theorem names_commaParts : ∀ {pss : List (List Part)},
    Names p (commaParts pss) ↔ ∃ ps ∈ pss, Names p ps
  | [] => by simp [commaParts, Names]
  | [ps] => by simp [commaParts]
  | ps :: qs :: pss => by
    rw [commaParts, names_append, names_cons_text, names_commaParts]
    simp

theorem names_resultsParts : ∀ {pss : List (List Part)},
    Names p (resultsParts pss) ↔ ∃ ps ∈ pss, Names p ps
  | [] => by simp [resultsParts, Names]
  | [ps] => by simp [resultsParts, names_cons_text]
  | ps :: qs :: pss => by
    rw [resultsParts, names_cons_text, names_append, names_commaParts]
    simp [Names]

theorem names_partsOfParam {x : Param} (h : Names p x.shown.parts ↔ p ∈ x.shown.packages) :
    Names p (partsOfParam x) ↔ p ∈ x.type.packages := by
  rw [← packagesOfParam_eq, ← packagesOfParam_shown, ← h, partsOfParam_eq, names_append]
  split <;> simp [Names]

theorem names_partsOfAll {xs : List Param}
    (h : ∀ x ∈ xs, (Names p x.shown.parts ↔ p ∈ x.shown.packages)) :
    (∃ ps ∈ partsOfAll xs, Names p ps) ↔ ∃ x ∈ xs, p ∈ x.type.packages := by
  simp only [partsOfAll_eq_map, List.mem_map, exists_exists_and_eq_and]
  exact exists_congr fun x => and_congr_right fun hx => names_partsOfParam (h x hx)

/-- The packages that are named are those the type refers to. -/
theorem TypeExpr.names_parts (t : TypeExpr) : Names p t.parts ↔ p ∈ t.packages := by
  induction t using TypeExpr.inductShown with
  | array length elem ih | slice elem ih | pointer elem ih | chan direction elem ih =>
    rw [parts, names_cons_text, packages, ih]
  | mapping key value ihkey ihvalue =>
    rw [parts, names_cons_text, names_append, names_cons_text, packages, List.mem_append, ihkey,
      ihvalue]
  | func args results ihargs ihresults =>
    rw [parts, names_cons_text, names_append, names_cons_text, names_commaParts,
      names_resultsParts, names_partsOfAll ihargs, names_partsOfAll ihresults,
      mem_packages_func]
  | named package name =>
    rw [parts, packages]
    split <;> simp [Names]
  | predeclared name => simp [parts, packages, Names]

theorem Method.names_signatureParts {m : Method} :
    Names p m.signatureParts ↔ ∃ x ∈ m.args ++ m.results, x.type.Refers p := by
  rw [signatureParts, ← partsOfAll_eq_map, ← partsOfAll_eq_map, names_cons_text, names_append,
    names_cons_text, names_commaParts, names_resultsParts,
    names_partsOfAll fun x _ => x.shown.names_parts,
    names_partsOfAll fun x _ => x.shown.names_parts]
  simp [refers_iff, or_and_right, exists_or]

theorem Interface.mem_packages {i : Interface} :
    p ∈ i.packages ↔ ∃ m ∈ i.methods, Names p m.signatureParts := by
  simp only [packages, PathSet.mem_addAll, List.not_mem_nil, false_or, List.mem_flatMap,
    Method.names_signatureParts, refers_iff, Method.packages, List.mem_append, packagesOfParam_eq]
  simp [or_and_right, exists_or]

/-! ## The names in a report -/

/-- The last segments of the paths are the same up to their first points. -/
def EndAlike (p q : String) : Prop := ∃ x, NamedAfter p x ∧ NamedAfter q x

theorem EndAlike.symm {p q : String} (h : EndAlike p q) : EndAlike q p := by
  obtain ⟨x, hp, hq⟩ := h
  exact ⟨x, hq, hp⟩

theorem qualifier_reportTable {paths : PathSet} (hp : p ∈ paths) :
    (reportTable paths).qualifier p = guessedName p := by
  have hlookup : (reportTable paths).lookup p = some (guessedName p) := by
    induction paths with
    | nil => cases hp
    | cons q paths ih =>
      rw [reportTable, List.map_cons, List.lookup_cons]
      by_cases h : p = q
      · simp [h]
      · rw [beq_false_of_ne h]
        exact ih ((List.mem_cons.1 hp).resolve_left h)
  rw [AliasTable.qualifier, hlookup, Option.getD_some]

/-- The signatures in a report are written part by part. The packages that are named in them are
those the methods refer to, each by the last segment of its path up to the first point. So two of
them go by one name if and only if their paths end alike, and no two do if no two paths end
alike. -/
theorem report_tells_packages_apart_iff (d : Declared) (outPackage outPath : String) :
    let paths := d.interface.packages
    let table := reportTable paths
    (∃ head, d.report outPackage outPath = head ++ "signatures:\n"
      ++ String.join (d.interface.methods.map fun m =>
        "  " ++ m.name ++ writtenParts table.qualifier m.signatureParts ++ "\n")
      ++ d.interface.describe) ∧
    (∀ m ∈ d.interface.methods, ∀ p,
      Names p m.signatureParts ↔ ∃ x ∈ m.args ++ m.results, x.type.Refers p) ∧
    (∀ p, p ∈ paths ↔ ∃ m ∈ d.interface.methods, Names p m.signatureParts) ∧
    (∀ p ∈ paths, ∀ x, table.qualifier p = x ↔ NamedAfter p x) ∧
    (∀ p ∈ paths, ∀ q ∈ paths, table.qualifier p = table.qualifier q ↔ EndAlike p q) ∧
    (Set.InjOn table.qualifier {p | p ∈ paths} ↔ paths.Pairwise fun p q => ¬ EndAlike p q) := by
  intro paths table
  have hnamed : ∀ p ∈ paths, ∀ x, table.qualifier p = x ↔ NamedAfter p x := fun p hp x => by
    rw [qualifier_reportTable hp, namedAfter_iff, eq_comm]
  have halike : ∀ p ∈ paths, ∀ q ∈ paths, table.qualifier p = table.qualifier q ↔ EndAlike p q := by
    intro p hp q hq
    rw [hnamed p hp]
    constructor
    · intro h
      exact ⟨_, h, (hnamed q hq _).1 rfl⟩
    · rintro ⟨x, hpx, hqx⟩
      rwa [(hnamed q hq x).2 hqx]
  refine ⟨?_, fun m _ p => m.names_signatureParts, fun p => Interface.mem_packages, hnamed,
    halike, ?_⟩
  · simp only [Method.written_signatureParts]
    exact ⟨_, rfl⟩
  · have hsorted : paths.Pairwise (· < ·) := PathSet.pairwise_addAll .nil
    constructor
    · intro hinj
      refine hsorted.imp_of_mem fun hp hq hlt hends => ?_
      exact hlt.ne (hinj hp hq ((halike _ hp _ hq).2 hends))
    · intro hapart p hp q hq heq
      by_contra hne
      have hsymm : Std.Symm fun p q => ¬ EndAlike p q := ⟨fun _ _ h hends => h hends.symm⟩
      exact hapart.forall hp hq hne ((halike p hp q hq).1 heq)

/-- A file with names of its own for two packages whose paths end alike. -/
def joinerSource : String :=
  "package s\nimport (\n\tfirst \"a/io\"\n\tsecond \"b/io\"\n)\n"
    ++ "type Joiner interface \x7b Join(x first.Reader, y second.Reader) \x7d\n"

/-- What the file tells apart goes by one name in the report. -/
theorem joiner_confuses_packages : ∃ model i,
    FileModel.ofSource (fun _ => none) "s.go" joinerSource "s" = .ok model ∧
    i ∈ model.interfaces ∧ i.packages = ["a/io", "b/io"] ∧
    i.methods.map (·.signatureText (reportTable i.packages)) = ["(io.Reader, io.Reader)"] ∧
    (reportTable i.packages).qualifier "a/io" = (reportTable i.packages).qualifier "b/io" := by
  have hread : (FileModel.ofSource (fun _ => none) "s.go" joinerSource "s").toOption.map
      (·.interfaces.map fun i =>
        (i.packages, i.methods.map (·.signatureText (reportTable i.packages))))
      = some [(["a/io", "b/io"], ["(io.Reader, io.Reader)"])] := by decide +kernel
  rcases hmodel : FileModel.ofSource (fun _ => none) "s.go" joinerSource "s" with e | model
  · rw [hmodel] at hread
    cases hread
  · rw [hmodel] at hread
    obtain ⟨i, hinterfaces, hpair⟩ := List.map_eq_singleton_iff.1 (Option.some.inj hread)
    obtain ⟨hpackages, htexts⟩ := Prod.mk.inj hpair
    refine ⟨model, i, rfl, hinterfaces ▸ .head _, hpackages, htexts, ?_⟩
    obtain ⟨-, -, -, -, halike, -⟩ := report_tells_packages_apart_iff ⟨i, "s", ""⟩ "fake_s" ""
    exact (halike _ (by simp [hpackages]) _ (by simp [hpackages])).2
      ⟨"io", namedAfter_iff.2 (by decide +kernel), namedAfter_iff.2 (by decide +kernel)⟩

end GoIface
