import GoIface.Files.Environment
import GoIface.Proofs.PathSteps

/-!
# Enclosing modules

The directories above a path lie within each other (`pairwise_ancestors`), so at most one of those
with a usable module file is nearest, and that is the one that is found (`encloses_iff`).
-/

namespace GoIface

namespace Path

theorem pairwise_upward (ss : List Step) : (upward ss).Pairwise fun a b => b <+: a ∧ b ≠ a := by
  induction ss using List.reverseRecOn with
  | nil => exact .nil
  | append_singleton ss s ih =>
    rw [upward_concat, List.pairwise_cons]
    refine ⟨fun a ha => ?_, ih⟩
    have hpre : a <+: ss := by
      rw [upward, List.mem_reverse] at ha
      exact (List.mem_inits _ _).1 (List.mem_of_mem_tail ha)
    refine ⟨hpre.trans (List.prefix_append ss [s]), fun heq => ?_⟩
    have hlen := hpre.length_le
    rw [heq, List.length_append, List.length_singleton] at hlen
    omega

/-- The ancestors of a path lie within each other, the nearest first. -/
theorem pairwise_ancestors {p : String} (hp : p = "" ∨ isAbsolute p = true) :
    (ancestors p).Pairwise fun a b => steps b <+: steps a ∧ steps b ≠ steps a := by
  rcases hp with rfl | hp
  · exact List.pairwise_singleton _ _
  · have h := pairwise_upward (steps p)
    rwa [← map_steps_ancestors hp, List.pairwise_map] at h

theorem prefix_of_mem_ancestors {p a : String} (hp : isAbsolute p = true) (ha : a ∈ ancestors p) :
    steps a <+: steps p := by
  have hmem : steps a ∈ upward (steps p) := by
    rw [← map_steps_ancestors hp]
    exact List.mem_map_of_mem ha
  rw [upward, List.mem_reverse] at hmem
  exact (List.mem_inits _ _).1 (List.mem_of_mem_tail hmem)

end Path

/-! ## Reading module files -/

namespace FileSystem

/-- The text that a file holds, none if it cannot be read or is not text. -/
def text? (fs : FileSystem) (path : String) : Option String :=
  match fs.read path with
  | .ok content => String.fromUTF8? content
  | .error _ => none

/-- The path that the module file of a directory tells. -/
def modulePath? (fs : FileSystem) (dir : String) : Option String :=
  (fs.text? (Path.join dir "go.mod")).bind moduleDirective

end FileSystem

variable {fs : FileSystem}

theorem Reading.on_readText (file : String) : (Reading.readText file).on fs
    = match fs.read file with
      | .error fault => .error fault
      | .ok content => match String.fromUTF8? content with
        | some text => .ok text
        | none => .error .notText := by
  have hread : (Reading.query (.read file)).on fs = fs.read file := rfl
  rw [Reading.readText, Reading.on_bind, hread]
  rcases fs.read file with fault | content
  · rfl
  · rcases h : String.fromUTF8? content with _ | text <;> simp [h]

theorem Reading.toOption_on_readText (file : String) :
    ((Reading.readText file).on fs).toOption = fs.text? file := by
  rw [Reading.on_readText, FileSystem.text?]
  rcases fs.read file with fault | content
  · rfl
  · rcases h : String.fromUTF8? content with _ | text <;> simp [h, Except.toOption]

theorem Module.on_at? (root : String) :
    (Module.at? root).on fs = (fs.modulePath? root).map (⟨root, ·⟩) := by
  rw [Module.at?, Reading.on_bind, FileSystem.modulePath?, ← Reading.toOption_on_readText]
  rcases (Reading.readText (Path.join root "go.mod")).on fs with fault | text <;> rfl

theorem Module.on_enclosing? (dir : String) : (Module.enclosing? dir).on fs
    = (Path.ancestors dir).findSome? fun root => (fs.modulePath? root).map (⟨root, ·⟩) := by
  simp [Module.enclosing?, Module.on_at?]

theorem ne_empty_of_moduleDirective {text path : String}
    (h : moduleDirective text = some path) : path ≠ "" := by
  obtain ⟨line, -, hline⟩ := List.exists_of_findSome?_eq_some h
  simp only [modulePath?, Option.bind_eq_bind, Option.bind_eq_some_iff] at hline
  obtain ⟨rest, -, hpath⟩ := hline
  split_ifs at hpath with htold
  cases hpath
  rintro hnil
  simp [← String.toList_eq_nil_iff] at hnil
  simp [hnil] at htold

/-- The module is that of the nearest directory, from `dir` upward, with a usable module file. -/
structure FileSystem.Encloses (fs : FileSystem) (m : Module) (dir : String) : Prop where
  above : m.root ∈ Path.ancestors dir
  tells : fs.modulePath? m.root = some m.path
  nearest : ∀ a ∈ Path.ancestors dir, fs.modulePath? a ≠ none →
    Path.steps a <+: Path.steps m.root

theorem encloses_iff {m : Module} {dir : String} (hdir : dir = "" ∨ Path.isAbsolute dir = true) :
    fs.Encloses m dir ↔ (Module.enclosing? dir).on fs = some m := by
  have hpairwise := Path.pairwise_ancestors hdir
  rw [Module.on_enclosing?, List.findSome?_eq_some_iff]
  constructor
  · rintro ⟨habove, htells, hnearest⟩
    obtain ⟨inner, outer, hsplit⟩ := List.append_of_mem habove
    refine ⟨inner, m.root, outer, hsplit, by simp [htells], fun a ha => ?_⟩
    rw [hsplit, List.pairwise_append] at hpairwise
    obtain ⟨hpre, hne⟩ := hpairwise.2.2 a ha m.root List.mem_cons_self
    rw [Option.map_eq_none_iff]
    by_contra husable
    have hpre' := hnearest a (hsplit ▸ List.mem_append_left _ ha) husable
    exact hne (hpre.eq_of_length_le hpre'.length_le)
  · rintro ⟨inner, root, outer, hsplit, hroot, hinner⟩
    obtain ⟨path, htells, rfl⟩ := Option.map_eq_some_iff.1 hroot
    refine ⟨by simp [hsplit], htells, fun a ha husable => ?_⟩
    rw [hsplit, List.pairwise_append, List.pairwise_cons] at hpairwise
    rw [hsplit, List.mem_append, List.mem_cons] at ha
    rcases ha with ha | rfl | ha
    · exact absurd (Option.map_eq_none_iff.1 (hinner a ha)) husable
    · exact List.prefix_rfl
    · exact (hpairwise.2.1.1 a ha).1

end GoIface
