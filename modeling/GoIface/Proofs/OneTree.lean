import GoIface.Proofs.ArenaVisits
import GoIface.Proofs.BuiltTrees
import GoIface.Proofs.Numbering
import GoIface.Proofs.Pruning
import GoIface.Proofs.Room

/-!
# The arena of a file is one tree

A text is read into an arena just if it is read as a tree, with as many nodes (`Ast.map_ofSource`),
and if the arena is not too large the tree is stored in it (`Ast.stored_ofSource`). So whatever the
arena refers to is there, types refer to types with smaller numbers, and a visit that enters
everything meets each node once (`Ast.arena_is_one_tree`).
-/

namespace GoIface.Ast

variable {source : String} {ast : Ast}

/-- The same texts are read into an arena and as a tree, with as many nodes of each kind, and the
others have the same faults. -/
theorem map_ofSource (source : String) :
    (Ast.ofSource source).map (·.arena.counts) = (File.ofSource source).map Prod.snd := by
  have hfollows := Build.Follows.file (d := .start .empty (lex source) (byteCount source.toList))
  rcases hfaults : (lex source).filterMap Lexeme.diagnostic? with _ | ⟨first, others⟩
  · rw [Ast.ofSource, File.ofSource, readSource_of_sound hfaults, readSource_of_sound hfaults]
    rcases hfile : Parse.file (.start ⟨0, 0, 0, 0, 0⟩ (lex source) (byteCount source.toList))
      with e | ⟨file, c⟩
    · rw [hfollows.failed hfile]
      rfl
    · obtain ⟨file', d, hfile', rfl, -, -⟩ := hfollows.made hfile
      rw [hfile']
      rfl
  · simp only [Ast.ofSource, File.ofSource, readSource, hfaults]
    rfl

theorem stored_ofSource (h : Ast.ofSource source = .ok ast) :
    ∃ file, File.ofSource source = .ok (file, ast.arena.counts) ∧ Arena.empty.Leads ast.arena ∧
      (ast.arena.Fits → file.Stored ast.arena ast.file) := by
  obtain ⟨hsound, c, hok, hmade⟩ := read_ofSource h
  obtain ⟨file, hfile, hleads, hstored⟩ := Build.Follows.file.of_made hok
  rw [← hmade]
  exact ⟨file, readSource_eq_ok_iff.2 ⟨hsound, _, hfile, rfl⟩, hleads,
    fun hfits => hstored _ (le_refl _) hfits⟩

/-- What is stored in an arena that was made of a text of less than four gigabytes is one tree. No
text is larger, as positions have 32 bits. -/
theorem arena_is_one_tree (h : Ast.ofSource source = .ok ast)
    (hsize : byteCount source.toList < 2 ^ 32) :
    ast.arena.Closed ∧ (∀ s ∈ ast.file.refs, ast.arena.Resolves s) ∧
      (∀ id id' : NodeId .type,
        Relation.TransGen ast.arena.Refers (.node id) (.node id') → id'.raw < id.raw) ∧
      ∃ es, ast.events? (fun _ => false) = some es ∧
        ∀ k ∈ Kind.numbered, k.MetOnce (ast.arena.counts.get k) es := by
  have hfits := fits_ofSource h hsize
  obtain ⟨file, hfile, hleads, hstored⟩ := stored_ofSource h
  have hstored := hstored hfits
  obtain ⟨hclosed, hfounded⟩ := Arena.closed_of_steps (hleads.steps hfits)
  obtain ⟨honce, hdescends⟩ := file_is_one_tree hfile
  refine ⟨hclosed, hstored.resolves, fun _ _ => hfounded.lt_of_reaches, _, ?_, honce⟩
  have hvisit := (agrees_recorder ast.arena fun _ => false).visit hstored
    fun t ht => (hdescends t ht).symm
  rw [events?, StateT.run, hvisit [], Option.map_some, File.visit_recorder]

/-- Names that share a type, and an identifier that is a type by itself. -/
theorem func_of_names_arena : ∃ ast, Ast.ofSource "package p\nvar f func(a, b []T) U" = .ok ast ∧
    byteCount "package p\nvar f func(a, b []T) U".toList < 2 ^ 32 ∧
    ast.arena.counts = ⟨1, 0, 4, 1, 1⟩ ∧
    ast.arena.Closed ∧ (∀ s ∈ ast.file.refs, ast.arena.Resolves s) ∧
      (∀ id id' : NodeId .type,
        Relation.TransGen ast.arena.Refers (.node id) (.node id') → id'.raw < id.raw) ∧
      ∃ es, ast.events? (fun _ => false) = some es ∧
        ∀ k ∈ Kind.numbered, k.MetOnce (ast.arena.counts.get k) es := by
  have hsize : byteCount "package p\nvar f func(a, b []T) U".toList < 2 ^ 32 := by decide
  have hcounts : (Ast.ofSource "package p\nvar f func(a, b []T) U").toOption.map (·.arena.counts)
      = some ⟨1, 0, 4, 1, 1⟩ := by decide +kernel
  rcases hast : Ast.ofSource "package p\nvar f func(a, b []T) U" with e | ast
  · rw [hast] at hcounts
    cases hcounts
  · rw [hast] at hcounts
    exact ⟨ast, rfl, hsize, Option.some.inj hcounts, arena_is_one_tree hast hsize⟩

end GoIface.Ast
