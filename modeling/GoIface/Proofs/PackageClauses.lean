import GoIface.Proofs.LexemeReaders
import GoIface.Proofs.Rows
import GoIface.Symbols

/-!
# Package names without the file

The package name of a text is read off its first two lexemes without scanning the rest, which gives
the same as to read it off all of them (`packageNameOf_eq`). A text that is a file starts with them,
so its name is the one that is read, and a text without a name is no file.
-/

namespace GoIface

/-! ## The first two lexemes -/

namespace LexemeReader

theorem next_fst (r : LexemeReader) : r.next.1 = r.left.head? := by
  have hnext := congrArg Prod.fst (next_stream r)
  rw [LexemeStream.next_fst] at hnext
  exact hnext.symm

theorem left_next (r : LexemeReader) : r.next.2.left = r.left.tail := by
  have hnext := congrArg (·.2.left) (next_stream r)
  rw [LexemeStream.left_next] at hnext
  exact hnext.symm

end LexemeReader

theorem packageNameOf_eq_some_iff {source name : String} : packageNameOf source = some name ↔
    (lex source)[0]?.map Lexeme.token = some (.keyword .packageKw) ∧
      (lex source)[1]?.map Lexeme.token = some (.ident name) := by
  let r := LexemeReader.ofSource source
  have hfirst : r.next.1 = (lex source)[0]? := by
    rw [LexemeReader.next_fst, List.head?_eq_getElem?]
    rfl
  have hsecond : r.next.2.next.1 = (lex source)[1]? := by
    rw [LexemeReader.next_fst, LexemeReader.left_next, List.head?_tail]
    rfl
  rw [← hfirst, ← hsecond, packageNameOf]
  split
  · next hkeyword hident => simp [r, hkeyword, hident]
  · next hother => exact iff_of_false (by simp) fun ⟨hkeyword, hident⟩ => hother _ hkeyword hident

/-- The name is the one that the tokens of the whole text start with. -/
theorem packageNameOf_eq (source : String) :
    packageNameOf source = match (lex source).map Lexeme.token with
      | .keyword .packageKw :: .ident name :: _ => some name
      | _ => none := by
  refine Option.ext fun name => packageNameOf_eq_some_iff.trans ?_
  rw [← List.getElem?_map, ← List.getElem?_map]
  split
  · next htokens => simp [htokens]
  · next hother =>
    refine iff_of_false (fun ⟨hfirst, hident⟩ => ?_) (by simp)
    rcases htokens : (lex source).map Lexeme.token with _ | ⟨t, _ | ⟨u, rest⟩⟩
    · simp [htokens] at hfirst
    · simp [htokens] at hident
    · obtain rfl : t = _ := by simpa [htokens] using hfirst
      obtain rfl : u = _ := by simpa [htokens] using hident
      exact hother _ _ htokens

/-- A token, none if it is a faulty one. -/
def Token.sound? : Token → Option Token
  | .faulty _ => none
  | t => some t

theorem Token.sound?_eq_some_iff {t u : Token} (hu : ∀ fault, u ≠ .faulty fault) :
    t.sound? = some u ↔ t = u := by
  cases t with
  | faulty fault => exact iff_of_false (by simp [sound?]) (Ne.symm (hu fault))
  | _ => simp [sound?]

/-- The tokens of a text without the faults of the faulty ones. -/
def soundTokens (source : String) : List (Option Token) := (lex source).map (·.token.sound?)

theorem soundTokens_eq_some_iff {source : String} {i : Nat} {t : Token}
    (ht : ∀ fault, t ≠ .faulty fault) :
    (soundTokens source)[i]? = some (some t) ↔ (lex source)[i]?.map Lexeme.token = some t := by
  simp [soundTokens, Token.sound?_eq_some_iff ht]

theorem packageNameOf_congr {source other : String}
    (h : (soundTokens source).take 2 = (soundTokens other).take 2) :
    packageNameOf source = packageNameOf other := by
  have hsame (i : Nat) (hi : i < 2) : (soundTokens source)[i]? = (soundTokens other)[i]? := by
    rw [← List.getElem?_take_of_lt hi, h, List.getElem?_take_of_lt hi]
  refine Option.ext fun name => ?_
  rw [packageNameOf_eq_some_iff, packageNameOf_eq_some_iff, ← soundTokens_eq_some_iff (by simp),
    ← soundTokens_eq_some_iff (by simp), ← soundTokens_eq_some_iff (by simp),
    ← soundTokens_eq_some_iff (by simp), hsame 0 (by decide), hsame 1 (by decide)]

/-! ## Files -/

theorem packageNameOf_of_ofSource {source : String} {file : File} {made : Counts}
    (h : File.ofSource source = .ok (file, made)) : packageNameOf source = some file.name.name := by
  obtain ⟨-, c, hread, -⟩ := read_ofSource h
  obtain ⟨_, _, _, hclause, -⟩ := Parse.file_eq_ok_iff.1 hread
  obtain ⟨a, b, _, rest, name, hrest, ha, hb, -, hnames, -⟩ := Parse.clause_eq_ok_iff.1 hclause
  have hlex : lex source = a :: b :: _ := hrest
  have hname : file.name = ⟨name, b.span⟩ := congrArg Prod.snd hnames
  rw [packageNameOf_eq_some_iff, hlex, hname]
  exact ⟨congrArg some ha, congrArg some hb⟩

/-- To read two lexemes of a text gives the same package name as to read all of them. The name of a
file is the one that is read off its text, also if it is kept as a symbol among those of other
names, and a text of which none is read is no file. Texts with the same first two tokens have the
same name, whatever follows and whether or not it is sound. -/
theorem package_name_of_first_tokens (source : String) :
    (packageNameOf source = match (lex source).map Lexeme.token with
      | .keyword .packageKw :: .ident name :: _ => some name
      | _ => none) ∧
    (∀ file made, File.ofSource source = .ok (file, made) →
      packageNameOf source = some file.name.name ∧
      ∀ (hash : String → UInt64) (s : Symbols hash) (later : List String),
        s.names.size < Symbols.room →
        ((s.intern file.name.name).2.internAll later).resolve? (s.intern file.name.name).1
          = packageNameOf source) ∧
    (packageNameOf source = none → ∃ e, File.ofSource source = .error e) ∧
    ∀ other, (soundTokens source).take 2 = (soundTokens other).take 2 →
      packageNameOf source = packageNameOf other := by
  refine ⟨packageNameOf_eq source, fun file made hok => ?_, fun hnone => ?_,
    fun _ => packageNameOf_congr⟩
  · have hname := packageNameOf_of_ofSource hok
    refine ⟨hname, fun hash s later hroom => ?_⟩
    rw [Symbols.resolve?_internAll (Symbols.resolve?_intern hroom _), hname]
  · rcases hread : File.ofSource source with e | ⟨file, made⟩
    · exact ⟨e, rfl⟩
    · rw [packageNameOf_of_ofSource hread] at hnone
      cases hnone

/-- An unfinished text has the package name of a file that starts like it, and a text without a
package clause is no file. -/
theorem package_name_of_unfinished :
    (∃ file made, File.ofSource "// doc\npackage fancy\n" = .ok (file, made) ∧
      packageNameOf "// doc\npackage fancy\n" = some file.name.name) ∧
    packageNameOf "package /* doc */ fancy; func ( 1_" = some "fancy" ∧
    ∃ e, File.ofSource "func main() \x7b\x7d" = .error e := by
  have hread : (File.ofSource "// doc\npackage fancy\n").toOption.map (·.1.name.name)
      = some "fancy" := by decide +kernel
  obtain ⟨-, hfile, -, hsame⟩ := package_name_of_first_tokens "// doc\npackage fancy\n"
  obtain ⟨htokens, -, hnone, -⟩ := package_name_of_first_tokens "func main() \x7b\x7d"
  rcases hok : File.ofSource "// doc\npackage fancy\n" with e | ⟨file, made⟩
  · rw [hok] at hread
    cases hread
  · rw [hok] at hread
    have hname := (hfile file made hok).1
    refine ⟨⟨file, made, rfl, hname⟩, ?_, hnone (htokens.trans (by decide +kernel))⟩
    rw [← hsame "package /* doc */ fancy; func ( 1_" (by decide +kernel), hname]
    exact hread

end GoIface
