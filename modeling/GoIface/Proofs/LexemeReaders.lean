import GoIface.Lexeme.Reader
import GoIface.Proofs.Lines
import Mathlib.Data.List.Forall2

/-!
# Calls to a reader

A reader is asked for lexemes and for the diagnostics it has gathered, in any order. What it has
yet to give is known from its state (`LexemeReader.left`), so it replies as the stream of these
lexemes does (`replies_stream`). Taking the diagnostics leaves what is still to be read alone, and
gives one for each faulty lexeme since they were last taken (`diagnostics_mirror_faults`).
-/

namespace GoIface

/-! ## Calls and replies -/

inductive Call where
  | next
  | takeDiagnostics
deriving DecidableEq

theorem Call.next_of_not_mem {call : Call} {calls : List Call}
    (h : .takeDiagnostics ∉ call :: calls) : call = .next ∧ .takeDiagnostics ∉ calls := by
  cases call with
  | next => exact ⟨rfl, fun hmem => h (.tail _ hmem)⟩
  | takeDiagnostics => exact absurd (.head _) h

inductive Reply where
  | lexeme (l : Option Lexeme)
  | diagnostics (ds : List Diagnostic)
deriving DecidableEq

def Reply.isLexeme : Reply → Bool
  | .lexeme _ => true
  | .diagnostics _ => false

/-- The lexemes that replies give. -/
def lexemesIn (replies : List Reply) : List Lexeme :=
  replies.filterMap fun
    | .lexeme l => l
    | .diagnostics _ => none

theorem lexemesIn_cons (l : Option Lexeme) (replies : List Reply) :
    lexemesIn (.lexeme l :: replies) = l.toList ++ lexemesIn replies := by
  cases l <;> rfl

/-- A faulty lexeme has one diagnostic, which is at its span and says what is wrong with it. -/
def Lexeme.ReportedBy (l : Lexeme) (d : Diagnostic) : Prop :=
  ∃ fault, l.token = .faulty fault ∧ d = ⟨.lex fault, l.span⟩

theorem Lexeme.forall₂_reportedBy (ls : List Lexeme) :
    List.Forall₂ ReportedBy (ls.filter (·.fault?.isSome)) (ls.filterMap diagnostic?) := by
  induction ls with
  | nil => exact .nil
  | cons l ls ih =>
    cases hfault : l.fault? with
    | none => simpa [hfault, diagnostic?] using ih
    | some fault =>
      have htoken : l.token = .faulty fault := by
        unfold fault? at hfault
        split at hfault
        · next h => exact h.trans (congrArg _ (Option.some.inj hfault))
        · cases hfault
      have hreport : l.diagnostic? = some ⟨.lex fault, l.span⟩ := by simp [diagnostic?, hfault]
      rw [List.filter_cons_of_pos (by simp [hfault]), List.filterMap_cons_some hreport]
      exact .cons ⟨fault, htoken, rfl⟩ ih

section

variable {σ τ : Type} (next : σ → Option Lexeme × σ) (take : σ → List Diagnostic × σ)

/-- The replies of a state that each call may change. -/
def repliesOf : List Call → σ → List Reply
  | [], _ => []
  | .next :: calls, s => .lexeme (next s).1 :: repliesOf calls (next s).2
  | .takeDiagnostics :: calls, s => .diagnostics (take s).1 :: repliesOf calls (take s).2

/-- States reply as what they stand for. -/
theorem repliesOf_map {next' : τ → Option Lexeme × τ} {take' : τ → List Diagnostic × τ}
    {f : σ → τ} (hnext : ∀ s, next' (f s) = (next s).map id f)
    (htake : ∀ s, take' (f s) = (take s).map id f) (calls : List Call) (s : σ) :
    repliesOf next' take' calls (f s) = repliesOf next take calls s := by
  induction calls generalizing s with
  | nil => rfl
  | cons call calls ih => cases call <;> simp [repliesOf, hnext, htake, ih]

end

/-! ## The stream of all lexemes -/

namespace LexemeStream

def replies : List Call → LexemeStream → List Reply := repliesOf next takeDiagnostics

theorem next_fst (s : LexemeStream) : s.next.1 = s.left.head? := by
  unfold next
  split <;> simp [*]

theorem left_next (s : LexemeStream) : s.next.2.left = s.left.tail := by
  unfold next
  split <;> simp [*]

theorem left_next_of_none {s : LexemeStream} (h : s.next.1 = none) : s.next.2.left = [] := by
  have hnil : s.left = [] := List.head?_eq_none_iff.1 (next_fst s ▸ h)
  rw [left_next, hnil, List.tail_nil]

theorem gathered_next (s : LexemeStream) :
    s.next.2.gathered = s.gathered ++ s.next.1.toList.filterMap Lexeme.diagnostic? := by
  unfold next
  split
  · simp
  · next l _ _ => cases h : l.diagnostic? <;> simp [h]

/-- The lexemes come in order, whatever else is called for. -/
theorem filter_replies (calls : List Call) (s : LexemeStream) :
    (s.replies calls).filter Reply.isLexeme
      = (List.range (calls.count .next)).map fun i => .lexeme s.left[i]? := by
  induction calls generalizing s with
  | nil => rfl
  | cons call calls ih =>
    cases call with
    | next =>
      have htail : ∀ i, s.next.2.left[i]? = s.left[i + 1]? := fun i => by
        rw [left_next, List.getElem?_tail]
      have hhead : s.next.1 = s.left[0]? := by rw [next_fst, List.head?_eq_getElem?]
      rw [List.count_cons_self, List.range_succ_eq_map, List.map_cons, List.map_map]
      refine (congrArg (_ :: ·) (ih s.next.2)).trans ?_
      simp only [htail, hhead]
      rfl
    | takeDiagnostics => exact (ih s.takeDiagnostics.2).trans (by rfl)

theorem isLexeme_of_mem_replies {calls : List Call} (hcalls : .takeDiagnostics ∉ calls)
    {s : LexemeStream} : ∀ r ∈ s.replies calls, r.isLexeme = true := by
  induction calls generalizing s with
  | nil => exact List.forall_mem_nil _
  | cons call calls ih =>
    obtain ⟨rfl, hrest⟩ := Call.next_of_not_mem hcalls
    exact List.forall_mem_cons.2 ⟨rfl, ih hrest⟩

/-- They are those that come if nothing else is called for. -/
theorem filter_replies_eq (calls : List Call) (s : LexemeStream) :
    (s.replies calls).filter Reply.isLexeme = s.replies (calls.filter (· = .next)) := by
  have honly : .takeDiagnostics ∉ calls.filter (· = .next) := by simp
  rw [filter_replies, ← List.filter_eq_self.2 (isLexeme_of_mem_replies honly), filter_replies,
    List.count_filter (by simp)]

/-- The first reply is to one of the two calls. -/
theorem of_replies_cons {calls : List Call} {s : LexemeStream} {reply : Reply}
    {later : List Reply} (h : s.replies calls = reply :: later) : ∃ calls',
      (reply = .lexeme s.next.1 ∧ s.next.2.replies calls' = later) ∨
        reply = .diagnostics s.gathered ∧ s.takeDiagnostics.2.replies calls' = later := by
  obtain _ | ⟨_ | _, calls⟩ := calls
  · cases h
  · obtain ⟨hreply, hlater⟩ := List.cons.inj h
    exact ⟨calls, .inl ⟨hreply.symm, hlater⟩⟩
  · obtain ⟨hreply, hlater⟩ := List.cons.inj h
    exact ⟨calls, .inr ⟨hreply.symm, hlater⟩⟩

/-- After some replies a stream goes on from another state. -/
theorem exists_later {calls : List Call} {s : LexemeStream} {earlier later : List Reply}
    (h : s.replies calls = earlier ++ later) :
    ∃ (calls' : List Call) (s' : LexemeStream), s'.replies calls' = later := by
  induction earlier generalizing calls s with
  | nil => exact ⟨calls, s, h⟩
  | cons reply earlier ih =>
    obtain ⟨calls', ⟨-, hlater⟩ | ⟨-, hlater⟩⟩ := of_replies_cons h
    · exact ih hlater
    · exact ih hlater

/-- After the diagnostics were taken a stream goes on with none gathered. -/
theorem exists_emptied {calls : List Call} {s : LexemeStream} {earlier later : List Reply}
    {ds : List Diagnostic} (h : s.replies calls = earlier ++ .diagnostics ds :: later) :
    ∃ calls' left, replies calls' ⟨left, []⟩ = later := by
  obtain ⟨taking, s', htaking⟩ := exists_later h
  obtain ⟨calls', ⟨hreply, -⟩ | ⟨-, hlater⟩⟩ := of_replies_cons htaking
  · cases hreply
  · exact ⟨calls', _, hlater⟩

/-- What is taken is what was gathered, with what the lexemes since then report. -/
theorem taken_of_replies {calls : List Call} {s : LexemeStream} {since later : List Reply}
    {ds : List Diagnostic} (h : s.replies calls = since ++ .diagnostics ds :: later)
    (hsince : ∀ r ∈ since, r.isLexeme = true) :
    ds = s.gathered ++ (lexemesIn since).filterMap Lexeme.diagnostic? := by
  induction since generalizing calls s with
  | nil =>
    obtain ⟨calls', ⟨hreply, -⟩ | ⟨hreply, -⟩⟩ := of_replies_cons h
    · cases hreply
    · simpa [lexemesIn] using hreply
  | cons reply since ih =>
    obtain ⟨calls', ⟨rfl, hlater⟩ | ⟨rfl, -⟩⟩ := of_replies_cons h
    · rw [ih hlater fun r hr => hsince r (.tail _ hr), gathered_next, List.append_assoc,
        lexemesIn_cons, List.filterMap_append]
    · exact absurd (hsince _ (.head _)) (by simp [Reply.isLexeme])

/-- What is taken reports the faulty lexemes since it was last taken, each of them once. -/
theorem reported_since {calls : List Call} {left : List Lexeme} {earlier since later : List Reply}
    {ds : List Diagnostic}
    (h : replies calls ⟨left, []⟩ = earlier ++ (since ++ .diagnostics ds :: later))
    (hearlier : ∀ r ∈ earlier.getLast?, r.isLexeme = false)
    (hsince : ∀ r ∈ since, r.isLexeme = true) :
    List.Forall₂ Lexeme.ReportedBy ((lexemesIn since).filter (·.fault?.isSome)) ds := by
  have hempty : ∃ calls' left', replies calls' ⟨left', []⟩ = since ++ .diagnostics ds :: later := by
    rcases List.eq_nil_or_concat earlier with rfl | ⟨before, r, rfl⟩
    · exact ⟨calls, left, h⟩
    · have hlast := hearlier r (by simp)
      cases r with
      | lexeme => cases hlast
      | diagnostics => exact exists_emptied (by simpa using h)
  obtain ⟨calls', left', h'⟩ := hempty
  rw [taken_of_replies h' hsince]
  exact Lexeme.forall₂_reportedBy _

/-- Past the end there are no lexemes. -/
theorem nothing_after_end {calls : List Call} {s : LexemeStream} {earlier later : List Reply}
    (h : s.replies calls = earlier ++ .lexeme none :: later) :
    ∀ r ∈ later, r.isLexeme = true → r = .lexeme none := by
  obtain ⟨ending, s', hending⟩ := exists_later h
  obtain ⟨calls', ⟨hreply, rfl⟩ | ⟨hreply, -⟩⟩ := of_replies_cons hending
  · have hleft := left_next_of_none (Reply.lexeme.inj hreply).symm
    intro r hr hlexeme
    have hmem := List.mem_filter.2 ⟨hr, hlexeme⟩
    rw [filter_replies, hleft] at hmem
    obtain ⟨i, -, rfl⟩ := List.mem_map.1 hmem
    rfl
  · cases hreply

/-- If nothing was taken before the end, all that is reported can be taken there. -/
theorem replies_append_take {calls : List Call} (hcalls : .takeDiagnostics ∉ calls)
    {s : LexemeStream} (hend : s.left = [] ∨ .lexeme none ∈ s.replies calls) :
    s.replies (calls ++ [.takeDiagnostics]) = s.replies calls
      ++ [.diagnostics (s.gathered ++ s.left.filterMap Lexeme.diagnostic?)] := by
  induction calls generalizing s with
  | nil =>
    have hleft : s.left = [] := hend.resolve_right (by simp [replies, repliesOf])
    simp [replies, repliesOf, takeDiagnostics, hleft]
  | cons call calls ih =>
    obtain ⟨rfl, hrest⟩ := Call.next_of_not_mem hcalls
    have hend' : s.next.2.left = [] ∨ .lexeme none ∈ s.next.2.replies calls := by
      rcases hend with hnil | hmem
      · exact .inl (by rw [left_next, hnil, List.tail_nil])
      · exact (List.mem_cons.1 hmem).imp_left fun hfirst =>
          left_next_of_none (Reply.lexeme.inj hfirst).symm
    have hsame : s.next.2.gathered ++ s.next.2.left.filterMap Lexeme.diagnostic?
        = s.gathered ++ s.left.filterMap Lexeme.diagnostic? := by
      rw [gathered_next, List.append_assoc, ← List.filterMap_append, next_fst, left_next]
      cases s.left <;> rfl
    rw [← hsame]
    exact congrArg (_ :: ·) (ih hrest hend')

end LexemeStream

/-! ## The reader -/

namespace LexemeReader

def replies : List Call → LexemeReader → List Reply := repliesOf next takeDiagnostics

/-- The lexemes that are yet to come. -/
def left (r : LexemeReader) : List Lexeme :=
  (r.semiAt?.map .insertedSemi).toList ++
    if r.ended then [] else lexemesFrom r.offset r.ends (pieces r.rest)

def stream (r : LexemeReader) : LexemeStream := ⟨r.left, r.gathered⟩

theorem stream_ofSource (source : String) : (ofSource source).stream = .ofSource source := rfl

/-- A piece gives the next lexeme, or else nothing changes. -/
theorem stream_pass {r : LexemeReader} (hsemi : r.semiAt? = none) (hended : r.ended = false)
    {p : Piece} {rest : List Char} (hrest : pieces r.rest = p :: pieces rest) :
    (∀ l, (r.pass p rest).1 = some l → r.stream.next = (some l, (r.pass p rest).2.stream)) ∧
      ((r.pass p rest).1 = none → (r.pass p rest).2.stream = r.stream) := by
  obtain ⟨_, offset, ends, _, gathered, _⟩ := r
  obtain rfl : _ = none := hsemi
  obtain rfl : _ = false := hended
  simp only [stream, left, hrest]
  cases hkind : p.kind with
  | token t =>
    cases t with
    | faulty fault =>
      simp [pass, fail, lexemesFrom, hkind, LexemeStream.next, Lexeme.diagnostic?, Lexeme.fault?,
        Token.endsStatement]
    | _ => simp [pass, lexemesFrom, hkind, LexemeStream.next, Lexeme.diagnostic?, Lexeme.fault?]
  | blank | lineComment => simp [pass, lexemesFrom, hkind]
  | newline | blockComment =>
    -- a line ends if there is a break and the token before may end a statement
    cases hbreak : p.breakAt? <;> cases ends <;> simp [pass, endLine, lexemesFrom, hkind, hbreak]
  | byteOrderMark =>
    by_cases hstart : offset = 0
    · simp [pass, lexemesFrom, hkind, hstart]
    · simp [pass, fail, lexemesFrom, hkind, hstart, LexemeStream.next, Lexeme.diagnostic?,
        Lexeme.fault?]

/-- At the end of the text the semicolon is inserted that was to come. -/
theorem stream_endLine {r : LexemeReader} (hsemi : r.semiAt? = none) (hended : r.ended = false)
    (hrest : r.rest = []) : ({ r with ended := true }.endLine r.offset).stream = r.stream := by
  obtain ⟨_, offset, ends, _, gathered, _⟩ := r
  obtain rfl : _ = [] := hrest
  obtain rfl : _ = none := hsemi
  obtain rfl : _ = false := hended
  cases ends <;> simp [stream, left, endLine, pieces, lexemesFrom]

/-- The next lexeme is the first of those that are yet to come. -/
theorem next_stream (r : LexemeReader) : r.stream.next = r.next.map id stream := by
  fun_induction next r with
  | case1 r offset hsemi =>
    simp [stream, left, hsemi, LexemeStream.next, Lexeme.insertedSemi, Lexeme.diagnostic?,
      Lexeme.fault?]
  | case2 r hsemi hended => simp [stream, left, hsemi, hended, LexemeStream.next]
  | case3 r hsemi hended hrest ih =>
    rwa [stream_endLine hsemi (Bool.eq_false_iff.2 hended) hrest] at ih
  | case4 r hsemi hended c cs hrest scanned passed l hl =>
    have hpieces : pieces r.rest = ⟨scanned.1, scanned.2.text⟩ :: pieces scanned.2.rest := by
      rw [hrest, pieces]
    exact (stream_pass hsemi (Bool.eq_false_iff.2 hended) hpieces).1 l hl
  | case5 r hsemi hended c cs hrest scanned passed hl ih =>
    have hpieces : pieces r.rest = ⟨scanned.1, scanned.2.text⟩ :: pieces scanned.2.rest := by
      rw [hrest, pieces]
    rwa [← (stream_pass hsemi (Bool.eq_false_iff.2 hended) hpieces).2 hl]

/-- A reader replies as the stream of the lexemes that are yet to come. -/
theorem replies_stream (calls : List Call) (r : LexemeReader) :
    r.stream.replies calls = r.replies calls :=
  repliesOf_map _ _ next_stream (fun _ => rfl) calls r

end LexemeReader

/-- A text with faulty lexemes is rejected for all of them, and any other for one fault. -/
theorem diagnostics_ofSource (source : String) :
    match File.ofSource source with
    | .ok _ => lexDiagnostics source = []
    | .error e =>
      if lexDiagnostics source = [] then ∃ fault span, e.diagnostics = [⟨.parse fault, span⟩]
      else e.diagnostics = lexDiagnostics source := by
  unfold File.ofSource readSource
  rcases hlex : lexDiagnostics source with _ | ⟨first, others⟩ <;> rw [lexDiagnostics] at hlex
  · simp only [hlex]
    cases Parse.file (.start _ (lex source) (byteCount source.toList)) with
    | ok => trivial
    | error e => exact ⟨e.fault, e.span, rfl⟩
  · simp [hlex, Rejection.diagnostics]

/-- Whatever calls are made to a reader, the lexemes that it gives are those it gives if the
diagnostics are never taken, and there are none after the end. Each time the diagnostics are taken
there is one for each faulty lexeme since they were last taken. Those of the whole text are why it
is no file. If there are none it is one, or is rejected for one fault of its grammar. -/
theorem diagnostics_mirror_faults (source : String) :
    (∀ calls, let replies := (LexemeReader.ofSource source).replies calls
      (replies.filter Reply.isLexeme
          = (LexemeReader.ofSource source).replies (calls.filter (· = .next))) ∧
      (replies.filter Reply.isLexeme
          = (List.range (calls.count .next)).map fun i => .lexeme (lex source)[i]?) ∧
      (∀ earlier later, replies = earlier ++ .lexeme none :: later →
        ∀ r ∈ later, r.isLexeme = true → r = .lexeme none) ∧
      (∀ earlier since ds later, replies = earlier ++ (since ++ .diagnostics ds :: later) →
        (∀ r ∈ earlier.getLast?, r.isLexeme = false) → (∀ r ∈ since, r.isLexeme = true) →
        List.Forall₂ Lexeme.ReportedBy ((lexemesIn since).filter (·.fault?.isSome)) ds) ∧
      (.takeDiagnostics ∉ calls → .lexeme none ∈ replies →
        (LexemeReader.ofSource source).replies (calls ++ [.takeDiagnostics])
          = replies ++ [.diagnostics (lexDiagnostics source)])) ∧
    match File.ofSource source with
    | .ok _ => lexDiagnostics source = []
    | .error e =>
      if lexDiagnostics source = [] then ∃ fault span, e.diagnostics = [⟨.parse fault, span⟩]
      else e.diagnostics = lexDiagnostics source := by
  refine ⟨fun calls => ?_, diagnostics_ofSource source⟩
  simp only [← LexemeReader.replies_stream, LexemeReader.stream_ofSource]
  exact ⟨LexemeStream.filter_replies_eq calls _, LexemeStream.filter_replies calls _,
    fun _ _ => LexemeStream.nothing_after_end, fun _ _ _ _ => LexemeStream.reported_since,
    fun hcalls hend => LexemeStream.replies_append_take hcalls (.inr hend)⟩

/-- After the inserted semicolon two faults are met, and each is taken before the next. -/
theorem faults_taken_apart :
    let calls := [.next, .next, .next, .takeDiagnostics, .next, .takeDiagnostics]
    let invalid : Lexeme := ⟨.faulty .invalidNumber, ⟨4, 6⟩⟩
    let diagnostic : Diagnostic := ⟨.lex .invalidNumber, ⟨4, 6⟩⟩
    (LexemeReader.ofSource "f\n# 1_").replies calls = [.lexeme (some ⟨.ident "f", ⟨0, 1⟩⟩),
        .lexeme (some (.insertedSemi 1)), .lexeme (some ⟨.faulty .invalidToken, ⟨2, 3⟩⟩),
        .diagnostics [⟨.lex .invalidToken, ⟨2, 3⟩⟩], .lexeme (some invalid),
        .diagnostics [diagnostic]] ∧
      List.Forall₂ Lexeme.ReportedBy [invalid] [diagnostic] := by
  intro calls invalid diagnostic
  have hreplies : (LexemeReader.ofSource "f\n# 1_").replies calls =
      [.lexeme (some ⟨.ident "f", ⟨0, 1⟩⟩), .lexeme (some (.insertedSemi 1)),
        .lexeme (some ⟨.faulty .invalidToken, ⟨2, 3⟩⟩),
        .diagnostics [⟨.lex .invalidToken, ⟨2, 3⟩⟩]] ++
      ([.lexeme (some invalid)] ++ .diagnostics [diagnostic] :: []) := by decide +kernel
  refine ⟨hreplies, ?_⟩
  exact ((diagnostics_mirror_faults "f\n# 1_").1 calls).2.2.2.1 _ _ _ _ hreplies
    (by simp [Reply.isLexeme]) (by simp [Reply.isLexeme])

end GoIface
