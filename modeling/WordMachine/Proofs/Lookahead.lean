import WordMachine.Proofs.Mirror

/-!
# Input is read no further than needed

A stream console touches its stream only when it is asked for a token and has none, and then it stops
at the end of a line.  So what follows a line can make no difference as long as no token behind it is
asked for: it may be anything, bytes or a failure, and it stays where it is.

`Script.Begins s bytes rear` says that the script `s` brings `bytes` first and goes on with `rear`, in
chunks of any kind; one chunk may even hold the end of `bytes` and the start of `rear`.  If `bytes` ends
with a line feed, a console over such a script and one over `bytes` alone answer every call alike until
the second one finds that there is no token left (`StreamConsole.Shares.readToken`).  Whether it has done
so is told by the answers that a `Recorder` writes down.  The main statement is
`StreamConsole.loadAndRun_of_begins`.
-/

namespace WordMachine

/-! ### Recording the answers -/

/-- A console together with its answers to the calls for a token. -/
structure Recorder (κ : Type) where
  console : κ
  /-- The answers so far, in order. -/
  answers : List (Except Failure (Option String)) := []

namespace Recorder

variable {κ : Type} [FiniteConsole κ]

/-- Asks the console, and writes down the answer. -/
def readToken (k : Recorder κ) : Except Failure (Option String) × Recorder κ :=
  let (answer, console) := Console.readToken k.console
  (answer, { console, answers := k.answers ++ [answer] })

instance : FiniteConsole (Recorder κ) where
  readToken := readToken
  writeValue k w :=
    let (result, console) := Console.writeValue k.console w
    (result, { k with console })
  flush k :=
    let (result, console) := Console.flush k.console
    (result, { k with console })
  remaining k := FiniteConsole.remaining k.console
  remaining_readToken := by
    intro k k' token h
    cases h' : Console.readToken k.console with
    | mk answer console =>
      rw [readToken, h'] at h
      cases h
      exact FiniteConsole.remaining_readToken _ _ _ h'

theorem readToken_eq (k : Recorder κ) :
    Console.readToken k =
      ((Console.readToken k.console).1,
        ⟨(Console.readToken k.console).2, k.answers ++ [(Console.readToken k.console).1]⟩) :=
  rfl

theorem writeValue_eq (k : Recorder κ) (w : Word) :
    Console.writeValue k w =
      ((Console.writeValue k.console w).1, { k with console := (Console.writeValue k.console w).2 }) :=
  rfl

theorem flush_eq (k : Recorder κ) :
    Console.flush k =
      ((Console.flush k.console).1, { k with console := (Console.flush k.console).2 }) :=
  rfl

/-- What has been written down stays. -/
theorem stable_mem_answers (answer : Except Failure (Option String)) :
    Console.Stable fun k : Recorder κ => answer ∈ k.answers where
  readToken h := List.mem_append_left _ h
  writeValue _ h := h
  flush h := h

/-- Recording makes no difference to what is done with a console. -/
theorem mirrors :
    Console.Mirrors (fun (k : κ) (r : Recorder κ) => r.console = k) fun _ => False where
  readWord := by
    rintro _ k rfl
    exact .inr ⟨_, _, _, rfl, rfl, rfl⟩
  writeValue := by
    rintro _ k w rfl
    exact ⟨_, _, _, rfl, rfl, rfl⟩
  flush := by
    rintro _ k rfl
    exact ⟨_, _, _, rfl, rfl, rfl⟩
  lost := .never

end Recorder

namespace Bench

variable {κ : Type} [FiniteConsole κ]

/-- The bench with a console that records. -/
def recorded (b : Bench κ) : Bench (Recorder κ) where
  machine := b.machine
  console := { console := b.console }
  log := b.log

/-- The answers that the calls for a token get while a program is loaded and run. -/
def answers (patience : Nat) (s : Settings) (b : Bench κ) : List (Except Failure (Option String)) :=
  match b.recorded.loadAndRun patience s with
  | some (_, c) => c.console.answers
  | none => []

/-- The answers are those of the run itself. -/
theorem loadAndRun_recorded {b c : Bench κ} {patience : Nat} {s : Settings} {r : Except Failure Nat}
    (h : b.loadAndRun patience s = some (r, c)) :
    ∃ d, b.recorded.loadAndRun patience s = some (r, d) ∧ d.machine = c.machine ∧ d.log = c.log ∧
      d.console.console = c.console ∧ d.console.answers = b.answers patience s := by
  have hover : b.Over (fun (k : κ) (r : Recorder κ) => r.console = k) b.recorded := ⟨rfl, rfl, rfl⟩
  obtain ⟨d, hrun, hmachine, hlog, hconsole⟩ :=
    (Recorder.mirrors.loadAndRun hover h).resolve_left id
  refine ⟨d, hrun, hmachine.symm, hlog.symm, hconsole, ?_⟩
  rw [answers, hrun]

end Bench

/-! ### Scripts that begin with given bytes -/

namespace Script

/-- `s.Begins bytes rear`: the reads of the script bring `bytes`, in nonempty chunks and with
interruptions anywhere among them, and then go on as `rear`. -/
inductive Begins : Script → List UInt8 → Script → Prop where
  | nil {rear} : Begins rear [] rear
  | interrupted {s bytes rear} (h : Begins s bytes rear) : Begins (.interrupted :: s) bytes rear
  | bytes {s chunk bytes rear} (hne : chunk ≠ []) (h : Begins s bytes rear) :
      Begins (.bytes chunk :: s) (chunk ++ bytes) rear
  /-- One read brings the last of the bytes and the first of what follows. -/
  | spanning {s chunk back} (hchunk : chunk ≠ []) (hback : back ≠ []) :
      Begins (.bytes (chunk ++ back) :: s) chunk (.bytes back :: s)

/-- Bytes that are put back come first. -/
theorem Begins.unread {s rear : Script} {bytes : List UInt8} (h : s.Begins bytes rear)
    (back : List UInt8) : (unread back s).Begins (back ++ bytes) rear := by
  cases back with
  | nil => exact h
  | cons b back => exact .bytes (List.cons_ne_nil b back) h

/-- So do bytes that are put back together with some of the rear. -/
theorem begins_unread_append {s : Script} {back : List UInt8} (front : List UInt8)
    (hback : back ≠ []) : (unread (front ++ back) s).Begins front (.bytes back :: s) := by
  have hne : (front ++ back).isEmpty = false := by
    simp [hback]
  rw [Script.unread, hne]
  cases front with
  | nil => exact .nil
  | cons b front => exact .spanning (List.cons_ne_nil b front) hback

/-- No byte string, or one that ends with a line feed. -/
def Closed (bytes : List UInt8) : Prop :=
  bytes = [] ∨ bytes.getLast? = some lineFeed

/-- A closed byte string has a line feed, unless it is empty. -/
theorem Closed.fromFeed_ne_nil {bytes : List UInt8} (h : Closed bytes) (hne : bytes ≠ []) :
    fromFeed bytes ≠ [] := by
  intro hnil
  rcases h with hempty | hlast
  · exact hne hempty
  · have hsplit : beforeFeed bytes ++ fromFeed bytes = bytes := List.takeWhile_append_dropWhile
    have hall : (beforeFeed bytes).all (· ≠ lineFeed) = true := List.all_takeWhile
    rw [hnil, List.append_nil] at hsplit
    rw [hsplit, List.all_eq_true] at hall
    have hother := hall lineFeed (List.mem_of_getLast? hlast)
    simp at hother

/-- Its lines after the first are closed as well. -/
theorem Closed.afterLine {bytes : List UInt8} (h : Closed bytes) : Closed (afterLine bytes) := by
  rcases h with rfl | hlast
  · exact .inl rfl
  · by_cases hafter : Script.afterLine bytes = []
    · exact .inl hafter
    · right
      have hline := firstLine_append_afterLine bytes
      rw [← hline, List.getLast?_append] at hlast
      cases hrest : (Script.afterLine bytes).getLast? with
      | none => exact absurd (List.getLast?_eq_none_iff.mp hrest) hafter
      | some b =>
        rw [hrest] at hlast
        exact hlast

/-- If the bytes have a line feed, the next line of the script is their first line, and the other lines
and the rear are left. -/
theorem Begins.readLine {s rear : Script} {bytes : List UInt8} (h : s.Begins bytes rear)
    (hfeed : fromFeed bytes ≠ []) (line : List UInt8) :
    ∃ rest, s.readLine line = (.ok (line ++ firstLine bytes), rest) ∧
      rest.Begins (Script.afterLine bytes) rear := by
  induction h generalizing line with
  | nil => exact absurd rfl hfeed
  | interrupted h ih => exact ih hfeed line
  | @bytes s chunk bytes rear hne h ih =>
    have hchunk : chunk.isEmpty = false := List.isEmpty_eq_false_iff.mpr hne
    cases hfront : fromFeed chunk with
    | nil =>
      rw [fromFeed_append_of_fromFeed_eq_nil hfront] at hfeed
      obtain ⟨rest, hread, hrest⟩ := ih hfeed (line ++ chunk)
      refine ⟨rest, ?_, ?_⟩
      · rw [Script.readLine, hchunk, hfront, firstLine, beforeFeed_append_of_fromFeed_eq_nil hfront,
          fromFeed_append_of_fromFeed_eq_nil hfront, List.append_assoc, ← List.append_assoc line]
        exact hread
      · rw [Script.afterLine, fromFeed_append_of_fromFeed_eq_nil hfront]
        exact hrest
    | cons feed back =>
      refine ⟨Script.unread back s, ?_, ?_⟩
      · rw [Script.readLine, hchunk, hfront, firstLine,
          beforeFeed_append_of_fromFeed_eq_cons hfront,
          fromFeed_append_of_fromFeed_eq_cons hfront, ← List.append_assoc]
        rfl
      · rw [Script.afterLine, fromFeed_append_of_fromFeed_eq_cons hfront]
        exact h.unread back
  | @spanning s chunk back hchunk hback =>
    have hne : (chunk ++ back).isEmpty = false := by
      simp [hback]
    cases hfront : fromFeed chunk with
    | nil => exact absurd hfront hfeed
    | cons feed rest =>
      refine ⟨Script.unread (rest ++ back) s, ?_, ?_⟩
      · rw [Script.readLine, hne, fromFeed_append_of_fromFeed_eq_cons hfront,
          beforeFeed_append_of_fromFeed_eq_cons hfront, firstLine, hfront,
          ← List.append_assoc line (beforeFeed chunk)]
        rfl
      · rw [Script.afterLine, hfront]
        exact begins_unread_append rest hback

end Script

/-! ### Streams with the same beginning -/

namespace StreamConsole

variable {k c : StreamConsole} {rear : Script}

/-- Reading a line with bytes in it is a step of reading lines. -/
theorem fill_of_readLine {line : List UInt8} {rest : Script} (hpending : c.pending = [])
    (hended : c.ended = false) (hread : c.script.readLine [] = (.ok line, rest)) (hne : line ≠ []) :
    c.fill = fill { c with script := rest, pending := Tokens.split line } := by
  have hline : line.isEmpty = false := List.isEmpty_eq_false_iff.mpr hne
  rw [fill]
  simp only [hpending, hended, List.isEmpty_nil, Bool.not_false, Bool.and_self, if_true]
  split
  · next hread' =>
    rw [hread] at hread'
    cases hread'
  · next hread' =>
    rw [hread] at hread'
    cases hread'
    rw [hline]
    rfl

/-- `Shares rear k c`: the two consoles differ in their scripts only.  The script of `k` delivers some
bytes, that of `c` brings these first and then goes on as `rear`, and neither console has seen an
end. -/
def Shares (rear : Script) (k c : StreamConsole) : Prop :=
  ∃ bytes, k.script.Delivers bytes ∧ c.script.Begins bytes rear ∧ Script.Closed bytes ∧
    k.pending = c.pending ∧ k.sink = c.sink ∧ k.ended = false ∧ c.ended = false

/-- Both read the same lines until a token is pending, or the one finds no token left. -/
theorem Shares.fill (h : Shares rear k c) :
    (∃ k', k.fill = (.ok (), k') ∧ k'.pending = []) ∨
      ∃ k' c', k.fill = (.ok (), k') ∧ c.fill = (.ok (), c') ∧ Shares rear k' c' := by
  fun_induction StreamConsole.fill k generalizing c with
  | case1 k hwant e rest hread =>
    obtain ⟨bytes, hdelivers, -⟩ := h
    obtain ⟨hline, -⟩ := hdelivers.readLine_eq hread
    cases hline
  | case2 k hwant line rest hread hempty =>
    obtain ⟨hpending, -⟩ := Bool.and_eq_true_iff.mp hwant
    exact .inl ⟨_, rfl, List.isEmpty_iff.mp hpending⟩
  | case3 k hwant line rest hread hempty ih =>
    -- A line with bytes in it ends with a line feed here, so the other console stops with it as well.
    obtain ⟨bytes, hdelivers, hbegins, hclosed, hpending, hsink, hended, hended'⟩ := h
    obtain ⟨hline, hrest⟩ := hdelivers.readLine_eq hread
    cases hline
    have hne : bytes ≠ [] := by
      intro hnil
      exact hempty (List.isEmpty_iff.mpr (Script.firstLine_eq_nil_iff.mpr hnil))
    obtain ⟨rest', hread', hrest'⟩ := hbegins.readLine (hclosed.fromFeed_ne_nil hne) []
    have hnone : c.pending = [] := by
      rw [← hpending]
      exact List.isEmpty_iff.mp (Bool.and_eq_true_iff.mp hwant).1
    rw [fill_of_readLine hnone hended' hread' (mt Script.firstLine_eq_nil_iff.mp hne)]
    exact ih ⟨_, hrest, hrest', hclosed.afterLine, rfl, hsink, hended, hended'⟩
  | case4 k hwant =>
    have hsame := h
    obtain ⟨bytes, -, -, -, hpending, -, hended, hended'⟩ := hsame
    have hfill : c.fill = (.ok (), c) := by
      rw [StreamConsole.fill, ← hpending, hended', ← hended, if_neg hwant]
    exact .inr ⟨k, c, rfl, hfill, h⟩

/-- Both hand out the same token, or the one finds no token left. -/
theorem Shares.readToken (h : Shares rear k c) :
    k.readToken.1 = .ok none ∨ Agree (Shares rear) k.readToken c.readToken := by
  rw [StreamConsole.readToken, StreamConsole.readToken]
  rcases h.fill with ⟨k', hfill, hnone⟩ | ⟨k', c', hfill, hfill', hshares⟩
  · left
    simp only [hfill, hnone]
  · simp only [hfill, hfill']
    obtain ⟨bytes, hdelivers, hbegins, hclosed, hpending, hrest⟩ := hshares
    rw [← hpending]
    cases hk : k'.pending with
    | nil => exact .inl rfl
    | cons token pending =>
      exact .inr ⟨_, _, _, rfl, rfl, bytes, hdelivers, hbegins, hclosed, rfl, hrest⟩

/-- What is written out is the same. -/
theorem Shares.writeValue (h : Shares rear k c) (w : Word) :
    Agree (Shares rear) (k.writeValue w) (c.writeValue w) := by
  obtain ⟨bytes, hdelivers, hbegins, hclosed, hpending, hsink, hended⟩ := h
  rw [StreamConsole.writeValue, StreamConsole.writeValue, hsink]
  exact ⟨_, _, _, rfl, rfl, bytes, hdelivers, hbegins, hclosed, hpending, rfl, hended⟩

theorem Shares.flush (h : Shares rear k c) : Agree (Shares rear) k.flush c.flush := by
  obtain ⟨bytes, hdelivers, hbegins, hclosed, hpending, hsink, hended⟩ := h
  rw [StreamConsole.flush, StreamConsole.flush, hsink]
  exact ⟨_, _, _, rfl, rfl, bytes, hdelivers, hbegins, hclosed, hpending, rfl, hended⟩

/-- A console that records its answers goes the same way as the other one until it has answered that
there is no token left. -/
theorem mirrors_of_shares (rear : Script) :
    Console.Mirrors (fun (k : Recorder StreamConsole) c => Shares rear k.console c)
      fun k => .ok none ∈ k.answers where
  readWord := by
    intro k c h
    rcases h.readToken with hnone | ⟨answer, k', c', hread, hread', hrest⟩
    · left
      have hanswer : (Console.readToken k.console).1 = .ok none := hnone
      rw [Recorder.readToken_eq, hanswer]
      exact List.mem_append_right k.answers (List.mem_singleton_self _)
    · right
      have hk : Console.readToken k.console = (answer, k') := hread
      have hc : Console.readToken c = (answer, c') := hread'
      rw [Console.readWord, Console.readWord, Recorder.readToken_eq, hk, hc]
      exact ⟨_, _, _, rfl, rfl, hrest⟩
  writeValue := by
    intro k c w h
    obtain ⟨result, k', c', hwrite, hwrite', hrest⟩ := h.writeValue w
    have hk : Console.writeValue k.console w = (result, k') := hwrite
    rw [Recorder.writeValue_eq, hk]
    exact ⟨_, _, _, rfl, hwrite', hrest⟩
  flush := by
    intro k c h
    obtain ⟨result, k', c', hflush, hflush', hrest⟩ := h.flush
    have hk : Console.flush k.console = (result, k') := hflush
    rw [Recorder.flush_eq, hk]
    exact ⟨_, _, _, rfl, hflush', hrest⟩
  lost := Recorder.stable_mem_answers _

/-! ### Runs -/

/-- A machine with a console over a stream of which nothing has been read. -/
def bench (m : Machine) (sink : Sink) (log : Array Event) (script : Script) :
    Bench StreamConsole where
  machine := m
  console := { script, sink }
  log := log

/-- Input is read no further than needed.  Let `alone` be a stream of bytes that are none or end with a
line feed, and `whole` one that brings the same bytes, in chunks of its own, and then goes on as `rear`:
with more bytes, with reads that bring nothing, with failures, and in a chunk that may begin with the
last of the bytes.  If loading and running over `alone` ends, and no call for a token was answered that
there is none left, then loading and running over `whole` ends with the same result, the same machine,
the same log and the same output, and all of `rear` is still to be read. -/
theorem loadAndRun_of_begins {alone whole rear : Script} {bytes : List UInt8} {sink : Sink}
    {m : Machine} {log : Array Event} {patience : Nat} {s : Settings} {r : Except Failure Nat}
    {c : Bench StreamConsole} (halone : alone.Delivers bytes) (hwhole : whole.Begins bytes rear)
    (hclosed : bytes = [] ∨ bytes.getLast? = some Script.lineFeed)
    (hrun : (bench m sink log alone).loadAndRun patience s = some (r, c))
    (hanswers : .ok none ∉ (bench m sink log alone).answers patience s) :
    ∃ d, (bench m sink log whole).loadAndRun patience s = some (r, d) ∧
      d.machine = c.machine ∧ d.log = c.log ∧ d.console.sink = c.console.sink ∧
      d.console.pending = c.console.pending ∧
      ∃ rest, c.console.script.Delivers rest ∧ d.console.script.Begins rest rear := by
  obtain ⟨e, hrecorded, hmachine, hlog, hconsole, he⟩ := Bench.loadAndRun_recorded hrun
  have hover : Bench.Over (fun (k : Recorder StreamConsole) c => Shares rear k.console c)
      (bench m sink log alone).recorded (bench m sink log whole) :=
    ⟨rfl, rfl, bytes, halone, hwhole, hclosed, rfl, rfl, rfl, rfl⟩
  rcases (mirrors_of_shares rear).loadAndRun hover hrecorded with hlost | ⟨d, hrun', hsame⟩
  · rw [he] at hlost
    exact absurd hlost hanswers
  · obtain ⟨rest, hdelivers, hbegins, -, hpending, hsink, -⟩ := hsame.console
    rw [hconsole] at hdelivers hpending hsink
    refine ⟨d, hrun', ?_, ?_, hsink.symm, hpending.symm, rest, hdelivers, hbegins⟩
    · rw [← hsame.machine, hmachine]
    · rw [← hsame.log, hlog]

/-- A program reads a number and halts.  Its own text ends in the middle of a chunk, and the read after
that fails. -/
theorem loadAndRun_of_begins_of_failing_rear :
    let bytes := "0011000000000110 1111000000000000\n0\n101\n".toUTF8.data.toList
    let alone : Script := [.bytes bytes]
    let whole : Script := [.bytes (bytes.take 20), .interrupted, .bytes (bytes.drop 20 ++ [0x31]),
      .failure "broken pipe"]
    let start := bench { registers := .powerOn, memory := .blank 4 } {} #[]
    .ok none ∉ (start alone).answers 2 .standard ∧
      ∃ r c d, (start alone).loadAndRun 2 .standard = some (r, c) ∧
        (start whole).loadAndRun 2 .standard = some (r, d) ∧ d.machine = c.machine ∧
        ∃ rest, d.console.script.Begins rest [.bytes [0x31], .failure "broken pipe"] := by
  intro bytes alone whole start
  have halone : alone.Delivers (bytes ++ []) := .bytes (by decide) .nil
  have hwhole : whole.Begins (bytes.take 20 ++ bytes.drop 20) [.bytes [0x31], .failure "broken pipe"] :=
    .bytes (by decide) (.interrupted (.spanning (by decide) (by decide)))
  have hclosed : bytes = [] ∨ bytes.getLast? = some Script.lineFeed := .inr (by decide)
  have htokens : ((start alone).answers 2 .standard).map Except.toOption =
      [some (some "0011000000000110"), some (some "1111000000000000"), some (some "0"),
        some (some "101")] := by
    decide +kernel
  have hanswers : .ok none ∉ (start alone).answers 2 .standard := by
    intro hmem
    have hnone := List.mem_map_of_mem (f := Except.toOption) hmem
    rw [htokens] at hnone
    revert hnone
    decide
  have hends : ((start alone).loadAndRun 2 .standard).isSome = true := by
    decide +kernel
  rw [List.append_nil] at halone
  rw [List.take_append_drop] at hwhole
  obtain ⟨⟨r, c⟩, hrun⟩ := Option.isSome_iff_exists.mp hends
  obtain ⟨d, hrun', hmachine, -, -, -, rest, -, hrest⟩ :=
    loadAndRun_of_begins halone hwhole hclosed hrun hanswers
  exact ⟨hanswers, r, c, d, hrun, hrun', hmachine, rest, hrest⟩

end StreamConsole

end WordMachine
