import WordMachine.Command.Outcome
import WordMachine.Proofs.Bounds
import WordMachine.Proofs.Emission
import WordMachine.Proofs.Ending
import WordMachine.Proofs.DumpText

/-!
# What the command line shows of a run

Standard output gets the lines of the program first and the dump of the machine after them, and the exit
code says whether the program has halted.  The dump is never missing, since settings are accepted only
with a layout that a machine of their size can be dumped by, unless the host has failed; so what is told
of a run is what is seen of it (`Command.shown_tellRun`).  `Command.Shows` says what that is for a run
that has come to a result: the lines are those of the emissions, and the code is zero for a halted
machine.

The main statement, `Command.outcome_of_run`, is about the command as a whole, from its arguments on, with
standard streams that accept everything.  What could not be opened or was refused shows nothing on
standard output.
-/

namespace WordMachine

open Printer

/-! ### What is shown -/

/-- What a user sees of a run: the exit code and the text on standard output.  The dump is missing if
the host has failed. -/
def Sighting.shown (l : Layout) (x : Sighting) : Nat × String :=
  match x.result with
  | .ok _ => (0, x.output ++ linesText (Dump.lines x.machine l))
  | .error e =>
    (1, if e.isMachineFault then x.output ++ linesText (Dump.lines x.machine l)
      else x.output)

/-- What an outcome shows, but for standard error. -/
def Command.Outcome.shown (out : Outcome) : Nat × String :=
  (out.code, out.stdout)

/-! ### Settings that are accepted -/

/-- Settings that are accepted have a layout that passes its check. -/
theorem Settings.check_of_validate {s t : Settings} (h : s.validate = .ok t) :
    t.layout.check = .ok () := by
  obtain rfl := eq_of_validate h
  rw [validate] at h
  split at h
  · next hcheck => exact hcheck
  · cases h

/-- Settings do not depend on the reads that bring their file. -/
theorem Settings.ofOpened_of_delivers {reads : Script} {bytes : List UInt8}
    (h : reads.Delivers bytes) : ofOpened (.file reads) = ofBytes bytes := by
  have hcontent : (Opened.file reads).content = .ok bytes := h.readAll []
  rw [ofOpened, hcontent]

theorem Settings.check_of_ofOpened {o : Opened} {s : Settings} (h : ofOpened o = .ok s) :
    s.layout.check = .ok () := by
  rw [ofOpened] at h
  cases hcontent : o.content with
  | error why =>
    rw [hcontent] at h
    cases h
  | ok bytes =>
    simp only [hcontent, ofBytes] at h
    split at h
    · cases h
    · rw [ofText] at h
      split at h
      · cases h
      · split at h
        · cases h
        · exact check_of_validate h

namespace Command

/-- So do the settings that a run is given. -/
theorem check_of_settingsGiven {w : Surroundings} {o : RunOptions} {s : Settings}
    (h : settingsGiven w o = .ok s) : s.layout.check = .ok () := by
  rw [settingsGiven] at h
  cases hfile : o.settingsFile with
  | none =>
    rw [hfile] at h
    cases h
    rfl
  | some path =>
    simp only [hfile] at h
    cases hopened : Settings.ofOpened (w.openPath path) with
    | error e =>
      rw [hopened] at h
      cases h
    | ok t =>
      rw [hopened] at h
      cases h
      exact Settings.check_of_ofOpened hopened

/-! ### Telling -/

/-- A report goes to standard error and changes nothing else. -/
theorem tellReport_eq (elapsed : String) (o : RunOptions) (t : Tally) (out : Outcome) :
    ∃ stderr, tellReport elapsed o t out = { out with stderr } := by
  rw [tellReport]
  by_cases hwants : wantsReport o = true
  · obtain ⟨s, hprints⟩ := Report.prints_print elapsed o.sections t
    obtain ⟨k, hprint, -, -⟩ := hprints {} ⟨rfl, rfl⟩
    rw [if_pos hwants, hprint]
    exact ⟨_, rfl⟩
  · rw [if_neg hwants]
    exact ⟨out.stderr, rfl⟩

/-- The dump goes to standard output, after the text that is there, and keeps the exit code. -/
theorem tellMachine_of_prints {s : Settings} {b : Bench StreamConsole} {dump : String}
    (hdump : Prints (Dump.machine b.machine s.layout) () dump) (hopen : b.console.sink.IsOpen)
    (elapsed : String) (o : RunOptions) (out : Outcome) :
    (tellMachine elapsed o s b out).code = out.code ∧
      (tellMachine elapsed o s b out).stdout = b.console.sink.text ++ dump := by
  obtain ⟨k, hprint, -, htext⟩ := hdump b.console.sink hopen
  rw [tellMachine, hprint]
  obtain ⟨stderr, htold⟩ := tellReport_eq elapsed o b.machine.tally { out with stdout := k.text }
  simp only [htold]
  exact ⟨trivial, htext⟩

/-! ### Runs -/

/-- The bench at which the command runs a program, before it is loaded. -/
def startBench (o : RunOptions) (s : Settings) (script : Script) : Bench StreamConsole :=
  { Bench.powerOn s ({ script } : StreamConsole) with log := openEvents o.file }

/-- Settings that pass their check leave every run with a machine that can be dumped. -/
theorem dump_of_loadAndRun {o : RunOptions} {s : Settings} {script : Script} {patience : Nat}
    {r : Except Failure Nat} {c : Bench StreamConsole} (hcheck : s.layout.check = .ok ())
    (hrun : (startBench o s script).loadAndRun patience s = some (r, c)) :
    Dump.render c.machine s.layout = .ok (linesText (Dump.lines c.machine s.layout)) ∧
      Prints (Dump.machine c.machine s.layout) () (linesText (Dump.lines c.machine s.layout)) := by
  have hcapacity : c.machine.memory.capacity = s.layout.capacity :=
    (Reached.loadAndRun (b := startBench o s script) .powerOn hrun).bounded.capacity
  exact Dump.render_of_check hcheck hcapacity

/-- What is told of a run is what is seen of it. -/
theorem shown_tellRun {w : Surroundings} {o : RunOptions} {s : Settings} {script : Script}
    {patience : Nat} {r : Except Failure Nat} {c : Bench StreamConsole}
    (hcheck : s.layout.check = .ok ())
    (hrun : (startBench o s script).loadAndRun patience s = some (r, c)) (elapsed : String) :
    (tellRun elapsed w o s r c).shown = (Bench.sight (r, c)).shown s.layout := by
  have hstart : OutputAccount.IsOpen (startBench o s script).console := ⟨rfl, rfl⟩
  obtain ⟨hopen, -⟩ := Bench.output_loadAndRun hstart hrun
  obtain ⟨-, hprints⟩ := dump_of_loadAndRun hcheck hrun
  have htold (out : Outcome) : (tellMachine elapsed o s c out).shown =
      (out.code, c.console.sink.text ++ Printer.linesText (Dump.lines c.machine s.layout)) :=
    Prod.ext_iff.mpr (tellMachine_of_prints hprints hopen elapsed o out)
  cases r with
  | ok n => exact htold _
  | error e =>
    by_cases hfault : e.isMachineFault = true
    · rw [tellRun, if_pos hfault, htold]
      simp only [Sighting.shown, Bench.sight, if_pos hfault]
      rfl
    · rw [tellRun, if_neg hfault]
      simp only [Sighting.shown, Bench.sight, if_neg hfault]
      rfl

/-- `Shows s written r c out`: the outcome `out` shows a run under the settings `s` that has written
these words, come to the result `r` and left the bench `c`. -/
structure Shows (s : Settings) (written : List Word) (r : Except Failure Nat)
    (c : Bench StreamConsole) (out : Outcome) : Prop where
  /-- A run ends with HALT, with a fault of the machine, or with a failure of the host. -/
  result : (∃ n, r = .ok n) ∨ (∃ e, r = .error e ∧ e.isMachineFault = true) ∨
    ∃ text, r = .error (.io text)
  /-- The machine can be dumped, and unless the host has failed its dump follows the lines. -/
  stdout : ∃ dump, Dump.render c.machine s.layout = .ok dump ∧
    ((∀ text, r ≠ .error (.io text)) → out.stdout = Console.lines written ++ dump)
  /-- If the host has failed, there are the lines only. -/
  stdout_of_io : ∀ text, r = .error (.io text) → out.stdout = Console.lines written
  halted : c.machine.halted = true ↔ ∃ n, r = .ok n
  /-- Nothing but HALT gives the exit code zero. -/
  code : out.code = if c.machine.halted then 0 else 1

/-- What is told of a run shows it. -/
theorem shows_tellRun {w : Surroundings} {o : RunOptions} {s : Settings} {script : Script}
    {patience : Nat} {r : Except Failure Nat} {c : Bench StreamConsole}
    (hcheck : s.layout.check = .ok ())
    (hrun : (startBench o s script).loadAndRun patience s = some (r, c)) (elapsed : String) :
    Shows s ((startBench o s script).loadAndRunEmissions patience s) r c
      (tellRun elapsed w o s r c) := by
  obtain ⟨hrender, -⟩ := dump_of_loadAndRun hcheck hrun
  have hstart : OutputAccount.IsOpen (startBench o s script).console := ⟨rfl, rfl⟩
  have htext : c.console.sink.text =
      Console.lines ((startBench o s script).loadAndRunEmissions patience s) :=
    (Bench.output_loadAndRun hstart hrun).2.trans String.empty_append
  have hhalted := Bench.halted_iff_of_loadAndRun hstart rfl hrun
  have hshown := shown_tellRun (w := w) hcheck hrun elapsed
  cases r with
  | ok n =>
    obtain ⟨hcode, hstdout⟩ := Prod.mk.inj hshown
    have hflag : c.machine.halted = true := hhalted.mpr ⟨n, rfl⟩
    refine ⟨.inl ⟨n, rfl⟩, ⟨_, hrender, ?_⟩, ?_, hhalted, ?_⟩
    · intro hno
      rw [← htext]
      exact hstdout
    · intro text hio
      cases hio
    · rw [hflag]
      exact hcode
  | error e =>
    obtain ⟨hcode, hstdout⟩ := Prod.mk.inj hshown
    have hflag : c.machine.halted = false := by
      rw [Bool.eq_false_iff]
      intro hflag
      obtain ⟨n, hn⟩ := hhalted.mp hflag
      cases hn
    have hone : (tellRun elapsed w o s (.error e) c).code = if c.machine.halted then 0 else 1 := by
      rw [hflag]
      exact hcode
    by_cases hfault : e.isMachineFault = true
    · rw [if_pos hfault] at hstdout
      refine ⟨.inr (.inl ⟨e, rfl, hfault⟩), ⟨_, hrender, ?_⟩, ?_, hhalted, hone⟩
      · intro hno
        rw [← htext]
        exact hstdout
      · intro text hio
        cases hio
        cases hfault
    · obtain ⟨text, rfl⟩ : ∃ text, e = .io text :=
        (StreamConsole.reports_io.loadAndRun trivial hrun).resolve_left hfault
      rw [if_neg hfault] at hstdout
      refine ⟨.inr (.inr ⟨text, rfl⟩), ⟨_, hrender, ?_⟩, ?_, hhalted, hone⟩
      · intro hno
        exact absurd rfl (hno text)
      · intro text hio
        rw [← htext]
        exact hstdout

/-! ### The whole command -/

/-- What the command with these arguments comes to, if it ends.  A run without a limit is observed for
`patience` steps; `elapsed` is the time that a report shows. -/
def outcome? (patience : Nat) (elapsed : String) (w : Surroundings) (args : List String) :
    Option Outcome :=
  match Request.ofArguments args with
  | .error e => some (tellUsage w.manual e)
  | .ok r => (perform patience w r).map (tell elapsed w r)

/-- What the command shows if its arguments ask for a run.  Settings that cannot be read or are
refused, and an input that cannot be opened, lead to the exit code one and nothing on standard output.
Otherwise, if the program that is loaded from the input and run comes to an end, standard output holds
the line of every word that it has written, in order, and then the dump of the machine, laid out as the
settings say; the dump can always be had, for a program that halts and for all faults of the machine.
Only if the input cannot be read on is there no dump.  The exit code is zero if HALT was executed and
one otherwise.  If no read of the input fails, then the run does not end with a failure of the host. -/
theorem outcome_of_run {args : List String} {o : RunOptions}
    (hargs : Request.ofArguments args = .ok (.run o)) (patience : Nat) (elapsed : String)
    (w : Surroundings) :
    (∀ path e, o.settingsFile = some path → Settings.ofOpened (w.openPath path) = .error e →
      ∃ out, outcome? patience elapsed w args = some out ∧ out.code = 1 ∧ out.stdout = "") ∧
    ∀ given, settingsGiven w o = .ok given →
      (∀ why, inputFrom w o.file = .error why →
        ∃ out, outcome? patience elapsed w args = some out ∧ out.code = 1 ∧ out.stdout = "") ∧
      ∀ script, inputFrom w o.file = .ok script →
        let s := override given o
        let start := startBench o s script
        ∀ r c, start.loadAndRun patience s = some (r, c) →
          (∃ out, outcome? patience elapsed w args = some out ∧
            Shows s (start.loadAndRunEmissions patience s) r c out) ∧
          (script.Readable → ∀ text, r ≠ .error (.io text)) := by
  have hperform : outcome? patience elapsed w args =
      (performRun patience w o).map (tell elapsed w (.run o)) := by
    rw [outcome?, hargs]
    rfl
  rw [hperform]
  refine ⟨?_, fun given hgiven => ⟨?_, ?_⟩⟩
  · intro path e hfile hrefused
    have hsettings : settingsGiven w o = .error (path ++ ": " ++ e.message) := by
      rw [settingsGiven, hfile]
      simp only [hrefused]
    rw [performRun, hsettings]
    exact ⟨_, rfl, rfl, rfl⟩
  · intro why hinput
    rw [performRun, hgiven]
    simp only [hinput]
    exact ⟨_, rfl, rfl, rfl⟩
  · intro script hinput s start r c hrun
    have hcheck : given.layout.check = .ok () := check_of_settingsGiven hgiven
    have hlayout : s.layout = given.layout := rfl
    rw [← hlayout] at hcheck
    have hperformed : performRun patience w o = some (.ran s r c) := by
      rw [performRun, hgiven]
      simp only [hinput]
      exact Option.map_eq_some_iff.mpr ⟨(r, c), hrun, rfl⟩
    rw [hperformed]
    refine ⟨⟨_, rfl, shows_tellRun hcheck hrun elapsed⟩, ?_⟩
    rintro hreadable text rfl
    rcases StreamConsole.reports_nothing.loadAndRun ⟨hreadable, rfl, rfl⟩ hrun with hfault | hfalse
    · cases hfault
    · exact hfalse

/-- A program that writes its own first word and then divides by zero: the line of the word, the dump,
and the exit code one. -/
theorem outcome_of_run_of_division :
    let w : Surroundings := {
      openPath := fun _ => .nothing .missing
      input := [.bytes "0100000000000000\n1000100000000000\n0\n".toUTF8.data.toList]
      logSetting := none }
    Request.ofArguments [] = .ok (.run {}) ∧
      ∃ out c dump, outcome? 2 "0.0000" w [] = some out ∧ out.code = 1 ∧
        Dump.render c Settings.standard.layout = .ok dump ∧ out.stdout = "16384\n" ++ dump := by
  intro w
  have hargs : Request.ofArguments [] = .ok (.run {}) := rfl
  have hhalted : ((startBench {} .standard w.input).loadAndRun 2 .standard).map
      (·.2.machine.halted) = some false := by
    decide +kernel
  obtain ⟨⟨r, c⟩, hrun, hflag⟩ := Option.map_eq_some_iff.mp hhalted
  have hwritten : (startBench {} .standard w.input).loadAndRunEmissions 2 .standard = [0x4000] := by
    decide +kernel
  have hlines : Console.lines [0x4000] = "16384\n" := by
    decide +kernel
  have hreadable : w.input.Readable := by
    intro text hmem
    cases List.mem_singleton.mp hmem
  obtain ⟨⟨out, hout, hshows⟩, hread⟩ :=
    ((outcome_of_run hargs 2 "0.0000" w).2 .standard rfl).2 w.input rfl r c hrun
  obtain ⟨dump, hdump, hstdout⟩ := hshows.stdout
  refine ⟨hargs, out, c.machine, dump, hout, ?_, hdump, ?_⟩
  · rw [hshows.code, hflag]
    rfl
  · rw [hstdout (hread hreadable), ← hlines, ← hwritten]
    rfl

end Command

end WordMachine
