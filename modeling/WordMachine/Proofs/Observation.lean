import WordMachine.Proofs.Arguments
import WordMachine.Proofs.Bookkeeping
import WordMachine.Proofs.CommandLine
import WordMachine.Proofs.Spelling

/-!
# Watching a run does not change it

A run can be traced, its tally can be reported, and the log can be filtered; its input can be a file or
come from the standard input; and its limit can be an option or a setting.  All of this is said in the
arguments, in the settings and in the surroundings, together with what the run is about.

What it is about is a `Command.Task`: a layout, a limit and the bytes of the input.  `Command.Asks` reads
the task off what is said.  The rest shows at two places only.  The switch for tracing and the opening of
a file change the log, which no step looks at, so that benches for the `Bench.SameWork` stay so when a
program is loaded and run.  And the input may arrive in other reads, which are the same bytes.  So exit
code and standard output are a function of the task (`Command.Asks.shown_outcome?`), and the main
statement, `Command.shown_eq_of_asks`, follows.
-/

namespace WordMachine

/-! ### The same work -/

namespace Bench

/-- The benches differ at most in tally, mark, switch and log. -/
structure SameWork {κ : Type} (b₁ b₂ : Bench κ) : Prop where
  registers : b₁.machine.registers = b₂.machine.registers
  memory : b₁.machine.memory = b₂.machine.memory
  console : b₁.console = b₂.console

namespace SameWork

section Running

variable {κ : Type} [Console κ] {b₁ b₂ : Bench κ}

omit [Console κ] in
theorem sameCourse (h : SameWork b₁ b₂) : SameCourse b₁ b₂ := by
  refine ⟨⟨?_, ?_, h.memory⟩, h.console⟩
  · rw [Machine.accumulator, Machine.accumulator, h.registers]
  · rw [Machine.pc, Machine.pc, h.registers]

/-- A step latches the same word on both benches, or else does nothing to them. -/
theorem step (h : SameWork b₁ b₂) : Agree SameWork b₁.step b₂.step := by
  have hcourse := h.sameCourse
  obtain ⟨r, c₁, c₂, hstep₁, hstep₂, hrest⟩ := hcourse.step
  have hregisters : c₁.machine.registers = c₂.machine.registers := by
    cases hfetch : b₁.machine.nextFetch? with
    | none =>
      have hfetch₂ : b₂.machine.nextFetch? = none := by
        rw [← hcourse.machine.nextFetch?]
        exact hfetch
      rw [step_of_nextFetch_eq_none hfetch] at hstep₁
      rw [step_of_nextFetch_eq_none hfetch₂] at hstep₂
      obtain ⟨-, rfl⟩ := Prod.mk.inj hstep₁
      obtain ⟨-, rfl⟩ := Prod.mk.inj hstep₂
      exact h.registers
    | some f =>
      -- a word is fetched, and the latch keeps the last one fetched
      have hone₁ : c₁.machine = (b₁.after 1).machine := by
        rw [after, after, hstep₁]
      have hone₂ : c₂.machine = (b₂.after 1).machine := by
        rw [after, after, hstep₂]
      have hsome : b₁.fetches 1 ≠ [] := by
        rw [fetches_one, hfetch]
        exact List.cons_ne_nil f []
      exact (hcourse.sameWay hrest hone₁ hone₂).registers hsome
  exact ⟨r, c₁, c₂, hstep₁, hstep₂, hregisters, hrest.machine.memory, hrest.console⟩

theorem finish (h : SameWork b₁ b₂) (steps : Nat) :
    Agree SameWork (b₁.finish steps) (b₂.finish steps) :=
  finish_of_console_eq h.console (fun _ _ _ => ⟨h.registers, h.memory, rfl⟩) steps

theorem simulation : Simulation (SameWork (κ := κ)) :=
  ⟨SameWork.step, fun steps h => h.finish steps⟩

end Running

variable {κ : Type} [FiniteConsole κ] {b₁ b₂ : Bench κ}

theorem readProgram (h : SameWork b₁ b₂) : Agree SameWork b₁.readProgram b₂.readProgram := by
  rw [Bench.readProgram, Bench.readProgram, h.console]
  rcases Program.read b₂.console with ⟨e | words, k⟩
  · exact ⟨_, _, _, rfl, rfl, h.registers, h.memory, rfl⟩
  · exact ⟨_, _, _, rfl, rfl, h.registers, h.memory, rfl⟩

omit [FiniteConsole κ] in
theorem loadImage (h : SameWork b₁ b₂) (image : List Word) :
    Agree SameWork (b₁.loadImage image) (b₂.loadImage image) := by
  rw [Bench.loadImage, Bench.loadImage, h.memory]
  cases b₂.machine.memory.loadImage image with
  | error e => exact ⟨_, _, _, rfl, rfl, h⟩
  | ok memory => exact ⟨_, _, _, rfl, rfl, h.registers, rfl, h.console⟩

/-- The same program is loaded, or loading fails in the same way. -/
theorem load (h : SameWork b₁ b₂) : Agree SameWork b₁.load b₂.load := by
  rw [Bench.load, Bench.load, Bench.loadProgram, Bench.loadProgram]
  obtain ⟨r, c₁, c₂, hread₁, hread₂, hrest⟩ := h.readProgram
  rw [hread₁, hread₂]
  cases r with
  | error e => exact ⟨_, _, _, rfl, rfl, hrest⟩
  | ok words =>
    obtain ⟨r, d₁, d₂, hload₁, hload₂, hend⟩ := hrest.loadImage words
    rw [Bench.storeRead, Bench.storeRead, hload₁, hload₂]
    cases r with
    | error e => exact ⟨_, _, _, rfl, rfl, hend⟩
    | ok n => exact ⟨_, _, _, rfl, rfl, hend.registers, hend.memory, hend.console⟩

omit [FiniteConsole κ] in
/-- The note on a run that failed goes to the log. -/
theorem noteAbort (h : SameWork b₁ b₂) (r : Except Failure Nat) :
    Agree SameWork (Bench.noteAbort (r, b₁)) (Bench.noteAbort (r, b₂)) := by
  cases r with
  | error e => exact ⟨_, _, _, rfl, rfl, h.registers, h.memory, h.console⟩
  | ok steps => exact ⟨_, _, _, rfl, rfl, h⟩

/-- Loading and running comes to the same under settings with the same limit. -/
theorem loadAndRun (h : SameWork b₁ b₂) {s₁ s₂ : Settings} (hlimit : s₁.stepLimit = s₂.stepLimit)
    (patience : Nat) :
    Option.Rel (Agree SameWork) (b₁.loadAndRun patience s₁) (b₂.loadAndRun patience s₂) :=
  simulation.loadAndRun (fun r h => h.noteAbort r) h.load hlimit patience

end SameWork

end Bench

/-! ### What the same work shows -/

/-- Benches that have done the same work show the same. -/
theorem Bench.SameWork.shown_sight {κ : Type} [Console κ] [OutputAccount κ] {c₁ c₂ : Bench κ}
    (h : SameWork c₁ c₂) (r : Except Failure Nat) (l : Layout) :
    (sight (r, c₁)).shown l = (sight (r, c₂)).shown l := by
  have hlines : Dump.lines c₁.machine l = Dump.lines c₂.machine l :=
    Dump.lines_congr h.registers h.memory
  have houtput : OutputAccount.output c₁.console = OutputAccount.output c₂.console := by
    rw [h.console]
  simp only [Sighting.shown, sight, hlines, houtput]

/-- So do benches that are set up for the same work, when a program is loaded and run. -/
theorem Bench.SameWork.shown_loadAndRun {κ : Type} [FiniteConsole κ] [OutputAccount κ]
    {b₁ b₂ : Bench κ} (h : SameWork b₁ b₂) {s₁ s₂ : Settings}
    (hlimit : s₁.stepLimit = s₂.stepLimit) (patience : Nat) (l : Layout) :
    (b₁.loadAndRun patience s₁).map (fun x => (sight x).shown l) =
      (b₂.loadAndRun patience s₂).map (fun x => (sight x).shown l) :=
  Agree.map_eq (h.loadAndRun hlimit patience) fun r _ _ hend => hend.shown_sight r l

/-! ### The same bytes -/

/-- The reads bring these bytes: all of them in one read, even if there are none, or in chunks. -/
def Script.Brings (s : Script) (bytes : List UInt8) : Prop :=
  s = [.bytes bytes] ∨ s.Delivers bytes

/-- An empty read at the very beginning is the end of the input, like no read at all. -/
theorem StreamConsole.readToken_of_empty_read (sink : Sink) :
    StreamConsole.readToken { script := [.bytes []], sink } =
      StreamConsole.readToken { script := [], sink } := by
  simp [readToken, fill, Script.readLine]

/-- Bytes that come in one read are delivered. -/
theorem Script.delivers_unread (bytes : List UInt8) : (unread bytes []).Delivers bytes := by
  have hunread := Delivers.nil.unread bytes
  rwa [List.append_nil] at hunread

/-- Other than that, reads that bring bytes are reads that deliver them. -/
theorem Script.Brings.exists_delivers {s : Script} {bytes : List UInt8} (h : s.Brings bytes) :
    ∃ s' : Script, s'.Delivers bytes ∧ ∀ sink, StreamConsole.readToken { script := s, sink } =
      StreamConsole.readToken { script := s', sink } := by
  rcases h with rfl | hdelivers
  · refine ⟨unread bytes [], delivers_unread bytes, fun sink => ?_⟩
    cases bytes with
    | nil => exact StreamConsole.readToken_of_empty_read sink
    | cons b bytes => rfl
  · exact ⟨s, hdelivers, fun _ => rfl⟩

/-- A console is known by its answer to the first call for a token. -/
theorem Program.read_congr {κ : Type} [FiniteConsole κ] {k₁ k₂ : κ}
    (h : Console.readToken k₁ = Console.readToken k₂) : read k₁ = read k₂ := by
  rw [read, read, readAfter_eq, readAfter_eq, h]

namespace Bench

/-- So is a run, as loading begins with that call. -/
theorem loadAndRun_congr {κ : Type} [FiniteConsole κ] {k₁ k₂ : κ}
    (h : Console.readToken k₁ = Console.readToken k₂) (m : Machine) (log : Array Event)
    (patience : Nat) (s : Settings) :
    loadAndRun patience s { machine := m, console := k₁, log } =
      loadAndRun patience s { machine := m, console := k₂, log } := by
  have hread : readProgram { machine := m, console := k₁, log } =
      readProgram { machine := m, console := k₂, log } := by
    rw [readProgram, readProgram, Program.read_congr h]
    rcases Program.read k₂ with ⟨_ | _, _⟩ <;> rfl
  rw [loadAndRun, loadAndRun, load, load, loadProgram, loadProgram, hread]

/-- The reads that bring the bytes make no difference. -/
theorem sight_loadAndRun_of_brings {script : Script} {bytes : List UInt8}
    (h : script.Brings bytes) (m : Machine) (log : Array Event) (patience : Nat) (s : Settings) :
    (loadAndRun patience s { machine := m, console := ({ script } : StreamConsole), log }).map sight =
      (loadAndRun patience s {
        machine := m
        console := ({ script := Script.unread bytes [] } : StreamConsole)
        log }).map sight := by
  obtain ⟨script', hdelivers, hcall⟩ := h.exists_delivers
  have hwhole : (Script.unread bytes []).Delivers bytes := Script.delivers_unread bytes
  have hopen : ∀ script, OutputAccount.IsOpen ({ script } : StreamConsole) :=
    fun _ => ⟨rfl, rfl⟩
  have hsupply : Supplies ({ script := script' } : StreamConsole) (Tokens.split bytes) :=
    StreamConsole.yields_of_delivers {} hdelivers
  have hsupply' : Supplies ({ script := Script.unread bytes [] } : StreamConsole)
      (Tokens.split bytes) := StreamConsole.yields_of_delivers {} hwhole
  rw [loadAndRun_congr (hcall {}) m log]
  exact (alike_of_supplies hsupply hsupply' rfl (hopen _) (hopen _) rfl m
    log).sight_loadAndRun patience s

end Bench

/-! ### Tasks -/

namespace Command

/-- What a run is about. -/
structure Task where
  layout : Layout
  /-- The limit on the number of instructions. -/
  stepLimit : Option Nat
  /-- The program and its input. -/
  bytes : List UInt8
deriving DecidableEq, Repr

/-- The settings for a task, without tracing. -/
def Task.settings (t : Task) : Settings where
  stepLimit := t.stepLimit
  layout := t.layout

/-- What the task shows when it is done quietly. -/
def Task.shown? (patience : Nat) (t : Task) : Option (Nat × String) :=
  ((startBench {} t.settings (Script.unread t.bytes [])).loadAndRun patience t.settings).map
    fun x => (Bench.sight x).shown t.layout

/-- The program and its input are in the file named, or in the standard input. -/
inductive InputIs (w : Surroundings) : Option String → List UInt8 → Prop where
  | standard {bytes} (h : w.input.Brings bytes) : InputIs w none bytes
  | file {path reads bytes} (opened : w.openPath path = .file reads) (h : reads.Brings bytes) :
    InputIs w (some path) bytes

/-- `Asks w args t`: in these surroundings the arguments ask for a run, the settings that they give are
accepted, and the run is about the task `t`.  An option goes before the settings. -/
inductive Asks (w : Surroundings) (args : List String) : Task → Prop where
  | run {o given bytes} (arguments : Request.ofArguments args = .ok (.run o))
      (settings : settingsGiven w o = .ok given) (input : InputIs w o.file bytes) :
      Asks w args {
        layout := given.layout
        stepLimit := o.stepLimit.or given.stepLimit
        bytes }

/-- The input can be read, and brings its bytes. -/
theorem InputIs.brings {w : Surroundings} {file : Option String} {bytes : List UInt8}
    (h : InputIs w file bytes) :
    ∃ script, inputFrom w file = .ok script ∧ script.Brings bytes := by
  cases h with
  | standard hbrings => exact ⟨w.input, rfl, hbrings⟩
  | @file path reads _ hfile hbrings =>
    refine ⟨reads, ?_, hbrings⟩
    rw [inputFrom, hfile]
    rfl

/-- The reads that bring the bytes of a task do not show. -/
theorem Task.shown?_of_brings {script : Script} (t : Task) (h : script.Brings t.bytes)
    (patience : Nat) :
    ((startBench {} t.settings script).loadAndRun patience t.settings).map
      (fun x => (Bench.sight x).shown t.layout) = t.shown? patience := by
  have hsight := Bench.sight_loadAndRun_of_brings h (.powerOn t.settings) #[] patience t.settings
  have hshown := congrArg (Option.map (Sighting.shown t.layout)) hsight
  rw [Option.map_map, Option.map_map] at hshown
  exact hshown

/-- A run that can be started is performed and told. -/
theorem outcome?_of_run {w : Surroundings} {args : List String} {o : RunOptions} {given : Settings}
    {script : Script} (hargs : Request.ofArguments args = .ok (.run o))
    (hgiven : settingsGiven w o = .ok given) (hscript : inputFrom w o.file = .ok script)
    (patience : Nat) (elapsed : String) :
    outcome? patience elapsed w args =
      ((startBench o (override given o) script).loadAndRun patience (override given o)).map
        fun x => tellRun elapsed w o (override given o) x.1 x.2 := by
  rw [outcome?, hargs]
  simp only [perform, performRun, hgiven, hscript, Option.map_map]
  rfl

/-- The command shows what the task shows. -/
theorem Asks.shown_outcome? {w : Surroundings} {args : List String} {t : Task} (h : Asks w args t)
    (patience : Nat) (elapsed : String) :
    (outcome? patience elapsed w args).map Outcome.shown = t.shown? patience := by
  obtain @⟨o, given, bytes, hargs, hgiven, hinput⟩ := h
  obtain ⟨script, hscript, hbrings⟩ := hinput.brings
  have hgivenCheck : given.layout.check = .ok () := check_of_settingsGiven hgiven
  have hcheck : (override given o).layout.check = .ok () := hgivenCheck
  let t : Task := {
    layout := given.layout
    stepLimit := o.stepLimit.or given.stepLimit
    bytes }
  -- the benches differ in the switch for tracing and in the event for the opening of the file
  have hwork : (startBench o (override given o) script).SameWork
      (startBench {} t.settings script) := ⟨rfl, rfl, rfl⟩
  rw [outcome?_of_run hargs hgiven hscript, Option.map_map]
  calc ((startBench o (override given o) script).loadAndRun patience (override given o)).map
        (fun x => (tellRun elapsed w o (override given o) x.1 x.2).shown)
      = ((startBench o (override given o) script).loadAndRun patience (override given o)).map
          fun x => (Bench.sight x).shown t.layout :=
        Option.map_congr fun x hx => shown_tellRun hcheck hx elapsed
    _ = ((startBench {} t.settings script).loadAndRun patience t.settings).map
          fun x => (Bench.sight x).shown t.layout :=
        hwork.shown_loadAndRun rfl patience t.layout
    _ = t.shown? patience := t.shown?_of_brings hbrings patience

/-- What a run shows depends on its task alone.  Two command lines that ask for one task have the same
exit code and the same standard output, if they end, and within the same patience; no matter which of
them traces, in its arguments or its settings, which reports and what, which events the log setting
shows, how long each takes, and whether the input is a file or the standard input.

No arguments are the arguments of a run without options.  And under settings that are accepted, a run can
be asked for with every file, limit and choice of what to watch.  Its task has the layout of the settings
and the bytes of the input, and the limit of the settings only if the arguments give none. -/
theorem shown_eq_of_asks :
    (∀ w₁ w₂ args₁ args₂ t, Asks w₁ args₁ t → Asks w₂ args₂ t →
      ∀ patience elapsed₁ elapsed₂,
        (outcome? patience elapsed₁ w₁ args₁).map Outcome.shown =
          (outcome? patience elapsed₂ w₂ args₂).map Outcome.shown) ∧
    (∀ patience elapsed w, outcome? patience elapsed w [] = outcome? patience elapsed w ["run"]) ∧
    ∀ w args o given, Request.ofArguments args = .ok (.run o) → settingsGiven w o = .ok given →
      ∀ file bytes stepLimit tracing report sections, file ≠ some "" → InputIs w file bytes →
        (∀ n, stepLimit = some n → n < sizeBound) →
        (∀ name ∈ sections, name ∈ Report.sectionNames) →
          Asks w
            ("run" :: RunOptions.arguments { o with file, stepLimit, tracing, report, sections })
            { layout := given.layout, stepLimit := stepLimit.or given.stepLimit, bytes } := by
  refine ⟨?_, ?_, ?_⟩
  · intro w₁ w₂ args₁ args₂ t h₁ h₂ patience elapsed₁ elapsed₂
    rw [h₁.shown_outcome?, h₂.shown_outcome?]
  · intro patience elapsed w
    rfl
  · intro w args o given hargs hgiven file bytes stepLimit tracing report sections hfile hinput hlimit
      hsections
    have hwritable : RunOptions.Writable { o with file, stepLimit, tracing, report, sections } :=
      ⟨hfile, (Request.writable_of_ofArguments hargs).settingsFile, hlimit, hsections⟩
    exact .run (Request.ofArguments_arguments hwritable) hgiven hinput

/-- A program that jumps to its start, given up after two instructions: once it comes from a file, is
traced and reported, and the limit is an option that goes before that of the settings; and once it comes
from the standard input, and the limit is a setting. -/
theorem shown_eq_of_asks_of_loop :
    let program := "1011000000000000".toUTF8.data.toList
    let w : Surroundings := {
      openPath := fun path =>
        if path = "loop" then .ofBytes program
        else if path = "watched" then .ofBytes "[[true, 9]]".toUTF8.data.toList
        else .ofBytes "[[false, 2]]".toUTF8.data.toList
      input := [.bytes program]
      logSetting := some "debug" }
    let watching := ["run", "--config=watched", "--max-steps=2", "--trace", "--stats",
      "--stats-sections=control", "--", "loop"]
    let plain := ["run", "--config=limited"]
    let task : Task := { layout := {}, stepLimit := some 2, bytes := program }
    Asks w watching task ∧ Asks w plain task ∧
      (∀ patience, (outcome? patience "0.0001" w watching).map Outcome.shown =
        (outcome? patience "2.0000" w plain).map Outcome.shown) ∧
      (outcome? 0 "2.0000" w plain).map (·.code) = some 1 := by
  intro program w watching plain task
  obtain ⟨hsame, -, hasks⟩ := shown_eq_of_asks
  have hok {x : Except String Settings} {s : Settings} (h : x.toOption = some s) : x = .ok s := by
    cases x with
    | error e => cases h
    | ok t => exact congrArg Except.ok (Option.some.inj h)
  have hwatched : settingsGiven w { settingsFile := some "watched" } =
      .ok { tracing := true, stepLimit := some 9 } := hok (by decide +kernel)
  have hlimited : settingsGiven w { settingsFile := some "limited" } =
      .ok { stepLimit := some 2 } := hok (by decide +kernel)
  have hwatching : Asks w watching task := by
    have harguments : watching = "run" :: RunOptions.arguments {
        file := some "loop", settingsFile := some "watched", stepLimit := some 2, tracing := true,
        report := true, sections := ["control"] } := by
      decide +kernel
    have hlimit : ∀ n, some 2 = some n → n < sizeBound := by
      rintro n ⟨⟩
      decide
    rw [harguments]
    exact hasks w ["run", "--config=watched"] { settingsFile := some "watched" } _ rfl hwatched
      (some "loop") program (some 2) true true ["control"] (by decide) (.file rfl (.inl rfl)) hlimit (by decide)
  have hplain : Asks w plain task := .run rfl hlimited (.standard (.inl rfl))
  refine ⟨hwatching, hplain, fun patience => ?_, by decide +kernel⟩
  exact hsame w w watching plain task hwatching hplain patience "0.0001" "2.0000"

end Command

end WordMachine
