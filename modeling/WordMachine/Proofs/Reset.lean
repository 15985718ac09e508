import WordMachine.Host.TokenQueue
import WordMachine.Proofs.IgnoredBits
import WordMachine.Proofs.Observation
import WordMachine.Proofs.Widening

/-!
# A machine that is reset is as good as new

A reset puts registers, memory, tally and flag back and asks for no settings.  It takes two things from the
machine as it finds it: the size of memory, and the switch for tracing, which is meant to stay.  So it
leads back to the machine that was switched on only if nothing that can be done with a machine changes the
size of its memory.  `Machine.Handled` says what can be done: steps, runs and loads at benches with any
consoles, and with any result; images and single words that are stored; and assignments to everything
but the memory.

After the reset there is still the switch, and the log that it fills.  `Bench.untraced` is all there is at a
bench but for these two, and an action has the same result at benches that are equal in this way, and
leaves such benches behind (`Bench.SameButTracing.act`).  `Machine.reset_eq_powerOn` puts both parts
together.
-/

namespace WordMachine

/-! ### What can be done with a machine -/

/-- A change of a machine that needs no console and cannot fail. -/
inductive Change where
  /-- The registers are assigned, depending on what they have been. -/
  | registers (f : Registers → Registers)
  /-- The counters are assigned. -/
  | tally (f : Tally → Tally)
  /-- The flag that HALT sets is assigned. -/
  | halted (flag : Bool)
  /-- The switch for tracing is assigned. -/
  | tracing (flag : Bool)
  /-- The machine is reset. -/
  | reset

/-- What a change makes of a machine. -/
def Machine.change (m : Machine) : Change → Machine
  | .registers f => { m with registers := f m.registers }
  | .tally f => { m with tally := f m.tally }
  | .halted flag => { m with halted := flag }
  | .tracing flag => { m with tracing := flag }
  | .reset => m.reset

/-- What can be done with the machine at a bench. -/
inductive Action where
  /-- A step, a run or a load. -/
  | operate (o : Operation)
  /-- An image is copied to the start of memory. -/
  | image (words : List Word)
  /-- A word of memory is replaced. -/
  | write (index : WordIndex) (w : Word)
  /-- Something else is changed. -/
  | change (c : Change)

namespace Bench

/-- Replaces a word of memory. -/
def writeWord {κ : Type} (b : Bench κ) (index : WordIndex) (w : Word) :
    Except Failure Unit × Bench κ :=
  match b.machine.memory.write index w with
  | .error e => (.error e, b)
  | .ok memory => (.ok (), { b with machine := { b.machine with memory } })

variable {κ : Type} [FiniteConsole κ]

/-- What an action comes to, if a run without a limit ends within `patience` steps.  Not every action that
succeeds has something to tell. -/
def act (patience : Nat) (b : Bench κ) :
    Action → Option (Except Failure (Option Answer) × Bench κ)
  | .operate o => (b.perform patience o).map (Prod.map (Except.map some) id)
  | .image words => some (Prod.map (Except.map fun n => some (.count n)) id (b.loadImage words))
  | .write index w => some (Prod.map (Except.map fun _ => none) id (b.writeWord index w))
  | .change c => some (.ok none, { b with machine := b.machine.change c })

/-- What actions done one after another come to: the result of each and the bench after it.  If a run
does not end, they go no further. -/
def acts (patience : Nat) (b : Bench κ) :
    List Action → List (Except Failure (Option Answer) × Bench κ)
  | [] => []
  | a :: rest =>
    match b.act patience a with
    | none => []
    | some (r, b') => (r, b') :: acts patience b' rest

end Bench

/-- `Handled s m`: the machine `m` comes of one that was switched on with the settings `s`, whatever has been
done with it since, and whatever that came to.  Consoles whose input never ends can be used for steps and
for runs. -/
inductive Machine.Handled (s : Settings) : Machine → Prop where
  | powerOn : Handled s (powerOn s)
  | step {κ : Type} [Console κ] {b : Bench κ} (before : Handled s b.machine) :
      Handled s b.step.2.machine
  | run {κ : Type} [Console κ] {patience limit r} {b b' : Bench κ} (before : Handled s b.machine)
      (ran : b.run patience limit = some (r, b')) : Handled s b'.machine
  | act {κ : Type} [FiniteConsole κ] {patience a r} {b b' : Bench κ} (before : Handled s b.machine)
      (acted : b.act patience a = some (r, b')) : Handled s b'.machine

/-! ### The size of memory -/

/-- The bench that an answer leaves behind does not depend on the way in which its result is told. -/
theorem exists_of_map_eq_some {α α' β : Type} {f : α → α'} {x : Option (α × β)} {r : α'} {b : β}
    (h : x.map (Prod.map f id) = some (r, b)) : ∃ r₀, x = some (r₀, b) := by
  obtain ⟨⟨r₀, b₀⟩, hx, heq⟩ := Option.map_eq_some_iff.mp h
  cases heq
  exact ⟨r₀, hx⟩

/-- Nothing that happens to a machine changes the size of its memory. -/
theorem Machine.kept_capacity (c : Nat) : Kept fun _ m => m.memory.capacity = c where
  reset {_ m} hm := (Memory.capacity_clear m.memory).trans hm
  memory hm hcapacity := hcapacity.trans hm
  loaded _ hm := hm
  attempt hm _ hattempts := hattempts.capacity.trans hm

theorem Machine.capacity_change (m : Machine) (c : Change) :
    (m.change c).memory.capacity = m.memory.capacity := by
  cases c with
  | reset => exact Memory.capacity_clear m.memory
  | registers | tally | halted | tracing => rfl

namespace Bench

variable {κ : Type}

theorem capacity_writeWord (b : Bench κ) (index : WordIndex) (w : Word) :
    (b.writeWord index w).2.machine.memory.capacity = b.machine.memory.capacity := by
  rw [writeWord]
  cases hwrite : b.machine.memory.write index w with
  | error e => rfl
  | ok memory => exact Memory.capacity_write hwrite

variable [FiniteConsole κ] {b b' : Bench κ} {patience : Nat}

theorem capacity_perform {o : Operation} {r : Except Failure Answer}
    (h : b.perform patience o = some (r, b')) :
    b'.machine.memory.capacity = b.machine.memory.capacity := by
  have kept := Machine.kept_capacity b.machine.memory.capacity
  cases o with
  | step =>
    cases h
    exact kept.step (h := {}) rfl
  | run limit =>
    obtain ⟨r₀, hrun⟩ := exists_of_map_eq_some h
    exact kept.run (h := {}) rfl hrun
  | runUnder s =>
    obtain ⟨r₀, hunder⟩ := exists_of_map_eq_some h
    obtain ⟨b₀, hrun, hmachine, -⟩ := runUnder_eq_some hunder
    rw [hmachine]
    exact kept.run (h := {}) rfl hrun
  | load =>
    cases h
    exact kept.load (h := {}) rfl
  | loadAndRun s =>
    obtain ⟨r₀, hrun⟩ := exists_of_map_eq_some h
    exact kept.loadAndRun (h := {}) rfl hrun

theorem capacity_act {a : Action} {r : Except Failure (Option Answer)}
    (h : b.act patience a = some (r, b')) :
    b'.machine.memory.capacity = b.machine.memory.capacity := by
  cases a with
  | operate o =>
    obtain ⟨r₀, hperform⟩ := exists_of_map_eq_some h
    exact capacity_perform hperform
  | image words =>
    cases h
    exact (Machine.kept_capacity _).image (h := {}) rfl words
  | write index w =>
    cases h
    exact b.capacity_writeWord index w
  | change c =>
    cases h
    exact b.machine.capacity_change c

end Bench

namespace Machine

variable {s : Settings} {m : Machine}

/-- So the memory still has the size that the settings gave it. -/
theorem Handled.capacity (h : Handled s m) : m.memory.capacity = s.layout.capacity := by
  have kept := kept_capacity s.layout.capacity
  induction h with
  | powerOn => exact Memory.capacity_blank s.layout.capacity
  | step _ ih => exact kept.step (h := {}) ih
  | run _ ran ih => exact kept.run (h := {}) ih ran
  | act _ acted ih => exact (Bench.capacity_act acted).trans ih

/-- A reset puts everything back but the switch. -/
theorem Handled.reset_eq (h : Handled s m) :
    m.reset = { Machine.powerOn s with tracing := m.tracing } := by
  rw [reset, Memory.clear, h.capacity, Machine.powerOn]

end Machine

/-! ### Everything but the switch and the log -/

namespace Bench

/-- Loading counts the words of a program that it has loaded, and has nothing to do with the flag. -/
theorem tally_load {κ : Type} [FiniteConsole κ] (b : Bench κ) :
    b.load.2.machine.tally = { b.machine.tally with
      wordsLoaded := b.load.1.toOption.getD b.machine.tally.wordsLoaded } ∧
    b.load.2.machine.halted = b.machine.halted := by
  rcases b.machine_load with ⟨e, hresult, hmachine⟩ | ⟨words, memory, hresult, -, hmachine⟩
  · rw [hresult, hmachine]
    exact ⟨rfl, rfl⟩
  · rw [hresult, hmachine]
    exact ⟨rfl, rfl⟩

/-- The machine and the console of a bench, as if nothing were traced. -/
def untraced {κ : Type} (b : Bench κ) : Machine × κ :=
  ({ b.machine with tracing := false }, b.console)

/-- The benches differ at most in switch and log. -/
structure SameButTracing {κ : Type} (b₁ b₂ : Bench κ) : Prop extends SameWork b₁ b₂ where
  tally : b₁.machine.tally = b₂.machine.tally
  halted : b₁.machine.halted = b₂.machine.halted

theorem untraced_eq_iff {κ : Type} {b₁ b₂ : Bench κ} :
    b₁.untraced = b₂.untraced ↔ b₁.SameButTracing b₂ := by
  rw [untraced, untraced, Prod.mk.injEq, Machine.mk.injEq]
  constructor
  · rintro ⟨⟨hregisters, hmemory, htally, -, hhalted⟩, hconsole⟩
    exact ⟨⟨hregisters, hmemory, hconsole⟩, htally, hhalted⟩
  · rintro ⟨⟨hregisters, hmemory, hconsole⟩, htally, hhalted⟩
    exact ⟨⟨hregisters, hmemory, htally, rfl, hhalted⟩, hconsole⟩

namespace SameButTracing

theorem map_untraced {α κ : Type} {r : α} {c₁ c₂ : Bench κ} (h : SameButTracing c₁ c₂) :
    Prod.map id untraced (r, c₁) = Prod.map id untraced (r, c₂) :=
  congrArg (Prod.mk r) (untraced_eq_iff.mpr h)

section Running

variable {κ : Type} [Console κ] {b₁ b₂ : Bench κ}

/-- A step counts the same and halts, or not, in both cases. -/
theorem step (h : SameButTracing b₁ b₂) : Agree SameButTracing b₁.step b₂.step := by
  obtain ⟨r, c₁, c₂, hstep₁, hstep₂, hwork⟩ := h.toSameWork.step
  have hresult : b₁.step.1 = b₂.step.1 := by rw [hstep₁, hstep₂]
  -- the fetches decide what is counted, and they are the same
  have htally : (b₁.after 1).machine.tally = (b₂.after 1).machine.tally := by
    rw [tally_after, tally_after, h.tally, h.sameCourse.fetches]
  have hhalted := halted_step_congr hresult h.halted
  rw [after, after, after, after, hstep₁, hstep₂] at htally
  rw [hstep₁, hstep₂] at hhalted
  exact ⟨r, c₁, c₂, hstep₁, hstep₂, hwork, htally, hhalted⟩

theorem finish (h : SameButTracing b₁ b₂) (steps : Nat) :
    Agree SameButTracing (b₁.finish steps) (b₂.finish steps) :=
  finish_of_console_eq h.console
    (fun _ _ _ => ⟨⟨h.registers, h.memory, rfl⟩, h.tally, h.halted⟩) steps

theorem simulation : Simulation (SameButTracing (κ := κ)) :=
  ⟨SameButTracing.step, fun steps h => h.finish steps⟩

/-- Neither a step nor a run shows the switch or the log. -/
theorem untraced_step_and_run (h : SameButTracing b₁ b₂) :
    Prod.map id untraced b₁.step = Prod.map id untraced b₂.step ∧
      ∀ patience limit, (b₁.run patience limit).map (Prod.map id untraced) =
        (b₂.run patience limit).map (Prod.map id untraced) := by
  constructor
  · obtain ⟨r, c₁, c₂, hstep₁, hstep₂, hrest⟩ := h.step
    rw [hstep₁, hstep₂]
    exact hrest.map_untraced
  · intro patience limit
    exact Agree.map_eq (simulation.run h patience limit) fun _ _ _ hend => hend.map_untraced

end Running

section Loading

variable {κ : Type} {b₁ b₂ : Bench κ}

/-- The note on a run that failed goes to the log. -/
theorem noteAbort (h : SameButTracing b₁ b₂) (r : Except Failure Nat) :
    Agree SameButTracing (Bench.noteAbort (r, b₁)) (Bench.noteAbort (r, b₂)) := by
  cases r with
  | error e => exact ⟨_, _, _, rfl, rfl, ⟨h.registers, h.memory, h.console⟩, h.tally, h.halted⟩
  | ok steps => exact ⟨_, _, _, rfl, rfl, h⟩

theorem loadImage (h : SameButTracing b₁ b₂) (image : List Word) :
    Agree SameButTracing (b₁.loadImage image) (b₂.loadImage image) := by
  rw [Bench.loadImage, Bench.loadImage, h.memory]
  cases b₂.machine.memory.loadImage image with
  | error e => exact ⟨_, _, _, rfl, rfl, h⟩
  | ok memory =>
    exact ⟨_, _, _, rfl, rfl, ⟨h.registers, rfl, h.console⟩, h.tally, h.halted⟩

theorem writeWord (h : SameButTracing b₁ b₂) (index : WordIndex) (w : Word) :
    Agree SameButTracing (b₁.writeWord index w) (b₂.writeWord index w) := by
  rw [Bench.writeWord, Bench.writeWord, h.memory]
  cases b₂.machine.memory.write index w with
  | error e => exact ⟨_, _, _, rfl, rfl, h⟩
  | ok memory =>
    exact ⟨_, _, _, rfl, rfl, ⟨h.registers, rfl, h.console⟩, h.tally, h.halted⟩

variable [FiniteConsole κ]

/-- A program that is loaded is counted on both. -/
theorem load (h : SameButTracing b₁ b₂) : Agree SameButTracing b₁.load b₂.load := by
  obtain ⟨r, c₁, c₂, hload₁, hload₂, hwork⟩ := h.toSameWork.load
  obtain ⟨htally₁, hhalted₁⟩ := b₁.tally_load
  obtain ⟨htally₂, hhalted₂⟩ := b₂.tally_load
  rw [hload₁] at htally₁ hhalted₁
  rw [hload₂] at htally₂ hhalted₂
  refine ⟨r, c₁, c₂, hload₁, hload₂, hwork, ?_, ?_⟩
  · exact htally₁.trans (h.tally ▸ htally₂.symm)
  · exact hhalted₁.trans (h.halted.trans hhalted₂.symm)

/-- An operation has the same result, and leaves the same behind but for switch and log. -/
theorem perform (h : SameButTracing b₁ b₂) (patience : Nat) (o : Operation) :
    Option.Rel (Agree SameButTracing) (b₁.perform patience o) (b₂.perform patience o) := by
  have hlimit (s : Settings) : s.stepLimit = s.stepLimit := rfl
  cases o with
  | step => exact .some (h.step.map _)
  | run limit => exact Agree.rel_map_result (simulation.run h patience limit) _
  | runUnder s =>
    have hrun := simulation.runUnder (fun r h => h.noteAbort r) h (hlimit s) patience
    exact Agree.rel_map_result hrun _
  | load => exact .some (h.load.map _)
  | loadAndRun s =>
    have hrun := simulation.loadAndRun (fun r h => h.noteAbort r) h.load (hlimit s) patience
    exact Agree.rel_map_result hrun _

omit [FiniteConsole κ] in
/-- So does a change, whatever it may be. -/
theorem change (h : SameButTracing b₁ b₂) (c : Change) :
    SameButTracing { b₁ with machine := b₁.machine.change c }
      { b₂ with machine := b₂.machine.change c } := by
  obtain ⟨⟨hregisters, hmemory, hconsole⟩, htally, hhalted⟩ := h
  cases c with
  | registers f => exact ⟨⟨congrArg f hregisters, hmemory, hconsole⟩, htally, hhalted⟩
  | tally f => exact ⟨⟨hregisters, hmemory, hconsole⟩, congrArg f htally, hhalted⟩
  | halted flag => exact ⟨⟨hregisters, hmemory, hconsole⟩, htally, rfl⟩
  | tracing flag => exact ⟨⟨hregisters, hmemory, hconsole⟩, htally, hhalted⟩
  | reset => exact ⟨⟨rfl, congrArg Memory.clear hmemory, hconsole⟩, rfl, rfl⟩

/-- So does any action. -/
theorem act (h : SameButTracing b₁ b₂) (patience : Nat) (a : Action) :
    Option.Rel (Agree SameButTracing) (b₁.act patience a) (b₂.act patience a) := by
  cases a with
  | operate o => exact Agree.rel_map_result (h.perform patience o) _
  | image words => exact .some ((h.loadImage words).map _)
  | write index w => exact .some ((h.writeWord index w).map _)
  | change c => exact .some ⟨_, _, _, rfl, rfl, h.change c⟩

/-- So do actions one after another, at every point. -/
theorem acts (h : SameButTracing b₁ b₂) (patience : Nat) (as : List Action) :
    (b₁.acts patience as).map (Prod.map id untraced) =
      (b₂.acts patience as).map (Prod.map id untraced) := by
  induction as generalizing b₁ b₂ with
  | nil => rfl
  | cons a rest ih =>
    have hact := h.act patience a
    rw [Bench.acts, Bench.acts]
    generalize b₁.act patience a = x at hact ⊢
    generalize b₂.act patience a = y at hact ⊢
    -- a run that does not end on one of the benches does not end on the other either
    cases hact with
    | none => rfl
    | some hagree =>
      obtain ⟨r, c₁, c₂, rfl, rfl, hrest⟩ := hagree
      simp only [List.map_cons, hrest.map_untraced, ih hrest]

end Loading

end SameButTracing

end Bench

namespace Machine

/-- Actions one after another leave a machine with which things have been done. -/
theorem Handled.of_mem_acts {κ : Type} [FiniteConsole κ] {s : Settings} {b : Bench κ}
    (h : Handled s b.machine) {patience : Nat} {as : List Action}
    {x : Except Failure (Option Answer) × Bench κ} (hx : x ∈ b.acts patience as) :
    Handled s x.2.machine := by
  induction as generalizing b with
  | nil => cases hx
  | cons a rest ih =>
    rw [Bench.acts] at hx
    rcases hact : b.act patience a with _ | ⟨r, b'⟩
    · rw [hact] at hx
      cases hx
    · rw [hact] at hx
      have hb' : Handled s b'.machine := h.act hact
      rcases List.mem_cons.mp hx with rfl | hrest
      · exact hb'
      · exact ih hb' hrest

/-- A machine that has been reset is as good as new.  Let anything be done with a machine after it was
switched on, at benches with any consoles and with any failures, assignments to its registers, counters,
flag and switch among it.  Then a reset leads back to the machine that was switched on, except that the
switch for tracing stays where it is.

The switch shows in the log alone.  So whatever is done from there on has the same results as with the new
machine at an equal console, and leaves equal registers, memories, counters and flags and equal consoles
behind, with all that has been written to them.  For consoles whose input ends this is said of actions one
after another.  It is true of steps and runs at all consoles, whichever benches they start from that are
equal but for switch and log. -/
theorem reset_eq_powerOn {s : Settings} {m : Machine} (h : Handled s m) :
    m.reset = { powerOn s with tracing := m.tracing } ∧
    (∀ {κ : Type} [FiniteConsole κ] (k : κ) (log₁ log₂ : Array Event) (patience : Nat)
      (as : List Action),
      (Bench.acts patience { machine := m.reset, console := k, log := log₁ } as).map
          (Prod.map id Bench.untraced) =
        (Bench.acts patience { machine := powerOn s, console := k, log := log₂ } as).map
          (Prod.map id Bench.untraced)) ∧
    (∀ {κ : Type} (k : κ) (log₁ log₂ : Array Event),
      Bench.untraced { machine := m.reset, console := k, log := log₁ } =
        Bench.untraced { machine := powerOn s, console := k, log := log₂ }) ∧
    ∀ {κ : Type} [Console κ] (b₁ b₂ : Bench κ), b₁.untraced = b₂.untraced →
      Prod.map id Bench.untraced b₁.step = Prod.map id Bench.untraced b₂.step ∧
      ∀ patience limit, (b₁.run patience limit).map (Prod.map id Bench.untraced) =
        (b₂.run patience limit).map (Prod.map id Bench.untraced) := by
  have hreset : m.reset = { powerOn s with tracing := m.tracing } := h.reset_eq
  have hsame {κ : Type} (k : κ) (log₁ log₂ : Array Event) :
      Bench.SameButTracing { machine := m.reset, console := k, log := log₁ }
        { machine := powerOn s, console := k, log := log₂ } := by
    rw [hreset]
    exact ⟨⟨rfl, rfl, rfl⟩, rfl, rfl⟩
  refine ⟨hreset, ?_, ?_, ?_⟩
  · intro κ _ k log₁ log₂ patience as
    exact (hsame k log₁ log₂).acts patience as
  · intro κ k log₁ log₂
    exact Bench.untraced_eq_iff.mpr (hsame k log₁ log₂)
  · intro κ _ b₁ b₂ huntraced
    exact (Bench.untraced_eq_iff.mp huntraced).untraced_step_and_run

/-- A run fails at a division by zero.  Then tracing is switched on, the flag is set, a word is written
behind memory and an image over the program.  After a reset a program is loaded and run, which halts with
the switch on as it does without. -/
theorem reset_eq_powerOn_of_failed_run :
    let s : Settings := { layout := { capacity := 4 } }
    let start : Bench TokenQueue := .powerOn s { tokens := ["1000100000000000"], sink := {} }
    let before : List Action := [.operate .load, .operate (.run none), .change (.tracing true),
      .change (.halted true), .write 4 1, .image [1, 2, 3, 4]]
    let k : TokenQueue := { tokens := ["0100000000000010", "1111000000000000", "0"], sink := {} }
    let later : List Action := [.operate .load, .operate (.run (some 5))]
    (start.acts 9 before).map (·.1.toOption) =
      [some (some (.count 1)), none, some none, some none, none, some (some (.count 4))] ∧
    ∃ x ∈ start.acts 9 before, x.2.machine.tracing = true ∧
      x.2.machine.reset = { powerOn s with tracing := true } ∧
      (Bench.acts 9 { machine := x.2.machine.reset, console := k } later).map
          (Prod.map id Bench.untraced) =
        ((Bench.powerOn s k).acts 9 later).map (Prod.map id Bench.untraced) ∧
      ((Bench.powerOn s k).acts 9 later).map (·.1.toOption) =
        [some (some (.count 3)), some (some (.count 2))] := by
  intro s start before k later
  have htraced : ((start.acts 9 before)[5]?.map fun x => x.2.machine.tracing) = some true := by
    decide +kernel
  obtain ⟨x, hx, htracing⟩ := Option.map_eq_some_iff.mp htraced
  have hmem : x ∈ start.acts 9 before := List.mem_of_getElem? hx
  have hhandled : Handled s x.2.machine :=
    Handled.of_mem_acts (b := start) Handled.powerOn hmem
  obtain ⟨hreset, hacts, -⟩ := reset_eq_powerOn hhandled
  rw [htracing] at hreset
  exact ⟨by decide +kernel, x, hmem, htracing, hreset, hacts k #[] #[] 9 later, by decide +kernel⟩

end Machine

end WordMachine
