import WordMachine.Proofs.History
import WordMachine.Proofs.HostFailure
import WordMachine.Proofs.Spelling

/-!
# How loading and running can end

Loading a program and running it ends with HALT, with a fault of the machine, or with a failure that the
console reports.  `Console.Reports P Q` says of consoles with the property `P`, which every call keeps,
that they fail only with `Q`; then everything that is loaded and run on such a console either succeeds,
or ends with a fault of the machine or with `Q` (`Console.Reports.loadAndRun`).  A stream console reports
failures of input and output only, and none at all if no read of its stream fails and its output accepts
everything.

The flag of the machine tells HALT from all other ends (`Bench.halted_iff_of_loadAndRun`).
-/

namespace WordMachine

/-! ### Failures -/

/-- An image that cannot be loaded is a fault of the machine. -/
theorem Memory.isMachineFault_of_loadImage {m : Memory} {image : List Word} {e : Failure}
    (h : m.loadImage image = .error e) : e.isMachineFault = true := by
  by_cases hle : image.length ≤ m.capacity
  · obtain ⟨m', hload, -⟩ := loadImage_of_le hle
    rw [hload] at h
    cases h
  · rw [loadImage_of_lt (Nat.lt_of_not_le hle)] at h
    cases h
    rfl

namespace Console

/-- Calls on a console with the property `P` keep that property, and fail with `Q` only. -/
structure Reports {κ : Type} [Console κ] (P : κ → Prop) (Q : Failure → Prop) : Prop where
  stable : Stable P
  fails : ∀ {k e}, P k → Fails k e → Q e

namespace Reports

section Running

variable {κ : Type} [Console κ] {P : κ → Prop} {Q : Failure → Prop} {b c : Bench κ} {e : Failure}

/-- A step fails with a fault of the machine or with what the console reports. -/
theorem step (reports : Reports P Q) (h : P b.console) (hstep : b.step.1 = .error e) :
    e.isMachineFault = true ∨ Q e := by
  rcases Bench.eq_of_step_eq_error hstep with hfails | rfl | rfl | ⟨index, -, rfl, -⟩
  · exact .inr (reports.fails h hfails)
  · exact .inl rfl
  · exact .inl rfl
  · exact .inl rfl

/-- So does a run. -/
theorem run (reports : Reports P Q) {patience : Nat} {limit : Option Nat} (h : P b.console)
    (hrun : b.run patience limit = some (.error e, c)) : e.isMachineFault = true ∨ Q e := by
  rcases Bench.run_eq_some_iff.mp hrun with ⟨n, -, -, hlimit, -⟩ | ⟨k, -, hends⟩
  · cases hlimit
    exact .inl rfl
  · cases hends with
    | @unflushed j d _ _ _ hstep _ hflush =>
      have hd : P d.console := by
        rw [← Bench.after_succ_of_step hstep]
        exact reports.stable.after h (j + 1)
      exact .inr (reports.fails hd (.flush hflush))
    | @failed j _ _ _ hstep =>
      exact reports.step (reports.stable.after h j) (congrArg Prod.fst hstep)

/-- A program cannot be read only if the console reports so. -/
theorem readWithin (reports : Reports P Q) {before : Array Word} {patience : Nat} {k k' : κ}
    (h : P k) (hread : Program.readWithin before patience k = some (.error e, k')) : Q e := by
  fun_induction Program.readWithin before patience k with
  | case1 before k => cases hread
  | case2 before patience k e' k' hcall =>
    cases hread
    exact reports.fails h (.readToken hcall)
  | case3 before patience k k' hcall => cases hread
  | case4 before patience k token k' hcall w hzero => cases hread
  | case5 before patience k token k' hcall w hword ih =>
    refine ih ?_ hread
    have hrest := reports.stable.readToken h
    rw [hcall] at hrest
    exact hrest

end Running

variable {κ : Type} [FiniteConsole κ] {P : κ → Prop} {Q : Failure → Prop} {b c : Bench κ}
  {e : Failure}

/-- Loading fails with a fault of the machine or with what the console reports. -/
theorem load (reports : Reports P Q) (h : P b.console) (hload : b.load.1 = .error e) :
    e.isMachineFault = true ∨ Q e := by
  rw [Bench.load_eq] at hload
  rcases hread : Program.read b.console with ⟨e' | words, k⟩
  · rw [hread] at hload
    cases hload
    have hwithin := Program.readWithin_remaining #[] b.console
    rw [← Program.read, hread] at hwithin
    exact .inr (reports.readWithin h hwithin)
  · rw [hread] at hload
    simp only [Bench.finishLoad, Bench.noteRead, Bench.storeRead, Bench.loadImage, Bench.note]
      at hload
    cases himage : b.machine.memory.loadImage words with
    | error e' =>
      rw [himage] at hload
      cases hload
      exact .inl (Memory.isMachineFault_of_loadImage himage)
    | ok memory =>
      rw [himage] at hload
      cases hload

/-- So does loading and running. -/
theorem loadAndRun (reports : Reports P Q) {patience : Nat} {s : Settings} (h : P b.console)
    (hrun : b.loadAndRun patience s = some (.error e, c)) : e.isMachineFault = true ∨ Q e := by
  rw [Bench.loadAndRun] at hrun
  rcases hload : b.load with ⟨e' | words, d⟩
  · rw [hload] at hrun
    cases hrun
    exact reports.load h (congrArg Prod.fst hload)
  · have hd := reports.stable.load h
    rw [hload] at hrun hd
    obtain ⟨d', hrun', -, -⟩ := Bench.runUnder_eq_some hrun
    exact reports.run hd hrun'

end Reports

end Console

/-! ### Streams -/

namespace Script

/-- No read of the script fails. -/
def Readable (s : Script) : Prop :=
  ∀ text, Read.failure text ∉ s

theorem Readable.tail {read : Read} {s : Script} (h : Readable (read :: s)) : s.Readable := by
  intro text hmem
  exact h text (List.mem_cons_of_mem read hmem)

theorem Readable.unread {s : Script} (h : s.Readable) (back : List UInt8) :
    (unread back s).Readable := by
  intro text hmem
  rw [Script.unread] at hmem
  split at hmem
  · exact h text hmem
  · rcases List.mem_cons.mp hmem with hread | hrest
    · cases hread
    · exact h text hrest

/-- Lines can be read from it. -/
theorem Readable.readLine {s s' : Script} {line : List UInt8} {r : Except Failure (List UInt8)}
    (h : s.Readable) (hread : s.readLine line = (r, s')) : (∃ line', r = .ok line') ∧ s'.Readable := by
  fun_induction Script.readLine line s with
  | case1 line =>
    cases hread
    exact ⟨⟨_, rfl⟩, h⟩
  | case2 line rest ih => exact ih h.tail hread
  | case3 line text rest => exact absurd (List.mem_cons_self) (h text)
  | case4 line bs rest hempty =>
    cases hread
    exact ⟨⟨_, rfl⟩, h.tail⟩
  | case5 line bs rest hempty hfeed ih => exact ih h.tail hread
  | case6 line bs rest hempty feed back hfeed =>
    cases hread
    exact ⟨⟨_, rfl⟩, h.tail.unread back⟩

end Script

namespace StreamConsole

/-- A stream console reports failures of input and output only. -/
theorem reports_io : Console.Reports (fun _ : StreamConsole => True) fun e => ∃ text, e = .io text where
  stable := ⟨fun _ => trivial, fun _ _ => trivial, fun _ => trivial⟩
  fails _ hfails := eq_io_of_fails hfails

/-- Lines can be read as long as no read of the stream fails. -/
theorem readable_fill {c c' : StreamConsole} {r : Except Failure Unit} (h : c.script.Readable)
    (hfill : c.fill = (r, c')) : r = .ok () ∧ c'.script.Readable := by
  fun_induction fill c with
  | case1 c hwant e rest hread =>
    obtain ⟨⟨line, hline⟩, -⟩ := h.readLine hread
    cases hline
  | case2 c hwant line rest hread hempty =>
    cases hfill
    exact ⟨rfl, (h.readLine hread).2⟩
  | case3 c hwant line rest hread hempty ih => exact ih (h.readLine hread).2 hfill
  | case4 c hwant =>
    cases hfill
    exact ⟨rfl, h⟩

/-- So tokens can be asked for. -/
theorem readable_readToken {c c' : StreamConsole} {r : Except Failure (Option String)}
    (h : c.script.Readable) (hread : c.readToken = (r, c')) :
    (∃ token?, r = .ok token?) ∧ c'.script.Readable := by
  rw [readToken] at hread
  rcases hfill : c.fill with ⟨r', d⟩
  obtain ⟨rfl, hd⟩ := readable_fill h hfill
  rw [hfill] at hread
  cases hpending : d.pending <;> simp only [hpending] at hread <;> cases hread <;>
    exact ⟨⟨_, rfl⟩, hd⟩

/-- If no read of the stream fails and the output accepts everything, no call fails. -/
theorem reports_nothing :
    Console.Reports (fun c : StreamConsole => c.script.Readable ∧ c.sink.IsOpen)
      fun _ => False where
  stable := {
    readToken := by
      rintro c ⟨hscript, hopen⟩
      have hsink : (Console.readToken c).2.sink = c.sink := c.sink_readToken
      rw [hsink]
      exact ⟨(readable_readToken hscript rfl).2, hopen⟩
    writeValue := by
      rintro c w ⟨hscript, hopen⟩
      exact ⟨hscript, (hopen.write _).2.1⟩
    flush := by
      rintro c ⟨hscript, hopen⟩
      exact ⟨hscript, hopen.flush.2.1⟩ }
  fails := by
    rintro c e ⟨hscript, hopen⟩ hfails
    cases hfails with
    | readToken hcall =>
      obtain ⟨⟨token?, htoken⟩, -⟩ := readable_readToken hscript hcall
      cases htoken
    | @writeValue w c' hcall =>
      have hresult : (Console.writeValue c w).1 = .ok () := (hopen.write _).1
      rw [hcall] at hresult
      cases hresult
    | flush hcall =>
      have hresult : (Console.flush c).1 = .ok () := hopen.flush.1
      rw [hcall] at hresult
      cases hresult

end StreamConsole

/-! ### The flag of the machine -/

open OutputAccount

/-- An output that accepts everything goes on to do so. -/
theorem OutputAccount.stable_isOpen {κ : Type} [Console κ] [OutputAccount κ] :
    Console.Stable fun k : κ => OutputAccount.IsOpen k where
  readToken h := (readToken_of_isOpen h).1
  writeValue w h := (writeValue_of_isOpen w h).2.1
  flush h := (flush_of_isOpen h).2.1

/-- Only HALT marks the machine as halted. -/
theorem Machine.Executes.halted_eq {κ : Type} [Console κ] {m m' : Machine} {k k' : κ}
    {i : Instruction} (h : m.Executes k i m' k') (hstatus : statusAfter i ≠ .halted) :
    m'.halted = m.halted := by
  cases h with
  | halt => exact absurd rfl hstatus
  | jneg | jzero =>
    rw [jump]
    split <;> rfl
  | _ => rfl

namespace Bench

section Running

variable {κ : Type} [Console κ] {b c : Bench κ}

/-- A step that does not halt leaves the flag as it was. -/
theorem halted_step (h : b.step.1 ≠ .ok .halted) : b.step.2.machine.halted = b.machine.halted := by
  rcases hstep : b.step with ⟨e | status, c⟩
  · rcases step_eq_error_iff.mp hstep with ⟨-, -, rfl⟩ | ⟨w, -, -, hmachine, -⟩
    · rfl
    · rw [hmachine]
      rfl
  · obtain ⟨w, -, hexec, hstatus, -⟩ := step_eq_ok_iff.mp hstep
    refine hexec.halted_eq ?_
    intro hhalted
    rw [hstep, hstatus, hhalted] at h
    exact h rfl

/-- So do steps that go on. -/
theorem RunsFor.halted_after {n : Nat} (h : b.RunsFor n) :
    (b.after n).machine.halted = b.machine.halted := by
  induction n with
  | zero => rfl
  | succ n ih =>
    have hstep : (b.after n).step.1 ≠ .ok .halted := by
      rw [h n (Nat.lt_succ_self n)]
      intro heq
      cases heq
    rw [after, halted_step hstep]
    exact ih (h.of_le (Nat.le_succ n))

variable [OutputAccount κ]

/-- With an output that accepts everything, a machine that had not halted is marked as halted after a run
exactly if the run succeeds. -/
theorem halted_iff_of_run {patience : Nat} {limit : Option Nat} {r : Except Failure Nat}
    (hopen : IsOpen b.console) (hfresh : b.machine.halted = false)
    (hrun : b.run patience limit = some (r, c)) :
    c.machine.halted = true ↔ ∃ n, r = .ok n := by
  have hstill : ∀ {j}, b.RunsFor j → (b.after j).machine.halted ≠ true := by
    intro j hruns
    rw [hruns.halted_after, hfresh]
    decide
  rcases run_eq_some_iff.mp hrun with ⟨n, -, hruns, rfl, rfl⟩ | ⟨k, -, hends⟩
  · constructor
    · intro hhalted
      exact absurd hhalted (hstill hruns)
    · rintro ⟨n, hn⟩
      cases hn
  · cases hends with
    | halted _ _ hflag _ => exact ⟨fun _ => ⟨_, rfl⟩, fun _ => hflag⟩
    | @unflushed j d _ _ _ hstep _ hflush =>
      have hd : IsOpen (b.after (j + 1)).console := stable_isOpen.after hopen (j + 1)
      rw [after_succ_of_step hstep] at hd
      have hresult := (flush_of_isOpen hd).1
      rw [hflush] at hresult
      cases hresult
    | @failed j _ e hruns hstep =>
      have hne : (b.after j).step.1 ≠ .ok .halted := by
        rw [hstep]
        intro heq
        cases heq
      have hflag := halted_step hne
      rw [hstep] at hflag
      constructor
      · intro hhalted
        rw [hflag] at hhalted
        exact absurd hhalted (hstill hruns)
      · rintro ⟨n, hn⟩
        cases hn

end Running

variable {κ : Type} [FiniteConsole κ] [OutputAccount κ] {b c : Bench κ}

/-- The same for loading a program and running it. -/
theorem halted_iff_of_loadAndRun {patience : Nat} {s : Settings} {r : Except Failure Nat}
    (hopen : IsOpen b.console) (hfresh : b.machine.halted = false)
    (hrun : b.loadAndRun patience s = some (r, c)) :
    c.machine.halted = true ↔ ∃ n, r = .ok n := by
  have hloaded : b.load.2.machine.halted = false := by
    rcases b.machine_load with ⟨e, -, hmachine⟩ | ⟨words, memory, -, -, hmachine⟩
    · rw [hmachine]
      exact hfresh
    · rw [hmachine]
      exact hfresh
  have hconsole : IsOpen b.load.2.console := stable_isOpen.load hopen
  rw [loadAndRun] at hrun
  rcases hload : b.load with ⟨e | words, d⟩
  · rw [hload] at hrun hloaded
    cases hrun
    constructor
    · intro hhalted
      rw [hloaded] at hhalted
      cases hhalted
    · rintro ⟨n, hn⟩
      cases hn
  · rw [hload] at hrun hloaded hconsole
    obtain ⟨d', hrun', hmachine, -⟩ := runUnder_eq_some hrun
    rw [hmachine]
    exact halted_iff_of_run hconsole hloaded hrun'

end Bench

end WordMachine
