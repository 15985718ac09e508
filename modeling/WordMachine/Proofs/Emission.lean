import WordMachine.Proofs.Spelling

/-!
# What a run writes out

A step puts a line out if it executes a WRITE whose word is there, and else nothing; the word is its
*emission* (`Bench.emission?`).  The emissions of the first `n` steps of a bench are
`Bench.emissions b n`, and those of a run are the emissions of the steps that it begins.

If the output accepts everything, then it holds at every point what it held at the start, and the lines
of the emissions after it, one line for each, in order (`Bench.output_after`).  Loading, faults and the
end of a run add nothing to it, so this holds of whole runs as well (`Bench.output_loadAndRun`).
-/

namespace WordMachine

open OutputAccount

/-- The lines that show words. -/
def Console.lines (ws : List Word) : String :=
  String.join (ws.map valueLine)

theorem Console.lines_append (ws vs : List Word) : lines (ws ++ vs) = lines ws ++ lines vs := by
  rw [lines, List.map_append, String.join_append]
  rfl

theorem Console.lines_singleton (w : Word) : lines [w] = valueLine w := by
  rw [lines, List.map_singleton, String.join_cons, String.join_nil, String.append_empty]

/-- WRITE writes the word at its index to the console, if there is one. -/
theorem Machine.execute_write_console {κ : Type} [Console κ] (m : Machine) (k : κ) (a : WordIndex) :
    (m.execute k (.write a)).2 =
      match m.memory.words[a]? with
      | some w => (Console.writeValue k w).2
      | none => k := by
  rw [execute, executeWrite]
  cases hw : m.memory.words[a]? with
  | none => rw [Memory.read_of_le (Array.getElem?_eq_none_iff.mp hw)]
  | some w =>
    rw [Memory.read_eq_ok_iff.mpr hw]
    rcases hwrite : Console.writeValue k w with ⟨_ | _, k'⟩ <;> simp only [hwrite]

namespace Bench

/-! ### Emissions -/

section Running

variable {κ : Type} [Console κ] {b c : Bench κ}

/-- The word that the next step writes out, if it executes a WRITE of a word inside memory. -/
def emission? (b : Bench κ) : Option Word :=
  match b.instruction? with
  | some (.write a) => b.machine.memory.words[a]?
  | _ => none

/-- What the WRITEs among the first `n` steps write out, in order. -/
def emissions (b : Bench κ) : Nat → List Word
  | 0 => []
  | n + 1 => b.emissions n ++ (b.after n).emission?.toList

/-- What fewer steps write out comes first. -/
theorem emissions_prefix (b : Bench κ) {i j : Nat} (h : i ≤ j) : b.emissions i <+: b.emissions j := by
  induction h with
  | refl => exact List.prefix_rfl
  | step _ ih => exact ih.trans (List.prefix_append _ _)

/-- What a run writes out, which an observer watches for `patience` steps if it has no limit. -/
def runEmissions (b : Bench κ) (patience : Nat) (limit : Option Nat) : List Word :=
  b.emissions (b.begun (limit.getD patience))

/-- A step without an emission asks the console for a token or leaves it alone, and one with an emission
writes it to the console. -/
theorem console_step (b : Bench κ) :
    (b.emission? = none ∧
      (b.step.2.console = b.console ∨ b.step.2.console = (Console.readToken b.console).2)) ∨
    ∃ v, b.emission? = some v ∧ b.step.2.console = (Console.writeValue b.console v).2 := by
  unfold emission?
  cases hi : b.instruction? with
  | none =>
    rw [step_of_no_instruction hi]
    exact .inl ⟨rfl, .inl rfl⟩
  | some i =>
    obtain ⟨w, -, -, hconsole⟩ := step_console_of_instruction hi
    rw [hconsole]
    cases i with
    | read a =>
      rw [Machine.execute_read_console]
      exact .inl ⟨rfl, .inr rfl⟩
    | write a =>
      have hmemory : (b.machine.fetch w).memory = b.machine.memory := rfl
      rw [Machine.execute_write_console, hmemory]
      dsimp only
      cases b.machine.memory.words[a]? with
      | none => exact .inl ⟨rfl, .inl rfl⟩
      | some v => exact .inr ⟨v, rfl, rfl⟩
    | _ => exact .inl ⟨rfl, .inl rfl⟩

omit [Console κ] in
/-- An emission is the word that a WRITE finds at its index. -/
theorem exists_write_of_emission {v : Word} (h : b.emission? = some v) :
    ∃ w a, b.machine.memory.words[b.machine.pc]? = some w ∧ w.decode = .write a ∧
      b.machine.memory.words[a]? = some v := by
  unfold emission? at h
  split at h
  · next a hi =>
    obtain ⟨w, hw, hwrite⟩ := Option.map_eq_some_iff.mp hi
    exact ⟨w, a, hw, hwrite, h⟩
  · exact absurd h nofun

variable [OutputAccount κ]

/-- A step adds the line of its emission to the output. -/
theorem output_step (h : IsOpen b.console) :
    IsOpen b.step.2.console ∧
      output b.step.2.console = output b.console ++ Console.lines b.emission?.toList := by
  rcases b.console_step with ⟨hnone, hconsole | hconsole⟩ | ⟨v, hv, hconsole⟩
  · rw [hconsole, hnone]
    exact ⟨h, String.append_empty.symm⟩
  · obtain ⟨hopen, houtput⟩ := readToken_of_isOpen h
    rw [hconsole, hnone]
    exact ⟨hopen, houtput.trans String.append_empty.symm⟩
  · obtain ⟨-, hopen, houtput⟩ := writeValue_of_isOpen v h
    rw [hconsole, hv, Option.toList_some, Console.lines_singleton]
    exact ⟨hopen, houtput⟩

/-- After any number of steps the output holds the lines of their emissions. -/
theorem output_after (h : IsOpen b.console) (n : Nat) :
    IsOpen (b.after n).console ∧
      output (b.after n).console = output b.console ++ Console.lines (b.emissions n) := by
  induction n with
  | zero => exact ⟨h, String.append_empty.symm⟩
  | succ n ih =>
    obtain ⟨hopen, houtput⟩ := ih
    obtain ⟨hopen', houtput'⟩ := output_step hopen
    refine ⟨hopen', ?_⟩
    rw [after, houtput', houtput, emissions, Console.lines_append, String.append_assoc]

/-- So does the output of a run, whatever it comes to. -/
theorem output_run {patience : Nat} {limit : Option Nat} {r : Except Failure Nat}
    (h : IsOpen b.console) (hrun : b.run patience limit = some (r, c)) :
    IsOpen c.console ∧
      output c.console = output b.console ++ Console.lines (b.runEmissions patience limit) := by
  rw [runEmissions]
  rcases run_eq_some_iff.mp hrun with ⟨n, rfl, hruns, -, rfl⟩ | ⟨k, hk, hends⟩
  · rw [Option.getD_some, hruns.begun_eq]
    exact output_after h n
  · rw [hends.begun_eq hk]
    obtain ⟨hopen, houtput⟩ := output_after h k
    obtain ⟨-, hconsole | hconsole⟩ := hends.last_step
    · rw [hconsole]
      exact ⟨hopen, houtput⟩
    · obtain ⟨-, hopen', houtput'⟩ := flush_of_isOpen hopen
      rw [hconsole]
      exact ⟨hopen', houtput'.trans houtput⟩

end Running

/-! ### Loading and running -/

variable {κ : Type} [FiniteConsole κ] {b c : Bench κ}

/-- What loading a program and running it writes out. -/
def loadAndRunEmissions (b : Bench κ) (patience : Nat) (s : Settings) : List Word :=
  match b.load with
  | (.error _, _) => []
  | (.ok _, b') => b'.runEmissions patience s.stepLimit

variable [OutputAccount κ]

/-- Loading puts nothing out. -/
theorem output_load (h : IsOpen b.console) :
    IsOpen b.load.2.console ∧ output b.load.2.console = output b.console := by
  rw [console_load]
  exact Program.readAfter_of_isOpen h #[]

/-- If the output accepts everything, then loading a program and running it adds to it the lines of the
words that the run writes out, whatever it comes to. -/
theorem output_loadAndRun {patience : Nat} {s : Settings} {r : Except Failure Nat}
    (h : IsOpen b.console) (hrun : b.loadAndRun patience s = some (r, c)) :
    IsOpen c.console ∧
      output c.console =
        output b.console ++ Console.lines (b.loadAndRunEmissions patience s) := by
  obtain ⟨hopen, houtput⟩ := output_load h
  rw [loadAndRun] at hrun
  rw [loadAndRunEmissions]
  rcases hload : b.load with ⟨e | words, d⟩
  · rw [hload] at hrun hopen houtput
    cases hrun
    exact ⟨hopen, houtput.trans String.append_empty.symm⟩
  · rw [hload] at hrun hopen houtput
    obtain ⟨d', hrun', -, hconsole⟩ := runUnder_eq_some hrun
    obtain ⟨hopen', houtput'⟩ := output_run hopen hrun'
    rw [hconsole]
    refine ⟨hopen', ?_⟩
    rw [houtput', houtput]

end Bench

end WordMachine
