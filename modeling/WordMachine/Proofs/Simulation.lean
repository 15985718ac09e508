import WordMachine.Bench.Loading
import WordMachine.Proofs.Fetch

/-!
# Simulations

Two benches may differ in something that their steps cannot tell.  If all steps that a run begins have
the same results on both, the run has the same result, and it leads to what as many steps lead to
(`Bench.run_of_results`).

A relation between benches is a `Bench.Simulation` if a step of the one and a step of the other always have
the same result and leave related benches behind, and the ends of runs likewise.  Then all of a run is
the same on both: the steps that it begins (`Bench.Simulation.begun`), its result, and at every point
the relation (`Bench.Simulation.after`, `Bench.Simulation.run`).
-/

namespace WordMachine

/-- The two outcomes have the same result, and what they leave behind is related. -/
def Agree {α β γ : Type} (R : β → γ → Prop) (x : α × β) (y : α × γ) : Prop :=
  ∃ r b c, x = (r, b) ∧ y = (r, c) ∧ R b c

/-- Outcomes that agree still do so when their result is told in another way. -/
theorem Agree.map {α α' β γ : Type} {R : β → γ → Prop} {x : α × β} {y : α × γ} (h : Agree R x y)
    (f : α → α') : Agree R (Prod.map f id x) (Prod.map f id y) := by
  obtain ⟨r, b, c, rfl, rfl, hrest⟩ := h
  exact ⟨f r, b, c, rfl, rfl, hrest⟩

section Answers

variable {α β γ : Type} {R : β → γ → Prop} {x : Option (α × β)} {y : Option (α × γ)}

/-- Answers that agree still do so when the same is done to both. -/
theorem Agree.rel_map {α' β' γ' : Type} {S : β' → γ' → Prop} {f : α × β → α' × β'}
    {g : α × γ → α' × γ'} (h : Option.Rel (Agree R) x y) (hmap : ∀ r b c, R b c → Agree S (f (r, b)) (g (r, c))) :
    Option.Rel (Agree S) (x.map f) (y.map g) := by
  cases h with
  | none => exact .none
  | some hagree =>
    obtain ⟨r, b, c, rfl, rfl, hrest⟩ := hagree
    exact .some (hmap r b c hrest)

/-- So do answers whose result is told in another way. -/
theorem Agree.rel_map_result {α' : Type} (h : Option.Rel (Agree R) x y) (f : α → α') :
    Option.Rel (Agree R) (x.map (Prod.map f id)) (y.map (Prod.map f id)) :=
  Agree.rel_map h fun r b c hrest => ⟨f r, b, c, rfl, rfl, hrest⟩

/-- What cannot tell related parts from each other cannot tell such answers from each other. -/
theorem Agree.map_eq {δ : Type} {f : α × β → δ} {g : α × γ → δ} (h : Option.Rel (Agree R) x y)
    (hmap : ∀ r b c, R b c → f (r, b) = g (r, c)) : x.map f = y.map g := by
  cases h with
  | none => rfl
  | some hagree =>
    obtain ⟨r, b, c, rfl, rfl, hrest⟩ := hagree
    exact congrArg some (hmap r b c hrest)

end Answers

namespace Bench

/-- What a run comes to whose steps have come so far: under a limit it is given up if it has not
ended, and without one nothing is known of it then. -/
def settle {κ : Type} [Console κ] (limit : Option Nat) :
    Progress × Bench κ → Option (Except Failure Nat × Bench κ)
  | (.running, b) => limit.map fun n => (.error (.stepLimitExceeded n), b)
  | (.halted steps, b) => some (b.finish steps)
  | (.failed e, b) => some (.error e, b)

/-- A run is decided by its steps, as many as the limit or the patience of the observer allows. -/
theorem run_eq_settle {κ : Type} [Console κ] (b : Bench κ) (patience : Nat) (limit : Option Nat) :
    b.run patience limit = settle limit (b.advance 0 (limit.getD patience)) := by
  cases limit with
  | some n =>
    rw [run, runWithin, Option.getD_some]
    rcases b.advance 0 n with ⟨_ | _ | _, c⟩ <;> rfl
  | none =>
    rw [run, runObserved, Option.getD_none]
    rcases b.advance 0 patience with ⟨_ | _ | _, c⟩ <;> rfl

variable {κ₁ κ₂ : Type} [Console κ₁] [Console κ₂]

/-! ### Runs with the same results of steps -/

section Results

variable {b₁ : Bench κ₁} {b₂ : Bench κ₂}

/-- If the steps that a run begins have the same results on two benches, it begins as many on both and
comes equally far. -/
theorem advance_of_results {n : Nat}
    (h : ∀ j < b₁.begun n, (b₁.after j).step.1 = (b₂.after j).step.1) (taken : Nat) :
    b₁.begun n = b₂.begun n ∧ ∃ p, b₁.advance taken n = (p, b₁.after (b₁.begun n)) ∧
      b₂.advance taken n = (p, b₂.after (b₁.begun n)) := by
  induction n generalizing b₁ b₂ taken with
  | zero => exact ⟨rfl, .running, rfl, rfl⟩
  | succ n ih =>
    have hpos : 0 < b₁.begun (n + 1) := by
      rw [begun]
      split <;> exact Nat.succ_pos _
    have hfirst : b₁.step.1 = b₂.step.1 := h 0 hpos
    rcases hstep₁ : b₁.step with ⟨r, c₁⟩
    rcases hstep₂ : b₂.step with ⟨r₂, c₂⟩
    obtain rfl : r = r₂ := by
      rw [hstep₁, hstep₂] at hfirst
      exact hfirst
    rw [begun, begun, advance, advance, hstep₁, hstep₂]
    rcases r with e | _ | _
    · refine ⟨rfl, .failed e, ?_, ?_⟩
      · rw [after, after, hstep₁]
      · rw [after, after, hstep₂]
    · -- the later steps are those of the benches that the first one leaves behind
      have hrest : ∀ j < c₁.begun n, (c₁.after j).step.1 = (c₂.after j).step.1 := by
        intro j hj
        have hlater := h (j + 1) (by
          rw [begun, hstep₁]
          exact Nat.succ_lt_succ hj)
        rw [after_succ, after_succ, hstep₁, hstep₂] at hlater
        exact hlater
      obtain ⟨hbegun, p, hadvance₁, hadvance₂⟩ := ih hrest (taken + 1)
      refine ⟨congrArg (· + 1) hbegun, p, ?_, ?_⟩
      · rw [after_succ, hstep₁]
        exact hadvance₁
      · rw [after_succ, hstep₂]
        exact hadvance₂
    · refine ⟨rfl, .halted (taken + 1), ?_, ?_⟩
      · rw [after, after, hstep₁]
      · rw [after, after, hstep₂]

/-- Then the run has the same result on both, provided that the benches to which its steps lead are
related, and that the end of a run that has halted keeps them so. -/
theorem run_of_results {R : Bench κ₁ → Bench κ₂ → Prop} {patience : Nat} {limit : Option Nat}
    (h : ∀ j < b₁.begun (limit.getD patience), (b₁.after j).step.1 = (b₂.after j).step.1)
    (hend : R (b₁.after (b₁.begun (limit.getD patience)))
      (b₂.after (b₁.begun (limit.getD patience))))
    (hfinish : ∀ {c₁ c₂} (steps : Nat), R c₁ c₂ → Agree R (c₁.finish steps) (c₂.finish steps)) :
    Option.Rel (Agree R) (b₁.run patience limit) (b₂.run patience limit) := by
  obtain ⟨-, p, hadvance₁, hadvance₂⟩ := advance_of_results h 0
  rw [run_eq_settle, run_eq_settle, hadvance₁, hadvance₂]
  cases p with
  | running =>
    cases limit with
    | none => exact .none
    | some n => exact .some ⟨_, _, _, rfl, rfl, hend⟩
  | halted steps => exact .some (hfinish steps hend)
  | failed e => exact .some ⟨_, _, _, rfl, rfl, hend⟩

/-- The end of a run keeps machines as they are, and does the same to equal consoles. -/
theorem finish_of_console_eq {κ : Type} [Console κ] {R : Bench κ → Bench κ → Prop} {c₁ c₂ : Bench κ}
    (hconsole : c₁.console = c₂.console)
    (hR : ∀ k log₁ log₂, R ⟨c₁.machine, k, log₁⟩ ⟨c₂.machine, k, log₂⟩) (steps : Nat) :
    Agree R (c₁.finish steps) (c₂.finish steps) := by
  rw [finish, finish, hconsole]
  rcases Console.flush c₂.console with ⟨e | _, k⟩
  · exact ⟨_, _, _, rfl, rfl, hR k _ _⟩
  · exact ⟨_, _, _, rfl, rfl, hR k _ _⟩

end Results

/-! ### Simulations -/

/-- Steps and the ends of runs have the same results on related benches, and keep them related. -/
structure Simulation (R : Bench κ₁ → Bench κ₂ → Prop) : Prop where
  step : ∀ {b₁ b₂}, R b₁ b₂ → Agree R b₁.step b₂.step
  finish : ∀ {b₁ b₂} (steps : Nat), R b₁ b₂ → Agree R (b₁.finish steps) (b₂.finish steps)

namespace Simulation

variable {R : Bench κ₁ → Bench κ₂ → Prop} {b₁ : Bench κ₁} {b₂ : Bench κ₂}

/-- Benches are related at every point. -/
theorem after (sim : Simulation R) (h : R b₁ b₂) (n : Nat) : R (b₁.after n) (b₂.after n) := by
  induction n with
  | zero => exact h
  | succ n ih =>
    obtain ⟨r, c₁, c₂, hstep₁, hstep₂, hrest⟩ := sim.step ih
    rw [Bench.after, Bench.after, hstep₁, hstep₂]
    exact hrest

/-- Every step has the same result. -/
theorem result (sim : Simulation R) (h : R b₁ b₂) (n : Nat) :
    (b₁.after n).step.1 = (b₂.after n).step.1 := by
  obtain ⟨r, c₁, c₂, hstep₁, hstep₂, -⟩ := sim.step (sim.after h n)
  rw [hstep₁, hstep₂]

/-- As many steps are begun. -/
theorem begun (sim : Simulation R) (h : R b₁ b₂) (n : Nat) : b₁.begun n = b₂.begun n :=
  (advance_of_results (fun j _ => sim.result h j) 0).1

/-- A whole run comes to the same, with or without a limit; if there is no answer for one of the
benches within the patience of the observer, there is none for the other. -/
theorem run (sim : Simulation R) (h : R b₁ b₂) (patience : Nat) (limit : Option Nat) :
    Option.Rel (Agree R) (b₁.run patience limit) (b₂.run patience limit) :=
  run_of_results (fun j _ => sim.result h j) (sim.after h _) sim.finish

end Simulation

end Bench

/-! ### Simulations and loading -/

namespace Bench.Simulation

variable {κ₁ κ₂ : Type} [FiniteConsole κ₁] [FiniteConsole κ₂] {R : Bench κ₁ → Bench κ₂ → Prop}
  {b₁ : Bench κ₁} {b₂ : Bench κ₂} {s₁ s₂ : Settings}

/-- A run under settings with the same limit comes to the same, if the note on a run that failed makes no
difference. -/
theorem runUnder (sim : Simulation R)
    (hnote : ∀ {c₁ c₂} r, R c₁ c₂ → Agree R (noteAbort (r, c₁)) (noteAbort (r, c₂))) (h : R b₁ b₂)
    (hlimit : s₁.stepLimit = s₂.stepLimit) (patience : Nat) :
    Option.Rel (Agree R) (b₁.runUnder patience s₁) (b₂.runUnder patience s₂) := by
  rw [Bench.runUnder, Bench.runUnder, hlimit]
  exact Agree.rel_map (sim.run h patience s₂.stepLimit) fun r _ _ hend => hnote r hend

/-- So does loading a program and running it, if loading does. -/
theorem loadAndRun (sim : Simulation R)
    (hnote : ∀ {c₁ c₂} r, R c₁ c₂ → Agree R (noteAbort (r, c₁)) (noteAbort (r, c₂)))
    (hload : Agree R b₁.load b₂.load) (hlimit : s₁.stepLimit = s₂.stepLimit) (patience : Nat) :
    Option.Rel (Agree R) (b₁.loadAndRun patience s₁) (b₂.loadAndRun patience s₂) := by
  rw [Bench.loadAndRun, Bench.loadAndRun]
  obtain ⟨r, c₁, c₂, hload₁, hload₂, hrest⟩ := hload
  rw [hload₁, hload₂]
  cases r with
  | error e => exact .some ⟨_, _, _, rfl, rfl, hrest⟩
  | ok words => exact sim.runUnder hnote hrest hlimit patience

end Bench.Simulation

end WordMachine
