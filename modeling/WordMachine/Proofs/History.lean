import WordMachine.Bench.Loading
import WordMachine.Proofs.Fetch

/-!
# What has been done with a machine

A machine that was switched on may be stepped, run, loaded, written to and reset, in any order, at
benches with any consoles, and each of these may fail.  `Reached s h m` says that the machine `m` can
come of this; the settings `s` are those with which it was switched on, and the `History` `h` keeps
what the counters should tell: the fetches since then, or since the last reset, and the length of the
last program loaded.

Whatever is done, few things happen to the machine itself, and `Kept P` says that a property `P` of
histories and machines is kept by each of them.  It is then kept by steps, runs and loads, and
`Reached.of_kept` is the induction by which it holds of every machine that can be reached.
-/

namespace WordMachine

/-- What has been done with a machine since it was switched on or reset. -/
structure History where
  /-- The fetches, in order. -/
  fetches : List Fetch := []
  /-- The length of the last program that was loaded. -/
  loaded : Nat := 0
deriving DecidableEq, Repr

namespace History

/-- The history with more fetches. -/
def fetched (h : History) (fs : List Fetch) : History :=
  { h with fetches := h.fetches ++ fs }

/-- The history after loading came to a result.  Only a program that was loaded counts. -/
def afterLoad (h : History) : Except Failure Nat → History
  | .ok words => { h with loaded := words }
  | .error _ => h

@[simp] theorem fetched_nil (h : History) : h.fetched [] = h := by
  simp [fetched]

@[simp] theorem fetched_fetched (h : History) (fs gs : List Fetch) :
    (h.fetched fs).fetched gs = h.fetched (fs ++ gs) := by
  simp [fetched]

end History

/-! ### Loading -/

namespace Bench

section Loading

variable {κ : Type} (b : Bench κ)

/-- An image replaces the memory by one of the same size, or nothing happens. -/
theorem machine_loadImage (image : List Word) :
    (b.loadImage image).2.machine = b.machine ∨
      ∃ memory : Memory, memory.capacity = b.machine.memory.capacity ∧
        (b.loadImage image).2.machine = { b.machine with memory } := by
  rw [loadImage]
  cases hload : b.machine.memory.loadImage image with
  | error e => exact .inl rfl
  | ok memory => exact .inr ⟨memory, Memory.capacity_loadImage hload, rfl⟩

/-- Reading a program has nothing to do with the machine. -/
theorem machine_noteRead (read : Except Failure (List Word) × κ) :
    (b.noteRead read).2.machine = b.machine := by
  rcases read with ⟨_ | _, _⟩ <;> rfl

/-- Once a program has been read, loading fails and leaves the machine alone, or it replaces the memory by
one of the same size and enters the length of the program into the tally. -/
theorem machine_finishLoad (read : Except Failure (List Word) × κ) :
    (∃ e, (b.finishLoad read).1 = .error e ∧ (b.finishLoad read).2.machine = b.machine) ∨
      ∃ words, ∃ memory : Memory, (b.finishLoad read).1 = .ok words ∧
        memory.capacity = b.machine.memory.capacity ∧
        (b.finishLoad read).2.machine =
          { b.machine with memory, tally := { b.machine.tally with wordsLoaded := words } } := by
  have hmachine := b.machine_noteRead read
  rw [finishLoad]
  rcases hnote : b.noteRead read with ⟨e | words, c⟩ <;> rw [hnote] at hmachine
  · exact .inl ⟨e, rfl, hmachine⟩
  · rw [← hmachine, storeRead, loadImage]
    cases hload : c.machine.memory.loadImage words with
    | error e => exact .inl ⟨e, rfl, rfl⟩
    | ok memory =>
      exact .inr ⟨words.length, memory, rfl, Memory.capacity_loadImage hload, rfl⟩

theorem machine_load [FiniteConsole κ] :
    (∃ e, b.load.1 = .error e ∧ b.load.2.machine = b.machine) ∨
      ∃ words, ∃ memory : Memory, b.load.1 = .ok words ∧
        memory.capacity = b.machine.memory.capacity ∧
        b.load.2.machine =
          { b.machine with memory, tally := { b.machine.tally with wordsLoaded := words } } :=
  b.machine_finishLoad (Program.read b.console)

end Loading

/-! ### Runs -/

/-- The fetches of a run, which an observer watches for `patience` steps if it has no limit. -/
def runFetches {κ : Type} [Console κ] (b : Bench κ) (patience : Nat) (limit : Option Nat) :
    List Fetch :=
  b.fetches (b.begun (limit.getD patience))

variable {κ : Type} [FiniteConsole κ] {b b' : Bench κ}

/-- The fetches of loading a program and running it. -/
def loadAndRunFetches (b : Bench κ) (patience : Nat) (s : Settings) : List Fetch :=
  match b.load with
  | (.error _, _) => []
  | (.ok _, b') => b'.runFetches patience s.stepLimit

/-- Loading a program and running it is a load, and if that succeeds a run after it. -/
theorem loadAndRun_cases {patience : Nat} {s : Settings} {r : Except Failure Nat}
    (h : b.loadAndRun patience s = some (r, b')) :
    (b'.machine = b.load.2.machine ∧ b.loadAndRunFetches patience s = []) ∨
      ∃ b₀, b.load.2.run patience s.stepLimit = some (r, b₀) ∧ b'.machine = b₀.machine ∧
        b.loadAndRunFetches patience s = b.load.2.runFetches patience s.stepLimit := by
  rw [loadAndRun] at h
  rw [loadAndRunFetches]
  rcases hload : b.load with ⟨e | words, c⟩
  · rw [hload] at h
    cases h
    exact .inl ⟨rfl, rfl⟩
  · rw [hload] at h
    obtain ⟨b₀, hrun, hmachine, -⟩ := runUnder_eq_some h
    exact .inr ⟨b₀, hrun, hmachine, rfl⟩

end Bench

/-! ### Machines that can be reached -/

/-- `Reached s h m`: the machine `m` comes of one that was switched on with the settings `s`, and `h`
is what has been done with it. -/
inductive Reached (s : Settings) : History → Machine → Prop where
  | powerOn : Reached s {} (.powerOn s)
  | reset {h m} (before : Reached s h m) : Reached s {} m.reset
  /-- A word of memory is replaced. -/
  | write {h m index w memory} (before : Reached s h m)
      (written : m.memory.write index w = .ok memory) : Reached s h { m with memory }
  /-- An image is loaded, or is too large. -/
  | image {κ : Type} {h} {b : Bench κ} (image : List Word) (before : Reached s h b.machine) :
      Reached s h (b.loadImage image).2.machine
  /-- A program is loaded, or loading fails. -/
  | load {κ : Type} [Console κ] {h patience r} {b b' : Bench κ} (before : Reached s h b.machine)
      (loaded : b.loadWithin patience = some (r, b')) : Reached s (h.afterLoad r) b'.machine
  /-- A step, whatever it comes to. -/
  | step {κ : Type} [Console κ] {h} {b : Bench κ} (before : Reached s h b.machine) :
      Reached s (h.fetched b.machine.nextFetch?.toList) b.step.2.machine
  /-- A run, whatever it comes to. -/
  | run {κ : Type} [Console κ] {h patience limit r} {b b' : Bench κ}
      (before : Reached s h b.machine) (ran : b.run patience limit = some (r, b')) :
      Reached s (h.fetched (b.runFetches patience limit)) b'.machine
  /-- A program is loaded and run under some settings, whatever this comes to.  At a console whose
  input need not end, this is a load and a run after it. -/
  | loadAndRun {κ : Type} [FiniteConsole κ] {h patience t r} {b b' : Bench κ}
      (before : Reached s h b.machine) (ran : b.loadAndRun patience t = some (r, b')) :
      Reached s ((h.afterLoad b.load.1).fetched (b.loadAndRunFetches patience t)) b'.machine

/-! ### What holds of all of them -/

/-- `Kept P`: whatever happens to a machine with the property `P` leaves one with that property. -/
structure Kept (P : History → Machine → Prop) : Prop where
  reset : ∀ {h m}, P h m → P {} m.reset
  /-- The words of memory are replaced. -/
  memory : ∀ {h m} {memory : Memory}, P h m → memory.capacity = m.memory.capacity →
    P h { m with memory }
  /-- The length of a program is entered into the tally. -/
  loaded : ∀ {h m} (words : Nat), P h m →
    P { h with loaded := words } { m with tally := { m.tally with wordsLoaded := words } }
  /-- A step begins with a fetch. -/
  attempt : ∀ {h m f m'}, P h m → m.nextFetch? = some f → m.Attempts f m' → P (h.fetched [f]) m'

namespace Kept

variable {P : History → Machine → Prop} {h : History}

section Running

variable {κ : Type} [Console κ] {b b' : Bench κ}

theorem after (kept : Kept P) (hb : P h b.machine) (n : Nat) :
    P (h.fetched (b.fetches n)) (b.after n).machine := by
  have hstart : P (h.fetched []) b.machine := by
    rw [History.fetched_nil]
    exact hb
  refine Bench.fetches_induct (P := fun fs m => P (h.fetched fs) m) hstart ?_ n
  intro fs m f m' hm hfetch hattempts
  rw [← History.fetched_fetched]
  exact kept.attempt hm hfetch hattempts

theorem step (kept : Kept P) (hb : P h b.machine) :
    P (h.fetched b.machine.nextFetch?.toList) b.step.2.machine := by
  rw [← Bench.fetches_one]
  exact kept.after hb 1

theorem run {patience : Nat} {limit : Option Nat} {r : Except Failure Nat} (kept : Kept P)
    (hb : P h b.machine) (ran : b.run patience limit = some (r, b')) :
    P (h.fetched (b.runFetches patience limit)) b'.machine := by
  rw [Bench.machine_eq_of_run ran]
  exact kept.after hb _

end Running

theorem image {κ : Type} {b : Bench κ} (kept : Kept P) (hb : P h b.machine) (image : List Word) :
    P h (b.loadImage image).2.machine := by
  rcases b.machine_loadImage image with hmachine | ⟨memory, hcapacity, hmachine⟩
  · rw [hmachine]
    exact hb
  · rw [hmachine]
    exact kept.memory hb hcapacity

theorem loadWithin {κ : Type} [Console κ] {b b' : Bench κ} {patience : Nat}
    {r : Except Failure Nat} (kept : Kept P) (hb : P h b.machine)
    (loaded : b.loadWithin patience = some (r, b')) : P (h.afterLoad r) b'.machine := by
  obtain ⟨read, -, hfinish⟩ := Option.map_eq_some_iff.mp loaded
  have hcases := b.machine_finishLoad read
  rw [hfinish] at hcases
  rcases hcases with ⟨e, rfl, hmachine⟩ | ⟨words, memory, rfl, hcapacity, hmachine⟩
  · rw [hmachine]
    exact hb
  · rw [hmachine]
    exact kept.loaded words (kept.memory hb hcapacity)

variable {κ : Type} [FiniteConsole κ] {b b' : Bench κ}

theorem load (kept : Kept P) (hb : P h b.machine) :
    P (h.afterLoad b.load.1) b.load.2.machine :=
  kept.loadWithin hb b.loadWithin_remaining

theorem loadAndRun {patience : Nat} {t : Settings} {r : Except Failure Nat} (kept : Kept P)
    (hb : P h b.machine) (ran : b.loadAndRun patience t = some (r, b')) :
    P ((h.afterLoad b.load.1).fetched (b.loadAndRunFetches patience t)) b'.machine := by
  rcases Bench.loadAndRun_cases ran with ⟨hmachine, hnone⟩ | ⟨b₀, ran₀, hmachine, hfetches⟩
  · rw [hmachine, hnone, History.fetched_nil]
    exact kept.load hb
  · rw [hmachine, hfetches]
    exact kept.run (kept.load hb) ran₀

end Kept

/-- A property that is kept, and that a machine has when it is switched on, holds of every machine that
can be reached. -/
theorem Reached.of_kept {s : Settings} {P : History → Machine → Prop} {h : History} {m : Machine}
    (hreached : Reached s h m) (kept : Kept P) (powerOn : P {} (.powerOn s)) : P h m := by
  induction hreached with
  | powerOn => exact powerOn
  | reset _ ih => exact kept.reset ih
  | write _ written ih => exact kept.memory ih (Memory.capacity_write written)
  | image image _ ih => exact kept.image ih image
  | load _ loaded ih => exact kept.loadWithin ih loaded
  | step _ ih => exact kept.step ih
  | run _ ran ih => exact kept.run ih ran
  | loadAndRun _ ran ih => exact kept.loadAndRun ih ran

end WordMachine
