import WordMachine.Proofs.Intake
import WordMachine.Proofs.Simulation

/-!
# Runs on different consoles

A machine knows its console by the answers to its calls.  So if two consoles answer alike as long as
nothing happens that sets them apart, then everything that is loaded and run on the one goes on the
same way on the other, until that happens.

`Console.Mirrors R Lost` says that calls on consoles related by `R` have the same results and keep them
related, or have led the first console into a state with `Lost`, which it never leaves again.  Of a
token only the word that it spells has to be the same, for the machine sees no more of it.  From this
`Bench.Over`, the relation of benches that differ in such consoles only, is carried through
instructions, steps, runs and loads, up to `Console.Mirrors.loadAndRun`.
-/

namespace WordMachine

namespace Console

/-! ### Calls -/

/-- Asks for the next token, and looks only at the word that it spells. -/
def readWord {κ : Type} [Console κ] (k : κ) : Except Failure (Option Word) × κ :=
  ((readToken k).1.map (Option.map Word.ofToken), (readToken k).2)

/-- Every call on a console with the property `P` leaves one with that property. -/
structure Stable {κ : Type} [Console κ] (P : κ → Prop) : Prop where
  readToken : ∀ {k}, P k → P (Console.readToken k).2
  writeValue : ∀ {k} (w : Word), P k → P (Console.writeValue k w).2
  flush : ∀ {k}, P k → P (Console.flush k).2

/-- Calls on related consoles have the same results and leave related consoles, unless the first has got
lost by a call for a token. -/
structure Mirrors {κ₁ κ₂ : Type} [Console κ₁] [Console κ₂] (R : κ₁ → κ₂ → Prop)
    (Lost : κ₁ → Prop) : Prop where
  readWord : ∀ {k₁ k₂}, R k₁ k₂ →
    Lost (Console.readToken k₁).2 ∨ Agree R (Console.readWord k₁) (Console.readWord k₂)
  writeValue : ∀ {k₁ k₂} (w : Word), R k₁ k₂ →
    Agree R (Console.writeValue k₁ w) (Console.writeValue k₂ w)
  flush : ∀ {k₁ k₂}, R k₁ k₂ → Agree R (Console.flush k₁) (Console.flush k₂)
  /-- What is lost stays lost. -/
  lost : Stable Lost

end Console

/-- READ stores the operand field of the word that its token spells. -/
theorem Machine.executeRead_eq {κ : Type} [Console κ] (m : Machine) (k : κ) (a : WordIndex) :
    m.executeRead k a =
      match Console.readWord k with
      | (.error e, k') => (.error e, k')
      | (.ok none, k') => (.error (.inputExhausted m.pc), k')
      | (.ok (some w), k') => (m.storeWord a w.operandField, k') := by
  rw [executeRead, Console.readWord]
  rcases Console.readToken k with ⟨_ | _ | token, k'⟩ <;> rfl

namespace Program

variable {κ : Type} [Console κ]

/-- Reading a program goes by the words. -/
theorem readWithin_succ (before : Array Word) (patience : Nat) (k : κ) :
    readWithin before (patience + 1) k =
      match Console.readWord k with
      | (.error e, k') => some (.error e, k')
      | (.ok none, k') => some (.ok before.toList, k')
      | (.ok (some w), k') =>
        if w = sentinel then some (.ok (before.push w).toList, k')
        else readWithin (before.push w) patience k' := by
  rw [readWithin, Console.readWord]
  rcases Console.readToken k with ⟨_ | _ | token, k'⟩ <;> rfl

/-- What every call for a token keeps holds when a program has been read, if it holds after the first
call. -/
theorem readWithin_kept {P : κ → Prop} (readToken : ∀ {k}, P k → P (Console.readToken k).2)
    {before : Array Word} {patience : Nat} {k : κ} {x : Except Failure (List Word) × κ}
    (h : P (Console.readToken k).2) (hread : readWithin before patience k = some x) : P x.2 := by
  fun_induction readWithin before patience k with
  | case1 before k => cases hread
  | case2 before patience k e k' hcall | case3 before patience k k' hcall =>
    cases hread
    rw [hcall] at h
    exact h
  | case4 before patience k token k' hcall w hzero =>
    cases hread
    rw [hcall] at h
    exact h
  | case5 before patience k token k' hcall w hword ih =>
    rw [hcall] at h
    exact ih (readToken h) hread

theorem readAfter_kept {κ : Type} [FiniteConsole κ] {P : κ → Prop}
    (readToken : ∀ {k}, P k → P (Console.readToken k).2) {k : κ} (h : P k) (before : Array Word) :
    P (readAfter before k).2 :=
  readWithin_kept readToken (readToken h) (readWithin_remaining before k)

end Program

namespace Bench

variable {κ : Type}

/-- Loading leaves the console with which the program was read. -/
theorem console_finishLoad (b : Bench κ) (read : Except Failure (List Word) × κ) :
    (b.finishLoad read).2.console = read.2 := by
  rcases read with ⟨e | words, k⟩
  · rfl
  · rw [finishLoad, noteRead, storeRead, loadImage]
    cases (Bench.note { b with console := k } (Program.readEvent words)).machine.memory.loadImage
      words <;> rfl

theorem console_load [FiniteConsole κ] (b : Bench κ) :
    b.load.2.console = (Program.read b.console).2 :=
  b.console_finishLoad _

end Bench

/-! ### What every call keeps -/

namespace Console.Stable

section Running

variable {κ : Type} [Console κ] {P : κ → Prop} {b c : Bench κ}

/-- What never holds is kept.  A console that cannot get lost is one of these. -/
theorem never : Stable fun _ : κ => False where
  readToken := False.elim
  writeValue _ := False.elim
  flush := False.elim

theorem execute (stable : Stable P) {k : κ} (h : P k) (m : Machine) (i : Instruction) :
    P (m.execute k i).2 := by
  by_cases hread : ∃ a, i = .read a
  · obtain ⟨a, rfl⟩ := hread
    rw [Machine.execute_read_console]
    exact stable.readToken h
  · rcases m.execute_console_of_ne_read k (not_exists.mp hread) with heq | ⟨w, heq⟩
    · rw [heq]
      exact h
    · rw [heq]
      exact stable.writeValue w h

theorem step (stable : Stable P) (h : P b.console) : P b.step.2.console := by
  cases hi : b.instruction? with
  | none =>
    rw [Bench.step_of_no_instruction hi]
    exact h
  | some i =>
    obtain ⟨w, -, -, hconsole⟩ := Bench.step_console_of_instruction hi
    rw [hconsole]
    exact stable.execute h _ i

theorem after (stable : Stable P) (h : P b.console) (n : Nat) : P (b.after n).console := by
  induction n with
  | zero => exact h
  | succ n ih => exact stable.step ih

theorem advance (stable : Stable P) (h : P b.console) (taken n : Nat) :
    P (b.advance taken n).2.console := by
  induction n generalizing b taken with
  | zero => exact h
  | succ n ih =>
    have hstep := stable.step h
    rw [Bench.advance]
    rcases hb : b.step with ⟨_ | _ | _, c⟩ <;> rw [hb] at hstep
    · exact hstep
    · exact ih hstep (taken + 1)
    · exact hstep

/-- What holds when the steps of a run are taken holds when the console has been flushed. -/
theorem settle (stable : Stable P) {limit : Option Nat} {r : Except Failure Nat}
    {x : Bench.Progress × Bench κ} (hrun : Bench.settle limit x = some (r, c))
    (h : P x.2.console) : P c.console := by
  obtain ⟨p, d⟩ := x
  cases p with
  | halted steps =>
    have hflush := stable.flush h
    have hfinish := Option.some.inj hrun
    rw [Bench.finish] at hfinish
    rcases hcall : Console.flush d.console with ⟨_ | _, k⟩ <;> rw [hcall] at hfinish hflush <;>
      cases hfinish <;> exact hflush
  | running =>
    cases limit <;> cases hrun
    exact h
  | failed e =>
    cases hrun
    exact h

theorem run (stable : Stable P) {patience : Nat} {limit : Option Nat} {r : Except Failure Nat}
    (hrun : b.run patience limit = some (r, c)) (h : P b.console) : P c.console := by
  rw [Bench.run_eq_settle] at hrun
  exact stable.settle hrun (stable.advance h 0 _)

end Running

variable {κ : Type} [FiniteConsole κ] {P : κ → Prop} {b c : Bench κ}

theorem readAfter (stable : Stable P) {k : κ} (h : P k) (before : Array Word) :
    P (Program.readAfter before k).2 :=
  Program.readAfter_kept (fun h => stable.readToken h) h before

theorem load (stable : Stable P) (h : P b.console) : P b.load.2.console := by
  rw [Bench.console_load]
  exact stable.readAfter h #[]

end Console.Stable

/-! ### Benches that differ in their consoles -/

/-- The benches differ in their consoles only, and these are related. -/
structure Bench.Over {κ₁ κ₂ : Type} (R : κ₁ → κ₂ → Prop) (b₁ : Bench κ₁) (b₂ : Bench κ₂) :
    Prop where
  machine : b₁.machine = b₂.machine
  log : b₁.log = b₂.log
  console : R b₁.console b₂.console

/-- What has been read alike is stored alike. -/
theorem Bench.Over.finishLoad {κ₁ κ₂ : Type} {R : κ₁ → κ₂ → Prop} {b₁ : Bench κ₁} {b₂ : Bench κ₂}
    {k₁ : κ₁} {k₂ : κ₂} (h : b₁.Over R b₂) (r : Except Failure (List Word)) (hrest : R k₁ k₂) :
    Agree (Bench.Over R) (b₁.finishLoad (r, k₁)) (b₂.finishLoad (r, k₂)) := by
  obtain ⟨m, _, log⟩ := b₁
  obtain ⟨_, _, _⟩ := b₂
  obtain ⟨rfl, rfl, -⟩ := h
  cases r with
  | error e => exact ⟨_, _, _, rfl, rfl, rfl, rfl, hrest⟩
  | ok words =>
    simp only [Bench.finishLoad, noteRead, storeRead, loadImage, note]
    cases m.memory.loadImage words <;> exact ⟨_, _, _, rfl, rfl, rfl, rfl, hrest⟩

namespace Console.Mirrors

section Running

variable {κ₁ κ₂ : Type} [Console κ₁] [Console κ₂] {R : κ₁ → κ₂ → Prop} {Lost : κ₁ → Prop}
  {b₁ : Bench κ₁} {b₂ : Bench κ₂}

/-- An instruction has the same result on both consoles. -/
theorem execute (mirrors : Mirrors R Lost) {k₁ : κ₁} {k₂ : κ₂} (h : R k₁ k₂) (m : Machine)
    (i : Instruction) :
    Lost (m.execute k₁ i).2 ∨ Agree R (m.execute k₁ i) (m.execute k₂ i) := by
  cases i with
  | read a =>
    rw [Machine.execute, Machine.execute]
    rcases mirrors.readWord h with hlost | ⟨r, k₁', k₂', hread₁, hread₂, hrest⟩
    · left
      rw [Machine.executeRead]
      rcases hread : Console.readToken k₁ with ⟨_ | _ | token, k₁'⟩ <;> rw [hread] at hlost <;>
        exact hlost
    · right
      rw [Machine.executeRead_eq, Machine.executeRead_eq, hread₁, hread₂]
      rcases r with e | _ | w <;> exact ⟨_, _, _, rfl, rfl, hrest⟩
  | write a =>
    right
    rw [Machine.execute, Machine.execute, Machine.executeWrite, Machine.executeWrite]
    cases m.memory.read a with
    | error e => exact ⟨_, _, _, rfl, rfl, h⟩
    | ok w =>
      obtain ⟨r, k₁', k₂', hwrite₁, hwrite₂, hrest⟩ := mirrors.writeValue w h
      simp only [hwrite₁, hwrite₂]
      cases r <;> exact ⟨_, _, _, rfl, rfl, hrest⟩
  | _ => exact .inr ⟨_, _, _, rfl, rfl, h⟩

/-- So has a step. -/
theorem step (mirrors : Mirrors R Lost) (h : b₁.Over R b₂) :
    Lost b₁.step.2.console ∨ Agree (Bench.Over R) b₁.step b₂.step := by
  obtain ⟨m, k₁, log⟩ := b₁
  obtain ⟨m', k₂, log'⟩ := b₂
  obtain ⟨rfl, rfl, hconsole⟩ := h
  rw [Bench.step, Bench.step]
  cases m.memory.read m.pc with
  | error e => exact .inr ⟨_, _, _, rfl, rfl, rfl, rfl, hconsole⟩
  | ok w =>
    rcases mirrors.execute hconsole (m.fetch w) w.decode with
      hlost | ⟨r, k₁', k₂', hexec₁, hexec₂, hrest⟩
    · left
      rcases hexec : (m.fetch w).execute k₁ w.decode with ⟨_ | _, k₁'⟩ <;> rw [hexec] at hlost <;>
        simp only [hexec] <;> exact hlost
    · right
      simp only [hexec₁, hexec₂]
      cases r <;> exact ⟨_, _, _, rfl, rfl, rfl, rfl, hrest⟩

/-- So have any number of steps. -/
theorem advance (mirrors : Mirrors R Lost) (h : b₁.Over R b₂) (taken n : Nat) :
    Lost (b₁.advance taken n).2.console ∨
      Agree (Bench.Over R) (b₁.advance taken n) (b₂.advance taken n) := by
  induction n generalizing b₁ b₂ taken with
  | zero => exact .inr ⟨_, _, _, rfl, rfl, h⟩
  | succ n ih =>
    rcases mirrors.step h with hlost | ⟨r, c₁, c₂, hstep₁, hstep₂, hrest⟩
    · -- the steps that follow may go any way, but they leave it lost
      left
      rw [Bench.advance]
      rcases hstep : b₁.step with ⟨_ | _ | _, c₁⟩ <;> rw [hstep] at hlost
      · exact hlost
      · exact mirrors.lost.advance hlost (taken + 1) n
      · exact hlost
    · rw [Bench.advance, Bench.advance, hstep₁, hstep₂]
      rcases r with e | _ | _
      · exact .inr ⟨_, _, _, rfl, rfl, hrest⟩
      · exact ih hrest (taken + 1)
      · exact .inr ⟨_, _, _, rfl, rfl, hrest⟩

theorem finish (mirrors : Mirrors R Lost) (h : b₁.Over R b₂) (steps : Nat) :
    Agree (Bench.Over R) (b₁.finish steps) (b₂.finish steps) := by
  obtain ⟨m, k₁, log⟩ := b₁
  obtain ⟨m', k₂, log'⟩ := b₂
  obtain ⟨rfl, rfl, hconsole⟩ := h
  obtain ⟨r, k₁', k₂', hflush₁, hflush₂, hrest⟩ := mirrors.flush hconsole
  rw [Bench.finish, Bench.finish, hflush₁, hflush₂]
  cases r <;> exact ⟨_, _, _, rfl, rfl, rfl, rfl, hrest⟩

/-- What a run comes to on the first console it comes to on the second, if the first has not got
lost. -/
theorem run (mirrors : Mirrors R Lost) (h : b₁.Over R b₂) {patience : Nat} {limit : Option Nat}
    {r : Except Failure Nat} {c₁ : Bench κ₁} (hrun : b₁.run patience limit = some (r, c₁)) :
    Lost c₁.console ∨ ∃ c₂, b₂.run patience limit = some (r, c₂) ∧ c₁.Over R c₂ := by
  rw [Bench.run_eq_settle] at hrun ⊢
  rcases mirrors.advance h 0 (limit.getD patience) with
    hlost | ⟨p, d₁, d₂, hadvance₁, hadvance₂, hrest⟩
  · exact .inl (mirrors.lost.settle hrun hlost)
  · right
    rw [hadvance₁] at hrun
    rw [hadvance₂]
    cases p with
    | running =>
      cases limit <;> cases hrun
      exact ⟨_, rfl, hrest⟩
    | halted steps =>
      obtain ⟨r', _, c₂, hfinish₁, hfinish₂, hend⟩ := mirrors.finish hrest steps
      cases hfinish₁.symm.trans (Option.some.inj hrun)
      exact ⟨c₂, congrArg some hfinish₂, hend⟩
    | failed e =>
      cases hrun
      exact ⟨_, rfl, hrest⟩

/-- The same program is read. -/
theorem readWithin (mirrors : Mirrors R Lost) {k₁ : κ₁} {k₂ : κ₂} {before : Array Word}
    {patience : Nat} {x : Except Failure (List Word) × κ₁} (h : R k₁ k₂)
    (hread : Program.readWithin before patience k₁ = some x) :
    Lost x.2 ∨
      ∃ k₂', Program.readWithin before patience k₂ = some (x.1, k₂') ∧ R x.2 k₂' := by
  induction patience generalizing before k₁ k₂ with
  | zero => cases hread
  | succ patience ih =>
    rcases mirrors.readWord h with hlost | ⟨r, k₁', k₂', hcall₁, hcall₂, hrest⟩
    · exact .inl (Program.readWithin_kept mirrors.lost.readToken hlost hread)
    · rw [Program.readWithin_succ, hcall₁] at hread
      rw [Program.readWithin_succ, hcall₂]
      rcases r with e | _ | w
      · cases hread
        exact .inr ⟨_, rfl, hrest⟩
      · cases hread
        exact .inr ⟨_, rfl, hrest⟩
      · dsimp only at hread ⊢
        by_cases hzero : w = Program.sentinel
        · rw [if_pos hzero] at hread ⊢
          cases hread
          exact .inr ⟨_, rfl, hrest⟩
        · rw [if_neg hzero] at hread ⊢
          exact ih hrest hread

end Running

variable {κ₁ κ₂ : Type} [FiniteConsole κ₁] [FiniteConsole κ₂] {R : κ₁ → κ₂ → Prop}
  {Lost : κ₁ → Prop} {b₁ : Bench κ₁} {b₂ : Bench κ₂}

theorem readAfter (mirrors : Mirrors R Lost) {k₁ : κ₁} {k₂ : κ₂} (h : R k₁ k₂)
    (before : Array Word) :
    Lost (Program.readAfter before k₁).2 ∨
      Agree R (Program.readAfter before k₁) (Program.readAfter before k₂) := by
  refine (mirrors.readWithin h (Program.readWithin_remaining before k₁)).imp_right ?_
  rintro ⟨k₂', hread, hrest⟩
  exact ⟨_, _, _, rfl, Program.readAfter_of_readWithin hread, hrest⟩

/-- Loading has the same result. -/
theorem load (mirrors : Mirrors R Lost) (h : b₁.Over R b₂) :
    Lost b₁.load.2.console ∨ Agree (Bench.Over R) b₁.load b₂.load := by
  rcases mirrors.readAfter h.console #[] with hlost | ⟨r, k₁, k₂, hread₁, hread₂, hrest⟩
  · left
    rw [Bench.console_load]
    exact hlost
  · right
    rw [Bench.load_eq, Bench.load_eq, Program.read, Program.read, hread₁, hread₂]
    exact h.finishLoad r hrest

/-- Whatever loading and running comes to on the first console, it comes to the same on the second,
unless the first has got lost. -/
theorem loadAndRun (mirrors : Mirrors R Lost) (h : b₁.Over R b₂) {patience : Nat} {s : Settings}
    {r : Except Failure Nat} {c₁ : Bench κ₁} (hrun : b₁.loadAndRun patience s = some (r, c₁)) :
    Lost c₁.console ∨ ∃ c₂, b₂.loadAndRun patience s = some (r, c₂) ∧ c₁.Over R c₂ := by
  rw [Bench.loadAndRun] at hrun
  rcases mirrors.load h with hlost | ⟨r', d₁, d₂, hload₁, hload₂, hrest⟩
  · left
    rcases hload : b₁.load with ⟨e | words, d₁⟩ <;> rw [hload] at hrun hlost
    · cases hrun
      exact hlost
    · obtain ⟨c, hrun', -, hconsole⟩ := Bench.runUnder_eq_some hrun
      rw [hconsole]
      exact mirrors.lost.run hrun' hlost
  · rw [hload₁] at hrun
    rw [Bench.loadAndRun, hload₂]
    cases r' with
    | error e =>
      cases hrun
      exact .inr ⟨d₂, rfl, hrest⟩
    | ok words =>
      obtain ⟨⟨r', c₁'⟩, hrun', hnote⟩ := Option.map_eq_some_iff.mp hrun
      rcases mirrors.run hrest hrun' with hlost | ⟨c₂', hrun₂, hover⟩
      · left
        cases r' <;> cases hnote <;> exact hlost
      · right
        obtain ⟨m, k₁, log⟩ := c₁'
        obtain ⟨m', k₂, log'⟩ := c₂'
        obtain ⟨rfl, rfl, hconsole⟩ := hover
        simp only [Bench.runUnder, hrun₂, Option.map_some]
        cases r' <;> cases hnote <;> exact ⟨_, rfl, rfl, rfl, hconsole⟩

end Console.Mirrors

end WordMachine
