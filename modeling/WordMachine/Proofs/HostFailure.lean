import WordMachine.Host.Stream
import WordMachine.Host.TokenQueue
import WordMachine.Proofs.Fetch

/-!
# Failures of the host and of the machine

A step passes on what its console reports, whatever that is.  `Console.Fails k e` says that a call on
the console `k` fails with `e`; for the consoles there are, `e` is then a failure of input or output
(`StreamConsole.eq_io_of_fails`, `TokenQueue.eq_io_of_fails`).  Any other failure of a step is the
machine's own, and `Bench.eq_of_step_eq_error` lists what it can be.  In particular a step never uses
up a limit: only a run does.
-/

namespace WordMachine

/-- A call on the console `k` fails with `e`. -/
inductive Console.Fails {κ : Type} [Console κ] (k : κ) (e : Failure) : Prop where
  | readToken {k' : κ} (failed : Console.readToken k = (.error e, k'))
  | writeValue {w : Word} {k' : κ} (failed : Console.writeValue k w = (.error e, k'))
  | flush {k' : κ} (failed : Console.flush k = (.error e, k'))

/-! ### The consoles there are -/

/-- A sink fails to write for want of room only. -/
theorem Sink.eq_io_of_write {k k' : Sink} {s : String} {e : Failure}
    (h : k.write s = (.error e, k')) : ∃ text, e = .io text := by
  rw [write] at h
  split at h
  · cases h
  · split at h
    · cases h
    · cases h
      exact ⟨_, rfl⟩

theorem Sink.eq_io_of_flush {k k' : Sink} {e : Failure} (h : k.flush = (.error e, k')) :
    ∃ text, e = .io text := by
  rw [flush] at h
  cases hrefuses : k.refusesFlush <;> rw [hrefuses] at h <;> cases h
  exact ⟨_, rfl⟩

/-- A line cannot be read only if a read of the stream fails. -/
theorem Script.eq_io_of_readLine {line : List UInt8} {s s' : Script} {e : Failure}
    (h : readLine line s = (.error e, s')) : ∃ text, e = .io text := by
  fun_induction readLine line s with
  | case1 line => cases h
  | case2 line rest ih => exact ih h
  | case3 line text rest =>
    cases h
    exact ⟨text, rfl⟩
  | case4 line bs rest hempty => cases h
  | case5 line bs rest hempty hfeed ih => exact ih h
  | case6 line bs rest hempty feed back hfeed => cases h

namespace StreamConsole

theorem eq_io_of_fill {c c' : StreamConsole} {e : Failure} (h : c.fill = (.error e, c')) :
    ∃ text, e = .io text := by
  fun_induction fill c with
  | case1 c hwant e' rest hread =>
    cases h
    exact Script.eq_io_of_readLine hread
  | case2 c hwant line rest hread hempty => cases h
  | case3 c hwant line rest hread hempty ih => exact ih h
  | case4 c hready => cases h

/-- A stream console reports failures of input and output only. -/
theorem eq_io_of_fails {c : StreamConsole} {e : Failure} (h : Console.Fails c e) :
    ∃ text, e = .io text := by
  cases h with
  | @readToken c' failed =>
    have hread : c.readToken = (.error e, c') := failed
    rw [readToken] at hread
    rcases hfill : c.fill with ⟨e' | _, c''⟩
    · rw [hfill] at hread
      cases hread
      exact eq_io_of_fill hfill
    · rw [hfill] at hread
      cases hpending : c''.pending <;> simp only [hpending] at hread <;> cases hread
  | @writeValue w c' failed =>
    have hwrite : (c.sink.write (Console.valueLine w)).1 = .error e := congrArg Prod.fst failed
    exact Sink.eq_io_of_write (Prod.ext hwrite rfl)
  | @flush c' failed =>
    have hflush : c.sink.flush.1 = .error e := congrArg Prod.fst failed
    exact Sink.eq_io_of_flush (Prod.ext hflush rfl)

end StreamConsole

/-- So does a token queue. -/
theorem TokenQueue.eq_io_of_fails {q : TokenQueue} {e : Failure} (h : Console.Fails q e) :
    ∃ text, e = .io text := by
  cases h with
  | @readToken q' failed =>
    have hread : q.readToken = (.error e, q') := failed
    rw [readToken] at hread
    cases htokens : q.tokens <;> rw [htokens] at hread <;> cases hread
  | @writeValue w q' failed =>
    have hwrite : (q.sink.write (Console.valueLine w)).1 = .error e := congrArg Prod.fst failed
    exact Sink.eq_io_of_write (Prod.ext hwrite rfl)
  | flush failed => cases failed

/-! ### Failures of a step -/

/-- A failure of an instruction was reported by the console, or is a fault of the machine: a zero
divisor, a READ without input, or an index of the instruction that lies outside memory. -/
theorem Machine.Faults.failure {κ : Type} [Console κ] {m : Machine} {k k' : κ} {i : Instruction}
    {e : Failure} (h : m.Faults k i e k') :
    Console.Fails k e ∨ e = .divisionByZero m.pc ∨ e = .inputExhausted m.pc ∨
      ∃ a, i.index? = some a ∧ m.memory.capacity ≤ a ∧ e = m.memory.outOfBounds a := by
  cases h with
  | request hr => exact .inl (.readToken hr)
  | exhausted hr => exact .inr (.inr (.inl rfl))
  | target hr hge => exact .inr (.inr (.inr ⟨_, rfl, hge, rfl⟩))
  | cell huses hge =>
    exact .inr (.inr (.inr ⟨_, Instruction.index?_of_cell? huses, hge, rfl⟩))
  | zero hdivides hz => exact .inr (.inl rfl)
  | emission hw hwr => exact .inl (.writeValue hwr)

/-- A failure of a step was reported by the console, or is a fault of the machine.  An index outside
memory is the program counter if there was no word to fetch, and else the target of the word. -/
theorem Bench.eq_of_step_eq_error {κ : Type} [Console κ] {b : Bench κ} {e : Failure}
    (h : b.step.1 = .error e) :
    Console.Fails b.console e ∨ e = .divisionByZero b.machine.pc ∨
      e = .inputExhausted b.machine.pc ∨
      ∃ index, b.machine.memory.capacity ≤ index ∧ e = b.machine.memory.outOfBounds index ∧
        ((b.machine.nextFetch? = none ∧ index = b.machine.pc) ∨
          ∃ f, b.machine.nextFetch? = some f ∧ index = f.word.target) := by
  rcases step_eq_error_iff.mp (Prod.ext h rfl) with ⟨hle, he, -⟩ | ⟨w, hw, hfault, -, -⟩
  · have hnone := Machine.nextFetch?_eq_none_iff.mpr hle
    exact .inr (.inr (.inr ⟨_, hle, he, .inl ⟨hnone, rfl⟩⟩))
  · have hfetch : b.machine.nextFetch? = some ⟨w, b.machine.pc, b.machine.accumulator⟩ := by
      rw [Machine.nextFetch?, hw]
      rfl
    rcases hfault.failure with he | he | he | ⟨a, hindex, hle, he⟩
    · exact .inl he
    · exact .inr (.inl he)
    · exact .inr (.inr (.inl he))
    · exact .inr (.inr (.inr ⟨a, hle, he, .inr ⟨_, hfetch, Word.eq_target_of_index? hindex⟩⟩))

end WordMachine
