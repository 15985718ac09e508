import WordMachine.Proofs.Loading
import WordMachine.Proofs.Run

/-!
# Tokens shared by loading and READ

Loading a program and executing READ draw on one console.  What a READ obtains is its *intake*
(`Bench.intake?`): the index of its target, and the token that the console hands out for it.  A READ
has an intake also when its target then turns out to lie outside memory.  The intakes of the first
`n` steps of a bench are `Bench.intakes b n`.

From a supply of tokens each READ takes the first, and no other instruction takes any.  So after any
number of steps the tokens of the intakes are a beginning of the supply, and the rest is left
(`Bench.supplies_after`).  This is the invariant of a run; programs may change themselves as they
like.  With what loading takes (`Bench.load_of_supplies`) it gives the main statement,
`Bench.load_then_run_takes_tokens`.
-/

namespace WordMachine

/-! ### What an instruction does to the console -/

namespace Machine

variable {κ : Type} [Console κ] (m : Machine) (k : κ)

/-- READ asks for one token, wherever it is to be stored. -/
theorem execute_read_console (a : WordIndex) :
    (m.execute k (.read a)).2 = (Console.readToken k).2 := by
  rw [execute, executeRead]
  rcases Console.readToken k with ⟨_ | _ | token, k'⟩ <;> rfl

/-- Every other instruction writes a value, or leaves the console alone. -/
theorem execute_console_of_ne_read {i : Instruction} (hi : ∀ a, i ≠ .read a) :
    (m.execute k i).2 = k ∨ ∃ w, (m.execute k i).2 = (Console.writeValue k w).2 := by
  cases i with
  | read a => exact absurd rfl (hi a)
  | write a =>
    rw [execute, executeWrite]
    cases m.memory.read a with
    | error e => exact .inl rfl
    | ok w =>
      refine .inr ⟨w, ?_⟩
      rcases hwritten : Console.writeValue k w with ⟨_ | _, k'⟩ <;> simp only [hwritten]
  | _ => exact .inl rfl

end Machine

/-! ### Intakes -/

namespace Bench

section Intakes

variable {κ : Type} [Console κ] {b : Bench κ}

/-- The instruction that the next step executes, if there is a word to fetch. -/
def instruction? (b : Bench κ) : Option Instruction :=
  b.machine.memory.words[b.machine.pc]?.map Word.decode

/-- The target and the token of the next step, if it executes a READ that obtains a token. -/
def intake? (b : Bench κ) : Option (WordIndex × String) :=
  match b.instruction?, (Console.readToken b.console).1 with
  | some (.read a), .ok (some token) => some (a, token)
  | _, _ => none

/-- What the READs among the first `n` steps obtained, in order. -/
def intakes (b : Bench κ) : Nat → List (WordIndex × String)
  | 0 => []
  | n + 1 => b.intakes n ++ (b.after n).intake?.toList

/-- A step that fetches a word leaves the console as its instruction does. -/
theorem step_console_of_instruction {i : Instruction} (h : b.instruction? = some i) :
    ∃ w, b.machine.memory.words[b.machine.pc]? = some w ∧ w.decode = i ∧
      b.step.2.console = ((b.machine.fetch w).execute b.console i).2 := by
  obtain ⟨w, hw, rfl⟩ := Option.map_eq_some_iff.mp h
  refine ⟨w, hw, rfl, ?_⟩
  rw [step_of_fetch hw]
  rcases (b.machine.fetch w).execute b.console w.decode with ⟨_ | m, k⟩ <;> rfl

/-- A step that finds no word to fetch leaves everything as it was. -/
theorem step_of_no_instruction (h : b.instruction? = none) : b.step.2 = b := by
  rw [step_of_le (Array.getElem?_eq_none_iff.mp (Option.map_eq_none_iff.mp h))]

/-- Other instructions obtain nothing. -/
theorem intake?_of_ne_read (hother : ∀ a, b.instruction? ≠ some (.read a)) : b.intake? = none := by
  rw [intake?]
  split
  · next a _ hread _ => exact absurd hread (hother a)
  · rfl

/-- A READ that obtains a token for a target inside memory stores its word there, all but the four
high bits. -/
theorem words_step_of_intake {a : WordIndex} {token : String} (h : b.intake? = some (a, token))
    (hinside : a < b.machine.memory.capacity) :
    b.step.1 = .ok .running ∧ b.step.2.machine.memory.words =
      b.machine.memory.words.setIfInBounds a (Word.ofToken token % 4096) := by
  rw [intake?] at h
  split at h
  · next a' token' hread htaken =>
    cases h
    obtain ⟨w, hw, hdecode⟩ := Option.map_eq_some_iff.mp hread
    have hexec : (b.machine.fetch w).Executes b.console (.read a) _ _ :=
      .read (Prod.ext htaken rfl) hinside
    rw [step_of_fetch hw, hdecode, hexec.execute_eq]
    exact ⟨rfl, rfl⟩
  · cases h

end Intakes

variable {κ : Type} [FiniteConsole κ] [TokenSupply κ] {b : Bench κ} {tokens : List String}

/-- A READ obtains the first token of the supply. -/
theorem intake?_of_read (h : Supplies b.console tokens) {a : WordIndex}
    (hread : b.instruction? = some (.read a)) :
    b.intake? = tokens.head?.map fun token => (a, token) := by
  rw [intake?, hread, (TokenSupply.readToken_of_supplies h).1]
  cases tokens <;> rfl

/-- A step takes its intake from the front of the supply, and leaves the rest. -/
theorem supplies_step (h : Supplies b.console tokens) :
    ∃ rest, tokens = b.intake?.toList.map Prod.snd ++ rest ∧ Supplies b.step.2.console rest := by
  by_cases hread : ∃ a, b.instruction? = some (.read a)
  · obtain ⟨a, hread⟩ := hread
    refine ⟨tokens.tail, ?_, ?_⟩
    · rw [intake?_of_read h hread]
      cases tokens <;> rfl
    · obtain ⟨w, -, -, hconsole⟩ := step_console_of_instruction hread
      rw [hconsole, Machine.execute_read_console]
      exact (TokenSupply.readToken_of_supplies h).2
  · have hother : ∀ a, b.instruction? ≠ some (.read a) := not_exists.mp hread
    refine ⟨tokens, ?_, ?_⟩
    · rw [intake?_of_ne_read hother]
      rfl
    · cases hi : b.instruction? with
      | none =>
        rw [step_of_no_instruction hi]
        exact h
      | some i =>
        have hne : ∀ a, i ≠ .read a := by
          rintro a rfl
          exact hother a hi
        obtain ⟨w, -, -, hconsole⟩ := step_console_of_instruction hi
        rw [hconsole]
        rcases (b.machine.fetch w).execute_console_of_ne_read b.console hne with heq | ⟨v, heq⟩
        · rw [heq]
          exact h
        · rw [heq]
          exact TokenSupply.supplies_writeValue v h

/-- After any number of steps the intakes are the beginning of the supply, and the rest is left. -/
theorem supplies_after (h : Supplies b.console tokens) (n : Nat) :
    ∃ rest, tokens = (b.intakes n).map Prod.snd ++ rest ∧ Supplies (b.after n).console rest := by
  induction n with
  | zero => exact ⟨tokens, rfl, h⟩
  | succ n ih =>
    obtain ⟨rest, htokens, hrest⟩ := ih
    obtain ⟨rest', hstep, hrest'⟩ := supplies_step hrest
    refine ⟨rest', ?_, hrest'⟩
    rw [htokens, hstep, intakes, List.map_append, List.append_assoc]

/-- The same told by the number of intakes. -/
theorem supplies_after_drop (h : Supplies b.console tokens) (n : Nat) :
    (b.intakes n).map Prod.snd = tokens.take (b.intakes n).length ∧
      (b.intakes n).length ≤ tokens.length ∧
      Supplies (b.after n).console (tokens.drop (b.intakes n).length) := by
  obtain ⟨rest, htokens, hrest⟩ := supplies_after h n
  have hlength : ((b.intakes n).map Prod.snd).length = (b.intakes n).length := List.length_map _
  refine ⟨?_, ?_, ?_⟩
  · rw [htokens, List.take_left' hlength]
  · rw [htokens, List.length_append, hlength]
    exact Nat.le_add_right _ _
  · rw [htokens, List.drop_left' hlength]
    exact hrest

/-- The same from the place in the supply that an earlier taking has reached. -/
theorem supplies_after_add {n : Nat} (hle : n ≤ tokens.length)
    (h : Supplies b.console (tokens.drop n)) (j : Nat) :
    n + (b.intakes j).length ≤ tokens.length ∧
      Supplies (b.after j).console (tokens.drop (n + (b.intakes j).length)) := by
  obtain ⟨-, hcount, hrest⟩ := supplies_after_drop h j
  rw [List.length_drop] at hcount
  rw [List.drop_drop] at hrest
  exact ⟨by omega, hrest⟩

/-- A READ fails for want of input exactly if the supply is used up. -/
theorem step_eq_inputExhausted_iff (h : Supplies b.console tokens) {a : WordIndex}
    (hread : b.instruction? = some (.read a)) :
    b.step.1 = .error (.inputExhausted b.machine.pc) ↔ tokens = [] := by
  obtain ⟨w, hw, hdecode⟩ := Option.map_eq_some_iff.mp hread
  rw [step_of_fetch hw, hdecode]
  cases tokens with
  | nil =>
    obtain ⟨k', hcall, -⟩ := TokenSupply.readToken_eq_none h
    have hfault : (b.machine.fetch w).Faults b.console (.read a) _ _ := .exhausted hcall
    rw [hfault.execute_eq]
    exact ⟨fun _ => rfl, fun _ => rfl⟩
  | cons token tokens =>
    obtain ⟨k', hcall, -⟩ := TokenSupply.readToken_eq_some h
    have hne : token :: tokens ≠ [] := List.cons_ne_nil token tokens
    refine ⟨fun hstep => ?_, fun hnil => absurd hnil hne⟩
    rcases Nat.lt_or_ge a (b.machine.fetch w).memory.capacity with hlt | hge
    · have hexec : (b.machine.fetch w).Executes b.console (.read a) _ _ := .read hcall hlt
      rw [hexec.execute_eq] at hstep
      cases hstep
    · have hfault : (b.machine.fetch w).Faults b.console (.read a) _ _ := .target hcall hge
      rw [hfault.execute_eq] at hstep
      cases hstep

end Bench

/-! ### Loading and running -/

/-- `c.HasTaken tokens n`: of the given tokens exactly the first `n` are gone; calls for a token hand
out the others, in order, and then none. -/
def StreamConsole.HasTaken (c : StreamConsole) (tokens : List String) (n : Nat) : Prop :=
  n ≤ tokens.length ∧ ∀ i, (c.after i).readToken.1 = .ok tokens[n + i]?

/-- A stream that supplies the rest of the tokens has taken the others. -/
theorem StreamConsole.hasTaken_of_supplies {c : StreamConsole} {tokens : List String} {n : Nat}
    (hle : n ≤ tokens.length) (h : Supplies c (tokens.drop n)) : c.HasTaken tokens n := by
  refine ⟨hle, fun i => ?_⟩
  rw [Yields.readToken_after h, List.getElem?_drop]

namespace Bench

/-- `c.TakesTurns tokens n`: the READs that are executed from `c` on take the tokens from number `n`
on, one after the other. -/
structure TakesTurns (c : Bench StreamConsole) (tokens : List String) (n : Nat) : Prop where
  /-- After any number of steps the tokens before number `n` and those of the intakes are gone, and
  no others. -/
  taken : ∀ j, (c.after j).console.HasTaken tokens (n + (c.intakes j).length)
  /-- Intake number `k` has token number `n + k`. -/
  obtained : ∀ j k a token, (c.intakes j)[k]? = some (a, token) → tokens[n + k]? = some token
  /-- An intake is stored at its target, if that lies inside memory. -/
  stored : ∀ j a token, (c.after j).intake? = some (a, token) →
    a < (c.after j).machine.memory.capacity →
    (c.after j).step.1 = .ok .running ∧
      (c.after (j + 1)).machine.memory.words =
        (c.after j).machine.memory.words.setIfInBounds a (Word.ofToken token % 4096)
  /-- A READ has an intake as long as there are tokens. -/
  served : ∀ j a, (c.after j).instruction? = some (.read a) →
    (c.after j).intake? = tokens[n + (c.intakes j).length]?.map fun token => (a, token)
  /-- A READ fails for want of input exactly when all tokens are gone. -/
  exhausted : ∀ j a, (c.after j).instruction? = some (.read a) →
    ((c.after j).step.1 = .error (.inputExhausted (c.after j).machine.pc) ↔
      n + (c.intakes j).length = tokens.length)

/-- From a supply READs take their turns. -/
theorem takesTurns_of_supplies {c : Bench StreamConsole} {tokens : List String} {n : Nat}
    (hle : n ≤ tokens.length) (h : Supplies c.console (tokens.drop n)) :
    c.TakesTurns tokens n := by
  have hsupply := supplies_after_add hle h
  refine ⟨fun j => ?_, fun j k a token hk => ?_, fun j a token hintake hinside => ?_,
    fun j a hread => ?_, fun j a hread => ?_⟩
  · obtain ⟨hcount, hrest⟩ := hsupply j
    exact StreamConsole.hasTaken_of_supplies hcount hrest
  · obtain ⟨htokens, -, -⟩ := supplies_after_drop h j
    have hk' : ((c.intakes j).map Prod.snd)[k]? = some token := by
      rw [List.getElem?_map, hk]
      rfl
    have hlt : k < (c.intakes j).length := (List.getElem?_eq_some_iff.mp hk).1
    rw [htokens, List.getElem?_take_of_lt hlt, List.getElem?_drop] at hk'
    exact hk'
  · exact words_step_of_intake hintake hinside
  · obtain ⟨-, hrest⟩ := hsupply j
    rw [intake?_of_read hrest hread, List.head?_drop]
  · obtain ⟨hcount, hrest⟩ := hsupply j
    rw [step_eq_inputExhausted_iff hrest hread, List.drop_eq_nil_iff]
    omega

/-- Loading takes the tokens up to the first that spells zero, or all of them, also if the program is
then too large; from there on READs take their turns, for any number of steps.  In particular what
loading and running comes to has taken the tokens of the program and of the READs, and no others. -/
theorem load_then_run_takes_tokens {script : Script} {bytes : List UInt8}
    (h : script.Delivers bytes) (m : Machine) (sink : Sink) (log : Array Event) :
    let tokens := Tokens.split bytes
    let n := Program.extent (tokens.map Word.ofToken)
    let b : Bench StreamConsole := { machine := m, console := { script, sink }, log }
    b.readProgram.1 = .ok ((tokens.take n).map Word.ofToken) ∧
    b.load.1 = (if n ≤ m.memory.capacity then .ok n
      else .error (.memoryOutOfBounds m.memory.capacity m.memory.capacity)) ∧
    b.load.2.console.HasTaken tokens n ∧
    b.load.2.TakesTurns tokens n ∧
    ∀ patience s r b', b.loadAndRun patience s = some (r, b') →
      ∃ j, b.load.2.RunsFor (j - 1) ∧ (∀ e, b.load.1 = .error e → j = 0) ∧
        b'.machine = (b.load.2.after j).machine ∧
        b'.console.HasTaken tokens (n + (b.load.2.intakes j).length) := by
  intro tokens n b
  have hsupply : Supplies b.console tokens := StreamConsole.yields_of_delivers sink h
  obtain ⟨k, hread, -⟩ := readProgram_of_supplies hsupply rfl
  obtain ⟨hleft, hload⟩ := load_of_supplies hsupply rfl
  have hle : n ≤ tokens.length := by
    have hextent := Program.extent_le_length (tokens.map Word.ofToken)
    rw [List.length_map] at hextent
    exact hextent
  have hturns := takesTurns_of_supplies hle hleft
  refine ⟨?_, hload, hturns.taken 0, hturns, ?_⟩
  · rw [hread, List.map_take]
  · intro patience s r b' hrun
    obtain ⟨j, hruns, hfailed, hmachine, hconsole⟩ := loadAndRun_eq_some_last_step hrun
    refine ⟨j, hruns, hfailed, hmachine, ?_⟩
    obtain ⟨hcount, hrest⟩ := supplies_after_add hle hleft j
    refine StreamConsole.hasTaken_of_supplies hcount ?_
    rcases hconsole with heq | heq
    · rw [heq]
      exact hrest
    · rw [heq]
      exact TokenSupply.supplies_flush hrest

/-- A program of two instructions, the zero word and a number for its READ.  The number stands in the
line of the zero word, and a read cuts the instruction before.  A memory of four words takes the
program and the READ gets the number; one of two words refuses the program, and the number is left
all the same. -/
theorem load_then_run_takes_tokens_of_shared_line :
    let tokens := ["0011000000000110", "1111000000000000", "0", "101"]
    let script : Script := [.bytes "0011000000000110\n11110000".toUTF8.data.toList, .interrupted,
      .bytes "00000000 0 101\n".toUTF8.data.toList]
    let start : Nat → Bench StreamConsole := fun capacity => {
      machine := { registers := .powerOn, memory := .blank capacity }
      console := { script } }
    (start 4).load.1 = .ok 3 ∧ (start 4).load.2.TakesTurns tokens 3 ∧
      (start 4).load.2.intakes 2 = [(3, "101")] ∧
      (start 2).load.1 = .error (.memoryOutOfBounds 2 2) ∧
      (start 2).load.2.TakesTurns tokens 3 := by
  intro tokens script start
  have hscript : script.Delivers ("0011000000000110\n11110000".toUTF8.data.toList ++
      ("00000000 0 101\n".toUTF8.data.toList ++ [])) :=
    .bytes (by decide) (.interrupted (.bytes (by decide) .nil))
  have hsplit : Tokens.split ("0011000000000110\n11110000".toUTF8.data.toList ++
      ("00000000 0 101\n".toUTF8.data.toList ++ [])) = tokens := by
    decide +kernel
  have hextent : Program.extent (tokens.map Word.ofToken) = 3 := by
    decide +kernel
  have hsmall := load_then_run_takes_tokens hscript (start 2).machine {} #[]
  have hlarge := load_then_run_takes_tokens hscript (start 4).machine {} #[]
  simp only [hsplit, hextent] at hsmall hlarge
  obtain ⟨-, hload₄, -, hturns₄, -⟩ := hlarge
  obtain ⟨-, hload₂, -, hturns₂, -⟩ := hsmall
  exact ⟨hload₄, hturns₄, by decide +kernel, hload₂, hturns₂⟩

end Bench

end WordMachine
