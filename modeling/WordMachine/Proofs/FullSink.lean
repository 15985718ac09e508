import WordMachine.Proofs.Emission
import WordMachine.Proofs.Room

/-!
# Output that does not fit

A run on a console whose sink has room for `n` bytes is compared here with the same run on a console
whose sink has room for everything.  As long as the lines of the second run fit into the `n` bytes, the
first one cannot tell: it stands at the same point, and its sink holds the same text
(`Bench.after_keep`).  Only a WRITE can end that, with the first line that ends beyond.  It fails, so
nothing else of the machine has changed but what the fetch has changed, and of its line the sink has kept
what there was room for (`Bench.step_keep_of_lt`).

Which WRITE that is depends on the lengths of the lines alone.  The main statement,
`Bench.run_of_room`, is about runs with and without a limit; a run that would go on forever is told by as
many of its steps as one likes to look at.
-/

namespace WordMachine

open Tokens (bytesOf)

/-- Lines of values are ASCII. -/
theorem Console.isAscii_lines (ws : List Word) : IsAscii (lines ws).toList := by
  refine IsAscii.join ?_
  intro s hs
  obtain ⟨w, -, rfl⟩ := List.mem_map.mp hs
  exact isAscii_valueLine w

/-- So they have as many bytes as characters. -/
theorem Console.length_bytesOf_lines (ws : List Word) :
    (bytesOf (lines ws)).length = (lines ws).length :=
  Tokens.length_bytesOf (isAscii_lines ws)

/-! ### Consoles -/

namespace StreamConsole

/-- A console that wants tokens reads a line. -/
theorem fill_of_wants {c : StreamConsole} (hwant : (c.pending.isEmpty && !c.ended) = true) :
    c.fill =
      match c.script.readLine [] with
      | (.error e, rest) => (.error e, { c with script := rest })
      | (.ok line, rest) =>
        if line.isEmpty then
          (.ok (), { c with script := rest, ended := true })
        else
          fill { c with script := rest, pending := Tokens.split line } := by
  rw [fill, if_pos hwant]
  rcases c.script.readLine [] with ⟨e | line, rest⟩ <;> rfl

/-- Reading lines is the same whatever the sink is. -/
theorem fill_withSink (c : StreamConsole) (k : Sink) :
    fill { c with sink := k } = (c.fill.1, { c.fill.2 with sink := k }) := by
  fun_induction fill c with
  | case1 c hwant e rest hread =>
    rw [fill_of_wants (c := { c with sink := k }) hwant]
    simp only [hread]
  | case2 c hwant line rest hread hempty =>
    rw [fill_of_wants (c := { c with sink := k }) hwant]
    simp only [hread, if_pos hempty]
  | case3 c hwant line rest hread hempty ih =>
    rw [← ih, fill_of_wants (c := { c with sink := k }) hwant]
    simp only [hread, if_neg hempty]
  | case4 c hwant => rw [fill, if_neg hwant]

/-- So is asking for a token. -/
theorem readToken_withSink (c : StreamConsole) (k : Sink) :
    readToken { c with sink := k } = (c.readToken.1, { c.readToken.2 with sink := k }) := by
  unfold readToken
  rw [fill_withSink]
  rcases c.fill with ⟨e | _, c'⟩
  · rfl
  · cases hpending : c'.pending <;> simp only [hpending]

/-- The console as it would be if its sink had had room for `n` characters. -/
def keep (n : Nat) (c : StreamConsole) : StreamConsole :=
  { c with sink := c.sink.keep n }

variable {c : StreamConsole} {n : Nat}

theorem readToken_keep (c : StreamConsole) (n : Nat) :
    Console.readToken (c.keep n) =
      ((Console.readToken c).1, (Console.readToken c).2.keep n) := by
  have hsink : (Console.readToken c).2.sink = c.sink := c.sink_readToken
  unfold keep
  rw [hsink]
  exact readToken_withSink c (c.sink.keep n)

/-- A sink with room for everything takes every value. -/
theorem writeValue_of_room (hroom : c.sink.room = none) (w : Word) :
    Console.writeValue c w =
      (.ok (), { c with sink.text := c.sink.text ++ Console.valueLine w }) := by
  have hvalue : Console.writeValue c w = c.writeValue w := rfl
  rw [hvalue, writeValue, Sink.write_of_room hroom]

theorem writeValue_keep_of_le (hroom : c.sink.room = none) {w : Word}
    (h : c.sink.text.length + (Console.valueLine w).length ≤ n) :
    Console.writeValue (c.keep n) w = (.ok (), (Console.writeValue c w).2.keep n) := by
  have hvalue : Console.writeValue (c.keep n) w = (c.keep n).writeValue w := rfl
  rw [hvalue, writeValue, keep, Sink.write_keep_of_le hroom h]
  rfl

theorem writeValue_keep_of_lt (hroom : c.sink.room = none) {w : Word}
    (hbefore : c.sink.text.length ≤ n)
    (h : n < c.sink.text.length + (Console.valueLine w).length) :
    Console.writeValue (c.keep n) w =
      (.error (.io "sink full"), (Console.writeValue c w).2.keep n) := by
  have hvalue : Console.writeValue (c.keep n) w = (c.keep n).writeValue w := rfl
  rw [hvalue, writeValue, keep, Sink.write_keep_of_lt hroom hbefore h]
  rfl

theorem flush_keep (c : StreamConsole) (n : Nat) :
    Console.flush (c.keep n) = ((Console.flush c).1, (Console.flush c).2.keep n) :=
  rfl

end StreamConsole

/-- An instruction whose output fits does the same in little room. -/
theorem Machine.execute_keep (m : Machine) {c : StreamConsole} {n : Nat}
    (hroom : c.sink.room = none) {i : Instruction}
    (hfits : (m.execute c i).2.sink.text.length ≤ n) :
    m.execute (c.keep n) i = ((m.execute c i).1, (m.execute c i).2.keep n) := by
  cases i with
  | read a =>
    rw [execute, execute, executeRead, executeRead, StreamConsole.readToken_keep]
    rcases Console.readToken c with ⟨_ | _ | token, c'⟩ <;> rfl
  | write a =>
    rw [execute, executeWrite] at hfits ⊢
    rw [execute, executeWrite]
    cases hw : m.memory.read a with
    | error e => rfl
    | ok w =>
      have hwrite := StreamConsole.writeValue_of_room hroom w
      rw [hw] at hfits
      simp only [hwrite, String.length_append] at hfits
      have hkeep := StreamConsole.writeValue_keep_of_le hroom hfits
      simp only [hkeep, hwrite]
  | _ => rfl

namespace Bench

/-- The bench with another sink behind its console. -/
def printingTo (b : Bench StreamConsole) (k : Sink) : Bench StreamConsole :=
  { b with console.sink := k }

/-- The bench as it would be if its sink had had room for `n` characters. -/
def keep (n : Nat) (b : Bench StreamConsole) : Bench StreamConsole :=
  { b with console := b.console.keep n }

variable {b : Bench StreamConsole} {n : Nat}

/-- If there is room for all that the sink holds, the room is all that is less. -/
theorem keep_of_le (h : b.console.sink.text.length ≤ n) :
    b.keep n = b.printingTo
      { b.console.sink with room := some (n - b.console.sink.text.length) } := by
  unfold keep StreamConsole.keep
  rw [Sink.keep_of_le h]
  rfl

/-! ### Text -/

/-- A sink with room for everything gets the line of the emission of a step. -/
theorem text_step (hroom : b.console.sink.room = none) :
    b.step.2.console.sink.room = none ∧
      b.step.2.console.sink.text =
        b.console.sink.text ++ Console.lines b.emission?.toList := by
  rcases b.console_step with ⟨hnone, hconsole | hconsole⟩ | ⟨v, hv, hconsole⟩
  · rw [hconsole, hnone]
    exact ⟨hroom, String.append_empty.symm⟩
  · have hsink : (Console.readToken b.console).2.sink = b.console.sink := b.console.sink_readToken
    rw [hconsole, hnone, hsink]
    exact ⟨hroom, String.append_empty.symm⟩
  · rw [hconsole, hv, StreamConsole.writeValue_of_room hroom, Option.toList_some,
      Console.lines_singleton]
    exact ⟨hroom, rfl⟩

/-- So does it get the lines of all emissions. -/
theorem text_after (hroom : b.console.sink.room = none) (j : Nat) :
    (b.after j).console.sink.room = none ∧
      (b.after j).console.sink.text = b.console.sink.text ++ Console.lines (b.emissions j) := by
  induction j with
  | zero => exact ⟨hroom, String.append_empty.symm⟩
  | succ j ih =>
    obtain ⟨hroom', htext⟩ := ih
    obtain ⟨hroom'', htext'⟩ := text_step hroom'
    refine ⟨hroom'', ?_⟩
    rw [after, htext', htext, emissions, Console.lines_append, String.append_assoc]

/-- If the sink was empty, it then holds just these lines. -/
theorem text_after_of_empty (hroom : b.console.sink.room = none) (hempty : b.console.sink.text = "")
    (j : Nat) : (b.after j).console.sink.text = Console.lines (b.emissions j) := by
  rw [(text_after hroom j).2, hempty, String.empty_append]

/-- More steps do not make it less. -/
theorem length_text_after_le (hroom : b.console.sink.room = none) {i j : Nat} (h : i ≤ j) :
    (b.after i).console.sink.text.length ≤ (b.after j).console.sink.text.length := by
  induction h with
  | refl => exact Nat.le_refl _
  | step _ ih =>
    refine Nat.le_trans ih ?_
    rw [after, (text_step (text_after hroom _).1).2, String.length_append]
    exact Nat.le_add_right _ _

/-! ### Steps -/

/-- A step whose output fits is the same in little room. -/
theorem step_keep (hroom : b.console.sink.room = none)
    (hfits : b.step.2.console.sink.text.length ≤ n) :
    (b.keep n).step = (b.step.1, b.step.2.keep n) := by
  cases hw : b.machine.memory.words[b.machine.pc]? with
  | none =>
    have hle : b.machine.memory.capacity ≤ b.machine.pc := Array.getElem?_eq_none_iff.mp hw
    rw [step_of_le hle, step_of_le (b := b.keep n) hle]
    rfl
  | some w =>
    rw [step_of_fetch hw] at hfits ⊢
    rw [step_of_fetch (b := b.keep n) hw]
    have hexec : ((b.machine.fetch w).execute b.console w.decode).2.sink.text.length ≤ n := by
      rcases hcall : (b.machine.fetch w).execute b.console w.decode with ⟨e | m, c⟩ <;>
        rw [hcall] at hfits <;> exact hfits
    have hkeep := (b.machine.fetch w).execute_keep hroom hexec
    have hsame : ((b.keep n).machine.fetch w).execute (b.keep n).console w.decode = _ := hkeep
    rw [hsame]
    rcases (b.machine.fetch w).execute b.console w.decode with ⟨e | m, c⟩ <;> rfl

/-- A step whose output does not fit is a WRITE.  It fails in little room, with the machine as the fetch
has left it. -/
theorem step_keep_of_lt (hroom : b.console.sink.room = none)
    (hbefore : b.console.sink.text.length ≤ n)
    (h : n < b.step.2.console.sink.text.length) :
    ∃ w v, b.machine.memory.words[b.machine.pc]? = some w ∧ b.emission? = some v ∧
      (b.keep n).step = (.error (.io "sink full"),
        ⟨b.machine.fetch w, { b.console with sink := b.step.2.console.sink.keep n },
          noteFetch b.log (b.machine.fetch w) w⟩) := by
  obtain ⟨-, htext⟩ := text_step hroom
  rcases b.console_step with ⟨hnone, -⟩ | ⟨v, hv, hconsole⟩
  · -- without an emission nothing is added to the text
    have hsame : b.step.2.console.sink.text = b.console.sink.text := by
      rw [htext, hnone]
      exact String.append_empty
    rw [hsame] at h
    exact absurd hbefore (Nat.not_le_of_lt h)
  · obtain ⟨w, a, hw, hwrite, hvalue⟩ := exists_write_of_emission hv
    refine ⟨w, v, hw, hv, ?_⟩
    rw [htext, hv, Option.toList_some, Console.lines_singleton, String.length_append] at h
    have hfull := StreamConsole.writeValue_keep_of_lt hroom hbefore h
    have hfault : (b.machine.fetch w).Faults (b.console.keep n) (.write a) _ _ :=
      .emission hvalue hfull
    have hexec := hfault.execute_eq
    rw [← hwrite] at hexec
    have hfetch : (b.keep n).step = _ := step_of_fetch (b := b.keep n) hw
    have hexec' : ((b.keep n).machine.fetch w).execute (b.keep n).console w.decode = _ := hexec
    rw [hfetch, hexec', hconsole, StreamConsole.writeValue_of_room hroom]
    rfl

/-- Any number of steps whose output fits lead to the same in little room. -/
theorem after_keep (hroom : b.console.sink.room = none) {j : Nat}
    (hfits : (b.after j).console.sink.text.length ≤ n) :
    (b.keep n).after j = (b.after j).keep n := by
  induction j with
  | zero => rfl
  | succ j ih =>
    have hbefore := Nat.le_trans (length_text_after_le hroom (Nat.le_succ j)) hfits
    rw [after, ih hbefore, step_keep (text_after hroom j).1 hfits]
    rfl

/-- On the way every step has the same result. -/
theorem result_keep (hroom : b.console.sink.room = none) {i j : Nat} (hi : i < j)
    (hfits : (b.after j).console.sink.text.length ≤ n) :
    ((b.keep n).after i).step.1 = (b.after i).step.1 := by
  have hbefore := Nat.le_trans (length_text_after_le hroom (Nat.le_of_lt hi)) hfits
  have hafter := Nat.le_trans (length_text_after_le hroom (Nat.succ_le_of_lt hi)) hfits
  rw [Nat.succ_eq_add_one, after] at hafter
  rw [after_keep hroom hbefore, step_keep (text_after hroom i).1 hafter]

/-! ### Runs -/

/-- What a run leaves behind has the lines of its emissions in its sink. -/
theorem text_run (hroom : b.console.sink.room = none) {patience : Nat} {limit : Option Nat}
    {r : Except Failure Nat} {c : Bench StreamConsole} (hrun : b.run patience limit = some (r, c)) :
    c.console.sink.text =
      b.console.sink.text ++ Console.lines (b.runEmissions patience limit) := by
  have hflush : ∀ k : StreamConsole, (Console.flush k).2.sink.text = k.sink.text := fun _ => rfl
  unfold runEmissions
  rcases run_eq_some_iff.mp hrun with ⟨steps, rfl, hruns, -, rfl⟩ | ⟨k, hk, hends⟩
  · rw [Option.getD_some, hruns.begun_eq]
    exact (text_after hroom steps).2
  · rw [hends.begun_eq hk, ← (text_after hroom k).2]
    obtain ⟨-, hconsole | hconsole⟩ := hends.last_step
    · rw [hconsole]
    · rw [hconsole, hflush]

/-- A run whose output fits comes to the same in little room. -/
theorem run_keep (hroom : b.console.sink.room = none) {patience : Nat} {limit : Option Nat}
    (hfits : (b.after (b.begun (limit.getD patience))).console.sink.text.length ≤ n) :
    (b.keep n).run patience limit = (b.run patience limit).map fun x => (x.1, x.2.keep n) := by
  have hresults : ∀ j < b.begun (limit.getD patience),
      (b.after j).step.1 = ((b.keep n).after j).step.1 := by
    intro j hj
    exact (result_keep hroom hj hfits).symm
  have hfinish : ∀ {c d : Bench StreamConsole} (steps : Nat), d = c.keep n →
      Agree (fun c d => d = c.keep n) (c.finish steps) (d.finish steps) := by
    rintro c d steps rfl
    have hkeep : Console.flush (c.keep n).console = _ := c.console.flush_keep n
    unfold finish
    rw [hkeep]
    rcases Console.flush c.console with ⟨e | _, k⟩ <;> exact ⟨_, _, _, rfl, rfl, rfl⟩
  have hrel := run_of_results hresults (after_keep hroom hfits) hfinish
  generalize (b.keep n).run patience limit = y at hrel
  generalize b.run patience limit = x at hrel
  cases hrel with
  | none => rfl
  | some hagree =>
    obtain ⟨r, c, d, rfl, rfl, rfl⟩ := hagree
    rfl

/-- A number that has been passed has been passed at some point. -/
theorem exists_passing {f : Nat → Nat} {steps : Nat} (hstart : f 0 ≤ n) (hend : n < f steps) :
    ∃ j < steps, f j ≤ n ∧ n < f (j + 1) := by
  induction steps with
  | zero => exact absurd hstart (Nat.not_le_of_lt hend)
  | succ steps ih =>
    by_cases hbefore : f steps ≤ n
    · exact ⟨steps, Nat.lt_succ_self steps, hbefore, hend⟩
    · obtain ⟨j, hj, hpassing⟩ := ih (Nat.lt_of_not_le hbefore)
      exact ⟨j, Nat.lt_succ_of_lt hj, hpassing⟩

/-- A run whose output does not fit fails in little room, at the first step whose output goes beyond. -/
theorem run_keep_of_lt (hroom : b.console.sink.room = none) {patience : Nat} {limit : Option Nat}
    (hstart : b.console.sink.text.length ≤ n)
    (hend : n < (b.after (b.begun (limit.getD patience))).console.sink.text.length) :
    ∃ j < b.begun (limit.getD patience), ∃ w v, b.RunsFor j ∧
      (b.after j).console.sink.text.length ≤ n ∧
      n < (b.after (j + 1)).console.sink.text.length ∧
      (b.after j).machine.memory.words[(b.after j).machine.pc]? = some w ∧
      (b.after j).emission? = some v ∧
      (b.keep n).run patience limit = some (.error (.io "sink full"),
        ⟨(b.after j).machine.fetch w,
          { (b.after j).console with sink := (b.after (j + 1)).console.sink.keep n },
          noteFetch (b.after j).log ((b.after j).machine.fetch w) w⟩) := by
  obtain ⟨j, hj, hbefore, hbeyond⟩ := exists_passing
    (f := fun j => (b.after j).console.sink.text.length) hstart hend
  obtain ⟨w, v, hw, hv, hstep⟩ := step_keep_of_lt (text_after hroom j).1 hbefore hbeyond
  have hruns : b.RunsFor j := (b.runsFor_begun _).of_le (Nat.le_sub_one_of_lt hj)
  have hruns' : (b.keep n).RunsFor j := by
    intro i hi
    rw [result_keep hroom hi hbefore]
    exact hruns i hi
  rw [← after_keep hroom hbefore] at hstep
  have hallowed : j + 1 ≤ limit.getD patience := Nat.le_trans hj (b.begun_le _)
  exact ⟨j, hj, w, v, hruns, hbefore, hbeyond, hw, hv,
    run_eq_some_iff.mpr (.inr ⟨j + 1, hallowed, .failed hruns' hstep⟩)⟩

/-- `full.CutOff n j w v c`: after `j` steps of the bench `full`, which has room for everything, the word
`w` is fetched and is a WRITE of the word `v`, and the line of `v` is the first that ends beyond `n`
bytes.  The bench `c` has taken these `j` steps and that fetch, and nothing of the WRITE has happened to
its machine and to its input. -/
structure CutOff (full : Bench StreamConsole) (n j : Nat) (w v : Word)
    (c : Bench StreamConsole) : Prop where
  runs : full.RunsFor j
  fetched : (full.after j).machine.memory.words[(full.after j).machine.pc]? = some w
  writes : (full.after j).emission? = some v
  before : (bytesOf (Console.lines (full.emissions j))).length ≤ n
  beyond : n < (bytesOf (Console.lines (full.emissions j ++ [v]))).length
  machine : c.machine = (full.after j).machine.fetch w
  input : c.console = { (full.after j).console with sink := c.console.sink }
  log : c.log = noteFetch (full.after j).log c.machine w

/-- Once a run has put out `n` characters, they are the first `n` of all that it puts out. -/
theorem take_lines_emissions {patience : Nat} {limit : Option Nat} {j : Nat}
    (hj : j ≤ b.begun (limit.getD patience)) (hn : n ≤ (Console.lines (b.emissions j)).length) :
    (Console.lines (b.runEmissions patience limit)).toList.take n =
      (Console.lines (b.emissions j)).toList.take n := by
  obtain ⟨ws, hws⟩ := b.emissions_prefix hj
  rw [runEmissions, ← hws, Console.lines_append, String.toList_append, List.take_append_of_le_length]
  rw [String.length_toList]
  exact hn

/-- If the output of a run from an empty sink does not fit, it is cut off in little room, and its
beginning is kept. -/
theorem exists_cutOff (hroom : b.console.sink.room = none) (hempty : b.console.sink.text = "")
    {patience : Nat} {limit : Option Nat}
    (hexceeds : n < (Console.lines (b.runEmissions patience limit)).length) :
    ∃ j w v c, (b.keep n).run patience limit = some (.error (.io "sink full"), c) ∧
      b.CutOff n j w v c ∧ c.console.sink.text =
        String.ofList ((Console.lines (b.runEmissions patience limit)).toList.take n) := by
  have htext := text_after_of_empty hroom hempty
  have hstart : b.console.sink.text.length ≤ n := by
    rw [hempty]
    exact Nat.zero_le n
  have hend : n < (b.after (b.begun (limit.getD patience))).console.sink.text.length := by
    rw [htext]
    exact hexceeds
  obtain ⟨j, hj, w, v, hruns, hbefore, hbeyond, hw, hv, hcut⟩ := run_keep_of_lt hroom hstart hend
  rw [htext] at hbefore hbeyond
  have hemissions : b.emissions (j + 1) = b.emissions j ++ [v] := by
    rw [emissions, hv, Option.toList_some]
  refine ⟨j, w, v, _, hcut, ⟨hruns, hw, hv, ?_, ?_, rfl, rfl, rfl⟩, ?_⟩
  · rw [Console.length_bytesOf_lines]
    exact hbefore
  · rw [Console.length_bytesOf_lines, ← hemissions]
    exact hbeyond
  · rw [take_lines_emissions hj (Nat.le_of_lt hbeyond), ← htext (j + 1)]
    rfl

/-- A full sink cuts the output off at its limit.  Take a run on a console whose sink is empty and has room
for everything, and the same run with a sink that has room for `n` bytes.  The first one puts out the lines
of the words that its WRITEs emit.  If these have at most `n` bytes, the two runs come to the same, and all
that they leave behind is the same but the room that is left.  Otherwise the second run fails with the
failure of its sink at the first WRITE whose line ends beyond byte `n`, as the machine was when it had
fetched that WRITE, and its sink holds the first `n` bytes of the output. -/
theorem run_of_room (b : Bench StreamConsole) (refusesFlush : Bool) (n patience : Nat)
    (limit : Option Nat) :
    let full := b.printingTo { refusesFlush }
    let limited := b.printingTo { refusesFlush, room := some n }
    let output := Console.lines (full.runEmissions patience limit)
    (∀ r c, full.run patience limit = some (r, c) → c.console.sink.text = output) ∧
    ((bytesOf output).length ≤ n → limited.run patience limit =
      (full.run patience limit).map fun x => (x.1, x.2.printingTo
        { x.2.console.sink with room := some (n - (bytesOf output).length) })) ∧
    (n < (bytesOf output).length → ∃ j w v c,
      limited.run patience limit = some (.error (.io "sink full"), c) ∧ full.CutOff n j w v c ∧
        bytesOf c.console.sink.text = (bytesOf output).take n) := by
  intro full limited output
  have hroom : full.console.sink.room = none := rfl
  have hempty : full.console.sink.text = "" := rfl
  have hlimited : limited = full.keep n := (keep_of_le (b := full) (Nat.zero_le n)).symm
  have houtput : ∀ r c, full.run patience limit = some (r, c) → c.console.sink.text = output := by
    intro r c hrun
    rw [text_run hroom hrun, hempty, String.empty_append]
  have hbytes : (bytesOf output).length = output.length := Console.length_bytesOf_lines _
  refine ⟨houtput, ?_, ?_⟩
  · intro hfits
    rw [hbytes] at hfits ⊢
    have hend : (full.after (full.begun (limit.getD patience))).console.sink.text.length ≤ n := by
      rw [text_after_of_empty hroom hempty]
      exact hfits
    rw [hlimited, run_keep hroom hend]
    refine Option.map_congr ?_
    rintro ⟨r, c⟩ hc
    rw [← houtput r c hc] at hfits ⊢
    rw [keep_of_le hfits]
  · intro hexceeds
    rw [hbytes] at hexceeds
    obtain ⟨j, w, v, c, hrun, hcut, htext⟩ := exists_cutOff hroom hempty hexceeds
    refine ⟨j, w, v, c, hlimited ▸ hrun, hcut, ?_⟩
    rw [htext]
    exact Tokens.bytesOf_take (Console.isAscii_lines _) n

/-- A program writes `7` and `1234` and halts.  In four bytes there is room for the first line and half of
the second number, so the second WRITE fails; seven bytes are just enough for both lines. -/
theorem run_of_room_of_two_lines :
    let b : Bench StreamConsole :=
      ⟨{ registers := .powerOn, memory := ⟨#[0x4006, 0x4008, 0xF000, 7, 1234]⟩ },
        { script := [] }, #[]⟩
    let full := b.printingTo {}
    (∃ j w v c, (b.printingTo { room := some 4 }).run 3 none =
        some (.error (.io "sink full"), c) ∧ full.CutOff 4 j w v c ∧
        bytesOf c.console.sink.text = [0x37, 0x0A, 0x31, 0x32]) ∧
      (b.printingTo { room := some 7 }).run 3 none = (full.run 3 none).map fun x =>
        (x.1, x.2.printingTo { x.2.console.sink with room := some 0 }) := by
  intro b full
  have houtput : bytesOf (Console.lines (full.runEmissions 3 none)) =
      [0x37, 0x0A, 0x31, 0x32, 0x33, 0x34, 0x0A] := by
    decide +kernel
  obtain ⟨-, -, hcut⟩ := run_of_room b false 4 3 none
  obtain ⟨-, hsame, -⟩ := run_of_room b false 7 3 none
  have hlimited := hsame (Nat.le_of_eq (congrArg List.length houtput))
  rw [houtput] at hcut hlimited
  exact ⟨hcut (by decide), hlimited⟩

end Bench

end WordMachine
