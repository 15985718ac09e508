import WordMachine.Proofs.Mirror

/-!
# Only the words of the input matter

Tokens can be spelled in many ways, and they can come from a stream, in any chunks and with any
blanks between them, or from a queue.  The machine sees no difference: a run depends on the words
that the tokens spell and on nothing else.

Two consoles have the `SameWords` if their supplies spell the same words and their outputs, which
accept everything, hold the same text; two benches are `Bench.Alike` if beside this their machines
and logs are equal.  Such consoles answer every call alike (`mirrors_sameWords`), so alike benches stay
alike when a program is loaded and run, whatever the program is (`Bench.Alike.loadAndRun`).  The main
statement, `Input.loadAndRun_eq_of_spells`, says this of all inputs there are.
-/

namespace WordMachine

/-! ### Outputs that accept everything -/

/-- A sink that accepts everything it is given. -/
def Sink.IsOpen (k : Sink) : Prop :=
  k.room = none ∧ k.refusesFlush = false

theorem Sink.IsOpen.write {k : Sink} (h : k.IsOpen) (s : String) :
    (k.write s).1 = .ok () ∧ (k.write s).2.IsOpen ∧ (k.write s).2.text = k.text ++ s := by
  obtain ⟨hroom, hflush⟩ := h
  rw [Sink.write, hroom]
  exact ⟨rfl, ⟨rfl, hflush⟩, rfl⟩

theorem Sink.IsOpen.flush {k : Sink} (h : k.IsOpen) :
    k.flush.1 = .ok () ∧ k.flush.2.IsOpen ∧ k.flush.2.text = k.text := by
  obtain ⟨hroom, hflush⟩ := h
  refine ⟨?_, ⟨hroom, hflush⟩, rfl⟩
  rw [Sink.flush, hflush]
  rfl

/-- Consoles whose output can be followed. -/
class OutputAccount (κ : Type) [Console κ] where
  /-- The text put out so far. -/
  output : κ → String
  /-- The output accepts everything. -/
  IsOpen : κ → Prop
  readToken_of_isOpen : ∀ {k : κ}, IsOpen k →
    IsOpen (Console.readToken k).2 ∧ output (Console.readToken k).2 = output k
  writeValue_of_isOpen : ∀ {k : κ} (w : Word), IsOpen k →
    (Console.writeValue k w).1 = .ok () ∧ IsOpen (Console.writeValue k w).2 ∧
      output (Console.writeValue k w).2 = output k ++ Console.valueLine w
  flush_of_isOpen : ∀ {k : κ}, IsOpen k →
    (Console.flush k).1 = .ok () ∧ IsOpen (Console.flush k).2 ∧
      output (Console.flush k).2 = output k

open OutputAccount

/-- Reading lines has nothing to do with the output. -/
theorem StreamConsole.sink_fill (c : StreamConsole) : c.fill.2.sink = c.sink := by
  fun_induction StreamConsole.fill c with
  | case1 => rfl
  | case2 => rfl
  | case3 c hwant line rest hread hempty ih => exact ih
  | case4 => rfl

theorem StreamConsole.sink_readToken (c : StreamConsole) : c.readToken.2.sink = c.sink := by
  rw [← c.sink_fill, readToken]
  rcases hfill : c.fill with ⟨e | _, c'⟩
  · rfl
  · cases hpending : c'.pending <;> simp only [hpending]

theorem TokenQueue.sink_readToken (q : TokenQueue) : q.readToken.2.sink = q.sink := by
  rw [readToken]
  cases q.tokens <;> rfl

instance : OutputAccount StreamConsole where
  output c := c.sink.text
  IsOpen c := c.sink.IsOpen
  readToken_of_isOpen {c} h := by
    have hsink : (Console.readToken c).2.sink = c.sink := c.sink_readToken
    rw [hsink]
    exact ⟨h, rfl⟩
  writeValue_of_isOpen w h := h.write (Console.valueLine w)
  flush_of_isOpen h := h.flush

instance : OutputAccount TokenQueue where
  output q := q.sink.text
  IsOpen q := q.sink.IsOpen
  readToken_of_isOpen {q} h := by
    have hsink : (Console.readToken q).2.sink = q.sink := q.sink_readToken
    rw [hsink]
    exact ⟨h, rfl⟩
  writeValue_of_isOpen w h := h.write (Console.valueLine w)
  flush_of_isOpen h := ⟨rfl, h, rfl⟩

/-- Reading a program puts nothing out. -/
theorem Program.readAfter_of_isOpen {κ : Type} [FiniteConsole κ] [OutputAccount κ] {k : κ}
    (h : IsOpen k) (before : Array Word) :
    IsOpen (readAfter before k).2 ∧ output (readAfter before k).2 = output k := by
  refine readAfter_kept (P := fun k' : κ => OutputAccount.IsOpen k' ∧ output k' = output k) ?_
    ⟨h, rfl⟩ before
  rintro k' ⟨hopen, houtput⟩
  obtain ⟨hopen', houtput'⟩ := readToken_of_isOpen hopen
  exact ⟨hopen', houtput'.trans houtput⟩

/-! ### Consoles with the same words -/

section SameWords

variable {κ₁ κ₂ : Type} [FiniteConsole κ₁] [TokenSupply κ₁] [OutputAccount κ₁] [FiniteConsole κ₂]
  [TokenSupply κ₂] [OutputAccount κ₂]

/-- The tokens to come spell the same words, and the same text has been put out. -/
def SameWords (k₁ : κ₁) (k₂ : κ₂) : Prop :=
  (∃ tokens₁ tokens₂, Supplies k₁ tokens₁ ∧ Supplies k₂ tokens₂ ∧
    tokens₁.map Word.ofToken = tokens₂.map Word.ofToken) ∧
  IsOpen k₁ ∧ IsOpen k₂ ∧ output k₁ = output k₂

variable {k₁ : κ₁} {k₂ : κ₂}

/-- Either both consoles have no token, or both hand out a token that spells the same word. -/
theorem SameWords.readToken (h : SameWords k₁ k₂) :
    ∃ token₁ token₂ k₁' k₂', Console.readToken k₁ = (.ok token₁, k₁') ∧
      Console.readToken k₂ = (.ok token₂, k₂') ∧
      token₁.map Word.ofToken = token₂.map Word.ofToken ∧ SameWords k₁' k₂' := by
  obtain ⟨⟨tokens₁, tokens₂, h₁, h₂, hwords⟩, hopen₁, hopen₂, houtput⟩ := h
  obtain ⟨hresult₁, hrest₁⟩ := TokenSupply.readToken_of_supplies h₁
  obtain ⟨hresult₂, hrest₂⟩ := TokenSupply.readToken_of_supplies h₂
  obtain ⟨hopen₁', houtput₁⟩ := readToken_of_isOpen hopen₁
  obtain ⟨hopen₂', houtput₂⟩ := readToken_of_isOpen hopen₂
  refine ⟨_, _, _, _, Prod.ext hresult₁ rfl, Prod.ext hresult₂ rfl, ?_,
    ⟨tokens₁.tail, tokens₂.tail, hrest₁, hrest₂, ?_⟩, hopen₁', hopen₂', ?_⟩
  · rw [← List.head?_map, ← List.head?_map, hwords]
  · rw [List.map_tail, List.map_tail, hwords]
  · rw [houtput₁, houtput₂, houtput]

/-- Both consoles take a value. -/
theorem SameWords.writeValue (h : SameWords k₁ k₂) (w : Word) :
    ∃ k₁' k₂', Console.writeValue k₁ w = (.ok (), k₁') ∧
      Console.writeValue k₂ w = (.ok (), k₂') ∧ SameWords k₁' k₂' := by
  obtain ⟨⟨tokens₁, tokens₂, h₁, h₂, hwords⟩, hopen₁, hopen₂, houtput⟩ := h
  obtain ⟨hresult₁, hopen₁', houtput₁⟩ := writeValue_of_isOpen w hopen₁
  obtain ⟨hresult₂, hopen₂', houtput₂⟩ := writeValue_of_isOpen w hopen₂
  refine ⟨_, _, Prod.ext hresult₁ rfl, Prod.ext hresult₂ rfl,
    ⟨tokens₁, tokens₂, TokenSupply.supplies_writeValue w h₁,
      TokenSupply.supplies_writeValue w h₂, hwords⟩, hopen₁', hopen₂', ?_⟩
  rw [houtput₁, houtput₂, houtput]

/-- Both consoles can be flushed. -/
theorem SameWords.flush (h : SameWords k₁ k₂) :
    ∃ k₁' k₂', Console.flush k₁ = (.ok (), k₁') ∧ Console.flush k₂ = (.ok (), k₂') ∧
      SameWords k₁' k₂' := by
  obtain ⟨⟨tokens₁, tokens₂, h₁, h₂, hwords⟩, hopen₁, hopen₂, houtput⟩ := h
  obtain ⟨hresult₁, hopen₁', houtput₁⟩ := flush_of_isOpen hopen₁
  obtain ⟨hresult₂, hopen₂', houtput₂⟩ := flush_of_isOpen hopen₂
  refine ⟨_, _, Prod.ext hresult₁ rfl, Prod.ext hresult₂ rfl,
    ⟨tokens₁, tokens₂, TokenSupply.supplies_flush h₁, TokenSupply.supplies_flush h₂, hwords⟩,
    hopen₁', hopen₂', ?_⟩
  rw [houtput₁, houtput₂, houtput]

/-- The words may be told in the other order. -/
theorem SameWords.symm (h : SameWords k₁ k₂) : SameWords k₂ k₁ := by
  obtain ⟨⟨tokens₁, tokens₂, h₁, h₂, hwords⟩, hopen₁, hopen₂, houtput⟩ := h
  exact ⟨⟨tokens₂, tokens₁, h₂, h₁, hwords.symm⟩, hopen₂, hopen₁, houtput.symm⟩

/-- Consoles with the same words answer alike. -/
theorem mirrors_sameWords :
    Console.Mirrors (fun (k₁ : κ₁) (k₂ : κ₂) => SameWords k₁ k₂) fun _ => False where
  readWord {k₁ k₂} h := by
    right
    obtain ⟨token₁, token₂, k₁', k₂', hcall₁, hcall₂, hword, hrest⟩ := h.readToken
    rw [Console.readWord, Console.readWord, hcall₁, hcall₂]
    refine ⟨_, _, _, rfl, ?_, hrest⟩
    rw [Except.map, Except.map, hword]
  writeValue w h := by
    obtain ⟨k₁', k₂', hcall₁, hcall₂, hrest⟩ := h.writeValue w
    exact ⟨_, _, _, hcall₁, hcall₂, hrest⟩
  flush h := by
    obtain ⟨k₁', k₂', hcall₁, hcall₂, hrest⟩ := h.flush
    exact ⟨_, _, _, hcall₁, hcall₂, hrest⟩
  lost := .never

/-! ### Benches that are alike -/

namespace Bench

/-- The benches differ at most in their consoles, and these have the same words. -/
structure Alike (b₁ : Bench κ₁) (b₂ : Bench κ₂) : Prop where
  machine : b₁.machine = b₂.machine
  log : b₁.log = b₂.log
  console : SameWords b₁.console b₂.console

variable {b₁ : Bench κ₁} {b₂ : Bench κ₂}

theorem Alike.symm (h : Alike b₁ b₂) : Alike b₂ b₁ :=
  ⟨h.machine.symm, h.log.symm, h.console.symm⟩

/-- What loading and running comes to on one of two alike benches it comes to on the other, and leaves
them alike. -/
theorem Alike.loadAndRun (h : Alike b₁ b₂) {patience : Nat} {s : Settings}
    {r : Except Failure Nat} {c₁ : Bench κ₁} (hrun : b₁.loadAndRun patience s = some (r, c₁)) :
    ∃ c₂, b₂.loadAndRun patience s = some (r, c₂) ∧ Alike c₁ c₂ := by
  have hover : b₁.Over (fun k₁ k₂ => SameWords k₁ k₂) b₂ := ⟨h.machine, h.log, h.console⟩
  obtain ⟨c₂, hrun₂, hrest⟩ := (mirrors_sameWords.loadAndRun hover hrun).resolve_left id
  exact ⟨c₂, hrun₂, hrest.machine, hrest.log, hrest.console⟩

/-- Benches that are set up in the same way are alike if their consoles have the same words. -/
theorem alike_of_supplies {tokens₁ tokens₂ : List String} (h₁ : Supplies k₁ tokens₁)
    (h₂ : Supplies k₂ tokens₂) (hwords : tokens₁.map Word.ofToken = tokens₂.map Word.ofToken)
    (hopen₁ : IsOpen k₁) (hopen₂ : IsOpen k₂) (houtput : output k₁ = output k₂) (m : Machine)
    (log : Array Event) :
    Alike { machine := m, console := k₁, log } { machine := m, console := k₂, log } :=
  ⟨rfl, rfl, ⟨tokens₁, tokens₂, h₁, h₂, hwords⟩, hopen₁, hopen₂, houtput⟩

end Bench

end SameWords

/-! ### Inputs -/

/-- All that a run comes to, but for what is left in the console. -/
structure Sighting where
  result : Except Failure Nat
  machine : Machine
  log : Array Event
  /-- The text put out. -/
  output : String

/-- What is seen of a run in the end. -/
def Bench.sight {κ : Type} [Console κ] [OutputAccount κ] (x : Except Failure Nat × Bench κ) :
    Sighting where
  result := x.1
  machine := x.2.machine
  log := x.2.log
  output := output x.2.console

/-- Loading and running is seen to be the same on alike benches. -/
theorem Bench.Alike.sight_loadAndRun {κ₁ κ₂ : Type} [FiniteConsole κ₁] [TokenSupply κ₁]
    [OutputAccount κ₁] [FiniteConsole κ₂] [TokenSupply κ₂] [OutputAccount κ₂] {b₁ : Bench κ₁}
    {b₂ : Bench κ₂} (h : Alike b₁ b₂) (patience : Nat) (s : Settings) :
    (b₁.loadAndRun patience s).map sight = (b₂.loadAndRun patience s).map sight := by
  cases hrun₁ : b₁.loadAndRun patience s with
  | some x =>
    obtain ⟨c₂, hrun₂, hmachine, hlog, -, -, -, houtput⟩ := h.loadAndRun hrun₁
    rw [hrun₂, Option.map_some, Option.map_some, sight, sight, hmachine, hlog, houtput]
  | none =>
    cases hrun₂ : b₂.loadAndRun patience s with
    | none => rfl
    | some y =>
      obtain ⟨c₁, hsome, -⟩ := h.symm.loadAndRun hrun₂
      rw [hrun₁] at hsome
      cases hsome

/-- Where the tokens of a run come from, when none of them has been handed out. -/
inductive Input where
  /-- A byte stream, which arrives as the script tells. -/
  | stream (script : Script)
  /-- Given tokens, of any length and with any characters. -/
  | queue (tokens : List String)
deriving DecidableEq, Repr

namespace Input

/-- The input is free of errors, and its tokens spell these words. -/
inductive Spells : Input → List Word → Prop where
  | stream {script : Script} {bytes : List UInt8} {words : List Word} (h : script.Delivers bytes)
      (hwords : (Tokens.split bytes).map Word.ofToken = words) : Spells (stream script) words
  | queue {tokens : List String} {words : List Word} (hwords : tokens.map Word.ofToken = words) :
      Spells (queue tokens) words

/-- Loads and runs a program on a machine with a console that takes this input, and whose output
accepts everything. -/
def loadAndRun (patience : Nat) (s : Settings) (m : Machine) : Input → Option Sighting
  | stream script =>
    (Bench.loadAndRun patience s
      { machine := m, console := ({ script, sink := {} } : StreamConsole) }).map Bench.sight
  | queue tokens =>
    (Bench.loadAndRun patience s
      { machine := m, console := ({ tokens, sink := {} } : TokenQueue) }).map Bench.sight

/-- Two inputs that spell the same words come to the same by loading and running, under any settings
and on any machine: the same result, the same machine in every part, the same log and the same
output.  Blanks, lines, chunks and the lengths of tokens do not count, and neither does the
character that stands for a zero. -/
theorem loadAndRun_eq_of_spells {i j : Input} {words : List Word} (hi : i.Spells words)
    (hj : j.Spells words) (patience : Nat) (s : Settings) (m : Machine) :
    i.loadAndRun patience s m = j.loadAndRun patience s m := by
  have hstream : ∀ script, IsOpen ({ script, sink := {} } : StreamConsole) :=
    fun _ => ⟨rfl, rfl⟩
  have hqueue : ∀ tokens, IsOpen ({ tokens, sink := {} } : TokenQueue) := fun _ => ⟨rfl, rfl⟩
  have hgiven : ∀ tokens, Supplies ({ tokens, sink := {} } : TokenQueue) tokens := fun _ => rfl
  cases hi with
  | @stream script _ _ h hwords =>
    have hsupply := StreamConsole.yields_of_delivers {} h
    cases hj with
    | @stream script' _ _ h' hwords' =>
      have hsupply' := StreamConsole.yields_of_delivers {} h'
      exact (Bench.alike_of_supplies hsupply hsupply' (hwords.trans hwords'.symm) (hstream script)
        (hstream script') rfl m #[]).sight_loadAndRun patience s
    | queue hwords' =>
      exact (Bench.alike_of_supplies hsupply (hgiven _) (hwords.trans hwords'.symm) (hstream _)
        (hqueue _) rfl m #[]).sight_loadAndRun patience s
  | queue hwords =>
    cases hj with
    | stream h' hwords' =>
      have hsupply' := StreamConsole.yields_of_delivers {} h'
      exact (Bench.alike_of_supplies (hgiven _) hsupply' (hwords.trans hwords'.symm) (hqueue _)
        (hstream _) rfl m #[]).sight_loadAndRun patience s
    | queue hwords' =>
      exact (Bench.alike_of_supplies (hgiven _) (hgiven _) (hwords.trans hwords'.symm) (hqueue _)
        (hqueue _) rfl m #[]).sight_loadAndRun patience s

/-- A run of bytes that a read cuts and given tokens, one of them too long and two of them with
other characters than digits, spell the same three words. -/
theorem loadAndRun_eq_of_odd_tokens :
    (stream [.bytes [0x31, 0x78], .interrupted, .bytes [0x0D, 0x0A, 0x20],
      .bytes (List.replicate 18 0x31)]).Spells [2, 0xFFFF, 3] ∧
    (queue ["000000000000001011", "1111111111111111", "é11"]).Spells [2, 0xFFFF, 3] ∧
    ∀ patience s m,
      loadAndRun patience s m (stream [.bytes [0x31, 0x78], .interrupted,
        .bytes [0x0D, 0x0A, 0x20], .bytes (List.replicate 18 0x31)]) =
      loadAndRun patience s m (queue ["000000000000001011", "1111111111111111", "é11"]) := by
  have hstream : (stream [.bytes [0x31, 0x78], .interrupted, .bytes [0x0D, 0x0A, 0x20],
      .bytes (List.replicate 18 0x31)]).Spells [2, 0xFFFF, 3] :=
    .stream (.bytes (by decide) (.interrupted (.bytes (by decide) (.bytes (by decide) .nil))))
      (by decide +kernel)
  have hqueue : (queue ["000000000000001011", "1111111111111111", "é11"]).Spells [2, 0xFFFF, 3] :=
    .queue (by decide +kernel)
  exact ⟨hstream, hqueue, loadAndRun_eq_of_spells hstream hqueue⟩

end Input

end WordMachine
