import WordMachine.Bench.Basic
import WordMachine.Host.Directory

/-!
# Loading programs

A program is the words that the input tokens spell up to and including the first zero word; if
there is none, all of them.  It goes to the start of memory, the zero word with it, and the tokens
after it stay for READ.  Loading is all or nothing: a program that is too large changes no word.

A console may go on with words that are not zero forever, and then loading does not end.  Like a run
without a limit it is observed, for as many calls for a token as the observer has patience.  A console
whose input ends gives an answer in any case, and that is the one of `Program.read` and `Bench.load`.
-/

namespace WordMachine

/-! ### Reading programs -/

namespace Program

/-- The word that ends a program. -/
def sentinel : Word := 0

section Observed

variable {κ : Type} [Console κ]

/-- Reads the words that follow `before` in a program, if `patience` calls for a token are enough. -/
def readWithin (before : Array Word) : Nat → κ → Option (Except Failure (List Word) × κ)
  | 0, _ => none
  | patience + 1, k =>
    match Console.readToken k with
    | (.error e, k') => some (.error e, k')
    | (.ok none, k') => some (.ok before.toList, k')
    | (.ok (some token), k') =>
      let w := Word.ofToken token
      if w = sentinel then
        some (.ok (before.push w).toList, k')
      else
        readWithin (before.push w) patience k'

end Observed

variable {κ : Type} [FiniteConsole κ]

/-- A console whose input ends does not ask for more patience than it has tokens. -/
theorem isSome_readWithin (before : Array Word) {patience : Nat} {k : κ}
    (h : FiniteConsole.remaining k < patience) : (readWithin before patience k).isSome = true := by
  induction patience generalizing before k with
  | zero => cases h
  | succ patience ih =>
    rw [readWithin]
    rcases hcall : Console.readToken k with ⟨e | _ | token, k'⟩
    · rfl
    · rfl
    · have hless : FiniteConsole.remaining k' < FiniteConsole.remaining k :=
        FiniteConsole.remaining_readToken k k' token hcall
      dsimp only
      split
      · rfl
      · exact ih _ (Nat.lt_of_lt_of_le hless (Nat.le_of_lt_succ h))

/-- Reads the words that follow `before` in a program. -/
def readAfter (before : Array Word) (k : κ) : Except Failure (List Word) × κ :=
  (readWithin before (FiniteConsole.remaining k + 1) k).get
    (isSome_readWithin before (Nat.lt_succ_self _))

theorem readWithin_remaining (before : Array Word) (k : κ) :
    readWithin before (FiniteConsole.remaining k + 1) k = some (readAfter before k) :=
  (Option.some_get _).symm

/-- Reads a program. -/
def read (k : κ) : Except Failure (List Word) × κ :=
  readAfter #[] k

/-- What the log gets to know of a program that has been read. -/
def readEvent (words : List Word) : Event :=
  if words.getLast? = some sentinel then
    .sentinelReached words.length
  else
    .inputEnded words.length

/-- Reads a program from what was opened. -/
def ofOpened (o : Opened) : Except Failure (List Word) :=
  match o.script with
  | .error why => .error why.failure
  | .ok script => (read ({ script } : StreamConsole)).1

end Program

namespace Bench

variable {κ : Type}

/-- Goes on from what reading a program has come to, with the console as it then is. -/
def noteRead (b : Bench κ) :
    Except Failure (List Word) × κ → Except Failure (List Word) × Bench κ
  | (.error e, console) => (.error e, { b with console })
  | (.ok words, console) => (.ok words, { b with console }.note (Program.readEvent words))

/-- Copies an image to the start of memory and returns its length. -/
def loadImage (b : Bench κ) (image : List Word) : Except Failure Nat × Bench κ :=
  match b.machine.memory.loadImage image with
  | .error e => (.error e, b)
  | .ok memory => (.ok image.length, { b with machine := { b.machine with memory } })

/-- Copies a program to the start of memory, if it has been read. -/
def storeRead : Except Failure (List Word) × Bench κ → Except Failure Nat × Bench κ
  | (.error e, b) => (.error e, b)
  | (.ok words, b) => b.loadImage words

/-- Enters the length of a loaded program into the tally and the log. -/
def noteLoaded (b : Bench κ) (words : Nat) : Bench κ :=
  let tally := { b.machine.tally with wordsLoaded := words }
  { b with machine := { b.machine with tally } }.note (.programLoaded words)

/-- Enters a program into the tally and the log, if it has been loaded. -/
def noteLoad : Except Failure Nat × Bench κ → Except Failure Nat × Bench κ
  | (.error e, b) => (.error e, b)
  | (.ok words, b) => (.ok words, b.noteLoaded words)

/-- Stores what reading a program has come to, and makes the entries. -/
def finishLoad (b : Bench κ) (read : Except Failure (List Word) × κ) :
    Except Failure Nat × Bench κ :=
  noteLoad (storeRead (b.noteRead read))

/-- What loading a program comes to, if `patience` calls for a token are enough. -/
def loadWithin [Console κ] (patience : Nat) (b : Bench κ) :
    Option (Except Failure Nat × Bench κ) :=
  (Program.readWithin #[] patience b.console).map b.finishLoad

variable [FiniteConsole κ]

/-- Reads a program from the console. -/
def readProgram (b : Bench κ) : Except Failure (List Word) × Bench κ :=
  b.noteRead (Program.read b.console)

/-- Reads a program into memory and returns its length. -/
def loadProgram (b : Bench κ) : Except Failure Nat × Bench κ :=
  storeRead b.readProgram

/-- Loads a program and returns its length. -/
def load (b : Bench κ) : Except Failure Nat × Bench κ :=
  noteLoad b.loadProgram

theorem load_eq (b : Bench κ) : b.load = b.finishLoad (Program.read b.console) := rfl

/-- With patience for all tokens of the console that is what loading comes to. -/
theorem loadWithin_remaining (b : Bench κ) :
    b.loadWithin (FiniteConsole.remaining b.console + 1) = some b.load :=
  congrArg (Option.map b.finishLoad) (Program.readWithin_remaining #[] b.console)

/-- Runs the machine under the limit that the settings give. -/
def runUnder (patience : Nat) (s : Settings) (b : Bench κ) :
    Option (Except Failure Nat × Bench κ) :=
  (b.run patience s.stepLimit).map noteAbort

/-- The note on a failed run concerns the log alone. -/
theorem runUnder_eq_some {patience : Nat} {s : Settings} {b b' : Bench κ} {r : Except Failure Nat}
    (h : b.runUnder patience s = some (r, b')) :
    ∃ b₀, b.run patience s.stepLimit = some (r, b₀) ∧ b'.machine = b₀.machine ∧
      b'.console = b₀.console := by
  obtain ⟨⟨r₀, b₀⟩, hrun, hnote⟩ := Option.map_eq_some_iff.mp h
  cases r₀ <;> cases hnote <;> exact ⟨_, hrun, rfl, rfl⟩

/-- Loads a program and runs it. -/
def loadAndRun (patience : Nat) (s : Settings) (b : Bench κ) :
    Option (Except Failure Nat × Bench κ) :=
  match b.load with
  | (.error e, b) => some (.error e, b)
  | (.ok _, b) => b.runUnder patience s

end Bench

end WordMachine
