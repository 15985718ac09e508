import WordMachine.Failure

/-!
# Consoles

A console is the one peripheral of the machine: it hands out input tokens and takes output values.
The loader and READ draw on the same tokens, so READ goes on where the loader stopped.

The machine works with any console.  Loading reads tokens until it meets a zero word, which ends
only if the input does; a console with finite input says how much is left.
-/

namespace WordMachine

/-- The operations of a console.  Each leaves a console behind also when it fails. -/
class Console (κ : Type) where
  /-- The next token, or none when the input has ended. -/
  readToken : κ → Except Failure (Option String) × κ
  /-- Writes a value as a decimal line. -/
  writeValue : κ → Word → Except Failure Unit × κ
  /-- Flushes the output. -/
  flush : κ → Except Failure Unit × κ

/-- A console whose input ends: every token that it hands out lowers what remains. -/
class FiniteConsole (κ : Type) extends Console κ where
  /-- A bound on the number of tokens still to come. -/
  remaining : κ → Nat
  remaining_readToken : ∀ (k k' : κ) (token : String),
    readToken k = (.ok (some token), k') → remaining k' < remaining k

namespace Console

/-- The line that shows a value. -/
def valueLine (w : Word) : String :=
  Numeral.decimal w.toNat ++ "\n"

end Console

end WordMachine
