import WordMachine.Word

/-!
# Failures

Loading and running a program can fail in the machine, in the host that serves its input and
output, or in the configuration.  A failure of the machine is an outcome of the program: its state
at that point is well defined and worth showing.  The other failures are not the program's.
-/

namespace WordMachine

/-- The causes of a failure. -/
inductive Failure where
  /-- A fetch, a data access, a load or a dump needed a word outside memory. -/
  | memoryOutOfBounds (index : WordIndex) (capacity : Nat)
  /-- DIV or MOD met a zero divisor. -/
  | divisionByZero (pc : WordIndex)
  /-- READ found no token left. -/
  | inputExhausted (pc : WordIndex)
  /-- The machine had not halted after the allowed number of instructions. -/
  | stepLimitExceeded (limit : Nat)
  /-- Reading input or writing output failed outside the machine. -/
  | io (text : String)
  /-- The configuration can be read but not used. -/
  | invalidSettings (text : String)
  /-- The configuration is no text of the expected form. -/
  | malformedSettings (text : String)
deriving DecidableEq, Repr

namespace Failure

/-- The failures that the running program itself causes. -/
def isMachineFault : Failure → Bool
  | memoryOutOfBounds .. | divisionByZero .. | inputExhausted .. | stepLimitExceeded .. => true
  | io .. | invalidSettings .. | malformedSettings .. => false

/-- The text shown for a failure. -/
def message : Failure → String
  | memoryOutOfBounds index capacity =>
    "memory index " ++ index.text ++ " out of bounds (capacity " ++ Numeral.decimal capacity ++
      " words)"
  | divisionByZero pc => "division by zero at pc " ++ pc.text
  | inputExhausted pc => "input exhausted by READ at pc " ++ pc.text
  | stepLimitExceeded limit =>
    "step limit of " ++ Numeral.decimal limit ++ " instructions exceeded"
  | io text => "i/o error: " ++ text
  | invalidSettings text => "invalid configuration: " ++ text
  | malformedSettings text => "could not parse configuration: " ++ text

end Failure

end WordMachine
