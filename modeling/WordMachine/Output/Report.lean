import WordMachine.Machine.Tally
import WordMachine.Host.Sink
import WordMachine.Text.Rounding

/-!
# Reports of a tally

A report shows a tally in up to three sections between bars.  A share of the instructions is a
percentage with two places.  It is computed in double precision: both counts, their quotient and its
hundredfold are each rounded to 53 binary digits, and what comes out is rounded to hundredths.
-/

namespace WordMachine

/-! ### Percentages -/

namespace Percentage

/-- The share `count / total` in hundredths of a percent. -/
def hundredths (count total : Nat) : Nat :=
  let part := (Quotient.ofNat count).significant
  let whole := (Quotient.ofNat total).significant
  let share := (part.div whole).significant
  let percent := (share.mul (.ofNat 100)).significant
  (percent.mul (.ofNat 100)).nearest

/-- The share `count / total` as a percentage with two places. -/
def render (count total : Nat) : String :=
  let h := hundredths count total
  Numeral.decimal (h / 100) ++ "." ++ Numeral.decimalPadded 2 (h % 100) ++ "%"

end Percentage

/-! ### Sections -/

namespace Report

open Printer Numeral

/-- The sections of a report. -/
inductive Section where
  | summary
  | instructionMix
  | control
deriving DecidableEq, Repr

/-- The name of a section. -/
def Section.name : Section → String
  | summary => "summary"
  | instructionMix => "instruction_mix"
  | control => "control"

/-- The names of all sections. -/
def sectionNames : List String :=
  [Section.summary, .instructionMix, .control].map Section.name

/-- Whether a section is asked for.  No names at all ask for every section. -/
def wanted (names : List String) (s : Section) : Bool :=
  names.isEmpty || names.contains s.name

/-- The bar above and below a report. -/
def bar : String :=
  "".pushn '=' 58

/-- The rule below a section. -/
def rule : String :=
  "".pushn '-' 58

/-- The name of a category in a report. -/
def categoryName : Category → String
  | .data => "op.data"
  | .io => "op.io"
  | .arithmetic => "op.arith"
  | .jump => "op.jump"
  | .other => "op.other"

/-- The line of a category: its name in 22 columns, its count and its share of all instructions. -/
def categoryLine (t : Tally) (c : Category) : String :=
  let name := categoryName c
  "  " ++ name ++ "".pushn ' ' (22 - name.length) ++ " " ++ decimal (t.count c) ++ " (" ++
    Percentage.render (t.count c) (max t.instructions 1) ++ ")"

/-- Prints the time that the host has spent and how much was loaded and executed. -/
def summary (elapsed : String) (t : Tally) : Printer Unit := do
  putLine ("host_seconds             " ++ elapsed ++ " s")
  putLine ("sim_words_loaded         " ++ decimal t.wordsLoaded)
  putLine ("sim_insts                " ++ decimal t.instructions)
  putLine rule

/-- Prints the instructions by category. -/
def instructionMix (t : Tally) : Printer Unit := do
  putLine "INSTRUCTION MIX"
  putLines ([Category.data, .io, .arithmetic, .jump, .other].map (categoryLine t))
  putLine rule

/-- Prints the outcomes of the jumps. -/
def control (t : Tally) : Printer Unit := do
  putLine "CONTROL FLOW"
  putLine ("  jumps.taken            " ++ decimal t.jumpsTaken)
  putLine ("  jumps.not_taken        " ++ decimal t.jumpsNotTaken)

/-- Prints a report of the sections named, `elapsed` being the time that the host has spent. -/
def print (elapsed : String) (names : List String) (t : Tally) : Printer Unit := do
  putLine bar
  putLine "VSM SIMULATION STATISTICS"
  putLine bar
  if wanted names .summary then
    summary elapsed t
  if wanted names .instructionMix then
    instructionMix t
  if wanted names .control then
    control t
  putLine bar

end Report

end WordMachine
