import WordMachine.Failure

/-!
# Settings of a machine

The settings fix the size of memory, two segments of it that a dump shows, an optional limit on the
number of instructions, and whether instructions are traced.  The machine itself knows no segments;
a layout is *valid* when a dump can show both of them in full rows of ten words.
-/

namespace WordMachine

/-- The number of words in a row of a dump. -/
def wordsPerRow : Nat := 10

/-- The greatest size of memory that is accepted: what a byte address of twelve bits could hold if
it counted words. -/
def maxCapacity : Nat := 0x1000

/-! ### The stock machine -/

namespace Stock

/-- The number of words of memory. -/
def capacity : Nat := 2048

/-- The first word of the code segment. -/
def codeStart : WordIndex := 0

/-- The number of words of the code segment. -/
def codeLength : Nat := 100

/-- The first word of the data segment. -/
def dataStart : WordIndex := 1024

/-- The number of words of the data segment. -/
def dataLength : Nat := 100

end Stock

/-! ### Layouts -/

/-- A block of words of memory. -/
structure Segment where
  /-- The index of the first word. -/
  start : WordIndex
  /-- The number of words. -/
  length : Nat
deriving DecidableEq, Repr

/-- The index after the last word of a segment, if it is below the bound of all sizes. -/
def Segment.end? (s : Segment) : Option Nat :=
  if s.start + s.length < sizeBound then some (s.start + s.length) else none

/-- The size of memory and the two segments that a dump shows.  Where nothing else is said, they are those
of the stock machine. -/
structure Layout where
  capacity : Nat := Stock.capacity
  code : Segment := ⟨Stock.codeStart, Stock.codeLength⟩
  data : Segment := ⟨Stock.dataStart, Stock.dataLength⟩
deriving DecidableEq, Repr

/-- What can be wrong with a layout. -/
inductive Layout.Problem where
  /-- The size of memory is zero or too large. -/
  | capacity (got : Nat)
  /-- The length of a segment is not a number of full rows. -/
  | partialRow (name : String) (length : Nat)
  /-- The end of a segment is no size. -/
  | overflow (name : String) (start length : Nat)
  /-- A segment ends outside memory. -/
  | outside (name : String) (start stop capacity : Nat)
deriving DecidableEq, Repr

open Numeral in
/-- The text shown for a problem. -/
def Layout.Problem.message : Layout.Problem → String
  | capacity got =>
    "memory capacity must be between 1 and " ++ decimal maxCapacity ++ " words, got " ++ decimal got
  | partialRow name length =>
    name ++ " segment length " ++ decimal length ++ " is not a multiple of " ++ decimal wordsPerRow
  | overflow name start length =>
    name ++ " segment start " ++ decimal start ++ " plus length " ++ decimal length ++ " overflows"
  | outside name start stop available =>
    name ++ " segment [" ++ decimal start ++ ", " ++ decimal stop ++ ") exceeds memory capacity " ++
      decimal available

/-- Checks that a segment consists of full rows and lies inside memory. -/
def Segment.check (s : Segment) (name : String) (capacity : Nat) : Except Layout.Problem Unit :=
  if s.length % wordsPerRow ≠ 0 then
    .error (.partialRow name s.length)
  else
    match s.end? with
    | none => .error (.overflow name s.start s.length)
    | some stop =>
      if stop ≤ capacity then .ok () else .error (.outside name s.start stop capacity)

/-- Checks the size of memory, then the code segment, then the data segment, and reports the first
problem. -/
def Layout.check (l : Layout) : Except Layout.Problem Unit :=
  if l.capacity = 0 ∨ maxCapacity < l.capacity then
    .error (.capacity l.capacity)
  else
    match l.code.check "code" l.capacity with
    | .error p => .error p
    | .ok () => l.data.check "data" l.capacity

/-! ### Settings -/

/-- The settings of a machine. -/
structure Settings where
  /-- Whether every executed instruction is logged. -/
  tracing : Bool := false
  /-- The number of instructions after which a run is given up. -/
  stepLimit : Option Nat := none
  layout : Layout := {}
deriving DecidableEq, Repr

namespace Settings

/-- The settings of a machine for which none are given. -/
def standard : Settings := {}

/-- Accepts settings with a valid layout. -/
def validate (s : Settings) : Except Failure Settings :=
  match s.layout.check with
  | .ok () => .ok s
  | .error p => .error (.invalidSettings p.message)

theorem eq_of_validate {s t : Settings} (h : s.validate = .ok t) : t = s := by
  unfold validate at h
  split at h
  · cases h; rfl
  · cases h

end Settings

end WordMachine
