import WordMachine.Json.Token

/-!
# JSON values

A value is read from tokens by a machine with a stack: one frame for each array and object that has
been opened and not closed.  Every token is one step of the machine, so a text may nest as deep as
it likes.  A text is well formed if its tokens lead to one finished value and an empty stack.

The grammar is that of RFC 8259.  Which values a boolean, a size and an optional size accept is as the
library documents it: nothing is converted, and a fraction or an exponent makes no size.
-/

namespace WordMachine

/-- The values that JSON texts denote. -/
inductive Json where
  | null
  | boolean (b : Bool)
  | number (literal : List Char)
  | string (units : Json.Units)
  | array (items : List Json)
  | object (members : List (Json.Units × Json))

namespace Json

/-! ### Reading values -/

/-- An array or object that has been opened, with what it holds so far in reverse order. -/
inductive Frame where
  | array (before : List Json)
  | object (before : List (Units × Json)) (key : Units)

/-- What may come next, and the frames around it. -/
inductive Reading where
  /-- A value. -/
  | value (stack : List Frame)
  /-- The first item of an array, or its end. -/
  | firstItem (stack : List Frame)
  /-- The first key of an object, or its end. -/
  | firstKey (stack : List Frame)
  /-- A key. -/
  | key (before : List (Units × Json)) (stack : List Frame)
  /-- The colon after a key. -/
  | colon (before : List (Units × Json)) (key : Units) (stack : List Frame)
  /-- What follows a finished value. -/
  | finished (v : Json) (stack : List Frame)

namespace Reading

/-- A value starts. -/
def start (stack : List Frame) : Token → Option Reading
  | .null => some (finished .null stack)
  | .boolean b => some (finished (.boolean b) stack)
  | .number literal => some (finished (.number literal) stack)
  | .string units => some (finished (.string units) stack)
  | .openBracket => some (firstItem stack)
  | .openBrace => some (firstKey stack)
  | _ => none

/-- The step that a token leads to, if the token may come. -/
def next : Reading → Token → Option Reading
  | value stack, t => start stack t
  | firstItem stack, .closeBracket => some (finished (.array []) stack)
  | firstItem stack, t => start (.array [] :: stack) t
  | firstKey stack, .closeBrace => some (finished (.object []) stack)
  | firstKey stack, .string k => some (colon [] k stack)
  | key before stack, .string k => some (colon before k stack)
  | colon before k stack, .colon => some (value (.object before k :: stack))
  | finished v (.array before :: stack), .comma => some (value (.array (v :: before) :: stack))
  | finished v (.array before :: stack), .closeBracket =>
    some (finished (.array (v :: before).reverse) stack)
  | finished v (.object before k :: stack), .comma => some (key ((k, v) :: before) stack)
  | finished v (.object before k :: stack), .closeBrace =>
    some (finished (.object ((k, v) :: before).reverse) stack)
  | _, _ => none

/-- The step that tokens lead to. -/
def run : Reading → List Token → Option Reading
  | r, [] => some r
  | r, t :: ts =>
    match r.next t with
    | some r => r.run ts
    | none => none

end Reading

/-- The value that tokens spell. -/
def ofTokens? (ts : List Token) : Option Json :=
  match (Reading.value []).run ts with
  | some (.finished v []) => some v
  | _ => none

/-- The value that a text denotes, if it is well formed. -/
def parse? (text : String) : Option Json :=
  (Token.scan text.toList).bind ofTokens?

/-! ### Plain values -/

/-- A boolean. -/
def toBool? : Json → Option Bool
  | boolean b => some b
  | _ => none

/-- A natural number below `bound`, written as digits only. -/
def toNatBelow? (bound : Nat) : Json → Option Nat
  | number literal => (Numeral.ofDigits? literal).filter (· < bound)
  | _ => none

/-- A null as nothing, or else a value that `f` accepts. -/
def toOption? {α : Type} (f : Json → Option α) : Json → Option (Option α)
  | null => some none
  | v => (f v).map some

end Json

end WordMachine
