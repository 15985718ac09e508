import WordMachine.Text.Numeral

/-!
# Tokens of JSON texts

A JSON text is cut into tokens: brackets and signs, the three words, numbers and strings.  A number
is a longest block of characters that numbers are made of, and must then have the form of a number;
since two values never touch in JSON, this accepts the same texts as reading it sign by sign.

Numbers stay literals, of any size.  Strings stay sequences of units as they are written: an escape
may denote half of a surrogate pair, and whether the halves fit together is asked only of a string
that somebody wants to know.

The library by which the command reads JSON is no part of the simulator.  The modules on JSON follow its
documentation instead: texts are those of RFC 8259, and no more is accepted.
-/

namespace WordMachine

namespace Json

/-! ### Strings -/

/-- The units of a string: code points, and the halves of surrogate pairs as they are escaped. -/
abbrev Units := List Nat

namespace Units

/-- The first half of a surrogate pair. -/
def isHigh (u : Nat) : Bool :=
  0xD800 ≤ u && u < 0xDC00

/-- The second half of a surrogate pair. -/
def isLow (u : Nat) : Bool :=
  0xDC00 ≤ u && u < 0xE000

/-- The code point of a surrogate pair. -/
def combine (high low : Nat) : Nat :=
  0x10000 + (high - 0xD800) * 0x400 + (low - 0xDC00)

/-- The characters of a string, if every half of a surrogate pair stands beside its other half. -/
def toChars? : Units → Option (List Char)
  | [] => some []
  | u :: rest =>
    if isHigh u then
      match rest with
      | [] => none
      | v :: rest => if isLow v then (toChars? rest).map (Char.ofNat (combine u v) :: ·) else none
    else if isLow u then
      none
    else
      (toChars? rest).map (Char.ofNat u :: ·)

/-- The text of a string, if it has one. -/
def toString? (us : Units) : Option String :=
  us.toChars?.map String.ofList

end Units

/-- The unit that four hexadecimal digits denote. -/
def hexUnit? (a b c d : Char) : Option Nat :=
  Numeral.ofHexDigits? 0 [a, b, c, d]

/-- The unit that a backslash and a character denote. -/
def escape? : Char → Option Nat
  | '"' => some 0x22
  | '\\' => some 0x5C
  | '/' => some 0x2F
  | 'b' => some 0x08
  | 'f' => some 0x0C
  | 'n' => some 0x0A
  | 'r' => some 0x0D
  | 't' => some 0x09
  | _ => none

/-- Reads a string after its opening quote, of which `before` has been read in reverse order, and
returns what follows its closing quote. -/
def stringAfter (before : Units) : List Char → Option (Units × List Char)
  | [] => none
  | '"' :: rest => some (before.reverse, rest)
  | '\\' :: 'u' :: a :: b :: c :: d :: rest =>
    match hexUnit? a b c d with
    | some u => stringAfter (u :: before) rest
    | none => none
  | '\\' :: c :: rest =>
    match escape? c with
    | some u => stringAfter (u :: before) rest
    | none => none
  | c :: rest => if c = '\\' ∨ c.toNat < 0x20 then none else stringAfter (c.toNat :: before) rest

theorem length_stringAfter {before us : Units} {cs rest : List Char}
    (h : stringAfter before cs = some (us, rest)) : rest.length < cs.length := by
  fun_induction stringAfter before cs <;> simp_all <;> omega

/-! ### Numbers -/

open Numeral (isDigit isDigits isExponent)

/-- The characters of which numbers are made. -/
def isNumberPart (c : Char) : Bool :=
  isDigit c || c = '-' || c = '+' || c = '.' || c = 'e' || c = 'E'

/-- A whole number without a sign: a zero, or digits that do not start with one. -/
def isWhole : List Char → Bool
  | ['0'] => true
  | '0' :: _ => false
  | cs => isDigits cs

/-- A fraction and an exponent, of which each may be missing. -/
def isFraction : List Char → Bool
  | '.' :: cs => isDigits (cs.takeWhile isDigit) && isExponent (cs.dropWhile isDigit)
  | cs => isExponent cs

/-- A number without a sign. -/
def isUnsigned (cs : List Char) : Bool :=
  isWhole (cs.takeWhile isDigit) && isFraction (cs.dropWhile isDigit)

/-- A number. -/
def isNumber : List Char → Bool
  | '-' :: cs => isUnsigned cs
  | cs => isUnsigned cs

/-! ### Tokens -/

/-- The tokens of a JSON text. -/
inductive Token where
  | openBrace
  | closeBrace
  | openBracket
  | closeBracket
  | comma
  | colon
  | null
  | boolean (b : Bool)
  | number (literal : List Char)
  | string (units : Units)
deriving DecidableEq, Repr

namespace Token

/-- The characters that may stand between tokens. -/
def isBlank (c : Char) : Bool :=
  c = ' ' || c = '\t' || c = '\n' || c = '\r'

/-- The token that a sign is. -/
def ofSign? : Char → Option Token
  | '\x7b' => some openBrace
  | '\x7d' => some closeBrace
  | '[' => some openBracket
  | ']' => some closeBracket
  | ',' => some comma
  | ':' => some colon
  | _ => none

/-- The token that a block of letters is. -/
def ofWord? (letters : List Char) : Option Token :=
  if letters = "null".toList then some null
  else if letters = "true".toList then some (boolean true)
  else if letters = "false".toList then some (boolean false)
  else none

/-- The token that a block of number characters is. -/
def ofNumber? (literal : List Char) : Option Token :=
  if isNumber literal then some (number literal) else none

/-- Reads the first token of a text that starts with one, and returns what follows it. -/
def first? : List Char → Option (Token × List Char)
  | [] => none
  | '"' :: cs => (stringAfter [] cs).map fun r => (string r.1, r.2)
  | c :: cs =>
    match ofSign? c with
    | some t => some (t, cs)
    | none =>
      if isNumberPart c then
        (ofNumber? (c :: cs.takeWhile isNumberPart)).map (·, cs.dropWhile isNumberPart)
      else
        (ofWord? (c :: cs.takeWhile Char.isLower)).map (·, cs.dropWhile Char.isLower)

theorem length_dropWhile_le (p : Char → Bool) (cs : List Char) :
    (cs.dropWhile p).length ≤ cs.length := by
  have h := congrArg List.length (List.takeWhile_append_dropWhile (p := p) (l := cs))
  rw [List.length_append] at h
  omega

theorem length_first {cs rest : List Char} {t : Token} (h : first? cs = some (t, rest)) :
    rest.length < cs.length := by
  unfold first? at h
  split at h
  · cases h
  · rename_i cs
    obtain ⟨⟨us, r⟩, hs, hr⟩ := Option.map_eq_some_iff.1 h
    cases hr
    exact Nat.lt_succ_of_lt (length_stringAfter hs)
  · rename_i c cs _
    have h₁ := length_dropWhile_le isNumberPart cs
    have h₂ := length_dropWhile_le Char.isLower cs
    rw [List.length_cons]
    split at h
    · cases h; omega
    · split at h
      · obtain ⟨_, _, hr⟩ := Option.map_eq_some_iff.1 h
        cases hr; omega
      · obtain ⟨_, _, hr⟩ := Option.map_eq_some_iff.1 h
        cases hr; omega

/-- The tokens of a text after those in `before`, which are in reverse order. -/
def scanAfter (before : List Token) (cs : List Char) : Option (List Token) :=
  match cs with
  | [] => some before.reverse
  | c :: rest =>
    if isBlank c then
      scanAfter before rest
    else
      match _h : first? (c :: rest) with
      | some (t, rest) => scanAfter (t :: before) rest
      | none => none
termination_by cs.length
decreasing_by
  · simp
  · exact length_first _h

/-- The tokens of a text, if it consists of tokens. -/
def scan (cs : List Char) : Option (List Token) :=
  scanAfter [] cs

end Token

end Json

end WordMachine
