import WordMachine.Log.Filter
import WordMachine.Log.Pattern
import WordMachine.Text.Extent
import WordMachine.Text.Fields

/-!
# The written form of a log filter

A filter is written as rules between commas, and nothing between two commas is no rule.  The forms
of a rule are

    LEVEL
    SCOPE
    SCOPE=LEVEL
    SCOPE[SPAN]=LEVEL
    SCOPE[SPAN{NAME}]=LEVEL
    SCOPE[SPAN{NAME=VALUE}]=LEVEL

where the scope and the span may be missing in front of and behind an opening bracket, and a
missing level shows everything.  A level is a word or a number.  Any other word is a scope, as long
as its first character may begin one; that no source begins with it is no error.

Blanks around a rule are not part of its form.  Where its words are, however, is counted from the
first character that is no blank, and they are cut out at these distances from the beginning of the
text, blanks included; a word at the end of a rule goes on to the end of the text.  So `debug ` has
the word `debug` with a blank, which is no level, and in ` [{words}]` the name is `{word`.

A text is a filter only if each of its rules is one.  `Filter.inForce` falls back to the standard
filter for a text that is not.

The forms are those that the library documents by which events are filtered and shown, and so is what the
rules mean.  The simulator only hands the text of the setting over to it.
-/

namespace WordMachine

namespace Log

open CharClass (isBlank isAlphanumeric)

/-- Drops the blanks around a text. -/
def trim (cs : List Char) : List Char :=
  ((cs.dropWhile isBlank).reverse.dropWhile isBlank).reverse

/-! ### Levels -/

/-- The least level that a number denotes, zero showing nothing. -/
def leastOfNumber? : Nat → Option (Option Level)
  | 0 => some none
  | 1 => some (some .error)
  | 2 => some (some .warn)
  | 3 => some (some .info)
  | 4 => some (some .debug)
  | 5 => some (some .trace)
  | _ => none

/-- The least level that a word denotes, upper and lower case alike. -/
def leastOfName? (name : String) : Option (Option Level) :=
  match name.toLower with
  | "off" => some none
  | "error" => some (some .error)
  | "warn" => some (some .warn)
  | "info" => some (some .info)
  | "debug" => some (some .debug)
  | "trace" => some (some .trace)
  | _ => none

/-- The least level that characters denote. -/
def least? (cs : List Char) : Option (Option Level) :=
  match Numeral.ofPlusDigits? cs with
  | some n => leastOfNumber? n
  | none => leastOfName? (String.ofList cs)

/-- The least level that the end of a rule gives.  The end begins at a distance in the text. -/
def leastOfEnd? (text : List Char) (start : Nat) : List Char → Option (Option Level)
  | [] => some (some .trace)
  | '=' :: _ =>
    let level := Extent.drop (start + 1) text
    if level.isEmpty then some (some .trace) else least? level
  | _ => none

/-! ### Subjects -/

/-- What is asked of named values by the characters between braces. -/
def FieldTest.parse? (cs : List Char) : Option FieldTest :=
  let name := String.ofList (cs.takeWhile (· ≠ '='))
  match cs.dropWhile (· ≠ '=') with
  | [] => if cs.isEmpty then none else some { name }
  | _ :: rest =>
    let value := rest.takeWhile (· ≠ '=')
    if Pattern.isValue value then some { name, value := some value } else none

/-- What stands between the brackets of a rule, and where they end. -/
structure Subject where
  /-- The name of the spans that the rule is about, if it is about spans. -/
  span : Option (List Char)
  /-- What an event or a span has to carry, if anything. -/
  field : Option FieldTest
  /-- The distance of the end in the text. -/
  stop : Nat
  /-- The end of the rule. -/
  rest : List Char

/-- Reads what follows an opening bracket, given its distance in the text. -/
def subject? (text : List Char) (start : Nat) (cs : List Char) : Option Subject :=
  let name := cs.takeWhile fun c => c ≠ ']' && c ≠ '\x7b'
  let afterName := start + Extent.size name
  let span := Extent.take (Extent.size name) (Extent.drop start text)
  match cs.drop name.length with
  | ']' :: rest => some { span := some span, field := none, stop := afterName + 1, rest }
  | '\x7b' :: inner =>
    let test := inner.takeWhile (· ≠ '\x7d')
    match inner.drop test.length with
    | '\x7d' :: ']' :: rest =>
      let cut := Extent.take (Extent.size test) (Extent.drop (afterName + 1) text)
      (FieldTest.parse? cut).map fun field =>
        { span := if name.isEmpty then none else some span
          field := some field
          stop := afterName + 1 + Extent.size test + 2
          rest }
    | _ => none
  | _ => none

/-! ### Rules -/

namespace Rule

/-- The characters with which a rule may begin. -/
def isStart (c : Char) : Bool :=
  c = '[' || c = '-' || c = ':' || c = '_' || isAlphanumeric c

/-- The rule that a word alone denotes. -/
def ofWord (cs : List Char) : Rule :=
  match least? cs with
  | some least => { least }
  | none => { scope := cs, least := some .trace }

/-- The rule that a text denotes. -/
def parse? (text : List Char) : Option Rule :=
  let form := trim text
  if form.head?.any isStart then
    let first := form.takeWhile fun c => c ≠ '=' && c ≠ '['
    let stop := Extent.size first
    let scope := Extent.take stop text
    match form.drop first.length with
    | [] => some (ofWord text)
    | '[' :: inner =>
      (subject? text (stop + 1) inner).bind fun s =>
        (leastOfEnd? text s.stop s.rest).map
          ({ scope, span := s.span, field := s.field, least := · })
    | rest => (leastOfEnd? text stop rest).map ({ scope, least := · })
  else
    none

end Rule

/-! ### Filters -/

namespace Filter

/-- The filter that a text denotes.  An empty text shows errors only. -/
def parse? (text : String) : Option Filter :=
  if text.isEmpty then
    some [{ least := some .error }]
  else
    ((fields ',' text).filter (!·.isEmpty)).mapM fun rule => Rule.parse? rule.toList

/-- The filter in force: the one that a setting denotes, or else the standard one. -/
def inForce (setting : Option String) (tracing : Bool) : Filter :=
  (setting.bind parse?).getD (standard tracing)

end Filter

end Log

end WordMachine
