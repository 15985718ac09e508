import WordMachine.Text.CharClass
import WordMachine.Text.Numeral

/-!
# Flags, spacing and escapes of patterns

A pattern is a regular expression in its usual written form.  Three of its flags decide what may be
written: whether it is about characters or about bytes, whether letters stand for both cases, and
whether blanks and comments may be put between its parts.  This module has these flags, the spacing
they allow, and the escapes, which are what a backslash begins.

Patterns about characters know no tables: neither the classes of characters that have a property,
nor which letters differ in case alone.  Patterns about bytes have to match whole characters all the
same, so a single byte that is not in ASCII is none of their parts.
-/

namespace WordMachine

namespace Log

namespace Pattern

/-! ### Flags -/

/-- The flags that decide what may be written. -/
structure Flags where
  /-- The pattern is about characters, and otherwise about bytes. -/
  unicode : Bool := true
  /-- A letter stands for both of its cases. -/
  caseless : Bool := false
  /-- Blanks and comments stand for nothing. -/
  verbose : Bool := false
deriving DecidableEq, Repr

namespace Flags

/-- The letters of the flags. -/
def letters : List Char :=
  ['i', 'm', 's', 'U', 'u', 'R', 'x']

/-- Changes a flag, if it decides what may be written. -/
def set (f : Flags) (letter : Char) (value : Bool) : Flags :=
  match letter with
  | 'u' => { f with unicode := value }
  | 'i' => { f with caseless := value }
  | 'x' => { f with verbose := value }
  | _ => f

/-- Whether letters of both cases are called for where none are known. -/
def needsCases (f : Flags) : Bool :=
  f.unicode && f.caseless

end Flags

/-! ### Spacing -/

/-- Drops blanks and comments, which go from a number sign to the end of the line.  The text may
begin within a comment. -/
def dropSpacing (inComment : Bool) : List Char → List Char
  | [] => []
  | c :: cs =>
    if inComment then dropSpacing (c ≠ '\n') cs
    else if CharClass.isBlank c then dropSpacing false cs
    else if c = '#' then dropSpacing true cs
    else c :: cs

/-- Skips what stands for nothing. -/
def skip (f : Flags) (cs : List Char) : List Char :=
  if f.verbose then dropSpacing false cs else cs

/-- The first character that is no blank, the first sign of a comment left out, or else the first
character at all. -/
def firstVisible? (cs : List Char) : Option Char :=
  match cs.filter fun c => !CharClass.isBlank c with
  | '#' :: c :: _ => some c
  | ['#'] | [] => cs.head?
  | c :: _ => some c

/-- The character to come. -/
def peek? (f : Flags) (cs : List Char) : Option Char :=
  if f.verbose then firstVisible? cs else cs.head?

theorem length_dropSpacing_le (inComment : Bool) (cs : List Char) :
    (dropSpacing inComment cs).length ≤ cs.length := by
  fun_induction dropSpacing inComment cs <;> simp_all <;> omega

theorem length_skip_le (f : Flags) (cs : List Char) : (skip f cs).length ≤ cs.length := by
  unfold skip
  split
  · exact length_dropSpacing_le false cs
  · exact Nat.le_refl _

/-! ### Escapes -/

/-- What an escape denotes. -/
inductive Escape where
  /-- A character; `single` tells that it is given as a byte, by two digits. -/
  | character (c : Char) (single : Bool)
  /-- The digits, the blanks or the parts of words, or all else. -/
  | charClass (negated : Bool)
  /-- The beginning or the end of the text. -/
  | edge
  /-- The beginning or the end of a word, or a place that is neither. -/
  | wordEdge
deriving DecidableEq, Repr

/-- The number of digits after a letter that give a character by its number. -/
def digitCount? : Char → Option Nat
  | 'x' => some 2
  | 'u' => some 4
  | 'U' => some 8
  | _ => none

/-- Reads digits, between which there may be spacing. -/
def digits? (f : Flags) : Nat → List Char → Option (List Char × List Char)
  | 0, cs => some ([], cs)
  | n + 1, cs =>
    match skip f cs with
    | [] => none
    | d :: rest => (digits? f n rest).map fun (ds, rest) => (d :: ds, rest)

/-- The character whose number has these digits. -/
def numbered? (digits : List Char) : Option Char :=
  (Numeral.ofHexDigits? 0 digits).bind fun n => if n.isValidChar then some (.ofNat n) else none

/-- What a backslash and one character denote. -/
def Escape.ofChar? (c : Char) : Option Escape :=
  match c with
  | 'd' | 's' | 'w' => some (.charClass false)
  | 'D' | 'S' | 'W' => some (.charClass true)
  | 'A' | 'z' => some .edge
  | 'b' | 'B' | '<' | '>' => some .wordEdge
  | 'a' => some (.character '\x07' false)
  | 'f' => some (.character '\x0c' false)
  | 't' => some (.character '\t' false)
  | 'n' => some (.character '\n' false)
  | 'r' => some (.character '\r' false)
  | 'v' => some (.character '\x0b' false)
  | c => if c.toNat < 128 && !c.isAlphanum then some (.character c false) else none

/-- Reads an escape after its backslash. -/
def escape? (f : Flags) : List Char → Option (Escape × List Char)
  | [] => none
  | c :: cs =>
    match digitCount? c with
    | some count =>
      (digits? f count cs).bind fun (ds, rest) =>
        (numbered? ds).map fun n => (.character n (count = 2), rest)
    | none => (Escape.ofChar? c).map (·, cs)

theorem length_digits?_le {f : Flags} {n : Nat} {cs ds rest : List Char}
    (h : digits? f n cs = some (ds, rest)) : rest.length ≤ cs.length := by
  induction n generalizing cs ds with
  | zero => simp_all [digits?]
  | succ n ih =>
    have hs := length_skip_le f cs
    simp only [digits?] at h
    split at h
    · simp at h
    · rename_i heq
      obtain ⟨⟨ds', rest'⟩, hr, he⟩ := Option.map_eq_some_iff.1 h
      obtain ⟨-, rfl⟩ := Prod.mk.inj he
      have := ih hr
      simp only [heq, List.length_cons] at hs
      omega

theorem length_escape?_lt {f : Flags} {cs rest : List Char} {e : Escape}
    (h : escape? f cs = some (e, rest)) : rest.length < cs.length := by
  unfold escape? at h
  split at h
  · simp at h
  · split at h
    · obtain ⟨⟨ds, rest'⟩, hd, he⟩ := Option.bind_eq_some_iff.1 h
      obtain ⟨_, -, he⟩ := Option.map_eq_some_iff.1 he
      obtain ⟨-, rfl⟩ := Prod.mk.inj he
      have := length_digits?_le hd
      simp only [List.length_cons]
      omega
    · obtain ⟨_, -, he⟩ := Option.map_eq_some_iff.1 h
      obtain ⟨-, rfl⟩ := Prod.mk.inj he
      simp

end Pattern

end Log

end WordMachine
