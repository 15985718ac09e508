import WordMachine.Log.Pattern.Bracket

/-!
# Patterns for the values of a log

A rule of a log filter may ask that a named value fits a pattern.  Nothing that this machine logs is
ever compared with one, so of a pattern only this matters: whether it is well formed.  Reading it
therefore builds no tree.  What has been read of a pattern is kept as the groups that are open, each
with the part read last and the height of all others, where the *height* of a part tells how deep
its own parts lie in each other.  A group, a repetition, a sequence of two or more parts and a
choice between two or more sequences each add one; a pattern of a height above `maxHeight` is not
well formed.

`Reader.step` reads one part, `Reader.height?` goes on to the end of the text, and `isWellFormed`
compares the height with the limit.
-/

namespace WordMachine

namespace Log

namespace Pattern

/-! ### Parts and sequences -/

/-- A part of a pattern. -/
structure Part where
  height : Nat := 0
  /-- Whether a sign of repetition may follow. -/
  repeatable : Bool := true
deriving DecidableEq, Repr

/-- Parts that follow each other: the last of them, and the greatest height of the others. -/
structure Sequence where
  last : Option Part := none
  others : Option Nat := none
deriving DecidableEq, Repr

namespace Sequence

/-- Adds a part at the end. -/
def push (s : Sequence) (p : Part) : Sequence :=
  { last := some p
    others := s.last.map fun q => max q.height (s.others.getD 0) }

/-- The height of a sequence.  One part makes no sequence of its own. -/
def height (s : Sequence) : Nat :=
  match s.last, s.others with
  | none, _ => 0
  | some p, none => p.height
  | some p, some top => max p.height top + 1

/-- Repeats the last part. -/
def repeat? (s : Sequence) : Option Sequence :=
  match s.last with
  | some ⟨height, true⟩ => some { s with last := some ⟨height + 1, true⟩ }
  | _ => none

end Sequence

/-! ### Groups -/

/-- An open group: the flags that hold behind it, the greatest height of the sequences between which
it chooses so far, and the sequence being read. -/
structure Group where
  flags : Flags := {}
  choices : Option Nat := none
  sequence : Sequence := {}
deriving DecidableEq, Repr

namespace Group

/-- Adds a part to the sequence being read. -/
def push (g : Group) (p : Part) : Group :=
  { g with sequence := g.sequence.push p }

/-- Begins another sequence to choose from. -/
def choose (g : Group) : Group :=
  { g with choices := some (max (g.choices.getD 0) g.sequence.height), sequence := {} }

/-- The height of what a group holds.  One sequence makes no choice. -/
def inner (g : Group) : Nat :=
  match g.choices with
  | none => g.sequence.height
  | some top => max top g.sequence.height + 1

end Group

/-- What stands behind an opening parenthesis. -/
inductive Head where
  /-- A group with flags of its own, and its name. -/
  | group (f : Flags) (name : Option (List Char))
  /-- Flags for the rest of the group around. -/
  | directive (f : Flags)
deriving DecidableEq, Repr

/-- Whether a character may begin the name of a group. -/
def isNameStart (c : Char) : Bool :=
  c = '_' || CharClass.isAlphabetic c

/-- Whether a character may go on in the name of a group. -/
def isNamePart (c : Char) : Bool :=
  ['_', '.', '[', ']'].contains c || CharClass.isAlphanumeric c

/-- Reads the name of a group and the bracket behind it. -/
def name? (f : Flags) (cs : List Char) : Option (Head × List Char) :=
  match cs.takeWhile (· ≠ '>'), cs.dropWhile (· ≠ '>') with
  | first :: more, _ :: rest =>
    if isNameStart first && more.all isNamePart then some (.group f (first :: more), rest)
    else none
  | _, _ => none

/-- Reads flags.  Each may be named once, and a minus sign, which is not the last of them, takes
those behind it away. -/
def flags? (f : Flags) (seen : List Char) (negated dangling : Bool) :
    List Char → Option (Head × List Char)
  | [] => none
  | c :: cs =>
    if c = ')' then
      if dangling || seen.isEmpty then none else some (.directive f, cs)
    else if c = ':' then
      if dangling then none else some (.group f none, cs)
    else if c = '-' then
      if negated then none else flags? f seen true true cs
    else if Flags.letters.contains c && !seen.contains c then
      flags? (f.set c !negated) (c :: seen) negated false cs
    else none

/-- Reads what stands behind an opening parenthesis. -/
def head? (f : Flags) (cs : List Char) : Option (Head × List Char) :=
  match skip f cs with
  | '?' :: 'P' :: '<' :: rest | '?' :: '<' :: rest => name? f rest
  | '?' :: rest => flags? f [] false false rest
  | rest => some (.group f none, rest)

theorem length_name?_le {f : Flags} {cs rest : List Char} {k : Head}
    (h : name? f cs = some (k, rest)) : rest.length ≤ cs.length := by
  unfold name? at h
  split at h
  · rename_i heq
    have hd := (List.dropWhile_sublist (l := cs) fun c => decide (c ≠ '>')).length_le
    rw [heq] at hd
    split at h
    · cases h
      simp only [List.length_cons] at hd
      omega
    · simp at h
  · simp at h

theorem length_flags?_le {f : Flags} {seen cs rest : List Char} {negated dangling : Bool} {k : Head}
    (h : flags? f seen negated dangling cs = some (k, rest)) : rest.length ≤ cs.length := by
  fun_induction flags? f seen negated dangling cs <;> simp_all <;> omega

theorem length_head?_le {f : Flags} {cs rest : List Char} {k : Head}
    (h : head? f cs = some (k, rest)) : rest.length ≤ cs.length := by
  have hs := length_skip_le f cs
  unfold head? at h
  split at h
  · rename_i heq
    have := length_name?_le h
    simp only [heq, List.length_cons] at hs
    omega
  · rename_i heq
    have := length_name?_le h
    simp only [heq, List.length_cons] at hs
    omega
  · rename_i heq
    have := length_flags?_le h
    simp only [heq, List.length_cons] at hs
    omega
  · cases h
    exact hs

/-! ### Patterns -/

/-- What has been read of a pattern: the flags that hold, the group being read, the groups around
it, and the names of all groups. -/
structure Reader where
  flags : Flags := {}
  group : Group := {}
  outer : List Group := []
  names : List (List Char) := []
deriving DecidableEq, Repr

/-- Whether a part that an escape denotes is known. -/
def Flags.allowsPart (f : Flags) : Escape → Bool
  | .character c single => !f.needsCases && (f.unicode || !single || c.toNat < 128)
  | .charClass negated => f.allowsCharClass negated
  | .edge => true
  | .wordEdge => !f.unicode

namespace Reader

/-- Adds a part to the group being read. -/
def push (r : Reader) (p : Part) : Reader :=
  { r with group := r.group.push p }

/-- Opens what a head tells. -/
def enter (r : Reader) : Head → Option Reader
  | .directive f => some { r.push { repeatable := false } with flags := f }
  | .group f none =>
    some { r with flags := f, group := { flags := r.flags }, outer := r.group :: r.outer }
  | .group f (some name) =>
    if r.names.contains name then none
    else
      some
        { flags := f
          group := { flags := r.flags }
          outer := r.group :: r.outer
          names := name :: r.names }

/-- Closes the group being read. -/
def leave (r : Reader) : Option Reader :=
  match r.outer with
  | [] => none
  | above :: outer =>
    some
      { r with
        flags := r.group.flags
        group := above.push { height := r.group.inner + 1 }
        outer }

/-- Reads one part or sign, of which the first character is given. -/
def step (r : Reader) (c : Char) (cs : List Char) : Option (Reader × List Char) :=
  match c with
  | '(' => (head? r.flags cs).bind fun (k, rest) => (r.enter k).map (·, rest)
  | ')' => r.leave.map (·, cs)
  | '|' => some ({ r with group := r.group.choose }, cs)
  | '[' => (bracket? r.flags cs).map fun (height, rest) => (r.push { height }, rest)
  | '?' | '*' | '+' =>
    r.group.sequence.repeat?.map fun sequence =>
      ({ r with group := { r.group with sequence } },
        if cs.head? = some '?' then cs.tail else cs)
  | '\x7b' => none
  | '\\' =>
    (escape? r.flags cs).bind fun (e, rest) =>
      if r.flags.allowsPart e then some (r.push {}, rest) else none
  | '.' => if r.flags.unicode then some (r.push {}, cs) else none
  | '^' | '$' => some (r.push {}, cs)
  | _ => if r.flags.needsCases then none else some (r.push {}, cs)

theorem length_step_le {r r' : Reader} {c : Char} {cs rest : List Char}
    (h : r.step c cs = some (r', rest)) : rest.length ≤ cs.length := by
  unfold step at h
  split at h
  · obtain ⟨⟨k, rest'⟩, hk, he⟩ := Option.bind_eq_some_iff.1 h
    obtain ⟨_, -, he⟩ := Option.map_eq_some_iff.1 he
    cases he
    exact length_head?_le hk
  · obtain ⟨_, -, he⟩ := Option.map_eq_some_iff.1 h
    cases he
    exact Nat.le_refl _
  · cases h
    exact Nat.le_refl _
  · obtain ⟨⟨height, rest'⟩, hb, he⟩ := Option.map_eq_some_iff.1 h
    cases he
    exact length_classAfter?_le hb
  · obtain ⟨_, -, he⟩ := Option.map_eq_some_iff.1 h
    cases he
    split <;> simp
  · obtain ⟨_, -, he⟩ := Option.map_eq_some_iff.1 h
    cases he
    split <;> simp
  · obtain ⟨_, -, he⟩ := Option.map_eq_some_iff.1 h
    cases he
    split <;> simp
  · simp at h
  · obtain ⟨⟨e, rest'⟩, hb, he⟩ := Option.bind_eq_some_iff.1 h
    have := length_escape?_lt hb
    dsimp only at he
    split at he
    · cases he
      omega
    · simp at he
  all_goals grind

/-- Reads to the end of a text, where no group may be open: the height of the whole. -/
def height? (r : Reader) (cs : List Char) : Option Nat :=
  match hs : skip r.flags cs with
  | [] => if r.outer.isEmpty then some r.group.inner else none
  | c :: rest =>
    match hr : r.step c rest with
    | none => none
    | some (next, after) =>
      have : after.length < cs.length := by
        have h₁ := length_skip_le r.flags cs
        have h₂ := length_step_le hr
        rw [hs, List.length_cons] at h₁
        omega
      next.height? after
termination_by cs.length

end Reader

/-- The greatest height of a pattern. -/
def maxHeight : Nat := 250

/-- Whether characters are a well-formed pattern. -/
def isWellFormed (cs : List Char) : Bool :=
  (Reader.height? {} cs).any (· ≤ maxHeight)

/-! ### Values -/

/-- Whether characters are a decimal fraction without a sign, possibly with an exponent. -/
def isFraction (cs : List Char) : Bool :=
  let whole := cs.takeWhile Numeral.isDigit
  match cs.dropWhile Numeral.isDigit with
  | '.' :: rest =>
    !(whole.isEmpty && (rest.takeWhile Numeral.isDigit).isEmpty) &&
      Numeral.isExponent (rest.dropWhile Numeral.isDigit)
  | rest => !whole.isEmpty && Numeral.isExponent rest

/-- Whether characters are a number with a plus sign, infinity and no number at all being two of
them. -/
def isPlusNumber : List Char → Bool
  | '+' :: cs =>
    isFraction cs || ["inf", "infinity", "nan"].contains (String.ofList cs).toLower
  | _ => false

/-- Whether characters may stand for the value that a rule asks for.  Numbers are patterns, unless
they start with a plus sign. -/
def isValue (cs : List Char) : Bool :=
  isPlusNumber cs || isWellFormed cs

end Pattern

end Log

end WordMachine
