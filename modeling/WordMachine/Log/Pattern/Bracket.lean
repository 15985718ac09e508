import WordMachine.Log.Pattern.Escape

/-!
# Classes of characters in brackets

A bracket in a pattern opens a class: a union of characters, ranges, named classes and classes in
brackets of their own.  Two unions may be joined by one of three operations, which is written by
the same sign twice, and operations group to the left.  `bracket?` reads a class and returns its
*height*, that is how deep its parts lie in each other: a union of two or more members, an
operation and a pair of brackets each add one to the greatest height of what they hold.

A class is refused where its members cannot be known.  In a class of bytes these are the bytes that
are not in ASCII, so such a class is never negated.  In a class of characters these are the classes
with a property, and every member if letters are to stand for both of their cases.
-/

namespace WordMachine

namespace Log

namespace Pattern

/-! ### Unions -/

/-- The members of a union read so far: how many there are, and the greatest of their heights. -/
structure Union where
  count : Nat := 0
  top : Nat := 0
deriving DecidableEq, Repr

namespace Union

/-- Adds a member with its height. -/
def add (u : Union) (height : Nat) : Union :=
  ⟨u.count + 1, max u.top height⟩

/-- The height of a union.  One member makes no union of its own. -/
def height (u : Union) : Nat :=
  if u.count ≤ 1 then u.top else u.top + 1

end Union

/-- How far the beginning of a class has been read. -/
inductive Opening where
  /-- Nothing follows the bracket yet. -/
  | bare
  /-- A circumflex follows it. -/
  | negated
  /-- Only dashes, which stand for themselves here, follow these. -/
  | dashed
  /-- Other members follow. -/
  | past
deriving DecidableEq, Repr

/-- An open class: its beginning, the union being read, and the height of what stands in front of
the last operation. -/
structure OpenClass where
  opening : Opening := .bare
  union : Union := {}
  left : Option Nat := none
deriving DecidableEq, Repr

namespace OpenClass

/-- Adds a member with its height. -/
def add (k : OpenClass) (height : Nat) : OpenClass :=
  { k with opening := .past, union := k.union.add height }

/-- The height of what has been read, without the brackets. -/
def inner (k : OpenClass) : Nat :=
  match k.left with
  | none => k.union.height
  | some left => max left k.union.height + 1

/-- Begins the right side of an operation. -/
def operate (k : OpenClass) : OpenClass :=
  { opening := .past, left := some k.inner }

end OpenClass

/-! ### Members -/

/-- Whether a character may be a member. -/
def Flags.allowsMember (f : Flags) (c : Char) : Bool :=
  if f.unicode then !f.caseless else c.toNat < 128

/-- Whether a class with a name that is written as an escape is known. -/
def Flags.allowsCharClass (f : Flags) (negated : Bool) : Bool :=
  !f.unicode && !negated

/-- Whether a class with a name that is written between colons is known. -/
def Flags.allowsNamedClass (f : Flags) (negated : Bool) : Bool :=
  if f.unicode then !f.caseless else !negated

/-- The names that are written between colons. -/
def classNames : List String :=
  ["alnum", "alpha", "ascii", "blank", "cntrl", "digit", "graph", "lower", "print", "punct",
    "space", "upper", "word", "xdigit"]

/-- Reads the name of a class up to the colon and the bracket that close it, and returns what
follows them. -/
def className? (cs : List Char) : Option (List Char) :=
  match cs.dropWhile (· ≠ ':') with
  | ':' :: ']' :: rest =>
    if classNames.contains (String.ofList (cs.takeWhile (· ≠ ':'))) then some rest else none
  | _ => none

/-- Reads a named class after its bracket: whether it is negated, and what follows. -/
def namedClass? : List Char → Option (Bool × List Char)
  | ':' :: '^' :: cs => (className? cs).map (true, ·)
  | ':' :: cs => (className? cs).map (false, ·)
  | _ => none

/-- Reads what may be one end of a range. -/
def member? (f : Flags) : List Char → Option (Escape × List Char)
  | [] => none
  | '\\' :: cs => escape? f cs
  | c :: cs => some (.character c false, cs)

/-- Whether a member may stand alone. -/
def Flags.allows (f : Flags) : Escape → Bool
  | .character c _ => f.allowsMember c
  | .charClass negated => f.allowsCharClass negated
  | .edge | .wordEdge => false

/-- Whether two members may be the ends of a range. -/
def Flags.allowsRange (f : Flags) : Escape → Escape → Bool
  | .character low _, .character high _ =>
    low ≤ high && f.allowsMember low && f.allowsMember high
  | _, _ => false

/-- Reads a member or a range, and returns what follows it.  A dash makes a range unless the
bracket closes behind it or another dash follows. -/
def members? (f : Flags) (cs : List Char) : Option (List Char) :=
  (member? f cs).bind fun (low, rest) =>
    match skip f rest with
    | '-' :: more =>
      if peek? f more = some ']' ∨ peek? f more = some '-' then
        if f.allows low then some ('-' :: more) else none
      else
        (member? f (skip f more)).bind fun (high, rest) =>
          if f.allowsRange low high then some rest else none
    | rest => if f.allows low then some rest else none

theorem length_className?_lt {cs rest : List Char} (h : className? cs = some rest) :
    rest.length < cs.length := by
  unfold className? at h
  split at h
  · rename_i heq
    have hd := (List.dropWhile_sublist (l := cs) fun c => decide (c ≠ ':')).length_le
    rw [heq] at hd
    split at h
    · cases h
      simp only [List.length_cons] at hd
      omega
    · simp at h
  · simp at h

theorem length_namedClass?_lt {cs rest : List Char} {negated : Bool}
    (h : namedClass? cs = some (negated, rest)) : rest.length < cs.length := by
  unfold namedClass? at h
  split at h
  · obtain ⟨_, hc, he⟩ := Option.map_eq_some_iff.1 h
    cases he
    have := length_className?_lt hc
    simp only [List.length_cons]
    omega
  · obtain ⟨_, hc, he⟩ := Option.map_eq_some_iff.1 h
    cases he
    have := length_className?_lt hc
    simp only [List.length_cons]
    omega
  · simp at h

theorem length_member?_lt {f : Flags} {cs rest : List Char} {e : Escape}
    (h : member? f cs = some (e, rest)) : rest.length < cs.length := by
  unfold member? at h
  split at h
  · simp at h
  · have := length_escape?_lt h
    simp only [List.length_cons]
    omega
  · obtain ⟨-, rfl⟩ := Prod.mk.inj (Option.some.inj h)
    simp

theorem length_members?_lt {f : Flags} {cs rest : List Char} (h : members? f cs = some rest) :
    rest.length < cs.length := by
  obtain ⟨⟨low, after⟩, hm, h⟩ := Option.bind_eq_some_iff.1 h
  have hl := length_member?_lt hm
  have hs := length_skip_le f after
  dsimp only at h
  split at h
  · rename_i more heq
    rw [heq, List.length_cons] at hs
    split at h
    · split at h
      · cases h; simp only [List.length_cons]; omega
      · simp at h
    · obtain ⟨⟨high, last⟩, hm, h⟩ := Option.bind_eq_some_iff.1 h
      have hh := length_member?_lt hm
      have hk := length_skip_le f more
      dsimp only at h
      split at h
      · cases h; omega
      · simp at h
  · split at h
    · cases h; omega
    · simp at h

/-! ### Classes -/

/-- Reads a class after its bracket, `outer` being the classes that it lies in, up to the end of the
outermost. -/
def classAfter? (f : Flags) (k : OpenClass) (outer : List OpenClass) (cs : List Char) :
    Option (Nat × List Char) :=
  match hs : skip f cs with
  | [] => none
  | c :: rest =>
    have : rest.length < cs.length := by
      have := length_skip_le f cs
      rw [hs, List.length_cons] at this
      omega
    if k.opening = .bare ∧ c = '^' then
      if f.unicode then classAfter? f { k with opening := .negated } outer rest else none
    else if k.opening ≠ .past ∧ c = '-' then
      if f.allowsMember c then classAfter? f { k.add 0 with opening := .dashed } outer rest else none
    else if (k.opening = .bare ∨ k.opening = .negated) ∧ c = ']' then
      if f.allowsMember c then classAfter? f (k.add 0) outer rest else none
    else if c = ']' then
      match outer with
      | [] => some (k.inner + 1, rest)
      | above :: outer => classAfter? f (above.add (k.inner + 1)) outer rest
    else if c = '[' then
      match hn : namedClass? rest with
      | some (negated, after) =>
        have := length_namedClass?_lt hn
        if f.allowsNamedClass negated then classAfter? f (k.add 0) outer after else none
      | none => classAfter? f {} (k :: outer) rest
    else if (c = '&' ∨ c = '-' ∨ c = '~') ∧ rest.head? = some c then
      have : rest.tail.length < cs.length := by simp; omega
      classAfter? f k.operate outer rest.tail
    else
      match hm : members? f (c :: rest) with
      | some after =>
        have : after.length < cs.length := by
          have := length_members?_lt hm
          simp only [List.length_cons] at this
          omega
        classAfter? f (k.add 0) outer after
      | none => none
termination_by cs.length

theorem length_classAfter?_le {f : Flags} {k : OpenClass} {outer : List OpenClass}
    {cs rest : List Char} {height : Nat} (h : classAfter? f k outer cs = some (height, rest)) :
    rest.length ≤ cs.length := by
  fun_induction classAfter? f k outer cs <;> simp_all <;> omega

/-- Reads a class after its bracket: its height, and what follows it. -/
def bracket? (f : Flags) (cs : List Char) : Option (Nat × List Char) :=
  classAfter? f {} [] cs

end Pattern

end Log

end WordMachine
