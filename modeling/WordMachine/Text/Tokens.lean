/-!
# Tokens of a byte stream

The input of the machine is cut into tokens at blank bytes.  The *runs* of a byte string are its
maximal blocks without a separator; each run is then cut into pieces of at most sixteen bytes, so
that a token never holds more digits than a word has bits.  A byte outside ASCII becomes one
replacement character: bytes and characters of a token correspond one to one, and a bit keeps its
position whatever stands beside it.
-/

namespace WordMachine

/-! ### Pieces of a list -/

/-- Cuts a list into pieces of `width` items, the last one possibly shorter.  A width of zero cuts
nothing. -/
def pieces {α : Type} (width : Nat) (xs : List α) : List (List α) :=
  if _h : width = 0 ∨ (xs.drop width).isEmpty then
    if xs.isEmpty then [] else [xs]
  else
    xs.take width :: pieces width (xs.drop width)
termination_by xs.length
decreasing_by
  simp only [List.isEmpty_iff, List.drop_eq_nil_iff] at _h
  simp only [List.length_drop]
  omega

theorem length_pieces_le {α : Type} (width : Nat) (xs : List α) :
    (pieces width xs).length ≤ xs.length := by
  fun_induction pieces width xs with
  | case1 xs h he => simp
  | case2 xs h he => cases xs <;> simp_all
  | case3 xs h ih =>
    simp only [List.isEmpty_iff, List.drop_eq_nil_iff] at h
    simp only [List.length_cons, List.length_drop] at ih ⊢
    omega

namespace Tokens

/-- The greatest number of bytes in a token, which is the number of bits in a word. -/
def width : Nat := 16

/-- The blank bytes: tab, line feed, vertical tab, form feed, carriage return and space. -/
def isSeparator (b : UInt8) : Bool :=
  b = 0x20 || (0x09 ≤ b && b ≤ 0x0D)

/-- The character that stands for a byte in a token. -/
def character (b : UInt8) : Char :=
  if b < 0x80 then Char.ofNat b.toNat else '\uFFFD'

/-! ### Runs -/

/-- The bytes before the first separator. -/
def run (bs : List UInt8) : List UInt8 :=
  bs.takeWhile fun b => !isSeparator b

/-- The bytes from the first separator on. -/
def afterRun (bs : List UInt8) : List UInt8 :=
  bs.dropWhile fun b => !isSeparator b

theorem run_append_afterRun (bs : List UInt8) : run bs ++ afterRun bs = bs :=
  List.takeWhile_append_dropWhile

theorem length_run_add (bs : List UInt8) :
    (run bs).length + (afterRun bs).length = bs.length := by
  rw [← List.length_append, run_append_afterRun]

/-- The maximal blocks of bytes without a separator, in order. -/
def runs : List UInt8 → List (List UInt8)
  | [] => []
  | b :: bs =>
    if isSeparator b then
      runs bs
    else
      (b :: run bs) :: runs (afterRun bs)
termination_by bs => bs.length
decreasing_by
  · simp
  · have := length_run_add bs
    simp only [List.length_cons]
    omega

/-! ### Tokens -/

/-- The token that a piece of a run spells. -/
def spell (piece : List UInt8) : String :=
  String.ofList (piece.map character)

/-- The tokens of a byte string, in order. -/
def split (bs : List UInt8) : List String :=
  (runs bs).flatMap fun r => (pieces width r).map spell

@[simp] theorem split_nil : split [] = [] := by
  simp [split, runs]

/-- A byte string has no more tokens than bytes. -/
theorem length_split_le (bs : List UInt8) : (split bs).length ≤ bs.length := by
  unfold split
  fun_induction runs bs with
  | case1 => simp
  | case2 b bs h ih => simp only [List.length_cons]; omega
  | case3 b bs h ih =>
    have hp := length_pieces_le width (b :: run bs)
    have hs := length_run_add bs
    simp only [List.flatMap_cons, List.length_append, List.length_map, List.length_cons] at ih hp ⊢
    omega

end Tokens

end WordMachine
