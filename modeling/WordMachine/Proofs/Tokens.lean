import WordMachine.Text.Tokens

/-!
# Tokens of joined byte strings

A separator ends the run before it, and what comes after it has no part in that run.  So the tokens
of a byte string with a separator in it are those of the bytes before the separator and then those
of the bytes after it (`Tokens.split_append_cons`), also where the runs are longer than a token.
This is what makes it possible to cut a stream into tokens line by line.

Between two separators the cut is made at exact multiples of the width.  So bytes that fill a token
are a token of their own wherever they begin a run, and the tokens of what follows are not affected
(`Tokens.split_append_of_length_eq`), whether a separator follows or the next token at once.
-/

namespace WordMachine

/-! ### Pieces -/

@[simp] theorem pieces_nil {α : Type} (width : Nat) : pieces width ([] : List α) = [] := by
  rw [pieces]
  simp

/-- What fills the width is the first piece. -/
theorem pieces_append {α : Type} {width : Nat} (hwidth : 0 < width) {xs : List α}
    (hlength : xs.length = width) (ys : List α) :
    pieces width (xs ++ ys) = xs :: pieces width ys := by
  have hrest : (xs ++ ys).drop width = ys := List.drop_left' hlength
  have hfirst : (xs ++ ys).take width = xs := List.take_left' hlength
  have hne : xs ≠ [] := List.ne_nil_of_length_pos (hlength ▸ hwidth)
  rw [pieces, hrest, hfirst]
  cases ys with
  | nil => simp [hne]
  | cons y ys => simp [Nat.ne_of_gt hwidth]

/-- The pieces begin at the multiples of the width, as many as are needed to reach the end. -/
theorem pieces_eq_map {α : Type} {width : Nat} (hwidth : 0 < width) (xs : List α) :
    pieces width xs = (List.range ((xs.length + (width - 1)) / width)).map fun r =>
      (xs.drop (width * r)).take width := by
  fun_induction pieces width xs with
  | case1 xs hshort hempty =>
    rw [List.isEmpty_iff.mp hempty, List.length_nil, Nat.zero_add,
      Nat.div_eq_of_lt (Nat.sub_lt hwidth Nat.one_pos)]
    rfl
  | case2 xs hshort hne =>
    simp only [List.isEmpty_iff, List.drop_eq_nil_iff] at hshort hne
    have hle : xs.length ≤ width := hshort.resolve_left (Nat.ne_of_gt hwidth)
    have hpos : 0 < xs.length := List.length_pos_iff.mpr hne
    have hone : (xs.length + (width - 1)) / width = 1 := by
      apply Nat.div_eq_of_lt_le <;> omega
    rw [hone]
    simp [List.take_of_length_le hle]
  | case3 xs hlong ih =>
    simp only [List.isEmpty_iff, List.drop_eq_nil_iff, not_or, Nat.not_le] at hlong
    have hcount : (xs.length + (width - 1)) / width =
        ((xs.drop width).length + (width - 1)) / width + 1 := by
      rw [← Nat.add_div_right _ hwidth, List.length_drop]
      congr 1
      omega
    rw [hcount, List.range_succ_eq_map, List.map_cons, List.map_map, ih]
    congr 1
    refine List.map_congr_left fun r _ => ?_
    rw [Function.comp_apply, List.drop_drop, Nat.mul_succ, Nat.add_comm]

/-- Nothing is lost or repeated in the cut. -/
theorem flatten_pieces {α : Type} (width : Nat) (xs : List α) : (pieces width xs).flatten = xs := by
  fun_induction pieces width xs with
  | case1 xs hshort hempty => exact (List.isEmpty_iff.mp hempty).symm
  | case2 xs hshort hne => exact List.append_nil xs
  | case3 xs hlong ih => rw [List.flatten_cons, ih, List.take_append_drop]

namespace Tokens

/-! ### Separators -/

variable {x : UInt8}

/-- A separator ends the first run. -/
theorem run_append_cons (hx : isSeparator x = true) (bs cs : List UInt8) :
    run (bs ++ x :: cs) = run bs := by
  have hstop : (x :: cs).takeWhile (fun b => !isSeparator b) = [] := by
    simp [hx]
  rw [run, run, List.takeWhile_append, hstop]
  split
  · next hall =>
    rw [List.append_nil]
    exact ((List.takeWhile_prefix _).eq_of_length hall).symm
  · rfl

/-- What comes after a separator is left to the runs after the first. -/
theorem afterRun_append_cons (hx : isSeparator x = true) (bs cs : List UInt8) :
    afterRun (bs ++ x :: cs) = afterRun bs ++ x :: cs := by
  have hjoin := run_append_afterRun (bs ++ x :: cs)
  rw [run_append_cons hx] at hjoin
  have hparts : run bs ++ (afterRun bs ++ x :: cs) = bs ++ x :: cs := by
    rw [← List.append_assoc, run_append_afterRun]
  exact List.append_cancel_left (hjoin.trans hparts.symm)

/-- A separator at the front is skipped. -/
theorem runs_cons_of_isSeparator (hx : isSeparator x = true) (bs : List UInt8) :
    runs (x :: bs) = runs bs := by
  rw [runs, if_pos hx]

/-- The runs before a separator and those after it are the runs. -/
theorem runs_append_cons (hx : isSeparator x = true) (bs cs : List UInt8) :
    runs (bs ++ x :: cs) = runs bs ++ runs cs := by
  fun_induction runs bs with
  | case1 => exact runs_cons_of_isSeparator hx cs
  | case2 b bs hb ih =>
    rw [List.cons_append, runs_cons_of_isSeparator hb]
    exact ih
  | case3 b bs hb ih =>
    rw [List.cons_append, runs, if_neg hb, run_append_cons hx, afterRun_append_cons hx, ih]
    rfl

/-- The tokens before a separator and those after it are the tokens. -/
theorem split_append_cons (hx : isSeparator x = true) (bs cs : List UInt8) :
    split (bs ++ x :: cs) = split bs ++ split cs := by
  rw [split, runs_append_cons hx, List.flatMap_append]
  rfl

/-- A separator at the end makes no token. -/
theorem split_concat (hx : isSeparator x = true) (bs : List UInt8) :
    split (bs ++ [x]) = split bs := by
  rw [split_append_cons hx, split_nil, List.append_nil]

/-- Separators at the front, however many, make no token. -/
theorem split_append_of_isSeparator {gap : List UInt8} (hgap : ∀ x ∈ gap, isSeparator x = true)
    (bs : List UInt8) : split (gap ++ bs) = split bs := by
  induction gap with
  | nil => rfl
  | cons x gap ih =>
    obtain ⟨hx, hgap'⟩ := List.forall_mem_cons.mp hgap
    rw [List.cons_append, split, runs_cons_of_isSeparator hx]
    exact ih hgap'

/-! ### Tokens of full width -/

/-- The tokens of the first run come first, also if that is empty. -/
theorem split_eq_run_append (bs : List UInt8) :
    split bs = (pieces width (run bs)).map spell ++ split (afterRun bs) := by
  cases bs with
  | nil =>
    rw [run, afterRun, List.takeWhile_nil, List.dropWhile_nil, pieces_nil]
    rfl
  | cons b bs =>
    by_cases hb : isSeparator b = true
    · have hrun : run (b :: bs) = [] := by simp [run, hb]
      have hafter : afterRun (b :: bs) = b :: bs := by simp [afterRun, hb]
      rw [hrun, hafter, pieces_nil]
      rfl
    · have hrun : run (b :: bs) = b :: run bs := by simp [run, hb]
      have hafter : afterRun (b :: bs) = afterRun bs := by simp [afterRun, hb]
      rw [hrun, hafter, split, runs, if_neg hb, List.flatMap_cons]
      rfl

section Filled

variable {token : List UInt8} (htoken : ∀ x ∈ token, isSeparator x = false)
include htoken

/-- Bytes without a separator go in front of the first run. -/
theorem run_append (bs : List UInt8) : run (token ++ bs) = token ++ run bs :=
  List.takeWhile_append_of_pos (by simpa using htoken)

theorem afterRun_append (bs : List UInt8) : afterRun (token ++ bs) = afterRun bs :=
  List.dropWhile_append_of_pos (by simpa using htoken)

/-- If they fill a token, they are the first token, and the other tokens are as before. -/
theorem split_append_of_length_eq (hlength : token.length = width) (bs : List UInt8) :
    split (token ++ bs) = spell token :: split bs := by
  have hcut : pieces width (token ++ run bs) = token :: pieces width (run bs) :=
    pieces_append (by decide) hlength (run bs)
  rw [split_eq_run_append, run_append htoken, afterRun_append htoken, hcut, List.map_cons,
    List.cons_append, ← split_eq_run_append]

end Filled

end Tokens

end WordMachine
