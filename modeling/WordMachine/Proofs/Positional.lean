import Mathlib.Algebra.BigOperators.Group.Finset.Basic
import WordMachine.Proofs.ProgramText

/-!
# Tokens as positional numerals

A token is read by doubling and adding in sixteen bits, one character after another.  Sums and
products of words are those of the natural numbers up to a multiple of `2 ^ 16`, so the word that
comes out is the positional value of the characters read, `Word.value`, up to such a multiple
(`Word.foldl_bit_ofNat`).  As no more than sixteen characters are read, the value is less than
`2 ^ 16`, and nothing is lost (`Word.toNat_ofToken`).

Every other property of the reading is one of positional values: how the value of joined lists comes
from those of the parts (`Word.value_append`), that only the places of the ones count
(`Word.value_eq_sum`), and that binary digits of one length are known from their value
(`Word.eq_of_value_eq`).  The last one turns the reading around: writing a word that has been read
from a token gives back the token, normalised.
-/

namespace WordMachine

namespace Word

/-! ### Positional values -/

/-- The positional value in base two of a list of characters, the most significant one first.  Only
`'1'` counts. -/
def value : List Char → Nat
  | [] => 0
  | c :: cs => (if c = '1' then 2 ^ cs.length else 0) + value cs

/-- The binary digit for which a character of a token stands. -/
def digit (c : Char) : Char :=
  if c = '1' then '1' else '0'

/-- A value is less than the power of two that comes next to the highest place. -/
theorem value_lt (cs : List Char) : value cs < 2 ^ cs.length := by
  induction cs with
  | nil => exact Nat.one_pos
  | cons c cs ih =>
    rw [value, List.length_cons, Nat.pow_succ]
    split <;> omega

/-- Characters that follow raise the value of those before them by their number of places. -/
theorem value_append (cs ds : List Char) : value (cs ++ ds) = value cs * 2 ^ ds.length + value ds := by
  induction cs with
  | nil => rw [List.nil_append, value, Nat.zero_mul, Nat.zero_add]
  | cons c cs ih =>
    rw [List.cons_append, value, value, ih, List.length_append, Nat.pow_add]
    split
    · rw [Nat.add_mul, Nat.add_assoc]
    · rw [Nat.zero_add, Nat.zero_add]

/-- Characters that are not `'1'` have no value. -/
theorem value_eq_zero {cs : List Char} (hcs : ∀ c ∈ cs, c ≠ '1') : value cs = 0 := by
  induction cs with
  | nil => rfl
  | cons c cs ih =>
    obtain ⟨hc, hcs'⟩ := List.forall_mem_cons.mp hcs
    rw [value, if_neg hc, ih hcs']

/-- The value is the sum of the places at which there is a `'1'`. -/
theorem value_eq_sum (cs : List Char) :
    value cs = ∑ i ∈ Finset.range cs.length with cs[i]? = some '1', 2 ^ (cs.length - 1 - i) := by
  induction cs with
  | nil => rfl
  | cons c cs ih =>
    have hplace (i : Nat) : cs.length + 1 - 1 - (i + 1) = cs.length - 1 - i := by omega
    rw [Finset.sum_filter] at ih ⊢
    rw [List.length_cons, Finset.sum_range_succ', value, ih, Nat.add_comm]
    congr 1
    · refine Finset.sum_congr rfl fun i _ => ?_
      rw [List.getElem?_cons_succ, hplace]
    · simp

/-- Binary digits of one length are known from their value. -/
theorem eq_of_value_eq {cs ds : List Char} (hcs : IsBinary cs) (hds : IsBinary ds)
    (hlength : cs.length = ds.length) (hvalue : value cs = value ds) : cs = ds := by
  induction cs generalizing ds with
  | nil => exact (List.length_eq_zero_iff.mp hlength.symm).symm
  | cons c cs ih =>
    cases ds with
    | nil => cases hlength
    | cons d ds =>
      obtain ⟨hc, hcs'⟩ := List.forall_mem_cons.mp hcs
      obtain ⟨hd, hds'⟩ := List.forall_mem_cons.mp hds
      have hlength' : cs.length = ds.length := Nat.succ.inj hlength
      have hrest : value cs < 2 ^ ds.length := hlength' ▸ value_lt cs
      have hrest' : value ds < 2 ^ ds.length := value_lt ds
      rw [value, value, hlength'] at hvalue
      -- the digits behind the first are too small to make up for a difference in it
      rcases hc with rfl | rfl <;> rcases hd with rfl | rfl
      · simp only [Char.reduceEq, if_false, Nat.zero_add] at hvalue
        rw [ih hcs' hds' hlength' hvalue]
      · simp only [Char.reduceEq, if_false, if_true] at hvalue
        omega
      · simp only [Char.reduceEq, if_false, if_true] at hvalue
        omega
      · rw [ih hcs' hds' hlength' (Nat.add_left_cancel hvalue)]

/-! ### Digits -/

/-- What is not a `'1'` stands for a zero. -/
theorem isBinary_map_digit (cs : List Char) : IsBinary (cs.map digit) := by
  intro d hd
  obtain ⟨c, -, rfl⟩ := List.mem_map.mp hd
  rw [digit]
  split
  · exact .inr rfl
  · exact .inl rfl

/-- A binary digit stands for itself. -/
theorem map_digit_of_isBinary {cs : List Char} (hcs : IsBinary cs) : cs.map digit = cs := by
  have hdigit : ∀ c ∈ cs, digit c = id c := by
    intro c hc
    rcases hcs c hc with rfl | rfl <;> rfl
  rw [List.map_congr_left hdigit, List.map_id]

/-- Characters have the value of the digits for which they stand. -/
theorem value_map_digit (cs : List Char) : value (cs.map digit) = value cs := by
  have hone (c : Char) : digit c = '1' ↔ c = '1' := by
    rw [digit]
    split
    · next hc => exact iff_of_true rfl hc
    · next hc => exact iff_of_false (by decide) hc
  induction cs with
  | nil => rfl
  | cons c cs ih => simp only [List.map_cons, value, hone, List.length_map, ih]

/-! ### Reading a token -/

/-- Doubling and adding in sixteen bits gives the value in sixteen bits. -/
theorem foldl_bit_ofNat (cs : List Char) (n : Nat) :
    cs.foldl (fun w c => 2 * w + bit c) (UInt16.ofNat n) =
      UInt16.ofNat (n * 2 ^ cs.length + value cs) := by
  induction cs generalizing n with
  | nil => rw [List.foldl_nil, value, List.length_nil, Nat.pow_zero, Nat.mul_one, Nat.add_zero]
  | cons c cs ih =>
    have hstep : 2 * UInt16.ofNat n + bit c = UInt16.ofNat (2 * n + if c = '1' then 1 else 0) := by
      rw [UInt16.ofNat_add, UInt16.ofNat_mul, bit]
      split <;> rfl
    have hplaces : (2 * n + if c = '1' then 1 else 0) * 2 ^ cs.length + value cs =
        n * 2 ^ (c :: cs).length + value (c :: cs) := by
      rw [value, List.length_cons, Nat.pow_succ', Nat.add_mul, Nat.add_assoc, ite_mul, Nat.one_mul,
        Nat.zero_mul, Nat.mul_comm 2 n, Nat.mul_assoc]
    rw [List.foldl_cons, hstep, ih, hplaces]

/-- No more characters are read than a word has bits, so a token has the value of the characters that
are read. -/
theorem toNat_ofToken (t : String) : (ofToken t).toNat = value (t.toList.take 16) := by
  have hread : ofToken t = UInt16.ofNat (value (t.toList.take 16)) := by
    have hfold := foldl_bit_ofNat (t.toList.take 16) 0
    rw [Nat.zero_mul, Nat.zero_add] at hfold
    exact hfold
  have hlt : value (t.toList.take 16) < 2 ^ 16 :=
    Nat.lt_of_lt_of_le (value_lt _) (Nat.pow_le_pow_right (by decide) (List.length_take_le _ _))
  rw [hread]
  exact UInt16.toNat_ofNat_of_lt hlt

/-- Tokens are read alike if the characters that are read have the same value. -/
theorem ofToken_congr {s t : String} (h : value (s.toList.take 16) = value (t.toList.take 16)) :
    ofToken s = ofToken t := by
  rw [← UInt16.toNat_inj, toNat_ofToken, toNat_ofToken, h]

/-- A token that is not longer than a word is read as a whole. -/
theorem toNat_ofToken_of_le {t : String} (h : t.length ≤ 16) : (ofToken t).toNat = value t.toList := by
  rw [toNat_ofToken, List.take_of_length_le (String.length_toList ▸ h)]

/-- Tokens whose characters stand for the same digits are read alike. -/
theorem ofToken_eq_of_map_digit {s t : String} (h : s.toList.map digit = t.toList.map digit) :
    ofToken s = ofToken t := by
  apply ofToken_congr
  rw [← value_map_digit, List.map_take, h, ← List.map_take, value_map_digit]

/-- Two tokens that together are not longer than a word are read one above the other. -/
theorem toNat_ofToken_append {s t : String} (h : s.length + t.length ≤ 16) :
    (ofToken (s ++ t)).toNat = (ofToken s).toNat * 2 ^ t.length + (ofToken t).toNat := by
  have hs : s.length ≤ 16 := Nat.le_trans (Nat.le_add_right _ _) h
  have ht : t.length ≤ 16 := Nat.le_trans (Nat.le_add_left _ _) h
  have hst : (s ++ t).length ≤ 16 := by rwa [String.length_append]
  rw [toNat_ofToken_of_le hst, toNat_ofToken_of_le hs, toNat_ofToken_of_le ht, String.toList_append,
    value_append, String.length_toList]

/-- The token of a word that has been read holds the digits of the characters that were read, filled up
with zeros. -/
theorem toList_token_ofToken (t : String) :
    (ofToken t).token.toList =
      List.replicate (16 - (t.toList.take 16).length) '0' ++ (t.toList.take 16).map digit := by
  have hwidth : (ofToken t).token.length = 16 := by
    rw [← String.length_toList]
    exact length_toList_token _
  have hvalue : value (ofToken t).token.toList = value (t.toList.take 16) := by
    rw [← toNat_ofToken_of_le (Nat.le_of_eq hwidth), ofToken_token, toNat_ofToken]
  have hzeros : ∀ c ∈ List.replicate (16 - (t.toList.take 16).length) '0', c = '0' :=
    fun _ => List.eq_of_mem_replicate
  apply eq_of_value_eq (isBinary_token _)
  · intro c hc
    rcases List.mem_append.mp hc with hzero | hdigit
    · exact .inl (hzeros c hzero)
    · exact isBinary_map_digit _ c hdigit
  · have hle : (t.toList.take 16).length ≤ 16 := List.length_take_le _ _
    rw [length_toList_token, List.length_append, List.length_replicate, List.length_map,
      Nat.sub_add_cancel hle]
  · have hzero : value (List.replicate (16 - (t.toList.take 16).length) '0') = 0 :=
      value_eq_zero fun c hc => hzeros c hc ▸ by decide
    rw [hvalue, value_append, hzero, Nat.zero_mul, Nat.zero_add, value_map_digit]

/-! ### What counts in a token -/

/-- A token is the sum of the places of its ones. -/
theorem toNat_ofToken_eq_sum (t : String) :
    (ofToken t).toNat = ∑ i ∈ Finset.range (min 16 t.length) with t.toList[i]? = some '1',
      2 ^ (min 16 t.length - 1 - i) := by
  have hlength : (t.toList.take 16).length = min 16 t.length := by
    rw [List.length_take, String.length_toList]
  rw [toNat_ofToken, value_eq_sum, hlength]
  refine Finset.sum_congr (Finset.filter_congr fun i hi => ?_) fun _ _ => rfl
  have hi16 : i < 16 := Nat.lt_of_lt_of_le (Finset.mem_range.mp hi) (Nat.min_le_left _ _)
  rw [List.getElem?_take_of_lt hi16]

/-- While there is a character left to read, the highest bit is not set. -/
theorem toNat_ofToken_take_lt (t : String) {i : Nat} (hi : i < 16) :
    (ofToken (String.ofList (t.toList.take i))).toNat < 2 ^ 15 := by
  have hshort : (t.toList.take i).length ≤ 15 :=
    (List.length_take_le i t.toList).trans (Nat.le_of_lt_succ hi)
  have hle : (String.ofList (t.toList.take i)).length ≤ 16 := by
    rw [String.length_ofList]
    exact hshort.trans (Nat.le_succ 15)
  rw [toNat_ofToken_of_le hle, String.toList_ofList]
  exact Nat.lt_of_lt_of_le (value_lt _) (Nat.pow_le_pow_right (by decide) hshort)

/-- Nothing that follows sixteen characters counts. -/
theorem ofToken_append_of_le {t : String} (h : 16 ≤ t.length) (s : String) :
    ofToken (t ++ s) = ofToken t := by
  apply ofToken_congr
  rw [String.toList_append, List.take_append_of_le_length (String.length_toList ▸ h)]

/-- It does not count which character stands for a zero. -/
theorem ofToken_exchange {c d : Char} (hc : c ≠ '1') (hd : d ≠ '1') (front back : List Char) :
    ofToken (String.ofList (front ++ c :: back)) = ofToken (String.ofList (front ++ d :: back)) := by
  have hzero {c : Char} (hc : c ≠ '1') : digit c = '0' := if_neg hc
  apply ofToken_eq_of_map_digit
  rw [String.toList_ofList, String.toList_ofList, List.map_append, List.map_append, List.map_cons,
    List.map_cons, hzero hc, hzero hd]

/-- Zeros in front do not count. -/
theorem ofToken_append_of_zeros {s t : String} (hs : ∀ c ∈ s.toList, c ≠ '1')
    (h : s.length + t.length ≤ 16) : ofToken (s ++ t) = ofToken t := by
  have hs16 : s.length ≤ 16 := Nat.le_trans (Nat.le_add_right _ _) h
  rw [← UInt16.toNat_inj, toNat_ofToken_append h, toNat_ofToken_of_le hs16, value_eq_zero hs,
    Nat.zero_mul, Nat.zero_add]

/-- Sixteen binary digits are the token of the word that is read from them. -/
theorem token_ofToken {t : String} (hlength : t.length = 16) (hbinary : IsBinary t.toList) :
    (ofToken t).token = t := by
  have hall : t.toList.take 16 = t.toList := by
    rw [List.take_of_length_le (by rw [String.length_toList, hlength])]
  rw [← String.toList_inj, toList_token_ofToken, hall, String.length_toList, hlength, Nat.sub_self,
    List.replicate_zero, List.nil_append, map_digit_of_isBinary hbinary]

/-- A token is a positional numeral in base two of its first sixteen characters, in which only `'1'` is
not zero.  The sum is exact, for the highest bit, which the next doubling would lose, is never set while
there is a character left to read.  Characters after the sixteenth do not count, nor does it which
character stands for a zero, nor do zeros in front as long as there are no more than sixteen characters;
and the word of two joined tokens is composed of the words of the parts.

Written as a token, the word that was read shows the digits that were read, with zeros in front.  So
words and texts of sixteen binary digits are in one-to-one correspondence. -/
theorem ofToken_positional :
    (∀ t : String,
      let m := min 16 t.length
      (ofToken t).toNat = ∑ i ∈ Finset.range m with t.toList[i]? = some '1', 2 ^ (m - 1 - i) ∧
      (∀ i < m, (ofToken (String.ofList (t.toList.take i))).toNat < 2 ^ 15) ∧
      (ofToken t).token.toList = List.replicate (16 - m) '0' ++ (t.toList.take m).map digit) ∧
    (∀ t s : String, 16 ≤ t.length → ofToken (t ++ s) = ofToken t) ∧
    (∀ (front back : List Char) (c d : Char), c ≠ '1' → d ≠ '1' →
      ofToken (String.ofList (front ++ c :: back)) = ofToken (String.ofList (front ++ d :: back))) ∧
    (∀ s t : String, s.length + t.length ≤ 16 →
      (ofToken (s ++ t)).toNat = (ofToken s).toNat * 2 ^ t.length + (ofToken t).toNat ∧
      ((∀ c ∈ s.toList, c ≠ '1') → ofToken (s ++ t) = ofToken t)) ∧
    (∀ w : Word, w.token.length = 16 ∧ IsBinary w.token.toList ∧ ofToken w.token = w) ∧
    ∀ t : String, t.length = 16 → IsBinary t.toList → (ofToken t).token = t := by
  refine ⟨fun t => ⟨toNat_ofToken_eq_sum t, fun i hi => ?_, ?_⟩, fun t s h => ofToken_append_of_le h s,
    fun front back c d hc hd => ofToken_exchange hc hd front back,
    fun s t h => ⟨toNat_ofToken_append h, fun hs => ofToken_append_of_zeros hs h⟩,
    fun w => ⟨?_, w.isBinary_token, w.ofToken_token⟩, fun t => token_ofToken⟩
  · exact toNat_ofToken_take_lt t (Nat.lt_of_lt_of_le hi (Nat.min_le_left _ _))
  · have hlength : (t.toList.take 16).length = min 16 t.length := by
      rw [List.length_take, String.length_toList]
    have htake : t.toList.take (min 16 t.length) = t.toList.take 16 := by
      rw [← hlength, List.length_take, List.take_eq_take_iff]
      omega
    rw [toList_token_ofToken, hlength, htake]
  · rw [← String.length_toList]
    exact w.length_toList_token

/-- A token of four characters, two of them neither zero nor one: a stray character may stand in front,
and one of the two may be a zero.  A token of full width, with a seventeenth character behind. -/
theorem ofToken_positional_of_stray_characters :
    let short := "1x\uFFFD1"
    let full := "1000000000000001"
    ("-".length + short.length ≤ 16 ∧ (∀ c ∈ "-".toList, c ≠ '1') ∧
      ofToken ("-" ++ short) = ofToken short ∧
      (ofToken short).token.toList = List.replicate 12 '0' ++ ['1', '0', '0', '1']) ∧
    ('x' ≠ '1' ∧ '0' ≠ '1' ∧ ofToken short = ofToken "10\uFFFD1") ∧
    (16 ≤ full.length ∧ ofToken (full ++ "1") = ofToken full ∧
      15 < min 16 full.length ∧ (ofToken (String.ofList (full.toList.take 15))).toNat < 2 ^ 15) ∧
    full.length = 16 ∧ IsBinary full.toList ∧ (ofToken full).token = full := by
  intro short full
  obtain ⟨hall, hmore, hexchange, hjoined, -, hwritten⟩ := ofToken_positional
  have hfront : "-".length + short.length ≤ 16 := by decide
  have hstray : ∀ c ∈ "-".toList, c ≠ '1' := by simp
  have hx : 'x' ≠ '1' := by decide
  have hzero : '0' ≠ '1' := by decide
  have hfull : full.length = 16 := by decide
  have hwide : 16 ≤ full.length := Nat.le_of_eq hfull.symm
  have hlast : 15 < min 16 full.length := by
    rw [hfull]
    decide
  have hbinary : IsBinary full.toList := by
    have hdigits : ∀ c ∈ full.toList, c = '0' ∨ c = '1' := by simp [full]
    exact hdigits
  exact ⟨⟨hfront, hstray, (hjoined "-" short hfront).2 hstray, (hall short).2.2.trans (by decide)⟩,
    ⟨hx, hzero, hexchange ['1'] ['\uFFFD', '1'] 'x' '0' hx hzero⟩,
    ⟨hwide, hmore full "1" hwide, hlast, (hall full).2.1 15 hlast⟩,
    hfull, hbinary, hwritten full hfull hbinary⟩

end Word

end WordMachine
