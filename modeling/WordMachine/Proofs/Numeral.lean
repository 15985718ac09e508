import WordMachine.Text.Numeral

/-!
# Numerals read back

A numeral consists of digits of its base, filled up with zeros or not (`Numeral.forall_mem_digits`).
Zeros in front do not count when it is read, and the number that was written comes back: from binary
and decimal numerals (`Numeral.ofDigitChars_digits`, `Numeral.ofDigits?_digits`), and from
hexadecimal ones in capital letters (`Numeral.ofHexDigits?_map_toUpper_digits`).  Other characters do not
stand in a numeral, so it ends where one of them follows (`Numeral.not_mem_digits`,
`Numeral.not_mem_hexCapital`).
-/

namespace WordMachine

namespace Numeral

/-! ### Digits -/

/-- What is true of the digits of a base is true of all characters of a numeral. -/
theorem forall_mem_toDigits {base : Nat} (hbase : 1 < base) {P : Char → Prop}
    (hP : ∀ d < base, P (Nat.digitChar d)) (n : Nat) : ∀ c ∈ Nat.toDigits base n, P c := by
  induction n using Nat.strongRecOn with
  | ind n ih =>
    intro c hc
    rw [Nat.toDigits_eq_if hbase] at hc
    split at hc
    · next hlt =>
      rw [List.mem_singleton] at hc
      rw [hc]
      exact hP n hlt
    · next hge =>
      have hpos : 0 < n := Nat.lt_of_lt_of_le (Nat.lt_of_succ_lt hbase) (Nat.le_of_not_lt hge)
      rcases List.mem_append.mp hc with hhigh | hlow
      · exact ih (n / base) (Nat.div_lt_self hpos hbase) c hhigh
      · rw [List.mem_singleton] at hlow
        rw [hlow]
        exact hP (n % base) (Nat.mod_lt n (Nat.lt_of_succ_lt hbase))

/-- Zeros in front are digits too. -/
theorem forall_mem_digits {base : Nat} (hbase : 1 < base) {P : Char → Prop}
    (hP : ∀ d < base, P (Nat.digitChar d)) (width n : Nat) : ∀ c ∈ digits base width n, P c := by
  intro c hc
  rcases List.mem_append.mp hc with hzero | hdigit
  · rw [List.eq_of_mem_replicate hzero]
    exact hP 0 (Nat.lt_of_succ_lt hbase)
  · exact forall_mem_toDigits hbase hP n c hdigit

/-- A numeral that is not filled up has a least width of zero. -/
theorem toDigits_eq_digits (base n : Nat) : Nat.toDigits base n = digits base 0 n :=
  (padLeft_of_le (Nat.zero_le _)).symm

/-- A numeral has a digit at least. -/
theorem digits_ne_nil (base width n : Nat) : digits base width n ≠ [] := by
  have hdigit : Nat.toDigits base n ≠ [] := Nat.toDigits_ne_nil
  intro hnil
  exact hdigit (List.append_eq_nil_iff.mp hnil).2

theorem toList_decimal (n : Nat) : (decimal n).toList = digits 10 0 n := by
  rw [decimal, String.toList_ofList, toDigits_eq_digits]

theorem toList_decimalPadded (width n : Nat) : (decimalPadded width n).toList = digits 10 width n :=
  String.toList_ofList

/-! ### Binary and decimal numerals -/

/-- Zeros in front do not change the number that is read. -/
theorem ofDigitChars_digits {base : Nat} (hbase : 1 < base) (hten : base ≤ 10) (width n : Nat) :
    Nat.ofDigitChars base (digits base width n) 0 = n := by
  rw [digits, padLeft, Nat.ofDigitChars_append, Nat.ofDigitChars_replicate_zero, Nat.mul_zero]
  exact Nat.ofDigitChars_toDigits hbase hten

theorem isDigit_of_mem_digits {width n : Nat} {c : Char} (hc : c ∈ digits 10 width n) :
    isDigit c = true :=
  forall_mem_digits (P := fun c => isDigit c = true) (by decide) (by decide) width n c hc

/-- A decimal numeral is read back. -/
theorem ofDigits?_digits (width n : Nat) : ofDigits? (digits 10 width n) = some n := by
  have hdigits : isDigits (digits 10 width n) = true := by
    rw [isDigits, Bool.and_eq_true, Bool.not_eq_true', List.isEmpty_eq_false_iff, List.all_eq_true]
    exact ⟨digits_ne_nil 10 width n, fun c hc => isDigit_of_mem_digits hc⟩
  rw [ofDigits?, if_pos hdigits, ofDigitChars_digits (by decide) (by decide)]

/-! ### Hexadecimal numerals -/

theorem hexDigit?_toUpper_digitChar : ∀ d < 16, hexDigit? (Nat.digitChar d).toUpper = some d := by
  decide

theorem ofHexDigits?_append (cs ds : List Char) (n : Nat) :
    ofHexDigits? n (cs ++ ds) = (ofHexDigits? n cs).bind fun m => ofHexDigits? m ds := by
  induction cs generalizing n with
  | nil => rfl
  | cons c cs ih =>
    rw [List.cons_append, ofHexDigits?, ofHexDigits?, Option.bind_assoc]
    congr 1
    funext d
    exact ih (n * 16 + d)

theorem ofHexDigits?_replicate_zero (k : Nat) : ofHexDigits? 0 (List.replicate k '0') = some 0 := by
  induction k with
  | zero => rfl
  | succ k ih => exact ih

theorem ofHexDigits?_map_toUpper_toDigits (n : Nat) :
    ofHexDigits? 0 ((Nat.toDigits 16 n).map Char.toUpper) = some n := by
  induction n using Nat.strongRecOn with
  | ind n ih =>
    rw [Nat.toDigits_eq_if (by decide)]
    split
    · next hlt =>
      rw [List.map_singleton, ofHexDigits?, hexDigit?_toUpper_digitChar n hlt]
      rw [Option.bind_some, Nat.zero_mul, Nat.zero_add, ofHexDigits?]
    · next hge =>
      have hhigh := ih (n / 16) (by omega)
      have hlow := hexDigit?_toUpper_digitChar (n % 16) (Nat.mod_lt n (by decide))
      rw [List.map_append, ofHexDigits?_append, hhigh, Option.bind_some, List.map_singleton,
        ofHexDigits?, hlow, Option.bind_some, ofHexDigits?, Nat.div_add_mod']

/-- A hexadecimal numeral in capital letters is read back. -/
theorem ofHexDigits?_map_toUpper_digits (width n : Nat) :
    ofHexDigits? 0 ((digits 16 width n).map Char.toUpper) = some n := by
  rw [digits, padLeft, List.map_append, List.map_replicate, ofHexDigits?_append]
  have hzero : ofHexDigits? 0 (List.replicate _ '0'.toUpper) = some 0 :=
    ofHexDigits?_replicate_zero (width - (Nat.toDigits 16 n).length)
  rw [hzero, Option.bind_some, ofHexDigits?_map_toUpper_toDigits]

/-! ### Characters of numerals -/

/-- Nothing but capital hexadecimal digits stands in a numeral. -/
theorem not_mem_hexCapital {c : Char} (hc : ∀ d < 16, c ≠ (Nat.digitChar d).toUpper)
    (width n : Nat) : c ∉ (hexCapital width n).toList := by
  rw [hexCapital, String.toList_ofList]
  intro hmem
  obtain ⟨d, hd, rfl⟩ := List.mem_map.mp hmem
  exact forall_mem_digits (P := fun d' => d.toUpper ≠ d'.toUpper) (by decide) hc width n d hd rfl

/-- Nothing but decimal digits stands in a numeral. -/
theorem not_mem_digits {c : Char} (hc : isDigit c = false) (width n : Nat) :
    c ∉ digits 10 width n := by
  intro hmem
  have hdigit : isDigit c = true := isDigit_of_mem_digits hmem
  rw [hc] at hdigit
  cases hdigit

end Numeral

end WordMachine
