import WordMachine.Proofs.Numeral

/-!
# Texts of ASCII characters

All text that is written here, numerals and the words between them, consists of ASCII characters.  In such
a text characters and bytes are the same thing counted twice: its bytes are those of its characters, one
for each (`Tokens.bytesOf_eq_map`), so it has as many of them (`Tokens.length_bytesOf`), and cutting it off
at a number of bytes is cutting it off at as many characters (`Tokens.bytesOf_take`).
-/

namespace WordMachine

/-- `IsAscii cs`: the characters are those of one byte. -/
def IsAscii (cs : List Char) : Prop :=
  ∀ c ∈ cs, c.toNat < 128

instance (cs : List Char) : Decidable (IsAscii cs) :=
  List.decidableBAll (fun c : Char => c.toNat < 128) cs

namespace IsAscii

variable {cs ds : List Char}

theorem append (h : IsAscii cs) (h' : IsAscii ds) : IsAscii (cs ++ ds) := by
  intro c hc
  rcases List.mem_append.mp hc with hc | hc
  · exact h c hc
  · exact h' c hc

/-- Texts that are put together are ASCII if their parts are. -/
theorem join {ss : List String} (h : ∀ s ∈ ss, IsAscii s.toList) :
    IsAscii (String.join ss).toList := by
  induction ss with
  | nil =>
    intro c hc
    rw [String.join_nil] at hc
    exact absurd hc List.not_mem_nil
  | cons s ss ih =>
    obtain ⟨hs, hss⟩ := List.forall_mem_cons.mp h
    rw [String.join_cons, String.toList_append]
    exact hs.append (ih hss)

/-- Decimal numerals are ASCII. -/
theorem digits (width n : Nat) : IsAscii (Numeral.digits 10 width n) :=
  Numeral.forall_mem_digits (P := fun c => c.toNat < 128) (by decide) (by decide) width n

theorem decimal (n : Nat) : IsAscii (Numeral.decimal n).toList := by
  rw [Numeral.toList_decimal]
  exact digits 0 n

theorem decimalPadded (width n : Nat) : IsAscii (Numeral.decimalPadded width n).toList := by
  rw [Numeral.toList_decimalPadded]
  exact digits width n

/-- So are hexadecimal ones. -/
theorem hexCapital (width n : Nat) : IsAscii (Numeral.hexCapital width n).toList := by
  intro c hc
  rw [Numeral.hexCapital, String.toList_ofList] at hc
  obtain ⟨d, hd, rfl⟩ := List.mem_map.mp hc
  exact Numeral.forall_mem_digits (P := fun d => d.toUpper.toNat < 128) (by decide) (by decide)
    width n d hd

end IsAscii

namespace Tokens

/-- The bytes of a text. -/
def bytesOf (text : String) : List UInt8 :=
  text.toUTF8.data.toList

/-- An ASCII character is one byte. -/
theorem utf8EncodeChar_of_lt {c : Char} (h : c.toNat < 128) :
    String.utf8EncodeChar c = [c.val.toUInt8] := by
  have hle : c.val.toNat ≤ 0x7F := Nat.le_of_lt_succ h
  unfold String.utf8EncodeChar
  rw [if_pos hle]
  rfl

theorem flatMap_utf8EncodeChar {cs : List Char} (h : IsAscii cs) :
    cs.flatMap String.utf8EncodeChar = cs.map fun c => c.val.toUInt8 := by
  induction cs with
  | nil => rfl
  | cons c cs ih =>
    obtain ⟨hc, hcs⟩ := List.forall_mem_cons.mp h
    rw [List.flatMap_cons, utf8EncodeChar_of_lt hc, ih hcs, List.map_cons, List.singleton_append]

/-- A text of ASCII characters has one byte for each of them. -/
theorem bytesOf_eq_map {text : String} (h : IsAscii text.toList) :
    bytesOf text = text.toList.map fun c => c.val.toUInt8 := by
  rw [bytesOf, String.toUTF8_eq_toByteArray, ← String.utf8Encode_toList, List.utf8Encode,
    List.data_toByteArray, flatMap_utf8EncodeChar h]

theorem length_bytesOf {text : String} (h : IsAscii text.toList) :
    (bytesOf text).length = text.length := by
  rw [bytesOf_eq_map h, List.length_map, String.length_toList]

/-- Its first bytes are those of its first characters. -/
theorem bytesOf_take {text : String} (h : IsAscii text.toList) (n : Nat) :
    bytesOf (String.ofList (text.toList.take n)) = (bytesOf text).take n := by
  have hfirst : IsAscii (String.ofList (text.toList.take n)).toList := by
    rw [String.toList_ofList]
    intro c hc
    exact h c (List.mem_of_mem_take hc)
  rw [bytesOf_eq_map hfirst, bytesOf_eq_map h, String.toList_ofList, List.map_take]

end Tokens

end WordMachine
