import WordMachine.Proofs.Ascii
import WordMachine.Proofs.Loading

/-!
# Texts of programs

A word is written as sixteen binary digits (`Word.token`).  Reading them gives the word back
(`Word.ofToken_token`), for the numeral of a word has no more digits than it is filled up to.

A text of words has their tokens in order and blank bytes before, between and after them.  There may
be no blanks at all between two tokens: as each of them fills the width of a token, the cut into
tokens goes through where they meet (`Tokens.split_textOf`).  So a program, a zero word and further
words written in this way are read back by loading the program and asking for the further words
(`Bench.loadProgram_textOf`), wherever the zero word stands in its line or its run.
-/

namespace WordMachine

/-! ### Binary digits -/

/-- `IsBinary cs`: the characters are binary digits. -/
def IsBinary (cs : List Char) : Prop :=
  ∀ c ∈ cs, c = '0' ∨ c = '1'

/-- No other character is among them. -/
theorem IsBinary.not_mem {cs : List Char} {c : Char} (h : IsBinary cs) (hzero : c ≠ '0')
    (hone : c ≠ '1') : c ∉ cs := by
  intro hc
  rcases h c hc with heq | heq
  · exact hzero heq
  · exact hone heq

/-- These are ASCII characters. -/
theorem IsBinary.isAscii {cs : List Char} (h : IsBinary cs) : IsAscii cs := by
  intro c hc
  rcases h c hc with rfl | rfl <;> decide

/-- Numerals in base two consist of binary digits. -/
theorem Numeral.isBinary_digits (width n : Nat) : IsBinary (digits 2 width n) := by
  have hdigit : ∀ d < 2, Nat.digitChar d = '0' ∨ Nat.digitChar d = '1' := by decide
  exact forall_mem_digits (P := fun c => c = '0' ∨ c = '1') (by decide) hdigit width n

namespace Word

/-- Taking in binary digits one by one is reading a number. -/
theorem foldl_bit_eq {cs : List Char} (hcs : IsBinary cs) (n : Nat) :
    cs.foldl (fun w c => 2 * w + bit c) (UInt16.ofNat n) =
      UInt16.ofNat (Nat.ofDigitChars 2 cs n) := by
  induction cs generalizing n with
  | nil => rfl
  | cons c cs ih =>
    obtain ⟨hc, hcs'⟩ := List.forall_mem_cons.mp hcs
    have hstep : 2 * UInt16.ofNat n + bit c = UInt16.ofNat (2 * n + (c.toNat - '0'.toNat)) := by
      rw [UInt16.ofNat_add, UInt16.ofNat_mul]
      rcases hc with rfl | rfl <;> rfl
    rw [List.foldl_cons, hstep, ih hcs', Nat.ofDigitChars_cons]

/-- The characters of the token of a word. -/
theorem toList_token (w : Word) : w.token.toList = Numeral.digits 2 16 w.toNat :=
  String.toList_ofList

/-- The token of a word has as many characters as a word has bits. -/
theorem length_toList_token (w : Word) : w.token.toList.length = 16 := by
  have hdigits : (Nat.toDigits 2 w.toNat).length ≤ 16 :=
    (Nat.length_toDigits_le_iff (by decide) (by decide)).mpr w.toNat_lt
  rw [toList_token, Numeral.digits, Numeral.length_padLeft]
  exact Nat.max_eq_left hdigits

/-- They are binary digits. -/
theorem isBinary_token (w : Word) : IsBinary w.token.toList := by
  rw [toList_token]
  exact Numeral.isBinary_digits 16 w.toNat

/-- A word is read back from its token. -/
theorem ofToken_token (w : Word) : ofToken w.token = w := by
  have hall : w.token.toList.take 16 = w.token.toList :=
    List.take_of_length_le (Nat.le_of_eq w.length_toList_token)
  have hread : ofToken w.token = UInt16.ofNat (Nat.ofDigitChars 2 w.token.toList 0) := by
    rw [ofToken, hall]
    exact foldl_bit_eq w.isBinary_token 0
  rw [hread, toList_token, Numeral.ofDigitChars_digits (by decide) (by decide)]
  exact UInt16.ofNat_toNat

end Word

/-! ### Bytes of a token -/

namespace Tokens

/-- The bytes of a text of binary digits spell it. -/
theorem spell_bytesOf {text : String} (h : IsBinary text.toList) : spell (bytesOf text) = text := by
  have hcharacter : ∀ c ∈ text.toList, (character ∘ fun c => c.val.toUInt8) c = id c := by
    intro c hc
    rcases h c hc with rfl | rfl <;> decide
  rw [spell, bytesOf_eq_map h.isAscii, List.map_map, List.map_congr_left hcharacter, List.map_id,
    String.ofList_toList]

/-- None of them is a separator. -/
theorem isSeparator_of_mem_bytesOf {text : String} (h : IsBinary text.toList) :
    ∀ x ∈ bytesOf text, isSeparator x = false := by
  intro x hx
  rw [bytesOf_eq_map h.isAscii] at hx
  obtain ⟨c, hc, rfl⟩ := List.mem_map.mp hx
  rcases h c hc with rfl | rfl <;> decide

/-- The bytes of the token of a word are its binary digits. -/
theorem bytesOf_token (w : Word) :
    bytesOf w.token = (Numeral.digits 2 16 w.toNat).map fun c => c.val.toUInt8 := by
  rw [bytesOf_eq_map w.isBinary_token.isAscii, w.toList_token]

/-- A token of a word in front of a text is its first token, whatever follows. -/
theorem split_bytesOf_token_append (w : Word) (bs : List UInt8) :
    split (bytesOf w.token ++ bs) = w.token :: split bs := by
  have hlength : (bytesOf w.token).length = width := by
    rw [bytesOf_token, List.length_map, ← w.toList_token]
    exact w.length_toList_token
  rw [split_append_of_length_eq (isSeparator_of_mem_bytesOf w.isBinary_token) hlength,
    spell_bytesOf w.isBinary_token]

/-! ### Texts of words -/

/-- The blank bytes: space, tab, line feed, vertical tab, form feed and carriage return. -/
def blanks : List UInt8 := [0x20, 0x09, 0x0A, 0x0B, 0x0C, 0x0D]

/-- The text of some words: their tokens in order, gap number `0` in front of the first one, and gap
number `i` after the `i`-th. -/
def textOf (gap : Nat → List UInt8) : List Word → List UInt8
  | [] => gap 0
  | w :: ws => gap 0 ++ (bytesOf w.token ++ textOf (fun i => gap (i + 1)) ws)

/-- Blank bytes in front make no token, and there may be none. -/
theorem split_append_of_mem_blanks {front : List UInt8} (hfront : ∀ x ∈ front, x ∈ blanks)
    (bs : List UInt8) : split (front ++ bs) = split bs := by
  have hblanks : ∀ x ∈ blanks, isSeparator x = true := List.all_eq_true.mp (by decide)
  exact split_append_of_isSeparator (fun x hx => hblanks x (hfront x hx)) bs

/-- If the gaps are blank, the tokens of the text are those of the words. -/
theorem split_textOf {gap : Nat → List UInt8} (hgap : ∀ i, ∀ x ∈ gap i, x ∈ blanks)
    (ws : List Word) : split (textOf gap ws) = ws.map Word.token := by
  induction ws generalizing gap with
  | nil =>
    have hend := split_append_of_mem_blanks (hgap 0) []
    rw [List.append_nil, split_nil] at hend
    exact hend
  | cons w ws ih =>
    have hrest : split (textOf (fun i => gap (i + 1)) ws) = ws.map Word.token :=
      ih fun i => hgap (i + 1)
    rw [textOf, split_append_of_mem_blanks (hgap 0), split_bytesOf_token_append, hrest,
      List.map_cons]

end Tokens

/-! ### Reading back -/

/-- Words that are not zero, and then a zero word, are a whole program. -/
theorem Program.extent_append_sentinel {ws : List Word} (hws : ∀ w ∈ ws, w ≠ 0) (xs : List Word) :
    extent (ws ++ sentinel :: xs) = ws.length + 1 := by
  induction ws with
  | nil => rw [List.nil_append, extent_cons, if_pos rfl, List.length_nil]
  | cons w ws ih =>
    obtain ⟨hw, hws'⟩ := List.forall_mem_cons.mp hws
    have hne : w ≠ sentinel := hw
    rw [List.cons_append, extent_cons, if_neg hne, ih hws', List.length_cons]

/-- The tokens of words are read as the words. -/
theorem Word.map_ofToken_map_token (ws : List Word) : (ws.map token).map ofToken = ws := by
  induction ws with
  | nil => rfl
  | cons w ws ih => rw [List.map_cons, List.map_cons, ofToken_token, ih]

namespace Bench

/-- A program, a zero word and further words are read back from their text, for any blanks between
them and any chunks of it: loading the program returns its length, the zero word counted, it stands
at the start of memory, and nothing else of the machine has changed.  Calls for a token then hand
out the further words, in order, and then none. -/
theorem loadProgram_textOf {ws : List Word} (hws : ∀ w ∈ ws, w ≠ 0) (xs : List Word)
    {gap : Nat → List UInt8} (hgap : ∀ i, ∀ x ∈ gap i, x ∈ Tokens.blanks) {script : Script}
    (hscript : script.Delivers (Tokens.textOf gap (ws ++ 0 :: xs))) {m : Machine}
    (hfits : ws.length + 1 ≤ m.memory.capacity) (sink : Sink) (log : Array Event) :
    let b : Bench StreamConsole := { machine := m, console := { script, sink }, log }
    ∃ b' memory, b.loadProgram = (.ok (ws.length + 1), b') ∧
      b'.machine = { m with memory } ∧
      (∀ i : Nat, memory.words[i]? =
        if i < ws.length + 1 then (ws ++ [0])[i]? else m.memory.words[i]?) ∧
      ∀ i, (b'.console.after i).readToken.1.map (Option.map Word.ofToken) = .ok xs[i]? := by
  intro b
  have hprogram : (ws ++ [0]).length = ws.length + 1 := List.length_append
  have hsplit : ws ++ 0 :: xs = ws ++ [0] ++ xs := List.append_cons ws 0 xs
  have hextent : Program.extent (ws ++ 0 :: xs) = ws.length + 1 :=
    Program.extent_append_sentinel hws xs
  have hsupply : Supplies b.console ((ws ++ 0 :: xs).map Word.token) := by
    rw [← Tokens.split_textOf hgap]
    exact StreamConsole.yields_of_delivers sink hscript
  obtain ⟨b', memory, hload, hleft, hmachine, hwords⟩ :=
    loadProgram_of_extent_le hsupply (Word.map_ofToken_map_token _) (hextent ▸ hfits)
  rw [hextent] at hload hleft hwords
  refine ⟨b', memory, hload, hmachine, ?_, ?_⟩
  · intro i
    rw [hwords, hsplit]
    split
    · next hi =>
      rw [← hprogram] at hi
      exact List.getElem?_append_left hi
    · rfl
  · -- what is left are the tokens of the further words
    have hrest : ((ws ++ 0 :: xs).map Word.token).drop (ws.length + 1) = xs.map Word.token := by
      rw [← List.map_drop, hsplit, List.drop_left' hprogram]
    rw [hrest] at hleft
    intro i
    have hcall : (b'.console.after i).readToken.1 = .ok (xs.map Word.token)[i]? :=
      StreamConsole.Yields.readToken_after hleft i
    have hread : (xs.map Word.token)[i]?.map Word.ofToken = xs[i]? := by
      rw [← List.getElem?_map, Word.map_ofToken_map_token]
    rw [hcall, ← hread]
    rfl

/-- Three words in one run of forty-eight digits, which a read cuts in the zero word: no blank stands
between them, one in front and one behind. -/
theorem loadProgram_textOf_one_run :
    let gap : Nat → List UInt8 := fun i => if i = 0 then [0x0B] else if i = 3 then [0x0A] else []
    let front : List UInt8 := 0x0B :: 0x31 :: List.replicate 20 0x30
    let back : List UInt8 := List.replicate 11 0x30 ++ List.replicate 16 0x31 ++ [0x0A]
    let b : Bench StreamConsole := {
      machine := { registers := .powerOn, memory := ⟨#[7, 7, 7]⟩ }
      console := { script := [.bytes front, .interrupted, .bytes back] } }
    (∀ i, ∀ x ∈ gap i, x ∈ Tokens.blanks) ∧
    Tokens.textOf gap [0x8000, 0, 0xFFFF] = front ++ back ∧
    ∃ b' memory, b.loadProgram = (.ok 2, b') ∧
      b'.machine = { b.machine with memory } ∧
      (∀ i : Nat, memory.words[i]? =
        if i < 2 then [0x8000, (0 : Word)][i]? else b.machine.memory.words[i]?) ∧
      ∀ i, (b'.console.after i).readToken.1.map (Option.map Word.ofToken) =
        .ok [(0xFFFF : Word)][i]? := by
  intro gap front back b
  have hgap : ∀ i, ∀ x ∈ gap i, x ∈ Tokens.blanks := by
    intro i x hx
    simp only [gap] at hx
    split at hx
    · rw [List.mem_singleton.mp hx]
      simp [Tokens.blanks]
    · split at hx
      · rw [List.mem_singleton.mp hx]
        simp [Tokens.blanks]
      · cases hx
  have htext : Tokens.textOf gap ([0x8000] ++ 0 :: [0xFFFF]) = front ++ back := by
    simp only [List.singleton_append, Tokens.textOf, Tokens.bytesOf_token]
    decide +kernel
  have hscript : Script.Delivers [.bytes front, .interrupted, .bytes back]
      (Tokens.textOf gap ([0x8000] ++ 0 :: [0xFFFF])) := by
    rw [htext]
    exact .bytes (by decide) (.interrupted (.bytes (by decide) .nil))
  have hne : ∀ w ∈ [(0x8000 : Word)], w ≠ 0 := by simp
  exact ⟨hgap, htext, loadProgram_textOf hne [0xFFFF] hgap hscript (by decide) {} #[]⟩

end Bench

end WordMachine
