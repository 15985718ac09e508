import WordMachine.Json.Token
import WordMachine.Proofs.Numeral

/-!
# How tokens of JSON are spelled

A token may be spelled in many ways: a character of a string may stand for itself or be escaped in two
forms, and any number of blanks may stand between tokens.  `Json.Spelled ts cs` says that the characters
`cs` are one of the spellings of the tokens `ts`.  It is a grammar and knows of no reader: strings are
described by `Json.StringText`, and numbers by `Json.NumberText`, sign, whole part, fraction and exponent
one after another.

The reader finds the tokens in every spelling of them (`Json.Token.scan_of_spelled`).  It takes the longest
block of letters for a word, and the longest block of number characters for a number, so it must be known
that these blocks end where the token ends (`Json.Token.Ends`).  They do if one of any two neighbours is a
bracket, a comma or a colon (`Json.Token.AllApart`), and so it is with the tokens of a value.
-/

namespace WordMachine

namespace Json

open Numeral (isDigit isDigits isExponent)

/-! ### Blocks of characters -/

/-- A block of characters with the property `p` ends here. -/
def Stops (p : Char → Bool) (rest : List Char) : Prop :=
  ∀ c ∈ rest.head?, p c = false

section Blocks

variable {p : Char → Bool} {cs rest : List Char}

theorem Stops.takeWhile_append (h : Stops p rest) (hcs : ∀ c ∈ cs, p c = true) :
    (cs ++ rest).takeWhile p = cs := by
  rw [List.takeWhile_append_of_pos hcs]
  cases rest with
  | nil => exact List.append_nil cs
  | cons c rest =>
    have hc : p c = false := h c rfl
    rw [List.takeWhile_cons_of_neg (by rw [hc]; exact Bool.false_ne_true), List.append_nil]

theorem Stops.dropWhile_append (h : Stops p rest) (hcs : ∀ c ∈ cs, p c = true) :
    (cs ++ rest).dropWhile p = rest := by
  rw [List.dropWhile_append_of_pos hcs]
  cases rest with
  | nil => rfl
  | cons c rest =>
    have hc : p c = false := h c rfl
    rw [List.dropWhile_cons_of_neg (by rw [hc]; exact Bool.false_ne_true)]

end Blocks

/-! ### Strings -/

/-- The characters that may be escaped by a backslash and one character, and what they denote then. -/
def escapes : List (Char × Nat) :=
  [('"', 0x22), ('\\', 0x5C), ('/', 0x2F), ('b', 0x08), ('f', 0x0C), ('n', 0x0A), ('r', 0x0D),
    ('t', 0x09)]

/-- The spellings of the units of a string, without its quotes. -/
inductive StringText : Units → List Char → Prop
  | nil : StringText [] []
  /-- A character that stands for itself. -/
  | plain {c : Char} {us : Units} {cs : List Char} (hcontrol : 0x20 ≤ c.toNat) (hquote : c ≠ '"')
      (hbackslash : c ≠ '\\') (h : StringText us cs) : StringText (c.toNat :: us) (c :: cs)
  /-- An escape of two characters. -/
  | escape {c : Char} {u : Nat} {us : Units} {cs : List Char} (hescape : (c, u) ∈ escapes)
      (h : StringText us cs) : StringText (u :: us) ('\\' :: c :: cs)
  /-- An escape by four hexadecimal digits, in capital or small letters. -/
  | unicode {a b c d : Char} {u : Nat} {us : Units} {cs : List Char}
      (hdigits : [a, b, c, d].map Char.toUpper = (Numeral.digits 16 4 u).map Char.toUpper)
      (h : StringText us cs) : StringText (u :: us) ('\\' :: 'u' :: a :: b :: c :: d :: cs)

theorem escape?_of_mem : ∀ e ∈ escapes, escape? e.1 = some e.2 := by
  decide

/-- Whether a hexadecimal digit is a capital or a small letter does not matter. -/
theorem hexDigit?_toUpper (c : Char) : Numeral.hexDigit? c.toUpper = Numeral.hexDigit? c := by
  have hascii : ∀ n < 128,
      Numeral.hexDigit? (Char.ofNat n).toUpper = Numeral.hexDigit? (Char.ofNat n) := by
    decide
  by_cases hc : c.toNat < 128
  · have hof := hascii c.toNat hc
    rwa [Char.ofNat_toNat] at hof
  · have hsame : c.toUpper = c := by
      unfold Char.toUpper
      apply dif_neg
      rintro ⟨-, hle⟩
      have hsmall : c.toNat ≤ 122 := hle
      omega
    rw [hsame]

theorem ofHexDigits?_map_toUpper (n : Nat) (cs : List Char) :
    Numeral.ofHexDigits? n (cs.map Char.toUpper) = Numeral.ofHexDigits? n cs := by
  induction cs generalizing n with
  | nil => rfl
  | cons c cs ih =>
    simp only [List.map_cons, Numeral.ofHexDigits?, hexDigit?_toUpper, ih]

theorem hexUnit?_of_digits {a b c d : Char} {u : Nat}
    (h : [a, b, c, d].map Char.toUpper = (Numeral.digits 16 4 u).map Char.toUpper) :
    hexUnit? a b c d = some u := by
  rw [hexUnit?, ← ofHexDigits?_map_toUpper, h]
  exact Numeral.ofHexDigits?_map_toUpper_digits 4 u

/-- A string is read from every spelling of it, up to its closing quote. -/
theorem StringText.stringAfter_eq {us : Units} {cs : List Char} (h : StringText us cs)
    (before : Units) (rest : List Char) :
    stringAfter before (cs ++ '"' :: rest) = some (before.reverse ++ us, rest) := by
  induction h generalizing before with
  | nil =>
    rw [List.append_nil]
    rfl
  | @plain c us cs hcontrol hquote hbackslash h ih =>
    have hread : ¬ (c = '\\' ∨ c.toNat < 0x20) := by
      rintro (hc | hc)
      · exact hbackslash hc
      · exact absurd hcontrol (Nat.not_le_of_lt hc)
    have hnext : stringAfter before (c :: (cs ++ '"' :: rest)) =
        stringAfter (c.toNat :: before) (cs ++ '"' :: rest) := by
      rw [stringAfter, if_neg hread]
      · exact hquote
      · intro _ _ _ _ _ hc
        exact absurd hc hbackslash
      · intro _ _ hc
        exact absurd hc hbackslash
    rw [List.cons_append, hnext, ih, List.reverse_cons, List.append_assoc, List.singleton_append]
  | @escape c u us cs hescape h ih =>
    have hc : escape? c = some u := escape?_of_mem _ hescape
    have hnext : stringAfter before ('\\' :: c :: (cs ++ '"' :: rest)) =
        stringAfter (u :: before) (cs ++ '"' :: rest) := by
      rw [stringAfter, hc]
      -- the letter of the other form of an escape is not among these characters
      intro _ _ _ _ _ hu
      rw [hu] at hc
      cases hc
    simp only [List.cons_append]
    rw [hnext, ih, List.reverse_cons, List.append_assoc, List.singleton_append]
  | @unicode a b c d u us cs hdigits h ih =>
    have hunit := hexUnit?_of_digits hdigits
    have hnext : stringAfter before ('\\' :: 'u' :: a :: b :: c :: d :: (cs ++ '"' :: rest)) =
        stringAfter (u :: before) (cs ++ '"' :: rest) := by
      rw [stringAfter, hunit]
    simp only [List.cons_append]
    rw [hnext, ih, List.reverse_cons, List.append_assoc, List.singleton_append]

/-! ### Numbers -/

/-- A zero, or digits of which the first one is not zero. -/
inductive WholeText : List Char → Prop
  | zero : WholeText ['0']
  | digits {d : Char} {ds : List Char} (hzero : d ≠ '0')
      (hds : ∀ c ∈ d :: ds, isDigit c = true) : WholeText (d :: ds)

/-- Nothing, or digits behind a point. -/
inductive FractionText : List Char → Prop
  | none : FractionText []
  | digits {ds : List Char} (hne : ds ≠ []) (hds : ∀ c ∈ ds, isDigit c = true) :
      FractionText ('.' :: ds)

/-- Nothing, or digits behind a letter and an optional sign. -/
inductive ExponentText : List Char → Prop
  | none : ExponentText []
  | digits {e : Char} {sign ds : List Char} (he : e = 'e' ∨ e = 'E')
      (hsign : sign = [] ∨ sign = ['+'] ∨ sign = ['-']) (hne : ds ≠ [])
      (hds : ∀ c ∈ ds, isDigit c = true) : ExponentText (e :: (sign ++ ds))

/-- The literals of numbers. -/
inductive NumberText : List Char → Prop
  | literal {sign whole fraction exponent : List Char} (hsign : sign = [] ∨ sign = ['-'])
      (hwhole : WholeText whole) (hfraction : FractionText fraction)
      (hexponent : ExponentText exponent) :
      NumberText (sign ++ (whole ++ (fraction ++ exponent)))

theorem isDigits_of_forall {ds : List Char} (hne : ds ≠ []) (hds : ∀ c ∈ ds, isDigit c = true) :
    isDigits ds = true := by
  rw [isDigits, Bool.and_eq_true, Bool.not_eq_true', List.isEmpty_eq_false_iff, List.all_eq_true]
  exact ⟨hne, hds⟩

theorem WholeText.isDigit {cs : List Char} (h : WholeText cs) : ∀ c ∈ cs, isDigit c = true := by
  cases h with
  | zero => exact List.all_eq_true.mp rfl
  | digits hzero hds => exact hds

theorem WholeText.exists_cons {cs : List Char} (h : WholeText cs) : ∃ d ds, cs = d :: ds := by
  cases h with
  | zero => exact ⟨_, _, rfl⟩
  | digits _ _ => exact ⟨_, _, rfl⟩

theorem WholeText.isWhole {cs : List Char} (h : WholeText cs) : isWhole cs = true := by
  cases h with
  | zero => rfl
  | @digits d ds hzero hds =>
    have hdigits := isDigits_of_forall (List.cons_ne_nil d ds) hds
    rw [Json.isWhole, hdigits]
    · rintro ⟨⟩
      exact hzero rfl
    · rintro _ ⟨⟩
      exact hzero rfl

theorem ExponentText.isExponent {cs : List Char} (h : ExponentText cs) :
    isExponent cs = true := by
  cases h with
  | none => rfl
  | @digits e sign ds he hsign hne hds =>
    have hdigits := isDigits_of_forall hne hds
    rcases hsign with rfl | rfl | rfl
    · -- a digit is not taken for a sign
      obtain ⟨d, ds, rfl⟩ := List.exists_cons_of_ne_nil hne
      have hd : Numeral.isDigit d = true := hds d List.mem_cons_self
      have hminus : d ≠ '-' := by
        rintro rfl
        exact absurd hd (by decide)
      have hplus : d ≠ '+' := by
        rintro rfl
        exact absurd hd (by decide)
      rcases he with rfl | rfl
      all_goals
        rw [List.nil_append, Numeral.isExponent, hdigits]
        · rintro _ ⟨⟩
          exact hminus rfl
        · rintro _ ⟨⟩
          exact hplus rfl
    · rcases he with rfl | rfl <;> exact hdigits
    · rcases he with rfl | rfl <;> exact hdigits

theorem ExponentText.stops {cs : List Char} (h : ExponentText cs) : Stops Numeral.isDigit cs := by
  intro c hc
  cases h with
  | none => cases hc
  | digits he _ _ _ =>
    cases hc
    rcases he with rfl | rfl <;> rfl

theorem FractionText.isFraction {cs ds : List Char} (h : FractionText cs) (h' : ExponentText ds) :
    isFraction (cs ++ ds) = true := by
  cases h with
  | none =>
    rw [List.nil_append, Json.isFraction, h'.isExponent]
    rintro _ rfl
    cases h' with
    | digits he _ _ _ => exact absurd he (by decide)
  | @digits fs hne hfs =>
    rw [List.cons_append, Json.isFraction, h'.stops.takeWhile_append hfs,
      h'.stops.dropWhile_append hfs, isDigits_of_forall hne hfs, h'.isExponent]
    rfl

theorem FractionText.stops {cs ds : List Char} (h : FractionText cs) (h' : ExponentText ds) :
    Stops Numeral.isDigit (cs ++ ds) := by
  cases h with
  | none => exact h'.stops
  | digits _ _ =>
    rintro _ ⟨⟩
    rfl

/-- Literals have the form of numbers. -/
theorem NumberText.isNumber {cs : List Char} (h : NumberText cs) : isNumber cs = true := by
  cases h with
  | @literal sign whole fraction exponent hsign hwhole hfraction hexponent =>
    have hstops := hfraction.stops hexponent
    have hunsigned : isUnsigned (whole ++ (fraction ++ exponent)) = true := by
      rw [isUnsigned, hstops.takeWhile_append hwhole.isDigit,
        hstops.dropWhile_append hwhole.isDigit, hwhole.isWhole, hfraction.isFraction hexponent]
      rfl
    rcases hsign with rfl | rfl
    · rw [List.nil_append, Json.isNumber, hunsigned]
      -- a digit is not taken for the sign
      intro cs hcs
      obtain ⟨d, ds, rfl⟩ := hwhole.exists_cons
      cases hcs
      exact absurd (hwhole.isDigit '-' List.mem_cons_self) (by decide)
    · exact hunsigned

theorem isNumberPart_of_isDigit {c : Char} (h : isDigit c = true) : isNumberPart c = true := by
  simp only [isNumberPart, h, Bool.true_or]

/-- They are made of the characters that numbers are made of. -/
theorem NumberText.isNumberPart {cs : List Char} (h : NumberText cs) :
    ∀ c ∈ cs, isNumberPart c = true := by
  cases h with
  | @literal sign whole fraction exponent hsign hwhole hfraction hexponent =>
    have hsigned : ∀ c ∈ sign, Json.isNumberPart c = true := by
      rcases hsign with rfl | rfl <;> exact List.all_eq_true.mp rfl
    have hfractional : ∀ c ∈ fraction, Json.isNumberPart c = true := by
      cases hfraction with
      | none => exact List.forall_mem_nil _
      | digits _ hds =>
        exact List.forall_mem_cons.mpr ⟨by decide, fun c hc => isNumberPart_of_isDigit (hds c hc)⟩
    have hexponential : ∀ c ∈ exponent, Json.isNumberPart c = true := by
      cases hexponent with
      | none => exact List.forall_mem_nil _
      | @digits e sign ds he hsign hne hds =>
        have hmark : Json.isNumberPart e = true := by
          rcases he with rfl | rfl <;> decide
        have hsigned : ∀ c ∈ sign, Json.isNumberPart c = true := by
          rcases hsign with rfl | rfl | rfl <;> exact List.all_eq_true.mp rfl
        exact List.forall_mem_cons.mpr ⟨hmark, List.forall_mem_append.mpr
          ⟨hsigned, fun c hc => isNumberPart_of_isDigit (hds c hc)⟩⟩
    have hdigits : ∀ c ∈ whole, Json.isNumberPart c = true := by
      intro c hc
      exact isNumberPart_of_isDigit (hwhole.isDigit c hc)
    exact List.forall_mem_append.mpr ⟨hsigned, List.forall_mem_append.mpr
      ⟨hdigits, List.forall_mem_append.mpr ⟨hfractional, hexponential⟩⟩⟩

theorem NumberText.exists_cons {cs : List Char} (h : NumberText cs) : ∃ c ds, cs = c :: ds := by
  cases h with
  | literal hsign hwhole _ _ =>
    obtain ⟨d, ds, rfl⟩ := hwhole.exists_cons
    rcases hsign with rfl | rfl
    · exact ⟨_, _, rfl⟩
    · exact ⟨_, _, rfl⟩

/-! ### Tokens -/

namespace Token

/-- The characters of signs and of words. -/
def fixed? : Token → Option (List Char)
  | openBrace => some ['\x7b']
  | closeBrace => some ['\x7d']
  | openBracket => some ['[']
  | closeBracket => some [']']
  | comma => some [',']
  | colon => some [':']
  | null => some ['n', 'u', 'l', 'l']
  | boolean true => some ['t', 'r', 'u', 'e']
  | boolean false => some ['f', 'a', 'l', 's', 'e']
  | number _ => none
  | string _ => none

/-- The spellings of a token. -/
inductive Spells : Token → List Char → Prop
  | fixed {t : Token} {cs : List Char} (h : t.fixed? = some cs) : Spells t cs
  | number {cs : List Char} (h : NumberText cs) : Spells (number cs) cs
  | string {us : Units} {cs : List Char} (h : StringText us cs) :
      Spells (string us) ('"' :: (cs ++ ['"']))

/-- The token is a bracket, a comma or a colon. -/
def IsSign : Token → Prop
  | openBrace | closeBrace | openBracket | closeBracket | comma | colon => True
  | _ => False

/-- One of two tokens is a sign, so that nothing need stand between them. -/
def Apart (s t : Token) : Prop :=
  s.IsSign ∨ t.IsSign

/-- No two tokens that are neighbours need anything between them. -/
def AllApart : List Token → Prop
  | [] => True
  | t :: ts => (∀ s ∈ ts.head?, t.Apart s) ∧ AllApart ts

/-- What follows a token does not go on with it, if that is a word or a number. -/
def Ends (t : Token) (rest : List Char) : Prop :=
  t.IsSign ∨ Stops Json.isNumberPart rest ∧ Stops Char.isLower rest

end Token

/-- The spellings of tokens, with any blanks before, between and behind them. -/
inductive Spelled : List Token → List Char → Prop
  | nil {blanks : List Char} (hblanks : ∀ c ∈ blanks, Token.isBlank c = true) : Spelled [] blanks
  | cons {t : Token} {ts : List Token} {blanks cs rest : List Char}
      (hblanks : ∀ c ∈ blanks, Token.isBlank c = true) (ht : t.Spells cs)
      (h : Spelled ts rest) : Spelled (t :: ts) (blanks ++ (cs ++ rest))

/-- Nothing need stand in front of a token. -/
theorem Spelled.tight {t : Token} {ts : List Token} {cs rest : List Char} (ht : t.Spells cs)
    (h : Spelled ts rest) : Spelled (t :: ts) (cs ++ rest) :=
  .cons (List.forall_mem_nil _) ht h

theorem Spelled.sign {t : Token} {ts : List Token} {c : Char} {rest : List Char}
    (ht : t.fixed? = some [c]) (h : Spelled ts rest) : Spelled (t :: ts) (c :: rest) :=
  .tight (.fixed ht) h

/-- One more blank may stand in front of tokens. -/
theorem Spelled.blank {ts : List Token} {c : Char} {cs : List Char}
    (hc : Token.isBlank c = true) (h : Spelled ts cs) : Spelled ts (c :: cs) := by
  cases h with
  | nil hblanks => exact .nil (List.forall_mem_cons.mpr ⟨hc, hblanks⟩)
  | cons hblanks ht h => exact .cons (List.forall_mem_cons.mpr ⟨hc, hblanks⟩) ht h

namespace Token

theorem ofSign?_eq_none {c : Char} (h : Json.isNumberPart c = true) : ofSign? c = none := by
  unfold ofSign?
  split
  all_goals first | rfl | exact absurd h (by decide)

/-- A word is read if it ends there. -/
theorem first?_of_word {t : Token} {c : Char} (letters : List Char) {rest : List Char}
    (hquote : c ≠ '"') (hsign : ofSign? c = none) (hnumber : Json.isNumberPart c = false)
    (hletters : ∀ c ∈ letters, c.isLower = true) (hword : ofWord? (c :: letters) = some t)
    (hrest : Stops Char.isLower rest) : first? (c :: (letters ++ rest)) = some (t, rest) := by
  have hnotNumber : ¬ Json.isNumberPart c = true := by
    rw [hnumber]
    exact Bool.false_ne_true
  rw [first?, hsign]
  · simp only [if_neg hnotNumber, hrest.takeWhile_append hletters,
      hrest.dropWhile_append hletters, hword, Option.map_some]
  · exact hquote

/-- A number is read if it ends there. -/
theorem first?_of_number {literal rest : List Char} (h : NumberText literal)
    (hrest : Stops Json.isNumberPart rest) :
    first? (literal ++ rest) = some (number literal, rest) := by
  have hnumber := h.isNumber
  have hpart := h.isNumberPart
  obtain ⟨c, ds, rfl⟩ := h.exists_cons
  obtain ⟨hc, hds⟩ := List.forall_mem_cons.mp hpart
  have hquote : c ≠ '"' := by
    rintro rfl
    exact absurd hc (by decide)
  rw [List.cons_append, first?, ofSign?_eq_none hc]
  · simp only [if_pos hc, ofNumber?, hrest.takeWhile_append hds, hrest.dropWhile_append hds,
      if_pos hnumber, Option.map_some]
  · exact hquote

/-- A token is read from every spelling of it, if it ends there. -/
theorem first?_of_spells {t : Token} {cs rest : List Char} (h : t.Spells cs)
    (hrest : t.Ends rest) : first? (cs ++ rest) = some (t, rest) := by
  cases h with
  | fixed h =>
    cases t with
    | null =>
      cases h
      obtain ⟨-, hstops⟩ := hrest.resolve_left id
      exact first?_of_word ['u', 'l', 'l'] (by decide) (by decide) (by decide)
        (List.all_eq_true.mp rfl) (by decide) hstops
    | boolean b =>
      obtain ⟨-, hstops⟩ := hrest.resolve_left id
      cases b with
      | true =>
        cases h
        exact first?_of_word ['r', 'u', 'e'] (by decide) (by decide) (by decide)
          (List.all_eq_true.mp rfl) (by decide) hstops
      | false =>
        cases h
        exact first?_of_word ['a', 'l', 's', 'e'] (by decide) (by decide) (by decide)
          (List.all_eq_true.mp rfl) (by decide) hstops
    | number _ => cases h
    | string _ => cases h
    | _ =>
      cases h
      rfl
  | number h =>
    obtain ⟨hstops, -⟩ := hrest.resolve_left id
    exact first?_of_number h hstops
  | string h =>
    have hread := h.stringAfter_eq [] rest
    rw [List.cons_append, List.append_assoc, List.singleton_append, first?, hread]
    rfl

/-- A blank belongs neither to a number nor to a word. -/
theorem not_isNumberPart_of_isBlank {c : Char} (h : isBlank c = true) :
    Json.isNumberPart c = false ∧ c.isLower = false := by
  simp only [isBlank, Bool.or_eq_true, decide_eq_true_eq] at h
  rcases h with ((rfl | rfl) | rfl) | rfl <;> decide

/-- A token does not start with a blank. -/
theorem Spells.exists_cons {t : Token} {cs : List Char} (h : t.Spells cs) :
    ∃ c ds, cs = c :: ds ∧ isBlank c = false := by
  cases h with
  | fixed h =>
    cases t with
    | boolean b =>
      cases b <;> cases h <;> exact ⟨_, _, rfl, rfl⟩
    | number _ => cases h
    | string _ => cases h
    | _ =>
      cases h
      exact ⟨_, _, rfl, rfl⟩
  | number h =>
    have hpart := h.isNumberPart
    obtain ⟨c, ds, rfl⟩ := h.exists_cons
    refine ⟨c, ds, rfl, Bool.eq_false_iff.mpr ?_⟩
    intro hblank
    have hnot := (not_isNumberPart_of_isBlank hblank).1
    rw [hpart c List.mem_cons_self] at hnot
    cases hnot
  | string h => exact ⟨_, _, rfl, rfl⟩

/-- A token ends before a character that belongs neither to a number nor to a word. -/
theorem ends_cons {c : Char} (hnumber : Json.isNumberPart c = false) (hword : c.isLower = false)
    (t : Token) (rest : List Char) : t.Ends (c :: rest) := by
  refine .inr ⟨?_, ?_⟩
  · rintro _ ⟨⟩
    exact hnumber
  · rintro _ ⟨⟩
    exact hword

theorem ends_blanks {blanks : List Char} (hblanks : ∀ c ∈ blanks, isBlank c = true) (t : Token) :
    t.Ends blanks := by
  cases blanks with
  | nil =>
    refine .inr ⟨?_, ?_⟩
    · rintro _ ⟨⟩
    · rintro _ ⟨⟩
  | cons c blanks =>
    obtain ⟨hnumber, hword⟩ := not_isNumberPart_of_isBlank (hblanks c List.mem_cons_self)
    exact ends_cons hnumber hword t blanks

/-- Tokens that are apart end where the next one is spelled. -/
theorem ends_of_spelled {t : Token} {ts : List Token} {cs : List Char} (h : Spelled ts cs)
    (hapart : ∀ s ∈ ts.head?, t.Apart s) : t.Ends cs := by
  cases h with
  | nil hblanks => exact ends_blanks hblanks t
  | @cons s ts blanks ds rest hblanks hs h =>
    cases blanks with
    | cons c blanks =>
      obtain ⟨hnumber, hword⟩ := not_isNumberPart_of_isBlank (hblanks c List.mem_cons_self)
      exact ends_cons hnumber hword t _
    | nil =>
      rcases hapart s rfl with ht | hsign
      · exact .inl ht
      · cases hs with
        | fixed h =>
          cases s with
          | null | boolean _ | number _ | string _ => cases hsign
          | _ =>
            cases h
            exact ends_cons rfl rfl t rest
        | number _ => cases hsign
        | string _ => cases hsign

/-! ### Reading all tokens -/

/-- Blanks are passed over. -/
theorem scanAfter_blanks {blanks : List Char} (h : ∀ c ∈ blanks, isBlank c = true)
    (before : List Token) (cs : List Char) :
    scanAfter before (blanks ++ cs) = scanAfter before cs := by
  induction blanks with
  | nil => rfl
  | cons c blanks ih =>
    obtain ⟨hc, hblanks⟩ := List.forall_mem_cons.mp h
    rw [List.cons_append, scanAfter, if_pos hc, ih hblanks]

/-- A token is read, and then what follows it. -/
theorem scanAfter_cons {before : List Token} {t : Token} {c : Char} {cs rest : List Char}
    (hc : isBlank c = false) (h : first? (c :: cs) = some (t, rest)) :
    scanAfter before (c :: cs) = scanAfter (t :: before) rest := by
  have hblank : ¬ isBlank c = true := by
    rw [hc]
    exact Bool.false_ne_true
  rw [scanAfter, if_neg hblank]
  split
  · next hfirst =>
    rw [h] at hfirst
    cases hfirst
    rfl
  · next hfirst =>
    rw [h] at hfirst
    cases hfirst

/-- Tokens of which one in two neighbours is a sign are found in every spelling of them. -/
theorem scanAfter_of_spelled {ts : List Token} {cs : List Char} (h : Spelled ts cs)
    (hapart : AllApart ts) (before : List Token) :
    scanAfter before cs = some (before.reverse ++ ts) := by
  induction h generalizing before with
  | @nil blanks hblanks =>
    have hend : scanAfter before (blanks ++ []) = some before.reverse := by
      rw [scanAfter_blanks hblanks, scanAfter]
    rwa [List.append_nil] at hend ⊢
  | @cons t ts blanks cs rest hblanks ht h ih =>
    obtain ⟨hnext, hothers⟩ := hapart
    have hfirst := first?_of_spells ht (ends_of_spelled h hnext)
    obtain ⟨c, ds, rfl, hc⟩ := ht.exists_cons
    rw [List.cons_append] at hfirst
    rw [scanAfter_blanks hblanks, List.cons_append, scanAfter_cons hc hfirst, ih hothers,
      List.reverse_cons, List.append_assoc, List.singleton_append]

/-- The same for a text as a whole. -/
theorem scan_of_spelled {ts : List Token} {cs : List Char} (h : Spelled ts cs)
    (hapart : AllApart ts) : scan cs = some ts :=
  scanAfter_of_spelled h hapart []

end Token

end Json

end WordMachine
