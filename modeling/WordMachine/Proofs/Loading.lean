import WordMachine.Bench.Loading
import WordMachine.Host.TokenQueue
import WordMachine.Proofs.Run
import WordMachine.Proofs.Stream

/-!
# Loading from a supply of tokens

What a console will hand out is known beforehand for a stream that delivers bytes and for a queue of
given tokens.  `TokenSupply.Supplies k tokens` says so of a console `k` without saying what kind of
console it is: calls for a token hand out `tokens`, in order, and then none, and output does not
interfere with them.

A program takes a beginning of the supply, and `Program.extent` is its length: it goes up to and
including the first word that is zero, or to the end if there is none.  The main statements are
`Program.read_of_supplies`, about the words read and the tokens left, and the two that add what
becomes of memory: `Bench.loadProgram_of_extent_le` of a program that fits, and
`Bench.loadProgram_of_lt_extent` of one that is too large.  Both have taken the same tokens.
-/

namespace WordMachine

/-! ### Supplies -/

/-- Consoles whose input can be known beforehand. -/
class TokenSupply (κ : Type) [Console κ] where
  /-- Calls for a token hand out these tokens, in order, and then none. -/
  Supplies : κ → List String → Prop
  readToken_of_supplies : ∀ {k : κ} {tokens : List String}, Supplies k tokens →
    (Console.readToken k).1 = .ok tokens.head? ∧ Supplies (Console.readToken k).2 tokens.tail
  supplies_writeValue : ∀ {k : κ} {tokens : List String} (w : Word), Supplies k tokens →
    Supplies (Console.writeValue k w).2 tokens
  supplies_flush : ∀ {k : κ} {tokens : List String}, Supplies k tokens →
    Supplies (Console.flush k).2 tokens

export TokenSupply (Supplies)

/-- A stream supplies the tokens that it yields. -/
instance : TokenSupply StreamConsole where
  Supplies := StreamConsole.Yields
  readToken_of_supplies h := h.readToken
  supplies_writeValue _ h := h
  supplies_flush h := h

/-- A queue supplies the tokens in it. -/
instance : TokenSupply TokenQueue where
  Supplies q tokens := q.tokens = tokens
  readToken_of_supplies := by
    rintro ⟨_ | ⟨token, rest⟩, sink⟩ _ rfl
    · exact ⟨rfl, rfl⟩
    · exact ⟨rfl, rfl⟩
  supplies_writeValue _ h := h
  supplies_flush h := h

section Supply

variable {κ : Type} [FiniteConsole κ] [TokenSupply κ] {k : κ} {tokens : List String}

/-- A console with an empty supply has no token. -/
theorem TokenSupply.readToken_eq_none (h : Supplies k []) :
    ∃ k', Console.readToken k = (.ok none, k') ∧ Supplies k' [] := by
  obtain ⟨hresult, hrest⟩ := TokenSupply.readToken_of_supplies h
  exact ⟨_, Prod.ext hresult rfl, hrest⟩

/-- Otherwise it hands out the first of its tokens and keeps the others. -/
theorem TokenSupply.readToken_eq_some {token : String} (h : Supplies k (token :: tokens)) :
    ∃ k', Console.readToken k = (.ok (some token), k') ∧ Supplies k' tokens := by
  obtain ⟨hresult, hrest⟩ := TokenSupply.readToken_of_supplies h
  exact ⟨_, Prod.ext hresult rfl, hrest⟩

end Supply

/-! ### Reading programs -/

namespace Program

/-- The number of words that a program takes of the words to come: up to and including the first
zero word, or all of them if there is none. -/
def extent (words : List Word) : Nat :=
  match words.findIdx? (· = sentinel) with
  | some i => i + 1
  | none => words.length

@[simp] theorem extent_nil : extent [] = 0 := rfl

theorem extent_cons (w : Word) (words : List Word) :
    extent (w :: words) = if w = sentinel then 1 else extent words + 1 := by
  unfold extent
  rw [List.findIdx?_cons]
  by_cases hw : w = sentinel
  · simp [hw]
  · simp only [hw, decide_false, Bool.false_eq_true, if_false]
    cases words.findIdx? (· = sentinel) <;> rfl

/-- A program takes no more words than there are. -/
theorem extent_le_length (words : List Word) : extent words ≤ words.length := by
  induction words with
  | nil => exact Nat.le_refl _
  | cons w words ih =>
    rw [extent_cons, List.length_cons]
    split <;> omega

/-- The words of a program are as many as it takes. -/
theorem length_take_extent (words : List Word) :
    (words.take (extent words)).length = extent words :=
  List.length_take_of_le (extent_le_length words)

/-- More patience does not change the answer. -/
theorem readWithin_mono {κ : Type} [Console κ] {before : Array Word} {patience more : Nat} {k : κ}
    {x : Except Failure (List Word) × κ} (h : readWithin before patience k = some x)
    (hle : patience ≤ more) : readWithin before more k = some x := by
  induction patience generalizing before more k with
  | zero => cases h
  | succ patience ih =>
    cases more with
    | zero => exact absurd hle (Nat.not_succ_le_zero patience)
    | succ more =>
      rw [readWithin] at h ⊢
      rcases hcall : Console.readToken k with ⟨e | _ | token, k'⟩ <;> rw [hcall] at h
      · exact h
      · exact h
      · dsimp only at h ⊢
        by_cases hzero : Word.ofToken token = sentinel
        · rw [if_pos hzero] at h ⊢
          exact h
        · rw [if_neg hzero] at h ⊢
          exact ih h (Nat.le_of_succ_le_succ hle)

variable {κ : Type} [FiniteConsole κ]

/-- However much patience an answer took, it is the one that is returned. -/
theorem readAfter_of_readWithin {before : Array Word} {patience : Nat} {k : κ}
    {x : Except Failure (List Word) × κ} (h : readWithin before patience k = some x) :
    readAfter before k = x := by
  have hmore := readWithin_mono h (Nat.le_max_left patience (FiniteConsole.remaining k + 1))
  rw [readWithin_mono (readWithin_remaining before k) (Nat.le_max_right _ _)] at hmore
  exact Option.some.inj hmore

/-- Reading on: the next token decides. -/
theorem readAfter_eq (before : Array Word) (k : κ) :
    readAfter before k =
      match Console.readToken k with
      | (.error e, k') => (.error e, k')
      | (.ok none, k') => (.ok before.toList, k')
      | (.ok (some token), k') =>
        if Word.ofToken token = sentinel then
          (.ok (before.push (Word.ofToken token)).toList, k')
        else
          readAfter (before.push (Word.ofToken token)) k' := by
  have hread := readWithin_remaining before k
  rw [readWithin] at hread
  rcases hcall : Console.readToken k with ⟨e | _ | token, k'⟩ <;> rw [hcall] at hread
  · exact (Option.some.inj hread).symm
  · exact (Option.some.inj hread).symm
  · dsimp only at hread ⊢
    by_cases hzero : Word.ofToken token = sentinel
    · rw [if_pos hzero] at hread ⊢
      exact (Option.some.inj hread).symm
    · rw [if_neg hzero] at hread ⊢
      exact (readAfter_of_readWithin hread).symm

variable [TokenSupply κ] {k : κ} {tokens : List String} {words : List Word}

/-- The words of a program follow those before, and its tokens leave the supply. -/
theorem readAfter_of_supplies (h : Supplies k tokens) (hwords : tokens.map Word.ofToken = words)
    (before : Array Word) :
    ∃ k', readAfter before k = (.ok (before.toList ++ words.take (extent words)), k') ∧
      Supplies k' (tokens.drop (extent words)) := by
  induction tokens generalizing k before words with
  | nil =>
    obtain ⟨k', hcall, hrest⟩ := TokenSupply.readToken_eq_none h
    subst hwords
    refine ⟨k', ?_, hrest⟩
    rw [readAfter_eq, hcall]
    simp
  | cons token tokens ih =>
    obtain ⟨k', hcall, hrest⟩ := TokenSupply.readToken_eq_some h
    subst hwords
    rw [readAfter_eq, hcall, List.map_cons, extent_cons]
    by_cases hzero : Word.ofToken token = sentinel
    · refine ⟨k', ?_, ?_⟩
      · simp [hzero]
      · simpa [hzero] using hrest
    · obtain ⟨k'', hread, hleft⟩ := ih hrest rfl (before.push (Word.ofToken token))
      refine ⟨k'', ?_, ?_⟩
      · simp only [hzero, if_false]
        rw [hread]
        simp
      · simpa [hzero] using hleft

/-- A program is the beginning of the supply, and its tokens leave the supply. -/
theorem read_of_supplies (h : Supplies k tokens) (hwords : tokens.map Word.ofToken = words) :
    ∃ k', read k = (.ok (words.take (extent words)), k') ∧
      Supplies k' (tokens.drop (extent words)) :=
  readAfter_of_supplies h hwords #[]

end Program

/-! ### Images in memory -/

namespace Memory

/-- Words that are written one after another stand where they were written, and nothing else
changes. -/
theorem writeFrom_of_le {m : Memory} {i : Nat} {ws : List Word}
    (h : i + ws.length ≤ m.capacity) :
    ∃ m', m.writeFrom i ws = .ok m' ∧
      ∀ j : Nat, m'.words[j]? = if i ≤ j ∧ j < i + ws.length then ws[j - i]? else m.words[j]? := by
  induction ws generalizing m i with
  | nil =>
    refine ⟨m, rfl, fun j => ?_⟩
    rw [if_neg (by simp only [List.length_nil]; omega)]
  | cons w ws ih =>
    rw [List.length_cons] at h
    have hi : i < m.capacity := by omega
    have hwrite : m.write i w = .ok ⟨m.words.setIfInBounds i w⟩ := write_of_lt hi
    have hrest : i + 1 + ws.length ≤ (⟨m.words.setIfInBounds i w⟩ : Memory).capacity := by
      rw [capacity_write hwrite]
      omega
    obtain ⟨m', hrun, hwords⟩ := ih hrest
    refine ⟨m', ?_, fun j => ?_⟩
    · rw [writeFrom, hwrite]
      exact hrun
    · rw [hwords, List.length_cons, Array.getElem?_setIfInBounds]
      -- before the first word, at it, and behind it
      rcases Nat.lt_trichotomy j i with hlt | rfl | hgt
      · rw [if_neg (by omega), if_neg (by omega), if_neg (by omega)]
      · have hsize : j < m.words.size := hi
        rw [if_neg (by omega), if_pos rfl, if_pos hsize, if_pos (by omega), Nat.sub_self]
        rfl
      · obtain ⟨d, rfl⟩ := Nat.exists_eq_add_of_lt hgt
        have hhead : i + d + 1 - i = d + 1 := by omega
        have htail : i + d + 1 - (i + 1) = d := by omega
        rw [hhead, htail, List.getElem?_cons_succ, if_neg (Nat.ne_of_lt hgt)]
        by_cases hd : d < ws.length
        · rw [if_pos (by omega), if_pos (by omega)]
        · rw [if_neg (by omega), if_neg (by omega)]

/-- An image that fits stands at the start of memory, and nothing else changes. -/
theorem loadImage_of_le {m : Memory} {image : List Word} (h : image.length ≤ m.capacity) :
    ∃ m', m.loadImage image = .ok m' ∧
      ∀ i : Nat, m'.words[i]? = if i < image.length then image[i]? else m.words[i]? := by
  have hfits : 0 + image.length ≤ m.capacity := by
    rw [Nat.zero_add]
    exact h
  obtain ⟨m', hwrite, hwords⟩ := writeFrom_of_le hfits
  refine ⟨m', ?_, fun i => ?_⟩
  · rw [loadImage, if_pos h]
    exact hwrite
  · rw [hwords]
    simp

/-- An image that is too large is refused. -/
theorem loadImage_of_lt {m : Memory} {image : List Word} (h : m.capacity < image.length) :
    m.loadImage image = .error (m.outOfBounds m.capacity) := by
  rw [loadImage, if_neg (Nat.not_le.mpr h)]

end Memory

/-! ### Loading -/

namespace Bench

variable {κ : Type} [FiniteConsole κ] [TokenSupply κ] {b : Bench κ} {tokens : List String}
  {words : List Word}

/-- Reading a program takes its tokens. -/
theorem readProgram_of_supplies (h : Supplies b.console tokens)
    (hwords : tokens.map Word.ofToken = words) :
    ∃ k, b.readProgram = (.ok (words.take (Program.extent words)),
        note { b with console := k } (Program.readEvent (words.take (Program.extent words)))) ∧
      Supplies k (tokens.drop (Program.extent words)) := by
  obtain ⟨k, hread, hleft⟩ := Program.read_of_supplies h hwords
  refine ⟨k, ?_, hleft⟩
  rw [readProgram, hread, noteRead]

/-- A program that fits is copied to the start of memory, and its length is returned. -/
theorem loadProgram_of_extent_le (h : Supplies b.console tokens)
    (hwords : tokens.map Word.ofToken = words)
    (hfits : Program.extent words ≤ b.machine.memory.capacity) :
    ∃ b' memory, b.loadProgram = (.ok (Program.extent words), b') ∧
      Supplies b'.console (tokens.drop (Program.extent words)) ∧
      b'.machine = { b.machine with memory } ∧
      ∀ i : Nat, memory.words[i]? =
        if i < Program.extent words then words[i]? else b.machine.memory.words[i]? := by
  obtain ⟨k, hread, hleft⟩ := readProgram_of_supplies h hwords
  have hlength := Program.length_take_extent words
  obtain ⟨memory, hload, himage⟩ := Memory.loadImage_of_le (Nat.le_trans (Nat.le_of_eq hlength) hfits)
  refine ⟨⟨{ b.machine with memory }, k,
    b.log.push (Program.readEvent (words.take (Program.extent words)))⟩, memory, ?_, hleft, rfl,
    fun i => ?_⟩
  · rw [loadProgram, hread, storeRead]
    simp only [loadImage, note, hload, hlength]
  · rw [himage, hlength]
    split
    · next hi => rw [List.getElem?_take_of_lt hi]
    · rfl

/-- A program that is too large is refused, with the first index at which no word can be stored.  Its
tokens are taken all the same, and nothing of the machine has changed. -/
theorem loadProgram_of_lt_extent (h : Supplies b.console tokens)
    (hwords : tokens.map Word.ofToken = words)
    (hlarge : b.machine.memory.capacity < Program.extent words) :
    ∃ b', b.loadProgram =
        (.error (b.machine.memory.outOfBounds b.machine.memory.capacity), b') ∧
      Supplies b'.console (tokens.drop (Program.extent words)) ∧ b'.machine = b.machine := by
  obtain ⟨k, hread, hleft⟩ := readProgram_of_supplies h hwords
  have hlength := Program.length_take_extent words
  rw [← hlength] at hlarge
  refine ⟨⟨b.machine, k, b.log.push (Program.readEvent (words.take (Program.extent words)))⟩, ?_,
    hleft, rfl⟩
  rw [loadProgram, hread, storeRead]
  simp only [loadImage, note, Memory.loadImage_of_lt hlarge]

/-- Loading adds to this only an entry in the tally and in the log. -/
theorem load_of_supplies (h : Supplies b.console tokens)
    (hwords : tokens.map Word.ofToken = words) :
    Supplies b.load.2.console (tokens.drop (Program.extent words)) ∧
      b.load.1 =
        if Program.extent words ≤ b.machine.memory.capacity then .ok (Program.extent words)
        else .error (b.machine.memory.outOfBounds b.machine.memory.capacity) := by
  by_cases hfits : Program.extent words ≤ b.machine.memory.capacity
  · obtain ⟨b', memory, hload, hleft, -, -⟩ := loadProgram_of_extent_le h hwords hfits
    rw [load, hload, if_pos hfits]
    exact ⟨hleft, rfl⟩
  · obtain ⟨b', hload, hleft, -⟩ := loadProgram_of_lt_extent h hwords (Nat.lt_of_not_le hfits)
    rw [load, hload, if_neg hfits]
    exact ⟨hleft, rfl⟩

/-! ### Loading and running -/

omit [TokenSupply κ] in
/-- Whatever loading and running comes to, it stands where some number of steps leads from the loaded
bench: no step at all if loading failed, and otherwise steps all of which but the last went on. -/
theorem loadAndRun_eq_some_last_step {b' : Bench κ} {patience : Nat} {s : Settings}
    {r : Except Failure Nat} (h : b.loadAndRun patience s = some (r, b')) :
    ∃ j, b.load.2.RunsFor (j - 1) ∧ (∀ e, b.load.1 = .error e → j = 0) ∧
      b'.machine = (b.load.2.after j).machine ∧
      (b'.console = (b.load.2.after j).console ∨
        b'.console = (Console.flush (b.load.2.after j).console).2) := by
  rw [loadAndRun] at h
  rcases hload : b.load with ⟨e | words, c⟩
  · rw [hload] at h
    cases h
    exact ⟨0, b'.runsFor_zero, fun _ _ => rfl, rfl, .inl rfl⟩
  · rw [hload] at h
    obtain ⟨b₀, hrun, hsame, hsame'⟩ := runUnder_eq_some h
    obtain ⟨j, hruns, hmachine, hconsole⟩ := run_eq_some_last_step hrun
    refine ⟨j, hruns, ?_, hsame.trans hmachine, ?_⟩
    · intro e he
      cases he
    · rw [hsame']
      exact hconsole

end Bench

end WordMachine
