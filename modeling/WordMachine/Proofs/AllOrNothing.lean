import WordMachine.Proofs.Loading

/-!
# Loading is all or nothing

What becomes of a load is decided at the console, before any word is stored.  `Program.Offers k r k'` says
what the console `k` has to offer to a loader, call by call: the words of a program up to and including
the first zero word, or up to the end of the input, or the failure of a call before that; and `k'` is the
console after the last of these calls.  Reading a program finds what is offered and nothing else
(`Program.offers_iff`).  Not every console offers something, for one may go on with words that are not zero
forever.  There a load does not end, and `Bench.Loads`, what a load comes to, holds of nothing.

Then the length of the program decides.  A program that fits is stored word by word, and none of these
writes can fail (`Memory.exists_write_of_loadImage`); of a program that does not fit no word is stored,
and none is either if a call has failed.  `Bench.load_all_or_nothing` puts the three cases together, for
machines in any state and for all consoles, whatever their calls come to.  A console whose input ends
offers something, and what `Bench.load` returns is what the load comes to.
-/

namespace WordMachine

/-! ### What a console offers -/

/-- `Console.HandsOut k tokens k'`: calls for a token hand out `tokens`, one after another, and lead from
the console `k` to `k'`. -/
inductive Console.HandsOut {κ : Type} [Console κ] : κ → List String → κ → Prop where
  | nil {k} : HandsOut k [] k
  | cons {k k₁ k' token tokens} (call : Console.readToken k = (.ok (some token), k₁))
      (rest : HandsOut k₁ tokens k') : HandsOut k (token :: tokens) k'

namespace Program

/-- `Offers k r k'`: the console `k` has the program `r` to offer, or fails with `r` before the end of it,
and is `k'` after the calls that this takes.  The tokens before the last call do not spell zero. -/
inductive Offers {κ : Type} [Console κ] (k : κ) : Except Failure (List Word) → κ → Prop where
  /-- A token spells zero; the zero word belongs to the program. -/
  | zero {tokens k₁ last k'} (handed : Console.HandsOut k tokens k₁)
      (within : ∀ token ∈ tokens, Word.ofToken token ≠ 0)
      (call : Console.readToken k₁ = (.ok (some last), k')) (spells : Word.ofToken last = 0) :
      Offers k (.ok (tokens.map Word.ofToken ++ [0])) k'
  /-- The input has ended. -/
  | ended {tokens k₁ k'} (handed : Console.HandsOut k tokens k₁)
      (within : ∀ token ∈ tokens, Word.ofToken token ≠ 0)
      (call : Console.readToken k₁ = (.ok none, k')) :
      Offers k (.ok (tokens.map Word.ofToken)) k'
  /-- A call has failed. -/
  | failed {tokens k₁ e k'} (handed : Console.HandsOut k tokens k₁)
      (within : ∀ token ∈ tokens, Word.ofToken token ≠ 0)
      (call : Console.readToken k₁ = (.error e, k')) : Offers k (.error e) k'

/-- A word that does not end the program goes in front of what is offered after it. -/
theorem Offers.cons {κ : Type} [Console κ] {k k₁ k' : κ} {token : String}
    {r : Except Failure (List Word)} (hcall : Console.readToken k = (.ok (some token), k₁))
    (hne : Word.ofToken token ≠ 0) (h : Offers k₁ r k') :
    Offers k (r.map (Word.ofToken token :: ·)) k' := by
  have hall : ∀ {tokens : List String}, (∀ t ∈ tokens, Word.ofToken t ≠ 0) →
      ∀ t ∈ token :: tokens, Word.ofToken t ≠ 0 :=
    fun htokens => List.forall_mem_cons.mpr ⟨hne, htokens⟩
  cases h with
  | zero handed within call spells => exact .zero (.cons hcall handed) (hall within) call spells
  | ended handed within call => exact .ended (.cons hcall handed) (hall within) call
  | failed handed within call => exact .failed (.cons hcall handed) (hall within) call

/-- Only the last word of a program can be zero. -/
theorem Offers.ne_zero_of_mem_dropLast {κ : Type} [Console κ] {k k' : κ} {words : List Word}
    (h : Offers k (.ok words) k') : ∀ w ∈ words.dropLast, w ≠ 0 := by
  have hmap : ∀ {tokens : List String}, (∀ t ∈ tokens, Word.ofToken t ≠ 0) →
      ∀ w ∈ tokens.map Word.ofToken, w ≠ 0 :=
    fun htokens => List.forall_mem_map.mpr htokens
  cases h with
  | zero _ within _ _ =>
    rw [List.dropLast_concat]
    exact hmap within
  | ended _ within _ =>
    intro w hw
    exact hmap within w (List.dropLast_subset _ hw)

/-! ### Reading what is offered -/

section Observed

variable {κ : Type} [Console κ] {k k' : κ}

/-- Words that do not end the program are passed over, each with one call for a token. -/
theorem readWithin_of_handsOut {tokens : List String} (h : Console.HandsOut k tokens k')
    (hwithin : ∀ token ∈ tokens, Word.ofToken token ≠ 0) (before : Array Word) (patience : Nat) :
    readWithin before (patience + tokens.length) k =
      readWithin (before ++ tokens.map Word.ofToken) patience k' := by
  induction h generalizing before with
  | nil => rw [List.map_nil, Array.appendList_nil, List.length_nil, Nat.add_zero]
  | @cons k k₁ k' token tokens call _ ih =>
    obtain ⟨hne, hrest⟩ := List.forall_mem_cons.mp hwithin
    have hnext : ¬ Word.ofToken token = sentinel := hne
    rw [List.length_cons, ← Nat.add_assoc, readWithin, call]
    simp only [if_neg hnext]
    rw [ih hrest, List.map_cons, Array.appendList_cons]

/-- What is offered is read. -/
theorem Offers.readWithin {r : Except Failure (List Word)} (h : Offers k r k') :
    ∃ patience, readWithin #[] patience k = some (r, k') := by
  cases h with
  | @zero tokens _ _ _ handed within call spells =>
    have hlast : Word.ofToken _ = sentinel := spells
    refine ⟨1 + tokens.length, ?_⟩
    rw [readWithin_of_handsOut handed within, Program.readWithin, call]
    simp [hlast, sentinel]
  | @ended tokens _ _ handed within call =>
    refine ⟨1 + tokens.length, ?_⟩
    rw [readWithin_of_handsOut handed within, Program.readWithin, call]
    simp
  | @failed tokens _ _ _ handed within call =>
    refine ⟨1 + tokens.length, ?_⟩
    rw [readWithin_of_handsOut handed within, Program.readWithin, call]

/-- What is read has been offered, behind the words before. -/
theorem exists_offers_of_readWithin {before : Array Word} {patience : Nat}
    {x : Except Failure (List Word) × κ} (h : readWithin before patience k = some x) :
    ∃ r, Offers k r x.2 ∧ x.1 = r.map (before.toList ++ ·) := by
  fun_induction readWithin before patience k with
  | case1 before k => cases h
  | case2 before patience k e k' hcall =>
    cases h
    exact ⟨_, .failed .nil (List.forall_mem_nil _) hcall, rfl⟩
  | case3 before patience k k' hcall =>
    cases h
    exact ⟨_, .ended .nil (List.forall_mem_nil _) hcall, by simp [Except.map]⟩
  | case4 before patience k token k' hcall w hzero =>
    cases h
    refine ⟨_, .zero .nil (List.forall_mem_nil _) hcall hzero, ?_⟩
    simp [Except.map, hzero, sentinel]
  | case5 before patience k token k' hcall w hword ih =>
    obtain ⟨r, hoffers, hresult⟩ := ih h
    refine ⟨_, hoffers.cons hcall hword, ?_⟩
    rw [hresult]
    cases r <;> simp [Except.map, w]

/-- Reading a program finds what is offered and nothing else. -/
theorem offers_iff {r : Except Failure (List Word)} :
    Offers k r k' ↔ ∃ patience, readWithin #[] patience k = some (r, k') := by
  refine ⟨Offers.readWithin, ?_⟩
  rintro ⟨patience, hread⟩
  obtain ⟨r', hoffers, hresult⟩ := exists_offers_of_readWithin hread
  have hnothing : r'.map (#[].toList ++ ·) = r' := by cases r' <;> rfl
  obtain rfl : r = r' := hresult.trans hnothing
  exact hoffers

/-- One thing at most is offered, for a program is read in one way only. -/
theorem Offers.unique {r₁ r₂ : Except Failure (List Word)} {k₁ k₂ : κ} (h₁ : Offers k r₁ k₁)
    (h₂ : Offers k r₂ k₂) : r₁ = r₂ ∧ k₁ = k₂ := by
  obtain ⟨patience₁, hread₁⟩ := h₁.readWithin
  obtain ⟨patience₂, hread₂⟩ := h₂.readWithin
  have hmore := readWithin_mono hread₁ (Nat.le_max_left patience₁ patience₂)
  rw [readWithin_mono hread₂ (Nat.le_max_right patience₁ patience₂)] at hmore
  cases hmore
  exact ⟨rfl, rfl⟩

end Observed

/-- A console whose input ends offers what is read from it. -/
theorem offers_read {κ : Type} [FiniteConsole κ] (k : κ) : Offers k (read k).1 (read k).2 :=
  offers_iff.mpr ⟨_, readWithin_remaining #[] k⟩

end Program

/-! ### Storing a program -/

namespace Memory

/-- Words that are written one after another may be written in two parts. -/
theorem writeFrom_append {m m' : Memory} {i : Nat} {ws : List Word}
    (h : m.writeFrom i ws = .ok m') (ws' : List Word) :
    m.writeFrom i (ws ++ ws') = m'.writeFrom (i + ws.length) ws' := by
  induction ws generalizing m i with
  | nil =>
    cases h
    rfl
  | cons w ws ih =>
    rw [writeFrom] at h
    rw [List.cons_append, writeFrom]
    cases hwrite : m.write i w with
    | error e =>
      rw [hwrite] at h
      cases h
    | ok m₁ =>
      rw [hwrite] at h
      rw [List.length_cons, Nat.add_comm ws.length 1, ← Nat.add_assoc]
      exact ih h

/-- While an image that fits is stored, no write fails: after any part of it has been stored the next
word can be, and storing goes on behind it. -/
theorem exists_write_of_loadImage {m : Memory} {before after : List Word} {w : Word}
    (h : (before ++ w :: after).length ≤ m.capacity) :
    ∃ m₁ m₂, m.writeFrom 0 before = .ok m₁ ∧ m₁.write before.length w = .ok m₂ ∧
      m.loadImage (before ++ w :: after) = m₂.writeFrom (before.length + 1) after := by
  have hlength : before.length + (after.length + 1) ≤ m.capacity := by
    rw [List.length_append, List.length_cons] at h
    exact h
  have hbefore : 0 + before.length ≤ m.capacity := by omega
  obtain ⟨m₁, hfirst, -⟩ := writeFrom_of_le hbefore
  have hroom : before.length < m₁.capacity := by
    rw [capacity_writeFrom hfirst]
    omega
  refine ⟨m₁, _, hfirst, write_of_lt hroom, ?_⟩
  rw [loadImage, if_pos h, writeFrom_append hfirst, Nat.zero_add, writeFrom, write_of_lt hroom]
  rfl

end Memory

/-! ### Loading -/

/-- `m.LoadedWith words m'`: the machine `m'` is `m` with the program `words` loaded. -/
structure Machine.LoadedWith (m : Machine) (words : List Word) (m' : Machine) : Prop where
  /-- Nothing is new but the memory and the counter of the words loaded. -/
  frame : m' = { m with
    memory := m'.memory
    tally := { m.tally with wordsLoaded := words.length } }
  capacity : m'.memory.capacity = m.memory.capacity
  /-- The program stands at the start of memory. -/
  loaded : ∀ i : Nat, i < words.length → m'.memory.words[i]? = words[i]?
  /-- The words behind it are the old ones. -/
  kept : ∀ i : Nat, words.length ≤ i → m'.memory.words[i]? = m.memory.words[i]?

namespace Bench

/-- `b.Loads r b'`: loading at the bench `b` comes to the result `r` and leads to the bench `b'`. -/
def Loads {κ : Type} [Console κ] (b : Bench κ) (r : Except Failure Nat) (b' : Bench κ) : Prop :=
  ∃ patience, b.loadWithin patience = some (r, b')

section Storing

variable {κ : Type} (b : Bench κ) {words : List Word} (k : κ)

/-- A program that is too large is refused. -/
theorem finishLoad_of_lt (hlarge : b.machine.memory.capacity < words.length) :
    ∃ b', b.finishLoad (.ok words, k) =
        (.error (b.machine.memory.outOfBounds b.machine.memory.capacity), b') ∧
      b'.machine = b.machine ∧ b'.console = k := by
  refine ⟨note { b with console := k } (Program.readEvent words), ?_, rfl, rfl⟩
  simp only [finishLoad, noteRead, storeRead, loadImage, note, Memory.loadImage_of_lt hlarge, noteLoad]

/-- A program that fits is loaded. -/
theorem finishLoad_of_le (hfits : words.length ≤ b.machine.memory.capacity) :
    ∃ b', b.finishLoad (.ok words, k) = (.ok words.length, b') ∧
      b.machine.LoadedWith words b'.machine ∧ b'.console = k := by
  obtain ⟨memory, hload, hwords⟩ := Memory.loadImage_of_le hfits
  refine ⟨noteLoaded
    (note { b with machine := { b.machine with memory }, console := k } (Program.readEvent words))
      words.length, ?_, ⟨rfl, Memory.capacity_loadImage hload, fun i hi => ?_, fun i hi => ?_⟩, rfl⟩
  · simp only [finishLoad, noteRead, storeRead, loadImage, note, hload, noteLoad]
  · exact (hwords i).trans (if_pos hi)
  · exact (hwords i).trans (if_neg (Nat.not_lt.mpr hi))

/-- A program that is loaded fits, and its length is returned. -/
theorem length_of_finishLoad_eq_ok {n : Nat} (h : (b.finishLoad (.ok words, k)).1 = .ok n) :
    words.length ≤ b.machine.memory.capacity ∧ words.length = n := by
  rcases Nat.lt_or_ge b.machine.memory.capacity words.length with hlarge | hfits
  · obtain ⟨b', hload, -⟩ := b.finishLoad_of_lt k hlarge
    rw [hload] at h
    cases h
  · obtain ⟨b', hload, -⟩ := b.finishLoad_of_le k hfits
    rw [hload] at h
    exact ⟨hfits, Except.ok.inj h⟩

end Storing

section Observed

variable {κ : Type} [Console κ] {b b' : Bench κ} {r : Except Failure Nat}

/-- A load comes to what becomes of the program that is offered. -/
theorem loads_iff :
    b.Loads r b' ↔ ∃ x k, Program.Offers b.console x k ∧ b.finishLoad (x, k) = (r, b') := by
  constructor
  · rintro ⟨patience, hload⟩
    obtain ⟨⟨x, k⟩, hread, hfinish⟩ := Option.map_eq_some_iff.mp hload
    exact ⟨x, k, Program.offers_iff.mpr ⟨patience, hread⟩, hfinish⟩
  · rintro ⟨x, k, hoffers, hfinish⟩
    obtain ⟨patience, hread⟩ := hoffers.readWithin
    exact ⟨patience, Option.map_eq_some_iff.mpr ⟨_, hread, hfinish⟩⟩

/-- It comes to one thing at most. -/
theorem Loads.unique {r₁ r₂ : Except Failure Nat} {b₁ b₂ : Bench κ} (h₁ : b.Loads r₁ b₁)
    (h₂ : b.Loads r₂ b₂) : r₁ = r₂ ∧ b₁ = b₂ := by
  obtain ⟨x₁, k₁, hoffers₁, hfinish₁⟩ := loads_iff.mp h₁
  obtain ⟨x₂, k₂, hoffers₂, hfinish₂⟩ := loads_iff.mp h₂
  obtain ⟨rfl, rfl⟩ := hoffers₁.unique hoffers₂
  rw [hfinish₁] at hfinish₂
  cases hfinish₂
  exact ⟨rfl, rfl⟩

end Observed

/-- At a console whose input ends a load comes to what is returned. -/
theorem loads_load {κ : Type} [FiniteConsole κ] (b : Bench κ) : b.Loads b.load.1 b.load.2 :=
  ⟨_, b.loadWithin_remaining⟩

/-- Loading is all or nothing, for a machine in any state and any console.  The console offers one thing
at most: a program, which goes up to and including the first zero word or to the end of the input, or the
failure of a call before that.  A load ends if something is offered, and comes to one thing then.

Loading succeeds exactly if a program is offered and fits into memory.  It then returns the number of its
words, which is also entered into the tally; they stand at the start of memory, all but the last of them
are not zero, and nothing else of the machine has changed.  Otherwise nothing of the machine has changed
at all: a call has failed, and with its failure loading fails; or the program is too large, and loading
fails with the first index at which no word can be stored.  In every case the tokens up to the one that
decided have been taken and no others.  No write fails while a program that fits is stored.

A console whose input ends offers something, and the load there is `Bench.load`. -/
theorem load_all_or_nothing :
    (∀ {κ : Type} [Console κ] (b : Bench κ),
      let c := b.machine.memory.capacity
      (∀ r k, Program.Offers b.console r k →
        ∀ r' k', Program.Offers b.console r' k' → r' = r ∧ k' = k) ∧
      (∀ r b', b.Loads r b' → ∀ r' b'', b.Loads r' b'' → r' = r ∧ b'' = b') ∧
      ((∃ r b', b.Loads r b') ↔ ∃ r k, Program.Offers b.console r k) ∧
      ((∃ n b', b.Loads (.ok n) b') ↔
        ∃ words k, Program.Offers b.console (.ok words) k ∧ words.length ≤ c) ∧
      (∀ words k, Program.Offers b.console (.ok words) k → words.length ≤ c →
        ∃ b', b.Loads (.ok words.length) b' ∧ b.machine.LoadedWith words b'.machine ∧
          b'.console = k ∧ ∀ w ∈ words.dropLast, w ≠ 0) ∧
      (∀ words k, Program.Offers b.console (.ok words) k → c < words.length →
        ∃ b', b.Loads (.error (.memoryOutOfBounds c c)) b' ∧ b'.machine = b.machine ∧
          b'.console = k) ∧
      (∀ e k, Program.Offers b.console (.error e) k →
        ∃ b', b.Loads (.error e) b' ∧ b'.machine = b.machine ∧ b'.console = k) ∧
      ∀ before w after, (before ++ w :: after).length ≤ c →
        ∃ m₁ m₂, b.machine.memory.writeFrom 0 before = .ok m₁ ∧ m₁.write before.length w = .ok m₂ ∧
          b.machine.memory.loadImage (before ++ w :: after) =
            m₂.writeFrom (before.length + 1) after) ∧
    ∀ {κ : Type} [FiniteConsole κ] (b : Bench κ),
      (∃ r k, Program.Offers b.console r k) ∧ b.Loads b.load.1 b.load.2 := by
  refine ⟨?_, fun b => ⟨⟨_, _, Program.offers_read b.console⟩, b.loads_load⟩⟩
  intro κ _ b c
  refine ⟨?_, ?_, ⟨?_, ?_⟩, ⟨?_, ?_⟩, ?_, ?_, ?_, ?_⟩
  · intro r k hoffers r' k' hoffers'
    exact hoffers'.unique hoffers
  · intro r b' hloads r' b'' hloads'
    exact hloads'.unique hloads
  · rintro ⟨r, b', hloads⟩
    obtain ⟨x, k, hoffers, -⟩ := loads_iff.mp hloads
    exact ⟨x, k, hoffers⟩
  · rintro ⟨x, k, hoffers⟩
    exact ⟨_, _, loads_iff.mpr ⟨x, k, hoffers, rfl⟩⟩
  · rintro ⟨n, b', hloads⟩
    obtain ⟨e | words, k, hoffers, hfinish⟩ := loads_iff.mp hloads
    · cases hfinish
    · exact ⟨words, k, hoffers,
        (b.length_of_finishLoad_eq_ok k (congrArg Prod.fst hfinish)).1⟩
  · rintro ⟨words, k, hoffers, hfits⟩
    obtain ⟨b', hfinish, -⟩ := b.finishLoad_of_le k hfits
    exact ⟨_, _, loads_iff.mpr ⟨_, _, hoffers, hfinish⟩⟩
  · intro words k hoffers hfits
    obtain ⟨b', hfinish, hloaded, hconsole⟩ := b.finishLoad_of_le k hfits
    exact ⟨b', loads_iff.mpr ⟨_, _, hoffers, hfinish⟩, hloaded, hconsole,
      hoffers.ne_zero_of_mem_dropLast⟩
  · intro words k hoffers hlarge
    obtain ⟨b', hfinish, hmachine, hconsole⟩ := b.finishLoad_of_lt k hlarge
    exact ⟨b', loads_iff.mpr ⟨_, _, hoffers, hfinish⟩, hmachine, hconsole⟩
  · intro e k hoffers
    exact ⟨_, loads_iff.mpr ⟨_, _, hoffers, rfl⟩, rfl, rfl⟩
  · intro before w after hfits
    exact Memory.exists_write_of_loadImage hfits

/-- A program of two words and the zero word is too large for a memory of two words.  Its tokens have been
taken, and one is left. -/
theorem load_all_or_nothing_of_three_words :
    let b : Bench TokenQueue := {
      machine := { registers := { accumulator := -1, pc := 7 }, memory := ⟨#[0xF000, 5]⟩ }
      console := { tokens := ["1", "1010", "0000", "11"], sink := {} } }
    Program.Offers b.console (.ok [1, 10, 0]) { tokens := ["11"], sink := {} } ∧
      b.load.1 = .error (.memoryOutOfBounds 2 2) ∧ b.load.2.machine = b.machine ∧
      b.load.2.console.tokens = ["11"] := by
  intro b
  have hwithin : ∀ token ∈ ["1", "1010"], Word.ofToken token ≠ 0 := by
    simp only [List.forall_mem_cons, List.not_mem_nil, false_imp_iff, implies_true, and_true]
    decide
  have hoffers : Program.Offers b.console (.ok [1, 10, 0]) { tokens := ["11"], sink := {} } :=
    .zero (.cons rfl (.cons rfl .nil)) hwithin rfl (by decide)
  obtain ⟨hall, hfinite⟩ := load_all_or_nothing
  obtain ⟨-, hunique, -, -, -, hlarge, -⟩ := hall b
  obtain ⟨b', hloads, hmachine, hconsole⟩ := hlarge _ _ hoffers (by decide)
  obtain ⟨hresult, hbench⟩ := hunique _ _ hloads _ _ (hfinite b).2
  refine ⟨hoffers, hresult, ?_, ?_⟩
  · rw [hbench]
    exact hmachine
  · rw [hbench, hconsole]

end Bench

end WordMachine
