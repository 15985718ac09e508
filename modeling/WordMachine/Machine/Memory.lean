import WordMachine.Failure

/-!
# Memory

The memory of a machine is an array of words whose size never changes.  Every access outside it is
a failure that names the index and the size, and a failed access changes nothing.
-/

namespace WordMachine

/-- A memory of words. -/
structure Memory where
  words : Array Word
deriving DecidableEq, Repr

namespace Memory

/-- A memory of `capacity` zero words. -/
def blank (capacity : Nat) : Memory :=
  ⟨Array.replicate capacity 0⟩

/-- The number of words. -/
def capacity (m : Memory) : Nat :=
  m.words.size

/-- The failure of an access at `index`. -/
def outOfBounds (m : Memory) (index : WordIndex) : Failure :=
  .memoryOutOfBounds index m.capacity

/-! ### Single words -/

/-- The word at an index. -/
def read (m : Memory) (index : WordIndex) : Except Failure Word :=
  match m.words[index]? with
  | some w => .ok w
  | none => .error (m.outOfBounds index)

/-- Replaces the word at an index. -/
def write (m : Memory) (index : WordIndex) (w : Word) : Except Failure Memory :=
  if index < m.capacity then
    .ok ⟨m.words.setIfInBounds index w⟩
  else
    .error (m.outOfBounds index)

/-- Replaces every word by zero. -/
def clear (m : Memory) : Memory :=
  blank m.capacity

@[simp] theorem capacity_blank (n : Nat) : (blank n).capacity = n := by
  simp [blank, capacity]

@[simp] theorem capacity_clear (m : Memory) : m.clear.capacity = m.capacity := by
  simp [clear]

theorem read_of_lt {m : Memory} {i : WordIndex} (h : i < m.words.size) :
    m.read i = .ok (m.words[i]) := by
  unfold read
  rw [Array.getElem?_eq_getElem h]

theorem read_of_le {m : Memory} {i : WordIndex} (h : m.capacity ≤ i) :
    m.read i = .error (m.outOfBounds i) := by
  unfold read
  rw [Array.getElem?_eq_none h]

/-- A read succeeds exactly inside memory, with the word that is there. -/
theorem read_eq_ok_iff {m : Memory} {i : WordIndex} {w : Word} :
    m.read i = .ok w ↔ m.words[i]? = some w := by
  unfold read
  cases m.words[i]? <;> simp

/-- A read fails exactly outside memory. -/
theorem read_eq_error_iff {m : Memory} {i : WordIndex} {e : Failure} :
    m.read i = .error e ↔ m.capacity ≤ i ∧ e = m.outOfBounds i := by
  rcases Nat.lt_or_ge i m.capacity with hlt | hge
  · rw [read_of_lt hlt]
    simp [Nat.not_le.mpr hlt]
  · rw [read_of_le hge]
    simp [hge, eq_comm]

theorem write_of_lt {m : Memory} {i : WordIndex} {w : Word} (h : i < m.capacity) :
    m.write i w = .ok ⟨m.words.setIfInBounds i w⟩ := by
  rw [write, if_pos h]

theorem write_of_le {m : Memory} {i : WordIndex} {w : Word} (h : m.capacity ≤ i) :
    m.write i w = .error (m.outOfBounds i) := by
  rw [write, if_neg (Nat.not_lt.mpr h)]

/-- A write succeeds exactly inside memory. -/
theorem write_eq_ok_iff {m m' : Memory} {i : WordIndex} {w : Word} :
    m.write i w = .ok m' ↔ i < m.capacity ∧ m' = ⟨m.words.setIfInBounds i w⟩ := by
  rcases Nat.lt_or_ge i m.capacity with hlt | hge
  · rw [write_of_lt hlt]
    simp [hlt, eq_comm]
  · rw [write_of_le hge]
    simp [Nat.not_lt.mpr hge]

theorem capacity_write {m m' : Memory} {i : WordIndex} {w : Word} (h : m.write i w = .ok m') :
    m'.capacity = m.capacity := by
  obtain ⟨-, rfl⟩ := write_eq_ok_iff.mp h
  simp [capacity]

/-! ### Blocks of words -/

/-- The index behind `length` words from `start` on; the greatest index of all, if there is none that
great. -/
def segmentEnd (start length : Nat) : Nat :=
  min (start + length) (sizeBound - 1)

/-- The words from `start` up to `stop`, if the two are in order and no word is missing. -/
def slice? (m : Memory) (start stop : Nat) : Option (List Word) :=
  if start ≤ stop ∧ stop ≤ m.capacity then
    some (m.words.extract start stop).toList
  else
    none

/-- The `length` words from `start` on.  When some of them are missing, the failure names the first
index at which no word can be found. -/
def segment (m : Memory) (start length : Nat) : Except Failure (List Word) :=
  match m.slice? start (segmentEnd start length) with
  | some words => .ok words
  | none => .error (m.outOfBounds (max start m.capacity))

/-- A host can hold a memory only if its size is less than half of the bound of all sizes. -/
def Storable (m : Memory) : Prop :=
  2 * m.capacity < sizeBound

theorem segment_of_le {m : Memory} {start length : Nat} (hm : m.Storable)
    (h : start + length ≤ m.capacity) :
    m.segment start length = .ok (m.words.extract start (start + length)).toList := by
  have hend : segmentEnd start length = start + length := by
    unfold Storable sizeBound at hm
    unfold segmentEnd sizeBound
    omega
  rw [segment, slice?, hend, if_pos ⟨Nat.le_add_right start length, h⟩]

theorem segment_of_lt {m : Memory} {start length : Nat} (hm : m.Storable)
    (h : m.capacity < start + length) :
    m.segment start length = .error (m.outOfBounds (max start m.capacity)) := by
  -- also the greatest index of all lies behind the memory
  have hend : ¬ segmentEnd start length ≤ m.capacity := by
    unfold Storable sizeBound at hm
    unfold segmentEnd sizeBound
    omega
  rw [segment, slice?, if_neg fun hslice => hend hslice.2]

/-- Writes words one after another from `index` on. -/
def writeFrom (m : Memory) (index : WordIndex) : List Word → Except Failure Memory
  | [] => .ok m
  | w :: ws =>
    match m.write index w with
    | .ok m' => m'.writeFrom index.next ws
    | .error e => .error e

/-- Copies an image to the start of memory.  An image that is too large is refused as a whole. -/
def loadImage (m : Memory) (image : List Word) : Except Failure Memory :=
  if image.length ≤ m.capacity then
    m.writeFrom 0 image
  else
    .error (m.outOfBounds m.capacity)

theorem capacity_writeFrom {m m' : Memory} {i : WordIndex} {ws : List Word}
    (h : m.writeFrom i ws = .ok m') : m'.capacity = m.capacity := by
  induction ws generalizing m i with
  | nil =>
    cases h
    rfl
  | cons w ws ih =>
    rw [writeFrom] at h
    cases hwrite : m.write i w with
    | error e =>
      rw [hwrite] at h
      cases h
    | ok m₁ =>
      rw [hwrite] at h
      rw [ih h, capacity_write hwrite]

/-- An image changes words of memory and not their number. -/
theorem capacity_loadImage {m m' : Memory} {image : List Word} (h : m.loadImage image = .ok m') :
    m'.capacity = m.capacity := by
  rw [loadImage] at h
  split at h
  · exact capacity_writeFrom h
  · cases h

end Memory

end WordMachine
