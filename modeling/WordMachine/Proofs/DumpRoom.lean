import WordMachine.Proofs.DumpText
import WordMachine.Proofs.Room

/-!
# Dumps on a sink with little room

A dump is printed in many small pieces, and the bounds of a segment are checked between two of them.  So it
may fail at any byte because the sink is full, and at two places because a segment is not inside memory.
Which failure comes first does not depend on the pieces, for a dump is one text and an ending.  The text is
`Dump.text m l`.  The ending `Dump.ending m l` writes nothing: it is the flush of the sink, or the failure
of a segment (`Dump.machine_eq_put`).

The ending is reached if the text fits, and then its result is the same on every sink (`Printer.Ends`).  If
it is not reached, a sink with room for `n` bytes has the first `n` bytes of the text
(`Printer.Ends.printTo_limited`).  The main theorem is `Dump.machine_of_room`.

Nothing is said of the machine after the dump, for there is no such thing: a printer is given the machine
as a value, and all it can change is the sink.
-/

namespace WordMachine

open Printer Numeral
open Tokens (bytesOf)

/-! ### A text and an ending -/

namespace Printer

/-- The printer writes nothing.  Its result depends on whether the sink refuses to be flushed, and it
flushes the sink `flushes` times. -/
def Ends (p : Printer Unit) (result : Bool → Except Failure Unit) (flushes : Nat) : Prop :=
  ∀ k : Sink, p.printTo k = (result k.refusesFlush, { k with flushes := k.flushes + flushes })

/-- What flushing a sink comes to. -/
def flushed (refusesFlush : Bool) : Except Failure Unit :=
  if refusesFlush then .error (.io "flush failed") else .ok ()

theorem ends_flush : Ends flush flushed 1 := by
  intro k
  rfl

theorem ends_error (e : Failure) : Ends (demand (.error e)) (fun _ => .error e) 0 := by
  intro k
  rfl

variable {p : Printer Unit} {result : Bool → Except Failure Unit} {flushes n : Nat} {k : Sink}
  {s : String}

/-- With room for everything, the text is written and the ending is reached. -/
theorem Ends.printTo_of_room (hp : p.Ends result flushes) (hroom : k.room = none) :
    (put s >>= fun _ => p).printTo k =
      (result k.refusesFlush, { k with text := k.text ++ s, flushes := k.flushes + flushes }) := by
  rw [printTo_bind, printTo_put, Sink.write_of_room hroom]
  exact hp { k with text := k.text ++ s }

/-- It is reached as well if the text fits. -/
theorem Ends.printTo_keep_of_le (hp : p.Ends result flushes) (hroom : k.room = none)
    (h : k.text.length + s.length ≤ n) :
    (put s >>= fun _ => p).printTo (k.keep n) =
      (result k.refusesFlush,
        Sink.keep n { k with text := k.text ++ s, flushes := k.flushes + flushes }) := by
  rw [printTo_bind, printTo_put, Sink.write_keep_of_le hroom h, Sink.write_of_room hroom]
  exact hp (Sink.keep n { k with text := k.text ++ s })

/-- It is not reached otherwise. -/
theorem printTo_put_keep_of_lt (p : Printer Unit) (hroom : k.room = none)
    (hbefore : k.text.length ≤ n) (h : n < k.text.length + s.length) :
    (put s >>= fun _ => p).printTo (k.keep n) =
      (.error (.io "sink full"), Sink.keep n { k with text := k.text ++ s }) := by
  rw [printTo_bind, printTo_put, Sink.write_keep_of_lt hroom hbefore h, Sink.write_of_room hroom]

/-- An empty sink gets the text, and then the ending is reached.  With room for `n` bytes it gets the first
`n` bytes, and the ending is reached if these are all. -/
theorem Ends.printTo_limited (hp : p.Ends result flushes) (hs : IsAscii s.toList)
    (refusesFlush : Bool) (n : Nat) :
    let whole := (put s >>= fun _ => p).printTo { refusesFlush }
    let cut := (put s >>= fun _ => p).printTo { refusesFlush, room := some n }
    whole = (result refusesFlush, { text := s, refusesFlush, flushes }) ∧
      bytesOf cut.2.text = (bytesOf s).take n ∧
      cut.1 = (if n < (bytesOf s).length then .error (.io "sink full") else result refusesFlush) ∧
      cut.2.flushes = if (bytesOf s).length ≤ n then flushes else 0 := by
  intro whole cut
  let k : Sink := { refusesFlush }
  have hroom : k.room = none := rfl
  have hempty : k.text ++ s = s := String.empty_append
  have hlength : k.text.length + s.length = (bytesOf s).length :=
    (Nat.zero_add _).trans (Tokens.length_bytesOf hs).symm
  have hlimited : k.keep n = { refusesFlush, room := some n } := Sink.keep_of_le (Nat.zero_le n)
  have hwhole : whole = _ := hp.printTo_of_room hroom
  have hkept : ∀ j, bytesOf (Sink.keep n { k with text := k.text ++ s, flushes := j }).text =
      (bytesOf s).take n := by
    intro j
    rw [← Tokens.bytesOf_take hs n, ← hempty]
    rfl
  refine ⟨?_, ?_⟩
  · rw [hwhole, hempty, Nat.zero_add]
  · by_cases hfits : (bytesOf s).length ≤ n
    · have hcut : cut = _ := hlimited ▸ hp.printTo_keep_of_le hroom (hlength ▸ hfits)
      rw [hcut, if_pos hfits, if_neg (Nat.not_lt.mpr hfits)]
      exact ⟨hkept _, rfl, Nat.zero_add _⟩
    · have hexceeds : n < (bytesOf s).length := Nat.lt_of_not_le hfits
      have hcut : cut = _ :=
        hlimited ▸ printTo_put_keep_of_lt p hroom (Nat.zero_le n) (hlength ▸ hexceeds)
      rw [hcut, if_neg hfits, if_pos hexceeds]
      exact ⟨hkept _, rfl, rfl⟩

end Printer

namespace Dump

variable {m : Machine} {l : Layout}

instance (s : Segment) (capacity : Nat) : Decidable (s.Inside capacity) :=
  inferInstanceAs (Decidable (s.start + s.length ≤ capacity))

/-- The text of a dump, which ends with the header of the first segment that is not inside memory. -/
def text (m : Machine) (l : Layout) : String :=
  if l.code.Inside m.memory.capacity then
    if l.data.Inside m.memory.capacity then linesText (lines m l)
    else linesText (dataHead m l.code)
  else linesText (codeHead m.registers)

/-- What is left to do when the text has been written: flushing the sink, or failing because of the first
segment that is not inside memory. -/
def ending (m : Machine) (l : Layout) : Printer Unit :=
  if l.code.Inside m.memory.capacity then
    if l.data.Inside m.memory.capacity then flush
    else demand (.error (.memoryOutOfBounds (max l.data.start m.memory.capacity) m.memory.capacity))
  else demand (.error (.memoryOutOfBounds (max l.code.start m.memory.capacity) m.memory.capacity))

/-- The pieces of a dump are its text. -/
theorem machine_eq_put (hm : m.memory.Storable) :
    machine m l = (put (text m l) >>= fun _ => ending m l) := by
  unfold text ending
  by_cases hcode : l.code.Inside m.memory.capacity
  · by_cases hdata : l.data.Inside m.memory.capacity
    · rw [machine_eq_of_inside hm hcode hdata, putLines_eq_put]
      simp only [if_pos hcode, if_pos hdata, linesText]
    · rw [machine_eq_of_data_outside hm hcode hdata, putLines_eq_put]
      simp only [if_pos hcode, if_neg hdata, linesText]
  · rw [machine_eq_of_code_outside hm hcode, putLines_eq_put]
    simp only [if_neg hcode, linesText]

/-- What a dump comes to if its text fits. -/
def outcome (m : Machine) (l : Layout) (refusesFlush : Bool) : Except Failure Unit :=
  if l.code.Inside m.memory.capacity then
    if l.data.Inside m.memory.capacity then flushed refusesFlush
    else .error (.memoryOutOfBounds (max l.data.start m.memory.capacity) m.memory.capacity)
  else .error (.memoryOutOfBounds (max l.code.start m.memory.capacity) m.memory.capacity)

/-- The sink is flushed at the end if both segments are inside memory. -/
theorem ends_ending (m : Machine) (l : Layout) :
    (ending m l).Ends (outcome m l)
      (if l.code.Inside m.memory.capacity ∧ l.data.Inside m.memory.capacity then 1 else 0) := by
  unfold ending outcome
  by_cases hcode : l.code.Inside m.memory.capacity
  · by_cases hdata : l.data.Inside m.memory.capacity
    · simp only [if_pos hcode, if_pos hdata, if_pos (And.intro hcode hdata)]
      exact ends_flush
    · simp only [if_pos hcode, if_neg hdata, if_neg fun h : _ ∧ _ => hdata h.2]
      exact ends_error _
  · simp only [if_neg hcode, if_neg fun h : _ ∧ _ => hcode h.1]
    exact ends_error _

/-! ### Dumps are ASCII -/

theorem isAscii_linesText {ss : List String} (h : ∀ s ∈ ss, IsAscii s.toList) :
    IsAscii (linesText ss).toList := by
  apply IsAscii.join
  intro t ht
  obtain ⟨s, hs, rfl⟩ := List.mem_map.mp ht
  rw [String.toList_append]
  exact (h s hs).append (by decide)

/-- The rows of a segment are ASCII if the labels are. -/
theorem isAscii_rowLine {label : WordIndex → String} (hlabel : ∀ i, IsAscii (label i).toList)
    (r : Row) : IsAscii (r.line label).toList := by
  have hcells : IsAscii (String.join (r.bytes.map fun b => hexCapital 2 b ++ " ")).toList := by
    apply IsAscii.join
    intro t ht
    obtain ⟨b, -, rfl⟩ := List.mem_map.mp ht
    rw [String.toList_append]
    exact (IsAscii.hexCapital 2 b).append (by decide)
  unfold Row.line
  rw [String.toList_append, String.toList_append]
  exact ((hlabel r.label).append (by decide)).append hcells

theorem isAscii_codeHead (r : Registers) : ∀ s ∈ codeHead r, IsAscii s.toList := by
  have hfield : ∀ (name : String) (n : Nat), IsAscii name.toList →
      IsAscii (name ++ hexCapital 4 n).toList := by
    intro name n hname
    rw [String.toList_append]
    exact hname.append (IsAscii.hexCapital 4 n)
  simp only [codeHead, registerLines, List.cons_append, List.nil_append, List.forall_mem_cons]
  exact ⟨by decide, hfield _ _ (by decide), hfield _ _ (by decide), hfield _ _ (by decide),
    hfield _ _ (by decide), hfield _ _ (by decide), by decide, by decide, by decide,
    List.forall_mem_nil _⟩

theorem isAscii_dataHead (m : Machine) (code : Segment) :
    ∀ s ∈ dataHead m code, IsAscii s.toList := by
  have hseparators : ∀ s ∈ ["...", "DATA:", columnHeader], IsAscii s.toList := by
    decide
  intro s hs
  rcases List.mem_append.mp hs with hs | hs
  · rcases List.mem_append.mp hs with hs | hs
    · exact isAscii_codeHead m.registers s hs
    · obtain ⟨r, -, rfl⟩ := List.mem_map.mp hs
      exact isAscii_rowLine (IsAscii.decimalPadded 4) r
  · exact hseparators s hs

theorem isAscii_lines (m : Machine) (l : Layout) : ∀ s ∈ lines m l, IsAscii s.toList := by
  intro s hs
  rcases List.mem_append.mp hs with hs | hs
  · exact isAscii_dataHead m l.code s hs
  · obtain ⟨r, -, rfl⟩ := List.mem_map.mp hs
    exact isAscii_rowLine IsAscii.decimal r

theorem isAscii_text (m : Machine) (l : Layout) : IsAscii (text m l).toList := by
  unfold text
  split
  · split
    · exact isAscii_linesText (isAscii_lines m l)
    · exact isAscii_linesText (isAscii_dataHead m l.code)
  · exact isAscii_linesText (isAscii_codeHead m.registers)

/-! ### The main theorem -/

/-- A full sink cuts a dump off at its limit.  Let `whole` be what a dump comes to on an empty sink that has
room for everything.  The same sink with room for `n` bytes gets the first `n` bytes of that text.  The dump
fails with the failure of the sink if these are not all, and with the same result otherwise.  The sink is
flushed once if they are all and both segments are inside memory.

If both are, a dump writes its lines, then flushes, and whether the flush succeeds is its result.  If one is
not, the text ends with the header of the first that is not, and the failure names the first index at which
that lacks a word. -/
theorem machine_of_room (hm : m.memory.Storable) (l : Layout) (refusesFlush : Bool) (n : Nat) :
    let capacity := m.memory.capacity
    let whole := (machine m l).printTo { refusesFlush }
    let cut := (machine m l).printTo { refusesFlush, room := some n }
    let all := bytesOf whole.2.text
    bytesOf cut.2.text = all.take n ∧
    cut.1 = (if n < all.length then .error (.io "sink full") else whole.1) ∧
    cut.2.flushes =
      (if all.length ≤ n ∧ l.code.Inside capacity ∧ l.data.Inside capacity then 1 else 0) ∧
    (l.code.Inside capacity → l.data.Inside capacity →
      machine m l = (put (linesText (lines m l)) >>= fun _ => flush) ∧
      whole = (if refusesFlush then .error (.io "flush failed") else .ok (),
        { text := linesText (lines m l), refusesFlush, flushes := 1 })) ∧
    (¬ l.code.Inside capacity →
      whole = (.error (.memoryOutOfBounds (max l.code.start capacity) capacity),
        { text := linesText (codeHead m.registers), refusesFlush })) ∧
    (l.code.Inside capacity → ¬ l.data.Inside capacity →
      whole = (.error (.memoryOutOfBounds (max l.data.start capacity) capacity),
        { text := linesText (dataHead m l.code), refusesFlush })) := by
  intro capacity whole cut all
  have hlimited := (ends_ending m l).printTo_limited (isAscii_text m l) refusesFlush n
  rw [← machine_eq_put hm] at hlimited
  obtain ⟨hwhole, hkept, hresult, hflushes⟩ := hlimited
  have hall : all = bytesOf (text m l) := congrArg (fun x => bytesOf x.2.text) hwhole
  have hfirst : whole.1 = outcome m l refusesFlush := congrArg Prod.fst hwhole
  rw [hall, hfirst]
  refine ⟨hkept, hresult, ?_, ?_, ?_, ?_⟩
  · refine hflushes.trans ?_
    by_cases hfits : (bytesOf (text m l)).length ≤ n
    · simp only [hfits, true_and, if_true, capacity]
    · simp only [hfits, false_and, if_false]
  · intro (hcode : l.code.Inside m.memory.capacity) (hdata : l.data.Inside m.memory.capacity)
    have hput := machine_eq_put (l := l) hm
    simp only [text, ending, if_pos hcode, if_pos hdata] at hput
    refine ⟨hput, hwhole.trans ?_⟩
    simp only [text, outcome, flushed, if_pos hcode, if_pos hdata, if_pos (And.intro hcode hdata)]
  · intro (hcode : ¬ l.code.Inside m.memory.capacity)
    refine hwhole.trans ?_
    simp only [text, outcome, if_neg hcode, if_neg fun h : _ ∧ _ => hcode h.1]
    rfl
  · intro (hcode : l.code.Inside m.memory.capacity) (hdata : ¬ l.data.Inside m.memory.capacity)
    refine hwhole.trans ?_
    simp only [text, outcome, if_pos hcode, if_neg hdata, if_neg fun h : _ ∧ _ => hdata h.2]
    rfl

/-- The code segment is the whole memory of two words, and the data segment goes beyond it.  The dump fails
because of that on a sink with much room, and on one with room for thirteen bytes it does not get there. -/
theorem machine_of_room_of_data_outside :
    let m : Machine := { registers := .powerOn, memory := ⟨#[0x1003, 0xF0AB]⟩ }
    let l : Layout := { capacity := 2, code := ⟨0, 2⟩, data := ⟨1, 5⟩ }
    let whole := (machine m l).printTo {}
    m.memory.Storable ∧
      whole = (.error (.memoryOutOfBounds 2 2), { text := linesText (dataHead m l.code) }) ∧
      ((machine m l).printTo { room := some 13 }).1 = .error (.io "sink full") ∧
      bytesOf ((machine m l).printTo { room := some 13 }).2.text =
        "REGISTERS:\nac".toUTF8.data.toList ∧
      ((machine m l).printTo { room := some 1000 }).1 = .error (.memoryOutOfBounds 2 2) := by
  intro m l whole
  have hm : m.memory.Storable := by
    unfold Memory.Storable
    decide
  have hcode : l.code.Inside m.memory.capacity := by
    decide
  have hdata : ¬ l.data.Inside m.memory.capacity := by
    decide
  obtain ⟨hkept, hfull, -, -, -, hwhole⟩ := machine_of_room hm l false 13
  obtain ⟨-, hfits, -⟩ := machine_of_room hm l false 1000
  have hwhole : whole =
      (.error (.memoryOutOfBounds 2 2), { text := linesText (dataHead m l.code) }) :=
    hwhole hcode hdata
  have hall : bytesOf whole.2.text = bytesOf (linesText (dataHead m l.code)) := by
    rw [hwhole]
  have hfirst : whole.1 = .error (.memoryOutOfBounds 2 2) := by
    rw [hwhole]
  have hlength : 13 < (bytesOf (linesText (dataHead m l.code))).length ∧
      (bytesOf (linesText (dataHead m l.code))).length ≤ 1000 := by
    decide +kernel
  have hbytes : (bytesOf (linesText (dataHead m l.code))).take 13 =
      "REGISTERS:\nac".toUTF8.data.toList := by
    decide +kernel
  rw [← hall] at hlength hbytes
  rw [if_pos hlength.1] at hfull
  rw [if_neg (Nat.not_lt.mpr hlength.2)] at hfits
  exact ⟨hm, hwhole, hfull, hkept.trans hbytes, hfits.trans hfirst⟩

end Dump

end WordMachine
