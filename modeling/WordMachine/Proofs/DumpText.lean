import WordMachine.Output.Dump
import WordMachine.Proofs.Layout
import WordMachine.Proofs.Printing
import WordMachine.Proofs.Tokens

/-!
# The text of a dump

A dump is printed piece by piece, and whether the words of a segment can be had is found out on the way.
Here its text is written down at once: `Dump.lines m l` are the lines of the registers and of the rows of
both segments, and a row is described by its number alone, as the label and the low bytes of its words
(`Dump.rows`).  Printing a dump is printing these lines and flushing the sink if both segments are inside
memory (`Dump.machine_eq_of_inside`).  If one is not, the lines end with the header of the first of these,
and the failure names the first index at which it lacks a word.

So on a sink that accepts everything a dump depends on the layout and the size of memory only
(`Dump.render_of_inside`, `Dump.render_of_code_outside`, `Dump.render_of_data_outside`).
-/

namespace WordMachine

open Printer Numeral

/-! ### Lines of printers -/

namespace Printer

/-- The text of lines. -/
def linesText (ss : List String) : String :=
  String.join (ss.map (· ++ "\n"))

theorem putLines_append (ss ts : List String) :
    putLines (ss ++ ts) = (putLines ss >>= fun _ => putLines ts) := by
  induction ss with
  | nil => rfl
  | cons s ss ih =>
    rw [List.cons_append, putLines, putLines, ih]
    simp only [bind_assoc]

/-- A printer that fails behind another one fails when that has printed its text. -/
theorem Prints.printTo_bind_error {α β : Type} {p : Printer α} {x : α} {s : String}
    (hp : Prints p x s) (e : Failure) {k : Sink} (hk : k.IsOpen) :
    ∃ k', (p >>= fun _ => (demand (.error e) : Printer β)).printTo k = (.error e, k') ∧
      k'.text = k.text ++ s := by
  obtain ⟨k', hprint, -, htext⟩ := hp k hk
  refine ⟨k', ?_, htext⟩
  rw [printTo_bind, hprint]
  rfl

end Printer

/-! ### Rows -/

/-- The low byte of the word at an index, and zero outside memory. -/
def Memory.lowByte (m : Memory) (i : WordIndex) : Nat :=
  (m.words[i]?.getD 0).toNat % 256

/-- The words of a segment lie in a memory of `capacity` words. -/
def Segment.Inside (s : Segment) (capacity : Nat) : Prop :=
  s.start + s.length ≤ capacity

/-- The low bytes of the words of a segment, in order. -/
def Segment.bytes (s : Segment) (m : Memory) : List Nat :=
  (List.range s.length).map fun i => m.lowByte (s.start + i)

/-- They are the low bytes of the words taken out of memory. -/
theorem Segment.map_extract_eq_bytes {s : Segment} {m : Memory} (h : s.Inside m.capacity) :
    (m.words.extract s.start (s.start + s.length)).toList.map (·.toNat % 256) = s.bytes m := by
  have hsize : s.start + s.length ≤ m.words.size := h
  refine List.ext_getElem ?_ fun i hi₁ hi₂ => ?_
  · rw [List.length_map, Array.length_toList, Array.size_extract, bytes, List.length_map,
      List.length_range, Nat.min_eq_left hsize, Nat.add_sub_cancel_left]
  · have hi : i < s.length := by
      rw [bytes, List.length_map, List.length_range] at hi₂
      exact hi₂
    have hword : s.start + i < m.words.size :=
      Nat.lt_of_lt_of_le (Nat.add_lt_add_left hi s.start) hsize
    simp only [bytes, List.getElem_map, Array.getElem_toList, Array.getElem_extract,
      List.getElem_range]
    rw [Memory.lowByte, Array.getElem?_eq_getElem hword, Option.getD_some]

/-- The bytes of a block of ten words, or of what is left of them. -/
theorem Segment.take_drop_bytes (s : Segment) (m : Memory) (r : Nat) :
    ((s.bytes m).drop (10 * r)).take 10 =
      (List.range (min 10 (s.length - 10 * r))).map fun j => m.lowByte (s.start + 10 * r + j) := by
  refine List.ext_getElem ?_ fun j hj₁ hj₂ => ?_
  · simp only [bytes, List.length_take, List.length_drop, List.length_map, List.length_range]
  · simp only [bytes, List.getElem_take, List.getElem_drop, List.getElem_map, List.getElem_range,
      Nat.add_assoc]

namespace Dump

/-- A row of a dump: the index of its first word, and the low bytes of its words. -/
structure Row where
  label : WordIndex
  bytes : List Nat
deriving DecidableEq, Repr

/-- The line of a row. -/
def Row.line (label : WordIndex → String) (r : Row) : String :=
  label r.label ++ " " ++ String.join (r.bytes.map fun b => hexCapital 2 b ++ " ")

/-- The rows of a segment.  Each has ten words, but for the last one, which has what is left. -/
def rows (m : Memory) (s : Segment) : List Row :=
  (List.range ((s.length + 9) / 10)).map fun r : Nat =>
    { label := s.start + 10 * r
      bytes := (List.range (min 10 (s.length - 10 * r))).map fun j =>
        m.lowByte (s.start + 10 * r + j) }

/-- A label is the index of a word of the segment. -/
theorem label_lt_of_mem_rows {m : Memory} {s : Segment} {r : Row} (h : r ∈ rows m s) :
    r.label < s.start + s.length := by
  obtain ⟨n, hmem, rfl⟩ := List.mem_map.mp h
  have hn : n < (s.length + 9) / 10 := List.mem_range.mp hmem
  have hlt : 10 * n < s.length := by omega
  exact Nat.add_lt_add_left hlt s.start

/-- Rows are labelled one after another. -/
theorem rowsFrom_map_range (label : WordIndex → String) (i : WordIndex) (n : Nat)
    (block : Nat → List Word) :
    rowsFrom label i ((List.range n).map block) =
      (List.range n).map fun r => row (label (i + 10 * r)) (block r) := by
  induction n generalizing i block with
  | zero => rfl
  | succ n ih =>
    rw [List.range_succ_eq_map, List.map_cons, List.map_map, List.map_cons, List.map_map, rowsFrom,
      ih]
    congr 1
    refine List.map_congr_left fun r _ => ?_
    rw [wordsPerRow, Function.comp_apply, Function.comp_apply, Nat.mul_succ, Nat.add_assoc,
      Nat.add_comm 10]

/-- The words of a segment are printed as its rows. -/
theorem rowsFrom_eq_rows {m : Memory} {s : Segment} (h : s.Inside m.capacity)
    (label : WordIndex → String) :
    rowsFrom label s.start
        (pieces wordsPerRow (m.words.extract s.start (s.start + s.length)).toList) =
      (rows m s).map (Row.line label) := by
  have hbytes := Segment.map_extract_eq_bytes h
  have hlength : (m.words.extract s.start (s.start + s.length)).toList.length = s.length := by
    have hlengths := congrArg List.length hbytes
    rwa [Segment.bytes, List.length_map, List.length_map, List.length_range] at hlengths
  have hwidth : 0 < wordsPerRow := by decide
  rw [pieces_eq_map hwidth, hlength, rowsFrom_map_range, rows, List.map_map]
  refine List.map_congr_left fun r _ => ?_
  rw [Function.comp_apply, Row.line, row, ← s.take_drop_bytes m r, ← hbytes, ← List.map_drop,
    ← List.map_take, List.map_map]
  rfl

/-! ### Lines -/

/-- The lines of the registers. -/
def registerLines (r : Registers) : List String :=
  ["REGISTERS:",
    "accumulator\t\t0x" ++ hexCapital 4 (accumulatorBits r.accumulator),
    "instructionCounter\t0x" ++ hexCapital 4 r.pc,
    "instructionRegister\t0x" ++ hexCapital 4 r.ir.toNat,
    "opCode\t\t\t0x" ++ hexCapital 4 r.opcode.code,
    "operand\t\t\t0x" ++ hexCapital 4 r.operand.toNat]

/-- The lines through the header of the code segment. -/
def codeHead (r : Registers) : List String :=
  registerLines r ++ ["", "CODE:", columnHeader]

/-- The lines through the header of the data segment. -/
def dataHead (m : Machine) (code : Segment) : List String :=
  codeHead m.registers ++ (rows m.memory code).map (Row.line (decimalPadded 4)) ++
    ["...", "DATA:", columnHeader]

/-- All lines of a dump. -/
def lines (m : Machine) (l : Layout) : List String :=
  dataHead m l.code ++ (rows m.memory l.data).map (Row.line decimal)

theorem registers_eq_putLines (r : Registers) : registers r = putLines (registerLines r) := by
  simp only [registers, registerLines, putLines, bind_pure_unit]

/-- A segment inside memory is printed in rows under the header. -/
theorem segment_eq_of_inside {m : Memory} {s : Segment} (hm : m.Storable)
    (h : s.Inside m.capacity) (label : WordIndex → String) :
    segment m s label = putLines (columnHeader :: (rows m s).map (Row.line label)) := by
  rw [segment, Memory.segment_of_le hm h, ← rowsFrom_eq_rows h label]
  rfl

/-- Of any other segment only the header is printed. -/
theorem segment_eq_of_outside {m : Memory} {s : Segment} (hm : m.Storable)
    (h : ¬ s.Inside m.capacity) (label : WordIndex → String) :
    segment m s label =
      (putLine columnHeader >>= fun _ =>
        demand (.error (.memoryOutOfBounds (max s.start m.capacity) m.capacity))) := by
  rw [segment, Memory.segment_of_lt hm (Nat.lt_of_not_le h)]
  rfl

/-- A machine is printed as its lines if both segments are inside memory. -/
theorem machine_eq_of_inside {m : Machine} {l : Layout} (hm : m.memory.Storable)
    (hcode : l.code.Inside m.memory.capacity) (hdata : l.data.Inside m.memory.capacity) :
    machine m l = (putLines (lines m l) >>= fun _ => flush) := by
  rw [machine, registers_eq_putLines, segment_eq_of_inside hm hcode, segment_eq_of_inside hm hdata]
  simp only [lines, dataHead, codeHead, putLines_append, putLines, bind_assoc, pure_bind]
  rfl

/-- If the code segment is not inside memory, the lines end with its header. -/
theorem machine_eq_of_code_outside {m : Machine} {l : Layout} (hm : m.memory.Storable)
    (hcode : ¬ l.code.Inside m.memory.capacity) :
    machine m l =
      (putLines (codeHead m.registers) >>= fun _ => demand (.error
        (.memoryOutOfBounds (max l.code.start m.memory.capacity) m.memory.capacity))) := by
  rw [machine, registers_eq_putLines, segment_eq_of_outside hm hcode]
  simp only [codeHead, putLines_append, putLines, bind_assoc, pure_bind]
  rfl

/-- If only the data segment is not inside memory, the lines end with its header. -/
theorem machine_eq_of_data_outside {m : Machine} {l : Layout} (hm : m.memory.Storable)
    (hcode : l.code.Inside m.memory.capacity) (hdata : ¬ l.data.Inside m.memory.capacity) :
    machine m l =
      (putLines (dataHead m l.code) >>= fun _ => demand (.error
        (.memoryOutOfBounds (max l.data.start m.memory.capacity) m.memory.capacity))) := by
  rw [machine, registers_eq_putLines, segment_eq_of_inside hm hcode, segment_eq_of_outside hm hdata]
  simp only [dataHead, codeHead, putLines_append, putLines, bind_assoc, pure_bind]
  rfl

/-! ### Dumps -/

section Dumps

variable {m : Machine} {l : Layout}

/-- A machine is printed to a sink that accepts everything if both segments are inside memory. -/
theorem prints_machine (hm : m.memory.Storable) (hcode : l.code.Inside m.memory.capacity)
    (hdata : l.data.Inside m.memory.capacity) :
    Prints (machine m l) () (linesText (lines m l)) := by
  rw [machine_eq_of_inside hm hcode hdata, ← String.append_empty (s := linesText _)]
  exact (prints_putLines _).bind prints_flush

/-- The text of a dump, if both segments are inside memory. -/
theorem render_of_inside (hm : m.memory.Storable) (hcode : l.code.Inside m.memory.capacity)
    (hdata : l.data.Inside m.memory.capacity) : render m l = .ok (linesText (lines m l)) := by
  obtain ⟨k, hprint, -, htext⟩ := prints_machine hm hcode hdata {} ⟨rfl, rfl⟩
  have hempty : k.text = linesText (lines m l) := htext.trans String.empty_append
  rw [render, hprint, ← hempty]

/-- There is no dump if the code segment is not inside memory. -/
theorem render_of_code_outside (hm : m.memory.Storable)
    (hcode : ¬ l.code.Inside m.memory.capacity) :
    render m l =
      .error (.memoryOutOfBounds (max l.code.start m.memory.capacity) m.memory.capacity) := by
  obtain ⟨k, hprint, -⟩ := (prints_putLines (codeHead m.registers)).printTo_bind_error (β := Unit)
    (.memoryOutOfBounds (max l.code.start m.memory.capacity) m.memory.capacity) (k := {}) ⟨rfl, rfl⟩
  rw [render, machine_eq_of_code_outside hm hcode, hprint]

/-- There is none either if only the data segment is not inside memory. -/
theorem render_of_data_outside (hm : m.memory.Storable) (hcode : l.code.Inside m.memory.capacity)
    (hdata : ¬ l.data.Inside m.memory.capacity) :
    render m l =
      .error (.memoryOutOfBounds (max l.data.start m.memory.capacity) m.memory.capacity) := by
  obtain ⟨k, hprint, -⟩ := (prints_putLines (dataHead m l.code)).printTo_bind_error (β := Unit)
    (.memoryOutOfBounds (max l.data.start m.memory.capacity) m.memory.capacity) (k := {}) ⟨rfl, rfl⟩
  rw [render, machine_eq_of_data_outside hm hcode hdata, hprint]

/-- So there is a dump only if both segments are inside memory. -/
theorem inside_of_render (hm : m.memory.Storable) {text : String}
    (htext : render m l = .ok text) :
    l.code.Inside m.memory.capacity ∧ l.data.Inside m.memory.capacity := by
  by_cases hcode : l.code.Inside m.memory.capacity
  · by_cases hdata : l.data.Inside m.memory.capacity
    · exact ⟨hcode, hdata⟩
    · rw [render_of_data_outside hm hcode hdata] at htext
      cases htext
  · rw [render_of_code_outside hm hcode] at htext
    cases htext

/-- A layout that passes its check is dumped from any machine whose memory has the size that the layout
says.  Every sink that accepts everything gets the text of the dump. -/
theorem render_of_check (hcheck : l.check = .ok ()) (hcapacity : m.memory.capacity = l.capacity) :
    render m l = .ok (linesText (lines m l)) ∧
      Prints (machine m l) () (linesText (lines m l)) := by
  obtain ⟨⟨-, hle⟩, hcode, hdata⟩ := Layout.check_eq_ok_iff.mp hcheck
  have hm : m.memory.Storable := by
    unfold Memory.Storable sizeBound
    omega
  have hcode := hcode.inside
  have hdata := hdata.inside
  rw [← hcapacity] at hcode hdata
  exact ⟨render_of_inside hm hcode hdata, prints_machine hm hcode hdata⟩

/-- The lines of a dump show the registers and the memory and nothing else. -/
theorem lines_congr {m' : Machine} (hregisters : m.registers = m'.registers)
    (hmemory : m.memory = m'.memory) : lines m l = lines m' l := by
  rw [lines, lines, dataHead, dataHead, hregisters, hmemory]

end Dumps

end Dump

end WordMachine
