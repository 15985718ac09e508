import WordMachine.Proofs.DumpText
import WordMachine.Proofs.Numeral

/-!
# Reading a dump

Nothing in the text of a dump says where a field ends but the characters behind it: numerals are as long
as they have to be, the last row of a segment may be short, and a segment may have no rows.  Still the
text tells the registers and the low bytes of both segments, for it can be read.

`Dump.read?` is given the text alone, neither a layout nor a machine.  It takes line by line, each by a
reader that undoes a printer: `LineReader.expect` a line that is the same in all dumps,
`LineReader.field` a number behind its name, and `LineReader.rows` the rows of a segment, as many as
there are.  As lines are ended by line feeds, so the items of a row are ended by blanks, and neither stands
in a numeral, so that one cut does for both (`itemsOf_flatMap`).

A dump that is read gives the registers and the rows that were printed
(`Dump.read?_linesText`), and the rows hold each byte of the segment once, in order
(`Segment.listed_rows`).  So two machines have the same dump only if these are the same
(`Dump.read?_of_render`).
-/

namespace WordMachine

open Printer Numeral

/-! ### Items -/

/-- The items of a text, each of them ended by the character `stop`.  What stands behind the last of these
is left out. -/
def itemsOf (stop : Char) (cs : List Char) : List (List Char) :=
  (cs.splitOn stop).dropLast

/-- Items that are ended are found again. -/
theorem itemsOf_flatMap {stop : Char} {items : List (List Char)}
    (h : ∀ item ∈ items, stop ∉ item) : itemsOf stop (items.flatMap (· ++ [stop])) = items := by
  have hsplit : (items.flatMap (· ++ [stop])).splitOn stop = items ++ [[]] := by
    induction items with
    | nil => rfl
    | cons item items ih =>
      obtain ⟨hitem, hitems⟩ := List.forall_mem_cons.mp h
      rw [List.flatMap_cons, List.append_assoc, List.singleton_append,
        List.splitOn_append_cons_self_of_not_mem hitem, ih hitems, List.cons_append]
  rw [itemsOf, hsplit, List.dropLast_concat]

namespace Dump

/-! ### Readers -/

/-- A reader takes lines off those that are left, or refuses them. -/
abbrev LineReader := StateT (List (List Char)) Option

namespace LineReader

/-- Takes a line that has to be `line`. -/
def expect (line : String) : LineReader Unit
  | [] => none
  | cs :: rest => if cs = line.toList then some ((), rest) else none

/-- Takes a line with a name and a number in hexadecimal behind it. -/
def field (name : String) : LineReader Nat
  | [] => none
  | cs :: rest =>
    if cs.take name.toList.length = name.toList then
      (ofHexDigits? 0 (cs.drop name.toList.length)).map (·, rest)
    else
      none

/-- Reads a row: a label and then bytes, each with a blank behind it. -/
def row? (cs : List Char) : Option Row :=
  match itemsOf ' ' cs with
  | [] => none
  | label :: cells => do
    return { label := ← ofDigits? label, bytes := ← cells.mapM (ofHexDigits? 0) }

/-- The rows at the front of some lines, and the other lines. -/
def rowsOf : List (List Char) → List Row × List (List Char)
  | [] => ([], [])
  | cs :: rest =>
    match row? cs with
    | some r => (r :: (rowsOf rest).1, (rowsOf rest).2)
    | none => ([], cs :: rest)

/-- Takes rows as far as there are any. -/
def rows : LineReader (List Row) := fun ls =>
  some (rowsOf ls)

end LineReader

/-- What a dump tells. -/
structure Reading where
  registers : Registers
  code : List Row
  data : List Row
deriving DecidableEq, Repr

open LineReader in
/-- Takes the lines of the registers. -/
def LineReader.registers : LineReader Registers := do
  expect "REGISTERS:"
  let accumulator ← field "accumulator\t\t0x"
  let pc ← field "instructionCounter\t0x"
  let ir ← field "instructionRegister\t0x"
  let opcode ← field "opCode\t\t\t0x"
  let operand ← field "operand\t\t\t0x"
  return {
    accumulator := (UInt32.ofNat accumulator).toInt32
    pc
    ir := UInt16.ofNat ir
    opcode := Opcode.ofCode opcode
    operand := UInt16.ofNat operand }

open LineReader in
/-- Takes the lines of a dump. -/
def LineReader.reading : LineReader Reading := do
  let registers ← LineReader.registers
  expect ""
  expect "CODE:"
  expect columnHeader
  let code ← LineReader.rows
  expect "..."
  expect "DATA:"
  expect columnHeader
  let data ← LineReader.rows
  return { registers, code, data }

/-- Reads a dump: a text that consists of the lines of one, and nothing else. -/
def read? (text : String) : Option Reading :=
  match LineReader.reading.run (itemsOf '\n' text.toList) with
  | some (r, []) => some r
  | _ => none

/-! ### What readers take -/

/-- The reader takes `x` from the lines `ls` and leaves the lines `rest`. -/
def Takes {α : Type} (p : LineReader α) (x : α) (ls rest : List (List Char)) : Prop :=
  p.run ls = some (x, rest)

section Takes

variable {α β : Type} {ls rest : List (List Char)}

theorem takes_pure (x : α) (ls : List (List Char)) : Takes (pure x) x ls ls :=
  rfl

/-- One reader after another: the second one takes from what the first has left. -/
theorem Takes.bind {p : LineReader α} {f : α → LineReader β} {x : α} {y : β}
    {after : List (List Char)} (hp : Takes p x ls rest) (hf : Takes (f x) y rest after) :
    Takes (p >>= f) y ls after := by
  have hrun : p.run ls = some (x, rest) := hp
  unfold Takes
  rw [StateT.run_bind, hrun]
  exact hf

theorem takes_expect (line : String) (rest : List (List Char)) :
    Takes (LineReader.expect line) () (line.toList :: rest) rest :=
  if_pos rfl

theorem takes_field (name : String) (n : Nat) (rest : List (List Char)) :
    Takes (LineReader.field name) n ((name ++ hexCapital 4 n).toList :: rest) rest := by
  have hname : (name ++ hexCapital 4 n).toList.take name.toList.length = name.toList := by
    rw [String.toList_append, List.take_left]
  have hnumeral : (name ++ hexCapital 4 n).toList.drop name.toList.length =
      (digits 16 4 n).map Char.toUpper := by
    rw [String.toList_append, List.drop_left, hexCapital, String.toList_ofList]
  refine (if_pos hname).trans ?_
  rw [hnumeral, ofHexDigits?_map_toUpper_digits]
  rfl

end Takes

/-! ### Rows read back -/

/-- Cells are read back. -/
theorem mapM_hexCapital (bytes : List Nat) :
    (bytes.map fun b => (hexCapital 2 b).toList).mapM (ofHexDigits? 0) = some bytes := by
  induction bytes with
  | nil => rfl
  | cons b bytes ih =>
    rw [List.map_cons, List.mapM_cons, ih, hexCapital, String.toList_ofList,
      ofHexDigits?_map_toUpper_digits]
    rfl

/-- The items of a row: the label and the cells. -/
def Row.items (label : WordIndex → String) (r : Row) : List (List Char) :=
  (label r.label).toList :: r.bytes.map fun b => (hexCapital 2 b).toList

/-- In the line of a row each item has a blank behind it. -/
theorem toList_line (label : WordIndex → String) (r : Row) :
    (r.line label).toList = (r.items label).flatMap (· ++ [' ']) := by
  have hended : ∀ s : String, (s ++ " ").toList = s.toList ++ [' '] := fun _ =>
    String.toList_append
  rw [Row.line, Row.items, String.toList_append, String.toList_join, List.flatMap_cons,
    List.flatMap_map, List.flatMap_map]
  simp only [hended]

section Labels

variable {label : WordIndex → String} {width : Nat}
  (hlabel : ∀ i, (label i).toList = digits 10 width i)
include hlabel

/-- No character stands in an item of a row but digits. -/
theorem not_mem_of_mem_items {c : Char} (hdecimal : isDigit c = false)
    (hhexadecimal : ∀ d < 16, c ≠ (Nat.digitChar d).toUpper) {r : Row} :
    ∀ item ∈ r.items label, c ∉ item := by
  intro item hitem
  rcases List.mem_cons.mp hitem with rfl | hcell
  · rw [hlabel]
    exact not_mem_digits hdecimal width r.label
  · obtain ⟨b, -, rfl⟩ := List.mem_map.mp hcell
    exact not_mem_hexCapital hhexadecimal 2 b

/-- A row is read back from its line. -/
theorem row?_line (r : Row) : LineReader.row? (r.line label).toList = some r := by
  have hblank : ∀ item ∈ r.items label, ' ' ∉ item :=
    not_mem_of_mem_items hlabel (by decide) (by decide)
  rw [LineReader.row?, toList_line, itemsOf_flatMap hblank, Row.items]
  dsimp only
  rw [hlabel, ofDigits?_digits, mapM_hexCapital]
  rfl

/-- No line feed stands in the line of a row. -/
theorem lineFeed_not_mem_line (r : Row) : '\n' ∉ (r.line label).toList := by
  have hfeed : ∀ item ∈ r.items label, '\n' ∉ item :=
    not_mem_of_mem_items hlabel (by decide) (by decide)
  rw [toList_line]
  intro hmem
  obtain ⟨item, hitem, hchar⟩ := List.mem_flatMap.mp hmem
  rcases List.mem_append.mp hchar with hin | hblank
  · exact hfeed item hitem hin
  · exact absurd (List.mem_singleton.mp hblank) (by decide)

/-- Rows are taken up to the first line that is none. -/
theorem takes_rows (rs : List Row) {rest : List (List Char)}
    (hrest : rest.head?.bind LineReader.row? = none) :
    Takes LineReader.rows rs ((rs.map (Row.line label)).map String.toList ++ rest) rest := by
  have hrows : LineReader.rowsOf ((rs.map (Row.line label)).map String.toList ++ rest) =
      (rs, rest) := by
    induction rs with
    | nil =>
      cases rest with
      | nil => rfl
      | cons cs rest =>
        have hrow : LineReader.row? cs = none := hrest
        rw [List.map_nil, List.map_nil, List.nil_append, LineReader.rowsOf, hrow]
    | cons r rs ih =>
      rw [List.map_cons, List.map_cons, List.cons_append, LineReader.rowsOf, row?_line hlabel, ih]
  exact congrArg some hrows

end Labels

/-! ### Dumps read back -/

/-- The lines of the registers are read back. -/
theorem takes_registers (r : Registers) (rest : List (List Char)) :
    Takes LineReader.registers r ((registerLines r).map String.toList ++ rest) rest := by
  have haccumulator : (UInt32.ofNat (accumulatorBits r.accumulator)).toInt32 = r.accumulator := by
    rw [accumulatorBits, UInt32.ofNat_toNat, Int32.toInt32_toUInt32]
  have hir : UInt16.ofNat r.ir.toNat = r.ir := UInt16.ofNat_toNat
  have hopcode : Opcode.ofCode r.opcode.code = r.opcode := Opcode.ofCode_code r.opcode
  have hoperand : UInt16.ofNat r.operand.toNat = r.operand := UInt16.ofNat_toNat
  refine (takes_expect _ _).bind <| (takes_field _ _ _).bind <| (takes_field _ _ _).bind <|
    (takes_field _ _ _).bind <| (takes_field _ _ _).bind <| (takes_field _ _ _).bind ?_
  rw [haccumulator, hir, hopcode, hoperand]
  exact takes_pure r rest

/-- The lines of a dump are read back. -/
theorem takes_reading (m : Machine) (l : Layout) :
    Takes LineReader.reading
      { registers := m.registers, code := rows m.memory l.code, data := rows m.memory l.data }
      ((lines m l).map String.toList) [] := by
  have hdata : Takes LineReader.rows (rows m.memory l.data)
      (((rows m.memory l.data).map (Row.line decimal)).map String.toList) [] := by
    have hend : ([] : List (List Char)).head?.bind LineReader.row? = none := rfl
    have htake := takes_rows toList_decimal (rows m.memory l.data) hend
    rwa [List.append_nil] at htake
  have hdots : LineReader.row? "...".toList = none := by decide
  simp only [lines, dataHead, codeHead, List.map_append, List.append_assoc]
  refine (takes_registers _ _).bind <| (takes_expect _ _).bind <| (takes_expect _ _).bind <|
    (takes_expect _ _).bind <| (takes_rows (toList_decimalPadded 4) _ ?_).bind <| (takes_expect _ _).bind <|
    (takes_expect _ _).bind <| (takes_expect _ _).bind <| hdata.bind (takes_pure _ _)
  exact hdots

/-- No line feed stands in a line of a register, if none stands in the name. -/
theorem lineFeed_not_mem_field {name : String} (hname : '\n' ∉ name.toList) (n : Nat) :
    '\n' ∉ (name ++ hexCapital 4 n).toList := by
  rw [String.toList_append, List.mem_append, not_or]
  exact ⟨hname, not_mem_hexCapital (by decide) 4 n⟩

/-- No line feed stands in a line of a dump. -/
theorem lineFeed_not_mem_lines (m : Machine) (l : Layout) :
    ∀ line ∈ lines m l, '\n' ∉ line.toList := by
  have hrows : ∀ {label : WordIndex → String} {width : Nat} (s : Segment),
      (∀ i, (label i).toList = digits 10 width i) →
        ∀ line ∈ (rows m.memory s).map (Row.line label), '\n' ∉ line.toList := by
    intro label width s hlabel line hline
    obtain ⟨r, -, rfl⟩ := List.mem_map.mp hline
    exact lineFeed_not_mem_line hlabel r
  have hregisters : ∀ line ∈ registerLines m.registers, '\n' ∉ line.toList := by
    simp only [registerLines, List.forall_mem_cons, List.not_mem_nil, false_imp_iff, implies_true,
      and_true]
    exact ⟨by decide, lineFeed_not_mem_field (by decide) _, lineFeed_not_mem_field (by decide) _,
      lineFeed_not_mem_field (by decide) _, lineFeed_not_mem_field (by decide) _,
      lineFeed_not_mem_field (by decide) _⟩
  have hcode : ∀ line ∈ ["", "CODE:", columnHeader], '\n' ∉ line.toList := by decide
  have hdata : ∀ line ∈ ["...", "DATA:", columnHeader], '\n' ∉ line.toList := by decide
  simp only [lines, dataHead, codeHead, List.forall_mem_append]
  exact ⟨⟨⟨⟨hregisters, hcode⟩, hrows l.code (toList_decimalPadded 4)⟩, hdata⟩,
    hrows l.data toList_decimal⟩

/-- The text of the lines of a dump is read back. -/
theorem read?_linesText (m : Machine) (l : Layout) :
    read? (linesText (lines m l)) =
      some { registers := m.registers, code := rows m.memory l.code, data := rows m.memory l.data } := by
  have hended : ∀ line : String, (line ++ "\n").toList = line.toList ++ ['\n'] := fun _ =>
    String.toList_append
  have htext : (linesText (lines m l)).toList =
      ((lines m l).map String.toList).flatMap (· ++ ['\n']) := by
    rw [linesText, String.toList_join, List.flatMap_map, List.flatMap_map]
    simp only [hended]
  have hfeed : ∀ item ∈ (lines m l).map String.toList, '\n' ∉ item := by
    intro item hitem
    obtain ⟨line, hline, rfl⟩ := List.mem_map.mp hitem
    exact lineFeed_not_mem_lines m l line hline
  have htakes : LineReader.reading.run ((lines m l).map String.toList) = some (_, []) :=
    takes_reading m l
  rw [read?, htext, itemsOf_flatMap hfeed, htakes]

end Dump

/-! ### The bytes of a segment -/

/-- Rows that list a segment: as many as are needed for ten words in each, labelled with the indices of
their first words, all of them full but for the last one, and with each byte of the segment once, in
order. -/
structure Segment.Listed (s : Segment) (m : Memory) (rs : List Dump.Row) : Prop where
  length_eq : rs.length = (s.length + 9) / 10
  label_eq : ∀ r (h : r < rs.length), rs[r].label = s.start + 10 * r
  length_bytes_eq : ∀ r (h : r < rs.length), rs[r].bytes.length = min 10 (s.length - 10 * r)
  bytes_eq : rs.flatMap (·.bytes) = s.bytes m

/-- The bytes of the rows are the pieces of the bytes of the segment. -/
theorem Segment.map_bytes_rows (s : Segment) (m : Memory) :
    (Dump.rows m s).map (·.bytes) = pieces 10 (s.bytes m) := by
  have hlength : (s.bytes m).length = s.length := by
    rw [bytes, List.length_map, List.length_range]
  rw [pieces_eq_map (by decide), hlength, Dump.rows, List.map_map]
  exact List.map_congr_left fun r _ => (s.take_drop_bytes m r).symm

/-- The rows of a dump list the segment. -/
theorem Segment.listed_rows (s : Segment) (m : Memory) : s.Listed m (Dump.rows m s) where
  length_eq := by rw [Dump.rows, List.length_map, List.length_range]
  label_eq r h := by simp only [Dump.rows, List.getElem_map, List.getElem_range]
  length_bytes_eq r h := by
    simp only [Dump.rows, List.getElem_map, List.getElem_range, List.length_map, List.length_range]
  bytes_eq := by
    rw [← flatten_pieces 10 (s.bytes m), ← s.map_bytes_rows m, List.flatMap_def]

/-- An index of a word of a segment. -/
def Segment.Covers (s : Segment) (i : WordIndex) : Prop :=
  s.start ≤ i ∧ i < s.start + s.length

/-- Segments have the same bytes if the words do. -/
theorem Segment.bytes_eq_iff (s : Segment) (m m' : Memory) :
    s.bytes m = s.bytes m' ↔ ∀ i, s.Covers i → m.lowByte i = m'.lowByte i := by
  unfold bytes Covers
  rw [List.map_inj_left]
  constructor
  · rintro hbytes i ⟨hstart, hend⟩
    have hi : i - s.start < s.length := Nat.sub_lt_left_of_lt_add hstart hend
    have hbyte := hbytes (i - s.start) (List.mem_range.mpr hi)
    rwa [Nat.add_sub_cancel' hstart] at hbyte
  · intro hbytes i hi
    exact hbytes (s.start + i)
      ⟨Nat.le_add_right s.start i, Nat.add_lt_add_left (List.mem_range.mp hi) s.start⟩

namespace Dump

variable {m m' : Machine} {l : Layout}

/-- The rows of a segment tell the bytes of its words and nothing else of memory. -/
theorem rows_eq_iff {s : Segment} {m m' : Memory} :
    rows m s = rows m' s ↔ ∀ i, s.Covers i → m.lowByte i = m'.lowByte i := by
  rw [← s.bytes_eq_iff]
  constructor
  · intro hrows
    rw [← (s.listed_rows m).bytes_eq, ← (s.listed_rows m').bytes_eq, hrows]
  · intro hbytes
    unfold rows
    simp only [← Segment.take_drop_bytes, hbytes]

/-- The lines of two machines are the same exactly if the registers and the bytes are. -/
theorem linesText_eq_iff :
    linesText (lines m l) = linesText (lines m' l) ↔ m.registers = m'.registers ∧
      ∀ i, l.code.Covers i ∨ l.data.Covers i → m.memory.lowByte i = m'.memory.lowByte i := by
  constructor
  · intro htext
    have hread := read?_linesText m l
    rw [htext, read?_linesText m' l, Option.some_inj, Reading.mk.injEq] at hread
    obtain ⟨hregisters, hcode, hdata⟩ := hread
    refine ⟨hregisters.symm, fun i hi => ?_⟩
    rcases hi with hi | hi
    · exact (rows_eq_iff.mp hcode i hi).symm
    · exact (rows_eq_iff.mp hdata i hi).symm
  · rintro ⟨hregisters, hbytes⟩
    have hcode : rows m.memory l.code = rows m'.memory l.code :=
      rows_eq_iff.mpr fun i hi => hbytes i (.inl hi)
    have hdata : rows m.memory l.data = rows m'.memory l.data :=
      rows_eq_iff.mpr fun i hi => hbytes i (.inr hi)
    rw [lines, lines, dataHead, dataHead, codeHead, codeHead, hregisters, hcode, hdata]

/-- The dump of a machine, if there is one, consists of the lines of the registers and of the rows of
both segments, which are inside memory.  Reading it gives the registers and the rows back, and the rows
list the segments.

So another machine has the same dump with the same layout exactly if its registers are the same, and the
low bytes of all words in either segment.  Nothing else of a machine shows. -/
theorem read?_of_render (hm : m.memory.Storable) {text : String} (htext : render m l = .ok text) :
    (l.code.Inside m.memory.capacity ∧ l.data.Inside m.memory.capacity ∧
      text = linesText (lines m l)) ∧
    read? text =
      some { registers := m.registers, code := rows m.memory l.code, data := rows m.memory l.data } ∧
    l.code.Listed m.memory (rows m.memory l.code) ∧ l.data.Listed m.memory (rows m.memory l.data) ∧
    ∀ (m' : Machine) (text' : String), m'.memory.Storable → render m' l = .ok text' →
      (text = text' ↔ m.registers = m'.registers ∧
        ∀ i, l.code.Covers i ∨ l.data.Covers i → m.memory.lowByte i = m'.memory.lowByte i) := by
  have htext_eq : ∀ {m' : Machine} {text' : String}, m'.memory.Storable →
      render m' l = .ok text' → text' = linesText (lines m' l) := by
    intro m' text' hm' htext'
    obtain ⟨hcode, hdata⟩ := inside_of_render hm' htext'
    rw [render_of_inside hm' hcode hdata] at htext'
    exact (Except.ok.inj htext').symm
  obtain ⟨hcode, hdata⟩ := inside_of_render hm htext
  refine ⟨⟨hcode, hdata, htext_eq hm htext⟩, ?_, l.code.listed_rows m.memory,
    l.data.listed_rows m.memory, ?_⟩
  · rw [htext_eq hm htext]
    exact read?_linesText m l
  · intro m' text' hm' htext'
    rw [htext_eq hm htext, htext_eq hm' htext']
    exact linesText_eq_iff

/-- Twelve words of code, from the second word on, make a full row and a row of two, and there are no
data.  The accumulator is printed with eight digits and the program counter with five. -/
theorem read?_of_render_of_twelve_words :
    let m : Machine := {
      registers := { accumulator := -2, pc := 0x10000, ir := 0xCFFE, opcode := .jmp, operand := 0xFFE }
      memory := ⟨#[0, 0xFF01, 2, 3, 4, 5, 6, 7, 8, 9, 10, 11, 0xC]⟩ }
    let l : Layout := { capacity := 13, code := ⟨1, 12⟩, data := ⟨13, 0⟩ }
    let text := "REGISTERS:\naccumulator\t\t0xFFFFFFFE\ninstructionCounter\t0x10000\n" ++
      "instructionRegister\t0xCFFE\nopCode\t\t\t0x000C\noperand\t\t\t0x0FFE\n" ++
      "\nCODE:\n 0 1 2 3 4 5 6 7 8 9\n0001 01 02 03 04 05 06 07 08 09 0A \n0011 0B 0C \n" ++
      "...\nDATA:\n 0 1 2 3 4 5 6 7 8 9\n"
    m.memory.Storable ∧ render m l = .ok text ∧
      read? text = some {
        registers := m.registers
        code := [⟨1, [1, 2, 3, 4, 5, 6, 7, 8, 9, 10]⟩, ⟨11, [11, 12]⟩]
        data := [] } := by
  intro m l text
  have hm : m.memory.Storable := by
    unfold Memory.Storable
    decide
  have hcode : l.code.Inside m.memory.capacity := by
    unfold Segment.Inside
    decide
  have hdata : l.data.Inside m.memory.capacity := by
    unfold Segment.Inside
    decide
  have hlines : linesText (lines m l) = text := by
    decide +kernel
  have htext : render m l = .ok text := by
    rw [render_of_inside hm hcode hdata, hlines]
  have hrows : rows m.memory l.code =
      [⟨1, [1, 2, 3, 4, 5, 6, 7, 8, 9, 10]⟩, ⟨11, [11, 12]⟩] := by
    decide
  obtain ⟨-, hread, -⟩ := read?_of_render hm htext
  have hempty : rows m.memory l.data = [] := by
    decide
  rw [hrows, hempty] at hread
  exact ⟨hm, htext, hread⟩

end Dump

end WordMachine
