import WordMachine.Proofs.AllOrNothing
import WordMachine.Proofs.Assembly
import WordMachine.Proofs.DumpReader
import WordMachine.Proofs.Observation
import WordMachine.Proofs.ProgramText

/-!
# A listing shows the program that would be loaded

A program is listed without a machine.  So the words listed are found by other calls than those of a run,
and there is no memory in which they would have to fit.  Still they are the words that a run loads from
the same input, since both read the program in the same way (`Bench.Decodes`), and what is read depends on
the bytes of the input alone (`Program.read_of_brings`).

The text that is shown keeps all of these words.  Each of them has a line of its own, which a reader can
take apart into columns, as there is no colon in a label and no blank in a numeral (`Listing.columns?`).
Then the label says where the word stands, and each other column says in its own way which word it is
(`Listing.Columns.Tell`).  The main statement is `Command.lists_what_is_loaded`.
-/

namespace WordMachine

open Numeral

/-! ### Columns of a line -/

namespace Listing

/-- What stands in front of the first place at which `stop` stands, and what stands behind that. -/
def cut? (stop : List Char) : List Char → Option (List Char × List Char)
  | [] => none
  | c :: cs =>
    if stop.isPrefixOf (c :: cs) then some ([], (c :: cs).drop stop.length)
    else (cut? stop cs).map fun (front, back) => (c :: front, back)

/-- A text is cut where the first character of the stop occurs first. -/
theorem cut?_append {s : Char} {front : List Char} (h : s ∉ front) (stop back : List Char) :
    cut? (s :: stop) (front ++ (s :: stop ++ back)) = some (front, back) := by
  induction front with
  | nil =>
    have hprefix : (s :: stop).isPrefixOf (s :: (stop ++ back)) = true :=
      List.isPrefixOf_iff_prefix.mpr (List.prefix_append (s :: stop) back)
    rw [List.nil_append, List.cons_append, cut?, if_pos hprefix]
    simp
  | cons c front ih =>
    obtain ⟨hc, hfront⟩ := not_or.mp (mt List.mem_cons.mpr h)
    have hprefix : ¬ (s :: stop).isPrefixOf (c :: (front ++ (s :: stop ++ back))) = true := by
      simp [List.isPrefixOf, hc]
    rw [List.cons_append, cut?, if_neg hprefix, ih hfront]
    rfl

/-- The columns of a line. -/
structure Columns where
  label : List Char
  bits : List Char
  hex : List Char
  text : List Char
deriving DecidableEq, Repr

/-- Takes a line apart: a colon and a blank stand behind the label, two blanks behind each numeral. -/
def columns? (line : List Char) : Option Columns := do
  let (label, line) ← cut? [':', ' '] line
  let (bits, line) ← cut? [' ', ' '] line
  let (hex, text) ← cut? [' ', ' '] line
  return { label, bits, hex, text }

/-- The columns tell that the word at index `i` is `w`, each of them in its own way. -/
structure Columns.Tell (c : Columns) (i : WordIndex) (w : Word) : Prop where
  /-- The label is the index, with four decimal digits or as many more as it takes. -/
  label : ofDigits? c.label = some i ∧ c.label = digits 10 4 i ∧ 4 ≤ c.label.length
  /-- There are sixteen bits, and as a token they spell the word. -/
  bits : IsBinary c.bits ∧ c.bits.length = 16 ∧ Word.ofToken (String.ofList c.bits) = w
  /-- The hexadecimal number is that of the word. -/
  hex : ofHexDigits? 0 c.hex = some w.toNat
  /-- The text is assembled into a word that is the same instruction and has the same text. -/
  text : ∃ v, Word.assemble? c.text = some v ∧ v.decode = w.decode ∧
    v.disassembly.toList = c.text ∧ c.text = w.disassembly.toList

/-! ### Lines of a listing -/

/-- The characters of a line before its line feed. -/
def body (i : WordIndex) (w : Word) : List Char :=
  digits 10 4 i ++ ([':', ' '] ++ (w.token.toList ++ ([' ', ' '] ++
    ((hexCapital 4 w.toNat).toList ++ ([' ', ' '] ++ w.disassembly.toList)))))

theorem toList_line (i : WordIndex) (w : Word) : (line i w).toList = body i w ++ ['\n'] := by
  have hcolon : ": ".toList = [':', ' '] := by decide
  have hblanks : "  ".toList = [' ', ' '] := by decide
  have hfeed : "\n".toList = ['\n'] := by decide
  simp only [line, body, String.toList_append, toList_decimalPadded, hcolon, hblanks, hfeed,
    List.append_assoc]

/-- A line is taken apart into the columns of which it was made. -/
theorem columns?_body (i : WordIndex) (w : Word) :
    columns? (body i w) = some {
      label := digits 10 4 i
      bits := w.token.toList
      hex := (hexCapital 4 w.toNat).toList
      text := w.disassembly.toList } := by
  -- no column but the last has the first character of its stop in it
  have hlabel : ':' ∉ digits 10 4 i := not_mem_digits (by decide) 4 i
  have hbits : ' ' ∉ w.token.toList := w.isBinary_token.not_mem (by decide) (by decide)
  have hhex : ' ' ∉ (hexCapital 4 w.toNat).toList := not_mem_hexCapital (by decide) 4 w.toNat
  simp only [columns?, body, Option.bind_eq_bind, cut?_append hlabel, cut?_append hbits,
    cut?_append hhex, Option.bind_some]
  rfl

theorem lineFeed_not_mem_body (i : WordIndex) (w : Word) : '\n' ∉ body i w := by
  have hbits : '\n' ∉ w.token.toList := w.isBinary_token.not_mem (by decide) (by decide)
  simp only [body, List.mem_append, not_or]
  exact ⟨not_mem_digits (by decide) 4 i, by decide, hbits, by decide,
    not_mem_hexCapital (by decide) 4 w.toNat, by decide, w.lineFeed_not_mem_disassembly⟩

/-- The columns of a line tell its word. -/
theorem tell_body (i : WordIndex) (w : Word) :
    ∃ c, columns? (body i w) = some c ∧ c.Tell i w := by
  obtain ⟨v, hassemble, hdecode, htext⟩ := w.exists_assemble?_disassembly
  refine ⟨_, columns?_body i w, ?_⟩
  constructor <;> dsimp only
  case label =>
    refine ⟨ofDigits?_digits 4 i, rfl, ?_⟩
    rw [digits, length_padLeft]
    exact Nat.le_max_left 4 _
  case bits =>
    refine ⟨w.isBinary_token, w.length_toList_token, ?_⟩
    rw [String.ofList_toList, Word.ofToken_token]
  case hex => rw [hexCapital, String.toList_ofList, ofHexDigits?_map_toUpper_digits]
  case text => exact ⟨v, hassemble, hdecode, congrArg String.toList htext, rfl⟩

/-! ### Listings -/

theorem linesFrom_eq (i : WordIndex) (ws : List Word) :
    linesFrom i ws = ws.mapIdx fun j w => line (i + j) w := by
  induction ws generalizing i with
  | nil => rfl
  | cons w ws ih =>
    have hnext (j : Nat) : i.next + j = i + (j + 1) := by
      rw [WordIndex.next, Nat.add_assoc, Nat.add_comm 1 j]
    rw [linesFrom, ih, List.mapIdx_cons]
    simp only [hnext, Nat.add_zero]

/-- A listing consists of its lines, each of them ended by a line feed. -/
theorem toList_render (ws : List Word) :
    (render ws).toList = (ws.mapIdx body).flatMap (· ++ ['\n']) := by
  have hlines : (linesFrom 0 ws).map String.toList = (ws.mapIdx body).map (· ++ ['\n']) := by
    refine List.ext_getElem? fun i => ?_
    rw [linesFrom_eq, List.getElem?_map, List.getElem?_map, List.getElem?_mapIdx,
      List.getElem?_mapIdx, Nat.zero_add]
    cases ws[i]? with
    | none => rfl
    | some w => exact congrArg some (toList_line i w)
  rw [render, String.toList_join, List.flatMap_def, List.flatMap_def, hlines]

/-- The lines are found again. -/
theorem itemsOf_render (ws : List Word) :
    itemsOf '\n' (render ws).toList = ws.mapIdx body := by
  rw [toList_render, itemsOf_flatMap]
  intro line hline
  obtain ⟨i, hi, rfl⟩ := List.mem_mapIdx.mp hline
  exact lineFeed_not_mem_body i _

end Listing

/-! ### The words of a program -/

namespace Program

/-- The program in some bytes: the words of their tokens, up to and including the first zero word. -/
def ofBytes (bytes : List UInt8) : List Word :=
  let words := (Tokens.split bytes).map Word.ofToken
  words.take (extent words)

/-- It is read, however the bytes arrive. -/
theorem read_of_brings {script : Script} {bytes : List UInt8} (h : script.Brings bytes)
    (sink : Sink) : (read ({ script, sink } : StreamConsole)).1 = .ok (ofBytes bytes) := by
  obtain ⟨script', hdelivers, hcall⟩ := h.exists_delivers
  have hsupply : Supplies ({ script := script', sink } : StreamConsole) (Tokens.split bytes) :=
    StreamConsole.yields_of_delivers sink hdelivers
  obtain ⟨k, hread, -⟩ := read_of_supplies hsupply rfl
  have hcongr : read ({ script, sink } : StreamConsole) = read { script := script', sink } :=
    read_congr (hcall sink)
  rw [hcongr, hread]
  rfl

end Program

namespace Bench

variable {κ : Type} [FiniteConsole κ]

/-- At the bench a load decodes the words `ws`, whether they fit into memory or not. -/
structure Decodes (b : Bench κ) (ws : List Word) : Prop where
  read : b.readProgram.1 = .ok ws
  loads_iff : (∃ n, b.load.1 = .ok n) ↔ ws.length ≤ b.machine.memory.capacity
  /-- They are what stands at the start of memory right after a load that succeeds. -/
  loaded : ∀ n, b.load.1 = .ok n → ws.length = n ∧
    (b.load.2.machine.memory.words.extract 0 n).toList = ws
  refused : b.machine.memory.capacity < ws.length →
    b.load.1 = .error (b.machine.memory.outOfBounds b.machine.memory.capacity)

/-- Words that are read are decoded. -/
theorem decodes_of_read {b : Bench κ} {ws : List Word}
    (h : (Program.read b.console).1 = .ok ws) : b.Decodes ws := by
  rcases hread : Program.read b.console with ⟨r, k⟩
  rw [hread] at h
  dsimp only at h
  subst h
  have hload : b.load = b.finishLoad (.ok ws, k) := by
    rw [b.load_eq, hread]
  refine ⟨?_, ⟨?_, ?_⟩, ?_, ?_⟩
  · rw [readProgram, hread, noteRead]
  · rintro ⟨n, hn⟩
    rw [hload] at hn
    exact (b.length_of_finishLoad_eq_ok k hn).1
  · intro hfits
    obtain ⟨b', hfinish, -⟩ := b.finishLoad_of_le k hfits
    rw [hload, hfinish]
    exact ⟨_, rfl⟩
  · intro n hn
    rw [hload] at hn
    obtain ⟨hfits, rfl⟩ := b.length_of_finishLoad_eq_ok k hn
    obtain ⟨b', hfinish, hloaded, -⟩ := b.finishLoad_of_le k hfits
    rw [hload, hfinish]
    have hcapacity : ws.length ≤ b'.machine.memory.words.size :=
      Nat.le_trans hfits (Nat.le_of_eq hloaded.capacity.symm)
    refine ⟨rfl, List.ext_getElem? fun i => ?_⟩
    rw [Array.getElem?_toList, Array.getElem?_extract, Nat.min_eq_left hcapacity, Nat.sub_zero,
      Nat.zero_add]
    split
    · next hi => exact hloaded.loaded i hi
    · next hi => exact (List.getElem?_eq_none (Nat.le_of_not_lt hi)).symm
  · intro hlarge
    obtain ⟨b', hfinish, -⟩ := b.finishLoad_of_lt k hlarge
    rw [hload, hfinish]

end Bench

/-! ### The command -/

namespace Command

/-- The command with these arguments succeeds and shows the listing of the words `ws`. -/
def Lists (w : Surroundings) (args : List String) (ws : List Word) : Prop :=
  ∀ patience elapsed, ∃ out, outcome? patience elapsed w args = some out ∧ out.code = 0 ∧
    out.stdout = Listing.render ws

/-- Words that are read are listed. -/
theorem lists_of_read {w : Surroundings} {args : List String} {file : Option String}
    {script : Script} {ws : List Word} (hargs : Request.ofArguments args = .ok (.list file))
    (hinput : inputFrom w file = .ok script)
    (hread : (Program.read ({ script } : StreamConsole)).1 = .ok ws) : Lists w args ws := by
  intro patience elapsed
  rcases hresult : Program.read ({ script } : StreamConsole) with ⟨r, k⟩
  obtain rfl : r = .ok ws := by
    rw [hresult] at hread
    exact hread
  rw [outcome?, hargs]
  simp only [perform, performList, hinput, hresult, Option.map_some]
  exact ⟨_, rfl, rfl, rfl⟩

/-- Listing a program can be asked for with every file, and with none for the standard input. -/
theorem ofArguments_disasm :
    Request.ofArguments ["disasm"] = .ok (.list none) ∧
      ∀ path, path ≠ "" → Request.ofArguments ["disasm", "--", path] = .ok (.list (some path)) := by
  refine ⟨rfl, fun path hpath => ?_⟩
  have hnonempty : path.isEmpty = false := isEmpty_eq_false (mt Option.some.inj hpath)
  have htake : ({} : RunOptions).takeFile path = .ok { file := some path } := by
    simp [RunOptions.takeFile, hnonempty]
  have hseparator : Argument.ofString "--" = .separator := rfl
  simp only [Request.ofArguments, readList, hseparator, RunOptions.takeFiles, htake]
  rfl

/-- A listing shows exactly what a run loads, and loses nothing.

Let the command be asked to list a program, and let its input be read without a failure.  Then it succeeds
and shows the listing of the words that are read; and at every bench that is attached to the same input a
load decodes the same words.  If that succeeds, they are as many as it returns and stand at the start of
memory; otherwise they do not fit into it, and are listed all the same.  No read of an input that brings
bytes fails, and the words are then those of the program in the bytes, whatever the reads are that bring
them.  Listing a program can be asked for with any file, and without one for the standard input.

Any listing is a line for each word, ended by a line feed, and no other text.  The line at an index has
columns that tell the word at that index. -/
theorem lists_what_is_loaded :
    (∀ w args file script ws, Request.ofArguments args = .ok (.list file) →
      inputFrom w file = .ok script → (Program.read ({ script } : StreamConsole)).1 = .ok ws →
        Lists w args ws ∧ ∀ b : Bench StreamConsole, b.console = { script } → b.Decodes ws) ∧
    (∀ w args file bytes, Request.ofArguments args = .ok (.list file) → InputIs w file bytes →
      Lists w args (Program.ofBytes bytes) ∧
        ∀ (b : Bench StreamConsole) script sink, script.Brings bytes →
          b.console = { script, sink } → b.Decodes (Program.ofBytes bytes)) ∧
    (Request.ofArguments ["disasm"] = .ok (.list none) ∧ ∀ path, path ≠ "" →
      Request.ofArguments ["disasm", "--", path] = .ok (.list (some path))) ∧
    ∀ ws, let text := (Listing.render ws).toList
      let lines := itemsOf '\n' text
      text = lines.flatMap (· ++ ['\n']) ∧ lines.length = ws.length ∧
        ∀ (i : Nat) w, ws[i]? = some w →
          ∃ line c, lines[i]? = some line ∧ Listing.columns? line = some c ∧ c.Tell i w := by
  refine ⟨?_, ?_, ofArguments_disasm, ?_⟩
  · rintro w args file script ws hargs hinput hread
    refine ⟨lists_of_read hargs hinput hread, fun b hb => Bench.decodes_of_read ?_⟩
    rw [hb]
    exact hread
  · rintro w args file bytes hargs hinput
    obtain ⟨script, hscript, hbrings⟩ := hinput.brings
    refine ⟨lists_of_read hargs hscript (Program.read_of_brings hbrings {}), ?_⟩
    intro b script sink hbrings hb
    refine Bench.decodes_of_read ?_
    rw [hb]
    exact Program.read_of_brings hbrings sink
  · intro ws text lines
    have hlines : lines = ws.mapIdx Listing.body := Listing.itemsOf_render ws
    refine ⟨?_, ?_, ?_⟩
    · rw [hlines]
      exact Listing.toList_render ws
    · rw [hlines, List.length_mapIdx]
    · intro i w hw
      obtain ⟨c, hc, htell⟩ := Listing.tell_body i w
      refine ⟨_, c, ?_, hc, htell⟩
      rw [hlines, List.getElem?_mapIdx, hw]
      rfl

/-- A file has two words, a zero word and a token behind it.  The first three are listed, although a memory
of two words is too small for them.  The last column of the first line has the even byte address. -/
theorem lists_what_is_loaded_of_three_words :
    let bytes := "1100000000001001 1111 0 101".toUTF8.data.toList
    let w : Surroundings := { openPath := fun _ => .ofBytes bytes, input := [], logSetting := none }
    Lists w ["disasm", "--", "program"] [0xC009, 0xF, 0] ∧
      (∀ b : Bench StreamConsole, b.console = { script := [.bytes bytes] } →
        b.Decodes [0xC009, 0xF, 0] ∧ (b.machine.memory.capacity = 2 →
          b.load.1 = .error (.memoryOutOfBounds 2 2))) ∧
      ∃ line c, (itemsOf '\n' (Listing.render [0xC009, 0xF, 0]).toList)[0]? = some line ∧
        Listing.columns? line = some c ∧ c.Tell 0 0xC009 ∧ c.text = "JMP 4".toList ∧
        Word.assemble? c.text = some 0xC008 := by
  intro bytes w
  obtain ⟨-, hbytes, ⟨-, hargs⟩, hlisting⟩ := lists_what_is_loaded
  have hwords : Program.ofBytes bytes = [0xC009, 0xF, 0] := by decide +kernel
  obtain ⟨hlists, hdecodes⟩ := hbytes w _ _ bytes (hargs "program" (by decide)) (.file rfl (.inl rfl))
  rw [hwords] at hlists hdecodes
  refine ⟨hlists, ?_, ?_⟩
  · intro b hb
    have hb' : b.Decodes [0xC009, 0xF, 0] := hdecodes b _ {} (.inl rfl) hb
    refine ⟨hb', fun hcapacity => ?_⟩
    have hrefused := hb'.refused (by rw [hcapacity]; decide)
    rwa [Memory.outOfBounds, hcapacity] at hrefused
  · obtain ⟨-, -, hcolumns⟩ := hlisting [0xC009, 0xF, 0]
    obtain ⟨line, c, hline, hc, htell⟩ := hcolumns 0 0xC009 rfl
    obtain ⟨-, -, -, -, htext⟩ := htell.text
    have hjump : Word.disassembly 0xC009 = "JMP 4" := by decide +kernel
    rw [hjump] at htext
    refine ⟨line, c, hline, hc, htell, htext, ?_⟩
    rw [htext]
    decide +kernel

end Command

end WordMachine
