import WordMachine.Instruction

/-!
# Assembly text and listings

In assembly text `#n` is a literal, `[n]` the word of memory at index `n`, and a bare `n` the index
of the word to jump to.  A listing shows a program word by word: index, bits, hexadecimal value
and assembly text, one line per word.
-/

namespace WordMachine

/-! ### Assembly text -/

/-- The text of an operand: `#n` for a literal and `[n]` for a word of memory. -/
def Operand.text : Operand → String
  | .literal value => "#" ++ Numeral.decimal value.toNat
  | .cell index => "[" ++ index.text ++ "]"

namespace Instruction

/-- The text of what an instruction carries, if it carries anything. -/
def operandText? : Instruction → Option String
  | endMark | neg | nop | halt => none
  | load o | add o | sub o | mul o | div o | mod o => some o.text
  | store i | read i | write i => some (Operand.text (.cell i))
  | jmp t | jneg t | jzero t => some (WordIndex.text t)

/-- The assembly text of an instruction: the mnemonic, and after a space the operand if there is
one. -/
def text (i : Instruction) : String :=
  match i.operandText? with
  | none => i.opcode.mnemonic
  | some operand => i.opcode.mnemonic ++ " " ++ operand

end Instruction

/-- The assembly text of the instruction that a word encodes. -/
def Word.disassembly (w : Word) : String :=
  w.decode.text

/-! ### Listings -/

namespace Listing

/-- The line for the word `w` at `index`. -/
def line (index : WordIndex) (w : Word) : String :=
  Numeral.decimalPadded 4 index ++ ": " ++ w.token ++ "  " ++
    Numeral.hexCapital 4 w.toNat ++ "  " ++ w.disassembly ++ "\n"

/-- The lines for words that stand from `index` on. -/
def linesFrom (index : WordIndex) : List Word → List String
  | [] => []
  | w :: ws => line index w :: linesFrom index.next ws

/-- The listing of a program that starts at word zero. -/
def render (words : List Word) : String :=
  String.join (linesFrom 0 words)

end Listing

end WordMachine
