import WordMachine.Host.Console
import WordMachine.Host.Sink
import WordMachine.Text.Tokens

/-!
# Consoles over a byte stream

The input of a stream console arrives in reads, and a script lists what each read will deliver.
The console works line by line: it reads on until a line with a token has come in, cuts that line
into tokens, and hands these out before it touches the stream again.  So it never waits for more
input than the tokens asked for need.

A line ends with its line feed, or where a read delivers nothing.  A read that fails takes the
unfinished line with it, and the next line starts after it; an interrupted read is simply repeated.
A line of no bytes at all is the end of the input, and that end is final.
-/

namespace WordMachine

/-! ### Scripts -/

/-- What one read of a stream delivers. -/
inductive Read where
  /-- Some bytes, or none. -/
  | bytes (bs : List UInt8)
  /-- A failure with a text. -/
  | failure (text : String)
  /-- An interruption. -/
  | interrupted
deriving DecidableEq, Repr

/-- The reads of a stream in order.  After the last one, reads deliver nothing. -/
abbrev Script := List Read

namespace Script

/-- The byte that ends a line. -/
def lineFeed : UInt8 := 0x0A

/-- The bytes before the first line feed. -/
def beforeFeed (bs : List UInt8) : List UInt8 :=
  bs.takeWhile (· ≠ lineFeed)

/-- The bytes from the first line feed on. -/
def fromFeed (bs : List UInt8) : List UInt8 :=
  bs.dropWhile (· ≠ lineFeed)

theorem length_beforeFeed_add (bs : List UInt8) :
    (beforeFeed bs).length + (fromFeed bs).length = bs.length := by
  rw [← List.length_append, beforeFeed, fromFeed, List.takeWhile_append_dropWhile]

/-- Puts unread bytes back in front of a script. -/
def unread (bs : List UInt8) (s : Script) : Script :=
  if bs.isEmpty then s else .bytes bs :: s

/-- Reads to the end of the line of which `line` has been read already. -/
def readLine (line : List UInt8) : Script → Except Failure (List UInt8) × Script
  | [] => (.ok line, [])
  | .interrupted :: rest => readLine line rest
  | .failure text :: rest => (.error (.io text), rest)
  | .bytes bs :: rest =>
    if bs.isEmpty then
      (.ok line, rest)
    else
      match fromFeed bs with
      | [] => readLine (line ++ bs) rest
      | feed :: back => (.ok (line ++ beforeFeed bs ++ [feed]), unread back rest)

/-- Reads to the end of a stream of which `before` has been read already.  A read that delivers nothing
is its end. -/
def readAll (before : List UInt8) : Script → Except Failure (List UInt8)
  | [] => .ok before
  | .interrupted :: rest => readAll before rest
  | .failure text :: _ => .error (.io text)
  | .bytes bs :: rest => if bs.isEmpty then .ok before else readAll (before ++ bs) rest

/-- A number that falls with every byte read: the bytes to come and the reads that bring them. -/
def size : Script → Nat
  | [] => 0
  | .bytes bs :: rest => bs.length + 1 + size rest
  | _ :: rest => 1 + size rest

theorem size_unread_le (bs : List UInt8) (s : Script) :
    (unread bs s).size ≤ bs.length + 1 + s.size := by
  unfold unread
  split
  · omega
  · simp [size]

/-- The bytes of a line that is read are gone from the script. -/
theorem size_readLine {line line' : List UInt8} {s s' : Script}
    (h : readLine line s = (.ok line', s')) : line'.length + s'.size ≤ line.length + s.size := by
  fun_induction readLine line s with
  | case1 line => cases h; simp
  | case2 line rest ih => have := ih h; simp only [size]; omega
  | case3 => cases h
  | case4 line bs rest hb => cases h; simp only [size]; omega
  | case5 line bs rest hb hf ih =>
    have := ih h
    simp only [size, List.length_append] at this ⊢
    omega
  | case6 line bs rest hb feed back hf =>
    cases h
    have h₁ := length_beforeFeed_add bs
    have h₂ := size_unread_le back rest
    rw [hf] at h₁
    simp only [size, List.length_append, List.length_cons, List.length_nil] at h₁ h₂ ⊢
    omega

end Script

/-! ### Stream consoles -/

/-- A console over a byte stream. -/
structure StreamConsole where
  /-- The reads to come. -/
  script : Script
  /-- Tokens that were read but not handed out. -/
  pending : List String := []
  /-- Whether the end of the input has been seen. -/
  ended : Bool := false
  sink : Sink := {}
deriving DecidableEq, Repr

namespace StreamConsole

/-- Reads lines until a token is pending or the input has ended. -/
def fill (c : StreamConsole) : Except Failure Unit × StreamConsole :=
  if c.pending.isEmpty && !c.ended then
    match _h : c.script.readLine [] with
    | (.error e, rest) => (.error e, { c with script := rest })
    | (.ok line, rest) =>
      if line.isEmpty then
        (.ok (), { c with script := rest, ended := true })
      else
        fill { c with script := rest, pending := Tokens.split line }
  else
    (.ok (), c)
termination_by c.script.size
decreasing_by
  have := Script.size_readLine _h
  cases line
  · simp_all
  · simp only [List.length_cons, List.length_nil] at this
    omega

/-- The next token. -/
def readToken (c : StreamConsole) : Except Failure (Option String) × StreamConsole :=
  match c.fill with
  | (.error e, c') => (.error e, c')
  | (.ok (), c') =>
    match c'.pending with
    | [] => (.ok none, c')
    | token :: rest => (.ok (some token), { c' with pending := rest })

/-- Writes a value as a decimal line. -/
def writeValue (c : StreamConsole) (w : Word) : Except Failure Unit × StreamConsole :=
  let (result, sink) := c.sink.write (Console.valueLine w)
  (result, { c with sink })

/-- Flushes the output. -/
def flush (c : StreamConsole) : Except Failure Unit × StreamConsole :=
  let (result, sink) := c.sink.flush
  (result, { c with sink })

/-- A bound on the number of tokens to come. -/
def remaining (c : StreamConsole) : Nat :=
  c.pending.length + c.script.size

theorem remaining_fill_le (c : StreamConsole) : c.fill.2.remaining ≤ c.remaining ∨
    c.fill.1 ≠ .ok () := by
  fun_induction fill c with
  | case1 => right; simp
  | case2 c h line rest hr hl =>
    left
    have := Script.size_readLine hr
    simp only [List.length_nil] at this
    simp only [remaining]
    omega
  | case3 c h line rest hr hl ih =>
    refine ih.imp_left fun ih => Nat.le_trans ih ?_
    have h₁ := Script.size_readLine hr
    have h₂ := Tokens.length_split_le line
    simp only [List.length_nil] at h₁
    simp only [remaining]
    omega
  | case4 => left; exact Nat.le_refl _

instance : FiniteConsole StreamConsole where
  readToken := readToken
  writeValue := writeValue
  flush := flush
  remaining := remaining
  remaining_readToken c c' token h := by
    have hf := remaining_fill_le c
    unfold readToken at h
    split at h
    · cases h
    · rename_i c'' hc
      rw [hc] at hf
      split at h
      · cases h
      · rename_i hp
        cases h
        simp only [ne_eq, not_true_eq_false, or_false, remaining] at hf ⊢
        rw [hp, List.length_cons] at hf
        omega

end StreamConsole

end WordMachine
