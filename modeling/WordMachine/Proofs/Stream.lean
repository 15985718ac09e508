import WordMachine.Host.Stream
import WordMachine.Proofs.Tokens

/-!
# Reading a stream token by token

A stream console cuts its input into tokens one line at a time, and only when it needs to.  A script
delivers a byte string (`Script.Delivers`) if its reads bring nonempty chunks that make up these
bytes, with interruptions anywhere among them and no failure; where the chunks begin and end is left
open.  What counts is the bytes: the next line runs to their first line feed, whatever the chunks.

The invariant is `StreamConsole.Yields c tokens`: the tokens pending and those of the bytes still to
come are together `tokens`, and nothing is to come once the end has been seen.  Each call of
`readToken` hands out the first of these tokens, if there is one, and leaves the others.

The main statement, `StreamConsole.readToken_after_eq_split`, follows by induction on the number of
calls: they hand out the tokens of the whole input, in order, and none after the last of them.
-/

namespace WordMachine

/-! ### Scripts that deliver bytes -/

namespace Script

/-- `s.Delivers bytes`: the reads of the script succeed, none of them is empty, and the chunks that
they bring make up `bytes`. -/
inductive Delivers : Script → List UInt8 → Prop where
  | nil : Delivers [] []
  | interrupted {s bytes} (h : Delivers s bytes) : Delivers (.interrupted :: s) bytes
  | bytes {s chunk bytes} (hne : chunk ≠ []) (h : Delivers s bytes) :
      Delivers (.bytes chunk :: s) (chunk ++ bytes)

/-- Bytes that are put back are delivered again. -/
theorem Delivers.unread {s : Script} {bytes : List UInt8} (h : s.Delivers bytes)
    (back : List UInt8) : (unread back s).Delivers (back ++ bytes) := by
  cases back with
  | nil => exact h
  | cons b back => exact .bytes (List.cons_ne_nil b back) h

/-- All that is delivered is there when the whole stream is read. -/
theorem Delivers.readAll {s : Script} {bytes : List UInt8} (h : s.Delivers bytes)
    (before : List UInt8) : s.readAll before = .ok (before ++ bytes) := by
  induction h generalizing before with
  | nil => rw [Script.readAll, List.append_nil]
  | interrupted _ ih =>
    rw [Script.readAll]
    exact ih before
  | bytes hne _ ih =>
    rw [Script.readAll, if_neg (mt List.isEmpty_iff.mp hne), ih, List.append_assoc]

/-- In joined byte strings the first line feed is in the first one, if that has any. -/
theorem beforeFeed_append_of_fromFeed_eq_cons {chunk back : List UInt8} {feed : UInt8}
    (h : fromFeed chunk = feed :: back) (bytes : List UInt8) :
    beforeFeed (chunk ++ bytes) = beforeFeed chunk := by
  have hlength := length_beforeFeed_add chunk
  rw [h, List.length_cons] at hlength
  unfold beforeFeed at hlength ⊢
  rw [List.takeWhile_append, if_neg (by omega)]

theorem fromFeed_append_of_fromFeed_eq_cons {chunk back : List UInt8} {feed : UInt8}
    (h : fromFeed chunk = feed :: back) (bytes : List UInt8) :
    fromFeed (chunk ++ bytes) = feed :: (back ++ bytes) := by
  unfold fromFeed at h ⊢
  rw [List.dropWhile_append, h]
  rfl

/-- If the first one has no line feed, it goes in front of the line. -/
theorem beforeFeed_append_of_fromFeed_eq_nil {chunk : List UInt8} (h : fromFeed chunk = [])
    (bytes : List UInt8) : beforeFeed (chunk ++ bytes) = chunk ++ beforeFeed bytes := by
  have hlength := length_beforeFeed_add chunk
  rw [h, List.length_nil, Nat.add_zero] at hlength
  unfold beforeFeed at hlength ⊢
  rw [List.takeWhile_append, if_pos hlength]

theorem fromFeed_append_of_fromFeed_eq_nil {chunk : List UInt8} (h : fromFeed chunk = [])
    (bytes : List UInt8) : fromFeed (chunk ++ bytes) = fromFeed bytes := by
  unfold fromFeed at h ⊢
  rw [List.dropWhile_append, h]
  rfl

/-- The bytes to the first line feed, the line feed included. -/
def firstLine (bytes : List UInt8) : List UInt8 :=
  beforeFeed bytes ++ (fromFeed bytes).take 1

/-- The bytes after the first line feed. -/
def afterLine (bytes : List UInt8) : List UInt8 :=
  (fromFeed bytes).drop 1

theorem firstLine_append_afterLine (bytes : List UInt8) :
    firstLine bytes ++ afterLine bytes = bytes := by
  rw [firstLine, afterLine, List.append_assoc, List.take_append_drop, beforeFeed, fromFeed]
  exact List.takeWhile_append_dropWhile

/-- The next line of a script is the first line of the bytes that it delivers, however they are cut
into chunks, and the other lines are left. -/
theorem Delivers.readLine {s : Script} {bytes : List UInt8} (h : s.Delivers bytes)
    (line : List UInt8) :
    ∃ rest, s.readLine line = (.ok (line ++ firstLine bytes), rest) ∧
      rest.Delivers (afterLine bytes) := by
  induction h generalizing line with
  | nil => exact ⟨[], by simp [Script.readLine, firstLine, beforeFeed, fromFeed], .nil⟩
  | interrupted h ih => exact ih line
  | @bytes s chunk bytes hne h ih =>
    have hchunk : chunk.isEmpty = false := List.isEmpty_eq_false_iff.mpr hne
    cases hfeed : fromFeed chunk with
    | nil =>
      -- The line goes on in the next read.
      obtain ⟨rest, hread, hrest⟩ := ih (line ++ chunk)
      refine ⟨rest, ?_, ?_⟩
      · rw [Script.readLine, hchunk, hfeed, firstLine, beforeFeed_append_of_fromFeed_eq_nil hfeed,
          fromFeed_append_of_fromFeed_eq_nil hfeed, List.append_assoc, ← List.append_assoc line]
        exact hread
      · rw [afterLine, fromFeed_append_of_fromFeed_eq_nil hfeed]
        exact hrest
    | cons feed back =>
      refine ⟨Script.unread back s, ?_, ?_⟩
      · rw [Script.readLine, hchunk, hfeed, firstLine, beforeFeed_append_of_fromFeed_eq_cons hfeed,
          fromFeed_append_of_fromFeed_eq_cons hfeed, ← List.append_assoc]
        rfl
      · rw [afterLine, fromFeed_append_of_fromFeed_eq_cons hfeed]
        exact h.unread back

/-- The same for a line that is read from its start. -/
theorem Delivers.readLine_eq {s rest : Script} {bytes : List UInt8}
    {result : Except Failure (List UInt8)} (h : s.Delivers bytes)
    (hread : s.readLine [] = (result, rest)) :
    result = .ok (firstLine bytes) ∧ rest.Delivers (afterLine bytes) := by
  obtain ⟨rest', hread', hrest⟩ := h.readLine []
  rw [hread, List.nil_append] at hread'
  cases hread'
  exact ⟨rfl, hrest⟩

/-! ### Tokens of the first line -/

/-- Only a byte string without bytes has no first line. -/
theorem firstLine_eq_nil_iff {bytes : List UInt8} : firstLine bytes = [] ↔ bytes = [] := by
  constructor
  · intro h
    obtain ⟨hbefore, htake⟩ := List.append_eq_nil_iff.mp h
    have hfrom : fromFeed bytes = [] := by
      rcases List.take_eq_nil_iff.mp htake with hzero | hnil
      · cases hzero
      · exact hnil
    rw [← firstLine_append_afterLine bytes, h, afterLine, hfrom]
    rfl
  · rintro rfl
    rfl

/-- The bytes from the first line feed on begin with it. -/
theorem eq_lineFeed_of_fromFeed_eq_cons {bytes back : List UInt8} {feed : UInt8}
    (h : fromFeed bytes = feed :: back) : feed = lineFeed := by
  have hhead := List.head?_dropWhile_not (fun b => decide (b ≠ lineFeed)) bytes
  rw [fromFeed] at h
  rw [h] at hhead
  simpa using hhead

/-- The tokens of the first line come first, and then those of the other lines. -/
theorem split_firstLine_append (bytes : List UInt8) :
    Tokens.split (firstLine bytes) ++ Tokens.split (afterLine bytes) = Tokens.split bytes := by
  have hline := firstLine_append_afterLine bytes
  cases hfeed : fromFeed bytes with
  | nil =>
    have hafter : afterLine bytes = [] := by
      rw [afterLine, hfeed]
      rfl
    rw [hafter, List.append_nil] at hline
    rw [hafter, hline, Tokens.split_nil, List.append_nil]
  | cons feed back =>
    have hseparator : Tokens.isSeparator feed = true := by
      rw [eq_lineFeed_of_fromFeed_eq_cons hfeed]
      decide
    have hfirst : firstLine bytes = beforeFeed bytes ++ [feed] := by
      rw [firstLine, hfeed]
      rfl
    rw [hfirst, List.append_assoc, List.singleton_append] at hline
    rw [hfirst, Tokens.split_concat hseparator, ← Tokens.split_append_cons hseparator, hline]

end Script

/-! ### What a console has left -/

namespace StreamConsole

variable {c : StreamConsole} {tokens : List String}

/-- `c.Yields tokens`: the tokens pending, and then those of the bytes still to come, are `tokens`,
and no byte is to come once the end has been seen. -/
def Yields (c : StreamConsole) (tokens : List String) : Prop :=
  ∃ bytes, c.script.Delivers bytes ∧ (c.ended = true → bytes = []) ∧
    c.pending ++ Tokens.split bytes = tokens

/-- At first there are the tokens of the whole input. -/
theorem yields_of_delivers {script : Script} {bytes : List UInt8} (sink : Sink)
    (h : script.Delivers bytes) : Yields { script, sink } (Tokens.split bytes) := by
  refine ⟨bytes, h, ?_, rfl⟩
  intro hended
  cases hended

/-- Reading lines loses no token, and stops with a token pending unless there is none left. -/
theorem Yields.fill (h : c.Yields tokens) :
    ∃ c', c.fill = (.ok (), c') ∧ c'.Yields tokens ∧ (c'.pending = [] → tokens = []) := by
  fun_induction StreamConsole.fill c with
  | case1 c hwant e rest hread =>
    obtain ⟨bytes, hdelivers, -, -⟩ := h
    obtain ⟨hline, -⟩ := hdelivers.readLine_eq hread
    cases hline
  | case2 c hwant line rest hread hempty =>
    -- An empty line is the end of the input, as the script delivers no empty chunk.
    obtain ⟨bytes, hdelivers, -, htokens⟩ := h
    obtain ⟨hline, hrest⟩ := hdelivers.readLine_eq hread
    cases hline
    have hbytes : bytes = [] := Script.firstLine_eq_nil_iff.mp (List.isEmpty_iff.mp hempty)
    subst hbytes
    refine ⟨_, rfl, ⟨[], hrest, fun _ => rfl, htokens⟩, ?_⟩
    intro hpending
    rw [← htokens, Tokens.split_nil, List.append_nil]
    exact hpending
  | case3 c hwant line rest hread hempty ih =>
    obtain ⟨bytes, hdelivers, -, htokens⟩ := h
    obtain ⟨hline, hrest⟩ := hdelivers.readLine_eq hread
    cases hline
    obtain ⟨hpending, hended⟩ := Bool.and_eq_true_iff.mp hwant
    refine ih ⟨Script.afterLine bytes, hrest, ?_, ?_⟩
    · intro hend
      rw [hend] at hended
      cases hended
    · rw [List.isEmpty_iff.mp hpending, List.nil_append] at htokens
      rw [← htokens]
      exact Script.split_firstLine_append bytes
  | case4 c hwant =>
    refine ⟨c, rfl, h, ?_⟩
    intro hpending
    obtain ⟨bytes, -, hended, htokens⟩ := h
    have hend : c.ended = true := by
      simpa [hpending] using hwant
    rw [← htokens, hpending, hended hend]
    exact Tokens.split_nil

/-! ### Calls -/

/-- Every call hands out the first token that is left, if there is one, and leaves the others. -/
theorem Yields.readToken (h : c.Yields tokens) :
    c.readToken.1 = .ok tokens.head? ∧ c.readToken.2.Yields tokens.tail := by
  obtain ⟨c', hfill, hyields, hlast⟩ := h.fill
  cases hpending : c'.pending with
  | nil =>
    have hcall : c.readToken = (.ok none, c') := by
      simp only [StreamConsole.readToken, hfill, hpending]
    have htokens : tokens = [] := hlast hpending
    subst htokens
    rw [hcall]
    exact ⟨rfl, hyields⟩
  | cons token pending =>
    have hcall : c.readToken = (.ok (some token), { c' with pending }) := by
      simp only [StreamConsole.readToken, hfill, hpending]
    obtain ⟨bytes, hdelivers, hended, rfl⟩ := hyields
    rw [hcall, hpending]
    exact ⟨rfl, bytes, hdelivers, hended, rfl⟩

/-- The console after `n` calls for a token, whatever they come to. -/
def after (c : StreamConsole) : Nat → StreamConsole
  | 0 => c
  | n + 1 => (c.after n).readToken.2

/-- After some calls, the tokens that they did not hand out are left. -/
theorem Yields.after (h : c.Yields tokens) (n : Nat) : (c.after n).Yields (tokens.drop n) := by
  induction n with
  | zero => exact h
  | succ n ih =>
    rw [List.drop_add_one_eq_tail_drop]
    exact ih.readToken.2

/-- Each call hands out the token of its number, and none if there are not so many. -/
theorem Yields.readToken_after (h : c.Yields tokens) (n : Nat) :
    (c.after n).readToken.1 = .ok tokens[n]? := by
  rw [(h.after n).readToken.1, List.head?_drop]

/-- Calls for tokens hand out those of the whole input, in order, and then none.  The chunks in which
the input is delivered make no difference, and neither does a line feed at its end. -/
theorem readToken_after_eq_split {script : Script} {bytes : List UInt8} (sink : Sink)
    (h : script.Delivers bytes) :
    (∀ n, (StreamConsole.after { script, sink } n).readToken.1 = .ok (Tokens.split bytes)[n]?) ∧
    ∀ script', script'.Delivers bytes ∨ script'.Delivers (bytes ++ [Script.lineFeed]) →
      ∀ n, (StreamConsole.after { script := script', sink } n).readToken.1 =
        (StreamConsole.after { script, sink } n).readToken.1 := by
  have hfirst : ∀ n, (StreamConsole.after { script, sink } n).readToken.1 =
      .ok (Tokens.split bytes)[n]? := (yields_of_delivers sink h).readToken_after
  refine ⟨hfirst, ?_⟩
  rintro script' (h' | h') n
  · rw [hfirst, (yields_of_delivers sink h').readToken_after]
  · rw [hfirst, (yields_of_delivers sink h').readToken_after, Tokens.split_concat (by decide)]

/-- A run of eighteen ones, cut by a read and two interruptions, is two tokens, and the line feed of
a line end may come in another read than the carriage return. -/
theorem readToken_after_cut_run :
    (∀ n, (StreamConsole.after { script := [.bytes [0x30], .interrupted, .bytes [0x31, 0x0D],
        .bytes (0x0A :: List.replicate 10 0x31), .interrupted, .interrupted,
        .bytes (List.replicate 8 0x31)], sink := {} } n).readToken.1 =
      .ok ["01", "1111111111111111", "11"][n]?) ∧
    ∀ n, (StreamConsole.after { script := [.bytes [0x30, 0x31], .bytes [0x0D, 0x0A],
        .bytes (List.replicate 18 0x31), .bytes [0x0A]], sink := {} } n).readToken.1 =
      .ok ["01", "1111111111111111", "11"][n]? := by
  have hcut : Script.Delivers [.bytes [0x30], .interrupted, .bytes [0x31, 0x0D],
      .bytes (0x0A :: List.replicate 10 0x31), .interrupted, .interrupted,
      .bytes (List.replicate 8 0x31)] ([0x30, 0x31, 0x0D, 0x0A] ++ List.replicate 18 0x31) :=
    .bytes (by decide) (.interrupted (.bytes (by decide) (.bytes (by decide)
      (.interrupted (.interrupted (.bytes (by decide) .nil))))))
  have hwhole : Script.Delivers [.bytes [0x30, 0x31], .bytes [0x0D, 0x0A],
      .bytes (List.replicate 18 0x31), .bytes [0x0A]]
      ([0x30, 0x31, 0x0D, 0x0A] ++ List.replicate 18 0x31 ++ [Script.lineFeed]) :=
    .bytes (by decide) (.bytes (by decide) (.bytes (by decide) (.bytes (by decide) .nil)))
  have hsplit : Tokens.split ([0x30, 0x31, 0x0D, 0x0A] ++ List.replicate 18 0x31) =
      ["01", "1111111111111111", "11"] := by
    decide +kernel
  obtain ⟨htokens, hsame⟩ := readToken_after_eq_split {} hcut
  rw [hsplit] at htokens
  refine ⟨htokens, ?_⟩
  intro n
  rw [hsame _ (.inr hwhole) n]
  exact htokens n

end StreamConsole

end WordMachine
