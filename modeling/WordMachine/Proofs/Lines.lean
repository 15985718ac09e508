import WordMachine.Proofs.Stream

/-!
# Streams that fail and pause

Reads may fail, be interrupted, or deliver nothing, at any byte of a stream.  What reaches a reader
is told here byte by byte, as the `Script.signals` of a script: bytes, pauses and failures.  Chunks
leave no trace in them, and neither do interruptions.

`Script.cut` cuts signals into lines.  A line ends with a line feed, with a pause after at least one
byte, or with a failure.  A pause that finds no byte of a line is the end of the input: no line
begins after it, and the signals behind it are left over.  Each line has its results
(`Script.Line.results`): a whole line gives its tokens, and a line lost to a failure gives that
failure and nothing else.

The invariant is an account of what a console still owes, `StreamConsole.owed`: the tokens pending,
and then the results of the lines to come.  Each call of `readToken` pays the first of these results
and leaves the others.  The main statement, `StreamConsole.readToken_after_eq_results`, follows by
induction on the number of calls.
-/

namespace WordMachine

/-! ### Signals and lines -/

namespace Script

/-- What a reader gets to know at one moment. -/
inductive Signal where
  /-- A byte arrived. -/
  | byte (b : UInt8)
  /-- A read delivered nothing. -/
  | pause
  /-- A read failed with a text. -/
  | failure (text : String)
deriving DecidableEq, Repr

/-- The signals of a script, in order.  An interrupted read gives none, as it is repeated. -/
def signals : Script → List Signal
  | [] => []
  | .interrupted :: rest => signals rest
  | .failure text :: rest => .failure text :: signals rest
  | .bytes bs :: rest => (if bs.isEmpty then [.pause] else bs.map .byte) ++ signals rest

/-- A line, known by its bytes and by how it ended. -/
inductive Line where
  /-- It ended with a line feed, which is its last byte, or with a pause or the last signal. -/
  | whole (bs : List UInt8)
  /-- It ended with a failure. -/
  | lost (bs : List UInt8) (text : String)
deriving DecidableEq, Repr

/-- Cuts signals into lines, where `line` holds the bytes of the first one that came before.  Beside
the lines stand the signals that are left over when the input has ended. -/
def cut (line : List UInt8) : List Signal → List Line × List Signal
  | [] => (if line.isEmpty then [] else [.whole line], [])
  | .byte b :: rest =>
    if b = lineFeed then
      (cut [] rest).map (.whole (line ++ [b]) :: ·) id
    else
      cut (line ++ [b]) rest
  | .pause :: rest =>
    if line.isEmpty then ([], rest) else (cut [] rest).map (.whole line :: ·) id
  | .failure text :: rest => (cut [] rest).map (.lost line text :: ·) id

example : cut [] (signals [.bytes [0x30, 0x0A, 0x31], .interrupted, .failure "broken", .bytes [0x31],
    .bytes [], .bytes [], .bytes [0x30]]) =
    ([.whole [0x30, 0x0A], .lost [0x31] "broken", .whole [0x31]], [.byte 0x30]) := by
  decide

/-- What calls for tokens come to for a line: one result for each of its tokens, and for a lost line
the failure in place of its tokens. -/
def Line.results : Line → List (Except Failure (Option String))
  | whole bs => (Tokens.split bs).map fun token => .ok (some token)
  | lost _ text => [.error (.io text)]

/-! ### The next line -/

variable {line bs back : List UInt8} {feed : UInt8} {s rest : Script}

/-- Bytes that are put back signal themselves again. -/
theorem signals_unread (bs : List UInt8) (s : Script) :
    (unread bs s).signals = bs.map .byte ++ s.signals := by
  cases bs <;> rfl

/-- Bytes without a line feed belong to the line that has begun. -/
theorem cut_bytes_of_fromFeed_eq_nil (h : fromFeed bs = []) (rest : List Signal) :
    cut line (bs.map .byte ++ rest) = cut (line ++ bs) rest := by
  induction bs generalizing line with
  | nil => rw [List.append_nil, List.map_nil, List.nil_append]
  | cons b bs ih =>
    by_cases hb : b = lineFeed
    · rw [fromFeed, List.dropWhile_cons_of_neg (by simp [hb])] at h
      cases h
    · rw [fromFeed, List.dropWhile_cons_of_pos (by simp [hb])] at h
      rw [List.map_cons, List.cons_append, cut, if_neg hb, ih h, List.append_assoc,
        List.singleton_append]

/-- Bytes with a line feed end the line that has begun. -/
theorem cut_bytes_of_fromFeed_eq_cons (h : fromFeed bs = feed :: back) (rest : List Signal) :
    cut line (bs.map .byte ++ rest) =
      (cut [] (back.map .byte ++ rest)).map (.whole (line ++ beforeFeed bs ++ [feed]) :: ·) id := by
  induction bs generalizing line with
  | nil => cases h
  | cons b bs ih =>
    by_cases hb : b = lineFeed
    · rw [fromFeed, List.dropWhile_cons_of_neg (by simp [hb])] at h
      cases h
      rw [List.map_cons, List.cons_append, cut, if_pos hb, beforeFeed,
        List.takeWhile_cons_of_neg (by simp [hb]), List.append_nil]
    · rw [fromFeed, List.dropWhile_cons_of_pos (by simp [hb])] at h
      rw [List.map_cons, List.cons_append, cut, if_neg hb, ih h, beforeFeed, beforeFeed,
        List.takeWhile_cons_of_pos (by simp [hb]), List.append_assoc line [b],
        List.singleton_append]

/-- A line that could be read is the next line, or the end of the input if it has no bytes. -/
theorem cut_of_readLine_eq_ok {line' : List UInt8} (h : readLine line s = (.ok line', rest)) :
    cut line s.signals =
      if line'.isEmpty then ([], rest.signals)
      else (cut [] rest.signals).map (.whole line' :: ·) id := by
  fun_induction readLine line s with
  | case1 =>
    cases h
    cases line' <;> rfl
  | case2 line rest ih => exact ih h
  | case3 => cases h
  | case4 line bs rest hempty =>
    cases h
    rw [signals, if_pos hempty]
    rfl
  | case5 line bs rest hempty hfeed ih =>
    rw [signals, if_neg hempty, cut_bytes_of_fromFeed_eq_nil hfeed]
    exact ih h
  | case6 line bs rest hempty feed back hfeed =>
    cases h
    rw [signals, if_neg hempty, cut_bytes_of_fromFeed_eq_cons hfeed, signals_unread,
      if_neg (by simp)]

/-- A line that could not be read is lost to the failure. -/
theorem cut_of_readLine_eq_error {e : Failure} (h : readLine line s = (.error e, rest)) :
    ∃ bs text, e = .io text ∧
      cut line s.signals = (cut [] rest.signals).map (.lost bs text :: ·) id := by
  fun_induction readLine line s with
  | case1 => cases h
  | case2 line rest ih => exact ih h
  | case3 line text rest =>
    cases h
    exact ⟨line, text, rfl, rfl⟩
  | case4 => cases h
  | case5 line bs rest hempty hfeed ih =>
    rw [signals, if_neg hempty, cut_bytes_of_fromFeed_eq_nil hfeed]
    exact ih h
  | case6 => cases h

end Script

/-! ### What a console owes -/

namespace StreamConsole

variable {c c' : StreamConsole}

/-- The results that calls for a token have yet to come to, before there is nothing left. -/
def owed (c : StreamConsole) : List (Except Failure (Option String)) :=
  c.pending.map (fun token => .ok (some token)) ++
    if c.ended then [] else (Script.cut [] c.script.signals).1.flatMap Script.Line.results

/-- The signals that no call will ever ask for. -/
def leftOver (c : StreamConsole) : List Script.Signal :=
  if c.ended then c.script.signals else (Script.cut [] c.script.signals).2

/-- Reading lines changes nothing in what is owed, and stops with a token pending unless the input
has ended. -/
theorem owed_of_fill_eq_ok (h : c.fill = (.ok (), c')) :
    c'.owed = c.owed ∧ c'.leftOver = c.leftOver ∧ (c'.pending = [] → c'.ended = true) := by
  fun_induction fill c with
  | case1 => cases h
  | case2 c hwant line rest hread hempty =>
    cases h
    obtain ⟨hpending, hended⟩ := Bool.and_eq_true_iff.mp hwant
    rw [Bool.not_eq_true'] at hended
    have hcut := Script.cut_of_readLine_eq_ok hread
    rw [if_pos hempty] at hcut
    refine ⟨?_, ?_, fun _ => rfl⟩
    · simp [owed, hended, hcut]
    · simp [leftOver, hended, hcut]
  | case3 c hwant line rest hread hempty ih =>
    obtain ⟨hpending, hended⟩ := Bool.and_eq_true_iff.mp hwant
    rw [Bool.not_eq_true'] at hended
    have hcut := Script.cut_of_readLine_eq_ok hread
    rw [if_neg hempty] at hcut
    obtain ⟨howed, hleft, hlast⟩ := ih h
    refine ⟨?_, ?_, hlast⟩
    · rw [howed]
      simp [owed, hended, hcut, List.isEmpty_iff.mp hpending, Script.Line.results]
    · rw [hleft]
      simp [leftOver, hended, hcut]
  | case4 c hwant =>
    cases h
    refine ⟨rfl, rfl, ?_⟩
    intro hpending
    simpa [hpending] using hwant

/-- Reading lines fails with the failure that is owed next. -/
theorem owed_of_fill_eq_error {e : Failure} (h : c.fill = (.error e, c')) :
    c.owed = .error e :: c'.owed ∧ c'.leftOver = c.leftOver := by
  fun_induction fill c with
  | case1 c hwant e' rest hread =>
    cases h
    obtain ⟨hpending, hended⟩ := Bool.and_eq_true_iff.mp hwant
    rw [Bool.not_eq_true'] at hended
    obtain ⟨bs, text, rfl, hcut⟩ := Script.cut_of_readLine_eq_error hread
    refine ⟨?_, ?_⟩
    · simp [owed, hended, hcut, List.isEmpty_iff.mp hpending, Script.Line.results]
    · simp [leftOver, hended, hcut]
  | case2 => cases h
  | case3 c hwant line rest hread hempty ih =>
    obtain ⟨hpending, hended⟩ := Bool.and_eq_true_iff.mp hwant
    rw [Bool.not_eq_true'] at hended
    have hcut := Script.cut_of_readLine_eq_ok hread
    rw [if_neg hempty] at hcut
    obtain ⟨howed, hleft⟩ := ih h
    refine ⟨?_, ?_⟩
    · rw [← howed]
      simp [owed, hended, hcut, List.isEmpty_iff.mp hpending, Script.Line.results]
    · rw [hleft]
      simp [leftOver, hended, hcut]
  | case4 => cases h

/-- Every call pays the first result that is owed, if there is one, and leaves the others. -/
theorem owed_readToken (c : StreamConsole) :
    c.readToken.1 = c.owed.headD (.ok none) ∧ c.readToken.2.owed = c.owed.tail ∧
      c.readToken.2.leftOver = c.leftOver := by
  rcases hfill : c.fill with ⟨e | _, c'⟩
  · obtain ⟨howed, hleft⟩ := owed_of_fill_eq_error hfill
    rw [readToken, hfill, howed]
    exact ⟨rfl, rfl, hleft⟩
  · obtain ⟨howed, hleft, hlast⟩ := owed_of_fill_eq_ok hfill
    cases hpending : c'.pending with
    | nil =>
      have hnone : c'.owed = [] := by
        simp [owed, hpending, hlast hpending]
      have hcall : c.readToken = (.ok none, c') := by
        simp only [readToken, hfill, hpending]
      rw [hcall, ← howed, hnone]
      exact ⟨rfl, rfl, hleft⟩
    | cons token pending =>
      have hcall : c.readToken = (.ok (some token), { c' with pending }) := by
        simp only [readToken, hfill, hpending]
      rw [hcall, ← howed, owed, hpending]
      exact ⟨rfl, rfl, hleft⟩

/-- Once nothing is owed any more, the next call sees the end of the input. -/
theorem ended_readToken_of_owed_eq_nil (h : c.owed = []) :
    c.readToken.2.ended = true ∧ c.readToken.2.pending = [] := by
  rcases hfill : c.fill with ⟨e | _, c'⟩
  · rw [(owed_of_fill_eq_error hfill).1] at h
    cases h
  · obtain ⟨howed, -, hlast⟩ := owed_of_fill_eq_ok hfill
    rw [h, owed] at howed
    have hpending : c'.pending = [] :=
      List.map_eq_nil_iff.mp (List.append_eq_nil_iff.mp howed).1
    have hcall : c.readToken = (.ok none, c') := by
      simp only [readToken, hfill, hpending]
    rw [hcall]
    exact ⟨hlast hpending, hpending⟩

/-- After the end of the input calls hand out nothing and read nothing. -/
theorem readToken_of_ended (hended : c.ended = true) (hpending : c.pending = []) :
    c.readToken = (.ok none, c) := by
  have hfill : c.fill = (.ok (), c) := by
    rw [fill, hended, hpending]
    rfl
  simp only [readToken, hfill, hpending]

/-- After some calls, the results that they did not come to are owed. -/
theorem owed_after (c : StreamConsole) (n : Nat) :
    (c.after n).owed = c.owed.drop n ∧ (c.after n).leftOver = c.leftOver := by
  induction n with
  | zero => exact ⟨rfl, rfl⟩
  | succ n ih =>
    obtain ⟨howed, hleft⟩ := ih
    obtain ⟨-, htail, hstep⟩ := (c.after n).owed_readToken
    refine ⟨?_, hstep.trans hleft⟩
    rw [List.drop_add_one_eq_tail_drop, ← howed]
    exact htail

/-- More calls than results have seen the end of the input. -/
theorem ended_after {n : Nat} (h : c.owed.length < n) :
    (c.after n).ended = true ∧ (c.after n).pending = [] := by
  obtain ⟨m, rfl⟩ := Nat.exists_eq_add_one_of_ne_zero (Nat.ne_zero_of_lt h)
  refine ended_readToken_of_owed_eq_nil ?_
  rw [(c.owed_after m).1]
  exact List.drop_eq_nil_of_le (Nat.le_of_lt_succ h)

/-- The calls for a token come to the results of the lines of the script, one line after the other:
the tokens of every whole line, and for every line that is lost the failure that ended it, once and
in its place.  All later calls find nothing.  The first of them sees the end of the input; from then
on the signals that the cut left over stay where they are, and whatever else the script might still
bring, a call changes nothing. -/
theorem readToken_after_eq_results (script : Script) (sink : Sink) :
    let c : StreamConsole := { script, sink }
    let results := (Script.cut [] script.signals).1.flatMap Script.Line.results
    (∀ n, (c.after n).readToken.1 = results[n]?.getD (.ok none)) ∧
    ∀ n, let d := c.after (results.length + 1 + n)
      d.script.signals = (Script.cut [] script.signals).2 ∧
      ∀ script', StreamConsole.readToken { d with script := script' } =
        (.ok none, { d with script := script' }) := by
  intro c results
  have howed : c.owed = results := rfl
  refine ⟨fun n => ?_, fun n => ?_⟩
  · obtain ⟨hfirst, -, -⟩ := (c.after n).owed_readToken
    rw [hfirst, (c.owed_after n).1, howed, List.headD_eq_head?_getD, List.head?_drop]
  · intro d
    have hmany : c.owed.length < results.length + 1 + n := by
      rw [howed]
      omega
    obtain ⟨hended, hpending⟩ := ended_after hmany
    refine ⟨?_, fun script' => readToken_of_ended hended hpending⟩
    have hleft := (c.owed_after (results.length + 1 + n)).2
    rw [leftOver, if_pos hended] at hleft
    exact hleft

end StreamConsole

end WordMachine
