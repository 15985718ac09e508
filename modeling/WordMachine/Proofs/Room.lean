import WordMachine.Proofs.Ascii
import WordMachine.Proofs.Printing

/-!
# Sinks with little room

A sink may have room for so many characters only.  Of what is written to it, it keeps what a sink with
room for everything would keep, cut off at that number: `Sink.keep n k` is the sink `k`, which has room
for everything, as it would be if it had had room for `n` characters.  A write is cut off if its text ends
beyond, and only then it fails (`Sink.write_keep_of_le`, `Sink.write_keep_of_lt`).

How a text is divided into writes does not matter: it fails in one piece if it fails in pieces, and the
same is kept of it (`Sink.write_append`).  So lines that are written one by one are one text
(`Printer.putLines_eq_put`).

Room is a number of bytes, and a sink counts characters.  That comes to the same for texts of ASCII
characters (`Tokens.bytesOf_take`, `Tokens.length_bytesOf`), and all that is written here is such a text.
-/

namespace WordMachine

/-- The line of a value is ASCII. -/
theorem Console.isAscii_valueLine (w : Word) : IsAscii (valueLine w).toList := by
  unfold valueLine
  rw [String.toList_append]
  exact (IsAscii.decimal w.toNat).append (by decide)

/-- A text is kept whole if it is not longer than it may be. -/
theorem take_toList_of_length_le {s : String} {n : Nat} (h : s.length ≤ n) :
    s.toList.take n = s.toList := by
  apply List.take_of_length_le
  rw [String.length_toList]
  exact h

/-! ### Sinks -/

namespace Sink

/-- The sink as it would be if it had had room for `n` characters from when it was empty. -/
def keep (n : Nat) (k : Sink) : Sink :=
  { k with text := String.ofList (k.text.toList.take n), room := some (n - k.text.length) }

variable {k : Sink} {n : Nat}

/-- What fits is kept as it is. -/
theorem keep_of_le (h : k.text.length ≤ n) :
    k.keep n = { k with room := some (n - k.text.length) } := by
  unfold keep
  rw [take_toList_of_length_le h, String.ofList_toList]

/-- With room for everything, everything is written. -/
theorem write_of_room (hroom : k.room = none) (s : String) :
    k.write s = (.ok (), { k with text := k.text ++ s }) := by
  simp only [write, hroom]

/-- A write that ends within the room is as good as one to a sink with room for everything. -/
theorem write_keep_of_le (hroom : k.room = none) {s : String} (h : k.text.length + s.length ≤ n) :
    (k.keep n).write s = (.ok (), (k.write s).2.keep n) := by
  have hbefore : k.text.length ≤ n := Nat.le_trans (Nat.le_add_right _ _) h
  have hafter : (k.text ++ s).length ≤ n := by
    rw [String.length_append]
    exact h
  have hkept : Sink.keep n { k with text := k.text ++ s } =
      { k with text := k.text ++ s, room := some (n - (k.text ++ s).length) } :=
    keep_of_le (k := { k with text := k.text ++ s }) hafter
  have hfits : s.length ≤ n - k.text.length := Nat.le_sub_of_add_le' h
  rw [write_of_room hroom, keep_of_le hbefore, hkept, write]
  simp only [if_pos hfits, String.length_append, Nat.sub_sub]

/-- A write that ends beyond the room fails, and the part of it that fits is kept. -/
theorem write_keep_of_lt (hroom : k.room = none) {s : String} (hbefore : k.text.length ≤ n)
    (h : n < k.text.length + s.length) :
    (k.keep n).write s = (.error (.io "sink full"), (k.write s).2.keep n) := by
  have hexceeds : ¬ s.length ≤ n - k.text.length := by omega
  have htext : k.text ++ String.ofList (s.toList.take (n - k.text.length)) =
      String.ofList ((k.text ++ s).toList.take n) := by
    rw [String.toList_append, List.take_append, take_toList_of_length_le hbefore,
      String.ofList_append, String.ofList_toList, String.length_toList]
  have hspent : n - (k.text ++ s).length = 0 := by
    rw [String.length_append]
    exact Nat.sub_eq_zero_of_le (Nat.le_of_lt h)
  rw [write_of_room hroom, keep_of_le hbefore, write]
  simp only [if_neg hexceeds, keep, htext, hspent]

/-- Flushing does not ask for room. -/
theorem flush_keep (k : Sink) (n : Nat) : (k.keep n).flush = (k.flush.1, k.flush.2.keep n) :=
  rfl

/-- Nothing can always be written. -/
theorem write_empty (k : Sink) : k.write "" = (.ok (), k) := by
  obtain ⟨text, room, refusesFlush, flushes⟩ := k
  cases room with
  | none => simp only [write, String.append_empty]
  | some n => simp only [write, String.append_empty, String.length_empty, Nat.zero_le, if_true,
      Nat.sub_zero]

/-- A text may as well be written in two pieces. -/
theorem write_append (k : Sink) (s t : String) :
    k.write (s ++ t) =
      match k.write s with
      | (.ok (), k') => k'.write t
      | (.error e, k') => (.error e, k') := by
  obtain ⟨text, room, refusesFlush, flushes⟩ := k
  cases room with
  | none => simp only [write, String.append_assoc]
  | some n =>
    by_cases hfirst : s.length ≤ n
    · by_cases hboth : s.length + t.length ≤ n
      · have hsecond : t.length ≤ n - s.length := Nat.le_sub_of_add_le' hboth
        simp only [write, String.length_append, if_pos hfirst, if_pos hboth, if_pos hsecond,
          String.append_assoc, Nat.sub_sub]
      · have hsecond : ¬ t.length ≤ n - s.length := by omega
        have htake : (s ++ t).toList.take n = s.toList ++ t.toList.take (n - s.length) := by
          rw [String.toList_append, List.take_append, take_toList_of_length_le hfirst,
            String.length_toList]
        simp only [write, String.length_append, if_pos hfirst, if_neg hboth, if_neg hsecond, htake,
          String.ofList_append, String.ofList_toList, String.append_assoc]
    · have hboth : ¬ s.length + t.length ≤ n := by omega
      have htake : (s ++ t).toList.take n = s.toList.take n := by
        rw [String.toList_append, List.take_append_of_le_length]
        rw [String.length_toList]
        exact Nat.le_of_not_le hfirst
      simp only [write, String.length_append, if_neg hfirst, if_neg hboth, htake]

end Sink

/-! ### Printers -/

namespace Printer

/-- Printers are the same if they print the same to every sink. -/
theorem ext_printTo {α : Type} {p q : Printer α} (h : ∀ k, p.printTo k = q.printTo k) : p = q :=
  funext h

theorem printTo_put (s : String) (k : Sink) : (put s).printTo k = k.write s :=
  rfl

/-- A text may as well be put in two pieces. -/
theorem put_append (s t : String) : put (s ++ t) = (put s >>= fun _ => put t) := by
  apply ext_printTo
  intro k
  have hpieces := printTo_bind (put s) (fun _ => put t) k
  refine (Sink.write_append k s t).trans (Eq.trans ?_ hpieces.symm)
  rw [printTo_put]
  rcases k.write s with ⟨_ | _, k'⟩ <;> rfl

/-- Lines that are put one by one are one text. -/
theorem putLines_eq_put (ss : List String) :
    putLines ss = put (String.join (ss.map (· ++ "\n"))) := by
  induction ss with
  | nil =>
    apply ext_printTo
    intro k
    exact k.write_empty.symm
  | cons s ss ih =>
    rw [List.map_cons, String.join_cons, put_append, ← ih]
    rfl

end Printer

end WordMachine
