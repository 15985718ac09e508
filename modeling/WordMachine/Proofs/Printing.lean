import WordMachine.Output.Report
import WordMachine.Proofs.Spelling

/-!
# Printing to an open output

A printer may fail because its sink does, or because it demands something that cannot be had.  To a sink
that accepts everything only the second can happen.  `Printer.Prints p x s` says that on every such sink
the printer `p` succeeds with `x` and adds the text `s`; texts are joined as printers are
(`Printer.Prints.bind`).

A report demands nothing, so it is always printed (`Report.prints_print`).
-/

namespace WordMachine

/-! ### Printers -/

namespace Printer

variable {α β : Type}

/-- One printer after another: the second one starts where the first has succeeded. -/
theorem printTo_bind (p : Printer α) (f : α → Printer β) (k : Sink) :
    (p >>= f).printTo k =
      match p.printTo k with
      | (.ok x, k') => (f x).printTo k'
      | (.error e, k') => (.error e, k') := by
  have hbind : (p >>= f).printTo k = ExceptT.bindCont f (p.printTo k).1 (p.printTo k).2 := rfl
  rw [hbind]
  rcases p.printTo k with ⟨e | x, k'⟩ <;> rfl

/-- On every sink that accepts everything, the printer succeeds with `x` and adds the text `s`. -/
def Prints (p : Printer α) (x : α) (s : String) : Prop :=
  ∀ k : Sink, k.IsOpen → ∃ k', p.printTo k = (.ok x, k') ∧ k'.IsOpen ∧ k'.text = k.text ++ s

theorem prints_pure (x : α) : Prints (pure x) x "" := by
  intro k hk
  exact ⟨k, rfl, hk, (String.append_empty).symm⟩

theorem prints_put (s : String) : Prints (put s) () s := by
  intro k hk
  obtain ⟨hresult, hopen, htext⟩ := hk.write s
  exact ⟨(k.write s).2, Prod.ext hresult rfl, hopen, htext⟩

theorem prints_putLine (s : String) : Prints (putLine s) () (s ++ "\n") :=
  prints_put (s ++ "\n")

theorem prints_flush : Prints flush () "" := by
  intro k hk
  obtain ⟨hresult, hopen, htext⟩ := hk.flush
  refine ⟨k.flush.2, Prod.ext hresult rfl, hopen, ?_⟩
  rw [htext, String.append_empty]

/-- The texts of one printer after another follow each other. -/
theorem Prints.bind {p : Printer α} {f : α → Printer β} {x : α} {y : β} {s t : String}
    (hp : Prints p x s) (hf : Prints (f x) y t) : Prints (p >>= f) y (s ++ t) := by
  intro k hk
  obtain ⟨k', hprint, hopen, htext⟩ := hp k hk
  obtain ⟨k'', hprint', hopen', htext'⟩ := hf k' hopen
  refine ⟨k'', ?_, hopen', ?_⟩
  · rw [printTo_bind, hprint]
    exact hprint'
  · rw [htext', htext, String.append_assoc]

/-- Lines are always printed. -/
theorem prints_putLines (ss : List String) :
    Prints (putLines ss) () (String.join (ss.map (· ++ "\n"))) := by
  induction ss with
  | nil => exact prints_pure ()
  | cons s ss ih =>
    rw [List.map_cons, String.join_cons]
    exact (prints_putLine s).bind ih

end Printer

open Printer

/-! ### Reports -/

namespace Report

/-- A section that may be left out, and what follows it, is printed if both are. -/
theorem prints_ite {p : Printer Unit} {f : Unit → Printer Unit} (c : Bool)
    (hp : ∃ s, Prints p () s) (hf : ∃ t, Prints (f ()) () t) :
    ∃ s, Prints (if c then p >>= f else f ()) () s := by
  obtain ⟨s, hp⟩ := hp
  obtain ⟨t, hf⟩ := hf
  cases c with
  | false => exact ⟨t, hf⟩
  | true => exact ⟨s ++ t, hp.bind hf⟩

theorem prints_summary (elapsed : String) (t : Tally) : ∃ s, Prints (summary elapsed t) () s :=
  ⟨_, (prints_putLine _).bind ((prints_putLine _).bind ((prints_putLine _).bind (prints_putLine _)))⟩

theorem prints_instructionMix (t : Tally) : ∃ s, Prints (instructionMix t) () s :=
  ⟨_, (prints_putLine _).bind ((prints_putLines _).bind (prints_putLine _))⟩

theorem prints_control (t : Tally) : ∃ s, Prints (control t) () s :=
  ⟨_, (prints_putLine _).bind ((prints_putLine _).bind (prints_putLine _))⟩

/-- A report of any sections is always printed. -/
theorem prints_print (elapsed : String) (names : List String) (t : Tally) :
    ∃ s, Prints (print elapsed names t) () s := by
  have hbar : ∃ s, Prints (putLine bar) () s := ⟨_, prints_putLine bar⟩
  have hcontrol := prints_ite (f := fun _ => putLine bar) (wanted names .control)
    (prints_control t) hbar
  have hmix := prints_ite (f := fun _ => _) (wanted names .instructionMix)
    (prints_instructionMix t) hcontrol
  obtain ⟨s, hsections⟩ := prints_ite (f := fun _ => _) (wanted names .summary)
    (prints_summary elapsed t) hmix
  exact ⟨_, (prints_putLine _).bind ((prints_putLine _).bind ((prints_putLine _).bind hsections))⟩

end Report

end WordMachine
