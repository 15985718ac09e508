import WordMachine.Proofs.Bounds
import WordMachine.Proofs.DumpText

/-!
# Settings that are accepted can be dumped

Settings are accepted on account of their layout, and a dump finds out for itself whether the words that
it shows are there.  The two tests are written apart: the one adds in numbers that may overflow and refuses
such a sum, the other adds in numbers that stop at the greatest index, and then looks whether memory
reaches as far.  On exact numbers they are the same, for no memory is large enough to make the difference.

So a dump of settings that were accepted cannot fail, whatever has been done with the machine, since
nothing changes the size of its memory; and all numbers that come up on the way are sizes.
`Settings.validate_exact_and_sufficient` puts this together.
-/

namespace WordMachine

open Printer

/-- Memory of an accepted size can be held. -/
theorem Layout.Valid.storable {l : Layout} (h : l.Valid) {m : Memory}
    (hcapacity : m.capacity = l.capacity) : m.Storable := by
  have hle : l.capacity ≤ 4096 := h.capacity.2
  unfold Memory.Storable sizeBound
  omega

/-- The end of a segment inside memory is a size, and so are its labels. -/
theorem Segment.Inside.sizes {g : Segment} {m : Memory} (hm : m.Storable)
    (h : g.Inside m.capacity) :
    g.end? = some (g.start + g.length) ∧
      Memory.segmentEnd g.start g.length = g.start + g.length ∧
        ∀ row ∈ Dump.rows m g, row.label < sizeBound := by
  have hcapacity : m.capacity < sizeBound := by
    unfold Memory.Storable at hm
    omega
  have hend : g.start + g.length < sizeBound := Nat.lt_of_le_of_lt h hcapacity
  refine ⟨if_pos hend, Nat.min_eq_left (Nat.le_sub_one_of_lt hend), fun row hrow => ?_⟩
  have hlabel : row.label < g.start + g.length := Dump.label_lt_of_mem_rows hrow
  exact Nat.lt_trans hlabel hend

namespace Settings

/-- What is accepted and what is not is decided by the tests of the layout. -/
theorem validate_eq_report (s : Settings) :
    s.validate =
      match Layout.report s.layout.tests with
      | .ok () => .ok s
      | .error p => .error (.invalidSettings p.message) := by
  cases hreport : Layout.report s.layout.tests with
  | error p =>
    have hcheck : s.layout.check = .error p := (Layout.check_eq_report _).trans hreport
    simp only [validate, hcheck]
  | ok =>
    have hcheck : s.layout.check = .ok () := (Layout.check_eq_report _).trans hreport
    simp only [validate, hcheck]

/-- Settings are accepted as they are if their layout is valid. -/
theorem validate_eq_ok_iff (s : Settings) : s.validate = .ok s ↔ s.layout.Valid := by
  rw [← Layout.check_eq_ok_iff, validate]
  constructor
  · intro hok
    cases hcheck : s.layout.check with
    | error p =>
      rw [hcheck] at hok
      cases hok
    | ok u => rfl
  · intro hcheck
    rw [hcheck]

/-- The first test of the layout that fails is what settings are refused for, and they are accepted
exactly if the memory has between `1` and `4096` words and both segments consist of full rows of ten words
inside it.

A machine with any memory that can be held, and any layout, has a dump exactly if both segments are inside
memory.  Otherwise the failure is about the first one that is not; it names the first index at which that
lacks a word.

So a machine that was switched on with settings that are accepted can be dumped, whatever has been done
with it since, to every sink that accepts everything.  No end of a segment and no label then exceeds the
bound of all sizes, neither where sums are refused if they do nor where they are cut off. -/
theorem validate_exact_and_sufficient :
    (∀ s : Settings,
      s.validate =
        (match Layout.report s.layout.tests with
        | .ok () => .ok s
        | .error p => .error (.invalidSettings p.message)) ∧
      (s.validate = .ok s ↔ s.layout.Valid)) ∧
    (∀ (m : Machine) (l : Layout), m.memory.Storable →
      ((∃ text, Dump.render m l = .ok text) ↔
        l.code.Inside m.memory.capacity ∧ l.data.Inside m.memory.capacity) ∧
      (¬ l.code.Inside m.memory.capacity →
        Dump.render m l =
          .error (.memoryOutOfBounds (max l.code.start m.memory.capacity) m.memory.capacity)) ∧
      (l.code.Inside m.memory.capacity → ¬ l.data.Inside m.memory.capacity →
        Dump.render m l =
          .error (.memoryOutOfBounds (max l.data.start m.memory.capacity) m.memory.capacity))) ∧
    ∀ (s : Settings) (history : History) (m : Machine), s.validate = .ok s → Reached s history m →
      (∀ k : Sink, k.IsOpen → ∃ k', (Dump.machine m s.layout).printTo k = (.ok (), k') ∧
        k'.text = k.text ++ linesText (Dump.lines m s.layout)) ∧
      ∀ g ∈ [s.layout.code, s.layout.data],
        g.end? = some (g.start + g.length) ∧
          Memory.segmentEnd g.start g.length = g.start + g.length ∧
            ∀ row ∈ Dump.rows m.memory g, row.label < sizeBound := by
  refine ⟨fun s => ⟨s.validate_eq_report, s.validate_eq_ok_iff⟩, ?_, ?_⟩
  · intro m l hm
    refine ⟨⟨?_, ?_⟩, Dump.render_of_code_outside hm, Dump.render_of_data_outside hm⟩
    · rintro ⟨text, htext⟩
      exact Dump.inside_of_render hm htext
    · rintro ⟨hcode, hdata⟩
      exact ⟨_, Dump.render_of_inside hm hcode hdata⟩
  · intro s history m haccepted hreached
    have hvalid : s.layout.Valid := s.validate_eq_ok_iff.mp haccepted
    have hcapacity : m.memory.capacity = s.layout.capacity := hreached.bounded.capacity
    have hm : m.memory.Storable := hvalid.storable hcapacity
    have hcode : s.layout.code.Inside m.memory.capacity := by
      rw [hcapacity]
      exact hvalid.code.inside
    have hdata : s.layout.data.Inside m.memory.capacity := by
      rw [hcapacity]
      exact hvalid.data.inside
    constructor
    · intro k hk
      obtain ⟨k', hprint, -, htext⟩ := Dump.prints_machine hm hcode hdata k hk
      exact ⟨k', hprint, htext⟩
    · intro g hg
      have hsegment : g = s.layout.code ∨ g = s.layout.data := by
        simpa only [List.mem_cons, List.not_mem_nil, or_false] using hg
      rcases hsegment with rfl | rfl
      · exact hcode.sizes hm
      · exact hdata.sizes hm

/-- A memory of twenty words, all of which are code, and an empty segment of data right behind its last
word.  The machine that has just been switched on with it is dumped.  With another layout, whose code
begins at the word `5` and is as long as a number can say, there is no dump: the first word that is
missing is the one behind the last. -/
theorem validate_exact_and_sufficient_of_twenty_words :
    let s : Settings := { layout := { capacity := 20, code := ⟨0, 20⟩, data := ⟨20, 0⟩ } }
    let l : Layout := { s.layout with code := ⟨5, sizeBound - 1⟩ }
    (s.validate = .ok s ∧ Reached s {} (.powerOn s) ∧
      ∃ k', (Dump.machine (.powerOn s) s.layout).printTo {} = (.ok (), k')) ∧
    (Machine.powerOn s).memory.Storable ∧
      Dump.render (.powerOn s) l = .error (.memoryOutOfBounds 20 20) := by
  intro s l
  have haccepted : s.validate = .ok s :=
    s.validate_eq_ok_iff.mpr ⟨⟨by decide, by decide⟩, ⟨by decide, by decide⟩, ⟨by decide, by decide⟩⟩
  have hm : (Machine.powerOn s).memory.Storable := by
    have hcapacity : (Machine.powerOn s).memory.capacity = 20 := Memory.capacity_blank 20
    unfold Memory.Storable
    rw [hcapacity]
    decide
  have hcode : ¬ l.code.Inside (Machine.powerOn s).memory.capacity := by
    have hcapacity : (Machine.powerOn s).memory.capacity = 20 := Memory.capacity_blank 20
    unfold Segment.Inside
    rw [hcapacity]
    decide
  obtain ⟨-, hrender, hdump⟩ := validate_exact_and_sufficient
  obtain ⟨k', hprint, -⟩ := (hdump s {} (.powerOn s) haccepted .powerOn).1 {} ⟨rfl, rfl⟩
  exact ⟨⟨haccepted, .powerOn, k', hprint⟩, hm, (hrender (.powerOn s) l hm).2.1 hcode⟩

end Settings

end WordMachine
