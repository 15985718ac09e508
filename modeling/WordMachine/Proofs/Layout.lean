import WordMachine.Settings.Basic

/-!
# Valid layouts

A layout is checked test by test, and the first test that fails is the problem reported.  `Layout.tests`
lists the tests in their order, on exact numbers: the size of memory first, and then for the code segment
and for the data segment whether the rows are full, whether the end is a size at all, and whether it is
inside memory.  A check finds what the list says (`Layout.check_eq_report`).

The layouts that pass are the valid ones (`Layout.check_eq_ok_iff`).  The test for an end that is no size
does not show in `Layout.Valid`, for such an end is outside every memory.
-/

namespace WordMachine

/-! ### Tests in order -/

/-- Tests in order, each of them as whether it fails and what the problem is then. -/
abbrev Layout.Tests := List (Bool × Layout.Problem)

/-- The problem of the first test that fails. -/
def Layout.report (tests : Layout.Tests) : Except Layout.Problem Unit :=
  match tests.find? (·.1) with
  | some (_, problem) => .error problem
  | none => .ok ()

/-- The tests of a segment for a memory of `capacity` words. -/
def Segment.tests (s : Segment) (name : String) (capacity : Nat) : Layout.Tests :=
  [(s.length % 10 ≠ 0, .partialRow name s.length),
    (sizeBound ≤ s.start + s.length, .overflow name s.start s.length),
    (capacity < s.start + s.length, .outside name s.start (s.start + s.length) capacity)]

/-- The tests of a layout. -/
def Layout.tests (l : Layout) : Layout.Tests :=
  (l.capacity < 1 ∨ 4096 < l.capacity, .capacity l.capacity) ::
    (l.code.tests "code" l.capacity ++ l.data.tests "data" l.capacity)

namespace Layout

theorem report_cons_of_true (p : Problem) (ts : Tests) : report ((true, p) :: ts) = .error p :=
  rfl

theorem report_cons_of_false (p : Problem) (ts : Tests) : report ((false, p) :: ts) = report ts :=
  rfl

/-- Later tests count only if no earlier one fails. -/
theorem report_append (ts us : Tests) :
    report (ts ++ us) =
      match report ts with
      | .error p => .error p
      | .ok () => report us := by
  induction ts with
  | nil => rfl
  | cons t ts ih =>
    obtain ⟨fails, p⟩ := t
    cases fails with
    | true => rfl
    | false => exact ih

/-- There is nothing to report if no test fails. -/
theorem report_eq_ok_iff {ts : Tests} : report ts = .ok () ↔ ∀ t ∈ ts, t.1 = false := by
  induction ts with
  | nil => exact ⟨fun _ => List.forall_mem_nil _, fun _ => rfl⟩
  | cons t ts ih =>
    obtain ⟨fails, p⟩ := t
    rw [List.forall_mem_cons]
    cases fails with
    | true =>
      rw [report_cons_of_true]
      constructor
      · intro hok
        cases hok
      · rintro ⟨hfails, -⟩
        cases hfails
    | false =>
      rw [report_cons_of_false, ih]
      exact ⟨fun h => ⟨rfl, h⟩, fun h => h.2⟩

end Layout

/-- A segment is checked by its tests. -/
theorem Segment.check_eq_report (s : Segment) (name : String) (capacity : Nat) :
    s.check name capacity = Layout.report (s.tests name capacity) := by
  unfold check tests
  by_cases hrows : s.length % 10 ≠ 0
  · rw [decide_eq_true hrows, Layout.report_cons_of_true]
    exact if_pos hrows
  rw [decide_eq_false hrows, Layout.report_cons_of_false]
  refine (if_neg hrows).trans ?_
  by_cases hsize : s.start + s.length < sizeBound
  · rw [decide_eq_false (Nat.not_le.mpr hsize), Layout.report_cons_of_false, end?, if_pos hsize]
    by_cases hinside : s.start + s.length ≤ capacity
    · rw [decide_eq_false (Nat.not_lt.mpr hinside), Layout.report_cons_of_false]
      exact if_pos hinside
    · rw [decide_eq_true (Nat.lt_of_not_le hinside), Layout.report_cons_of_true]
      exact if_neg hinside
  · rw [decide_eq_true (Nat.le_of_not_lt hsize), Layout.report_cons_of_true, end?, if_neg hsize]

/-- A layout is checked by its tests. -/
theorem Layout.check_eq_report (l : Layout) : l.check = report l.tests := by
  unfold check tests
  have hsize : (l.capacity = 0 ∨ maxCapacity < l.capacity) ↔
      (l.capacity < 1 ∨ 4096 < l.capacity) := by
    rw [Nat.lt_one_iff]
    exact Iff.rfl
  by_cases hcapacity : l.capacity < 1 ∨ 4096 < l.capacity
  · rw [decide_eq_true hcapacity, report_cons_of_true]
    exact if_pos (hsize.mpr hcapacity)
  · rw [decide_eq_false hcapacity, report_cons_of_false, report_append, ← Segment.check_eq_report,
      ← Segment.check_eq_report]
    exact if_neg (mt hsize.mp hcapacity)

/-! ### Layouts that pass -/

/-- A segment of full rows inside a memory of `capacity` words. -/
structure Segment.Valid (s : Segment) (capacity : Nat) : Prop where
  rows : s.length % 10 = 0
  inside : s.start + s.length ≤ capacity

/-- A memory of a size that is accepted, with two valid segments. -/
structure Layout.Valid (l : Layout) : Prop where
  capacity : 1 ≤ l.capacity ∧ l.capacity ≤ 4096
  code : l.code.Valid l.capacity
  data : l.data.Valid l.capacity

/-- A segment passes if it is valid. -/
theorem Segment.check_eq_ok_iff (s : Segment) (name : String) {capacity : Nat}
    (hcapacity : capacity < sizeBound) : s.check name capacity = .ok () ↔ s.Valid capacity := by
  have hpass : s.check name capacity = .ok () ↔ s.length % 10 = 0 ∧
      s.start + s.length < sizeBound ∧ s.start + s.length ≤ capacity := by
    rw [check_eq_report, Layout.report_eq_ok_iff, tests]
    simp only [List.forall_mem_cons, List.not_mem_nil, false_imp_iff, implies_true, and_true,
      decide_eq_false_iff_not, Decidable.not_not, ne_eq, Nat.not_le, Nat.not_lt]
  rw [hpass]
  constructor
  · rintro ⟨hrows, -, hinside⟩
    exact ⟨hrows, hinside⟩
  · rintro ⟨hrows, hinside⟩
    exact ⟨hrows, Nat.lt_of_le_of_lt hinside hcapacity, hinside⟩

/-- A layout passes if it is valid. -/
theorem Layout.check_eq_ok_iff {l : Layout} : l.check = .ok () ↔ l.Valid := by
  rw [check]
  by_cases hcapacity : l.capacity = 0 ∨ maxCapacity < l.capacity
  · rw [if_pos hcapacity]
    constructor
    · intro hok
      cases hok
    · rintro ⟨⟨hpos, hle⟩, -, -⟩
      unfold maxCapacity at hcapacity
      omega
  · rw [if_neg hcapacity]
    have haccepted : 1 ≤ l.capacity ∧ l.capacity ≤ 4096 := by
      unfold maxCapacity at hcapacity
      omega
    have hsize : l.capacity < sizeBound := Nat.lt_of_le_of_lt haccepted.2 (by decide)
    have hcode := l.code.check_eq_ok_iff "code" hsize
    have hdata := l.data.check_eq_ok_iff "data" hsize
    constructor
    · intro hok
      cases hc : l.code.check "code" l.capacity with
      | error p =>
        rw [hc] at hok
        cases hok
      | ok u =>
        rw [hc] at hok
        exact ⟨haccepted, hcode.mp hc, hdata.mp hok⟩
    · rintro ⟨-, hc, hd⟩
      rw [hcode.mpr hc]
      exact hdata.mpr hd

end WordMachine
