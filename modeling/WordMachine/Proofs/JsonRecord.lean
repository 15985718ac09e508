import WordMachine.Json.Record

/-!
# Records of which some fields are given

A record may be written in many ways: as an object with its fields in any order and other members among
them, or as an array that stops after any field.  What is to be written is said field by field, and
`Json.Form` says that a value writes it: of each field that is given it holds one value, which is as it
should be, and of each other field none.

Reading goes through the members in the order in which they come, and every field that is found changes
the record.  The result does not depend on this order because the changes of two fields commute.  A
`Json.Entry` is a field together with what is said of it and with the change that this makes.  If the names
of entries differ and their changes commute (`Json.Entries.Apart`), a value that writes them is read as the
record to which all changes have been made (`Json.Entries.read?_of_form`).

There are two ways to say too much: to repeat a field, or to go on behind the last one.  A value that does
so is refused, and so is one that holds a refused value in a field (`Json.read?_of_overfull`,
`Json.read?_of_refused`).
-/

namespace WordMachine

namespace Json

open Record (readItems readMembers read? isNamed)

/-! ### Written records -/

/-- The values of the members with a name, in order. -/
def valuesOf (name : String) (members : List (Units × Json)) : List Json :=
  (members.filter (isNamed name)).map Prod.snd

/-- What is said of a field: nothing, if it is not given, or how its value is written. -/
abbrev Saying := Option (Json → Prop)

/-- The values that are found for a field are as is said. -/
def Saying.Holds : Saying → List Json → Prop
  | none, found => found = []
  | some written, found => ∃ v, found = [v] ∧ written v

/-- A value writes a record of which something is said field by field.  An object does not depend on the
order of its members, and those with other names may hold anything; but a key has to be a text.  An array
has the fields in order. -/
def Form (said : List (String × Saying)) : Json → Prop
  | object members =>
    (∀ m ∈ members, ∃ key, m.1.toString? = some key) ∧
      ∀ e ∈ said, e.2.Holds (valuesOf e.1 members)
  | array items =>
    items.length ≤ said.length ∧
      ∀ (i : Nat) (e : String × Saying), said[i]? = some e → e.2.Holds items[i]?.toList
  | _ => False

theorem valuesOf_cons_of_named {name : String} {m : Units × Json} (h : m.1.toString? = some name)
    (ms : List (Units × Json)) : valuesOf name (m :: ms) = m.2 :: valuesOf name ms := by
  have hnamed : isNamed name m = true := decide_eq_true h
  rw [valuesOf, List.filter_cons_of_pos hnamed]
  rfl

theorem valuesOf_cons_of_ne {name key : String} {m : Units × Json} (h : m.1.toString? = some key)
    (hne : name ≠ key) (ms : List (Units × Json)) : valuesOf name (m :: ms) = valuesOf name ms := by
  have hnamed : ¬ isNamed name m = true := by
    rw [isNamed, h, decide_eq_true_eq]
    rintro ⟨⟩
    exact hne rfl
  rw [valuesOf, List.filter_cons_of_neg hnamed]
  rfl

/-- A value stands in a member with that name, and the later ones behind it. -/
theorem exists_of_valuesOf_eq_cons {name : String} {members : List (Units × Json)} {v : Json}
    {vs : List Json} (h : valuesOf name members = v :: vs) :
    ∃ before m ms, members = before ++ m :: ms ∧ m.1.toString? = some name ∧ m.2 = v ∧
      valuesOf name ms = vs := by
  obtain ⟨m, ms, hfilter, hv, hvs⟩ := List.map_eq_cons_iff.mp h
  obtain ⟨before, rest, rfl, -, hnamed, hrest⟩ := List.filter_eq_cons_iff.mp hfilter
  refine ⟨before, m, rest, rfl, of_decide_eq_true hnamed, hv, ?_⟩
  rw [valuesOf, hrest, hvs]

theorem any_isNamed_eq (name : String) (ms : List (Units × Json)) :
    ms.any (isNamed name) = !(valuesOf name ms).isEmpty := by
  induction ms with
  | nil => rfl
  | cons m ms ih =>
    rw [List.any_cons, ih, valuesOf, valuesOf, List.filter_cons]
    split
    · next hm =>
      rw [hm]
      rfl
    · next hm =>
      rw [Bool.eq_false_iff.mpr hm]
      rfl

/-! ### Members one by one -/

section Members

variable {α : Type} {fs : List (RecordField α)} {key : String} {m : Units × Json}

/-- A member that is no field is passed over. -/
theorem readMembers_cons_of_none (hkey : m.1.toString? = some key)
    (hfind : fs.find? (·.name = key) = none) (ms : List (Units × Json)) (r : α) :
    readMembers fs (m :: ms) r = readMembers fs ms r := by
  simp only [readMembers, hkey, hfind]

/-- A member that is a field is put into the record, if it does not come again. -/
theorem readMembers_cons_of_some {f : RecordField α} (hkey : m.1.toString? = some key)
    (hfind : fs.find? (·.name = key) = some f) (ms : List (Units × Json)) (r : α) :
    readMembers fs (m :: ms) r =
      if valuesOf key ms = [] then (f.put? m.2 r).bind (readMembers fs ms) else none := by
  simp only [readMembers, hkey, hfind, any_isNamed_eq]
  by_cases hagain : valuesOf key ms = []
  · rw [if_pos hagain, hagain]
    rfl
  · rw [if_neg hagain, List.isEmpty_eq_false_iff.mpr hagain]
    rfl

/-- Members that are refused are refused behind any others. -/
theorem readMembers_append_eq_none {ms : List (Units × Json)}
    (h : ∀ r, readMembers fs ms r = none) (before : List (Units × Json)) (r : α) :
    readMembers fs (before ++ ms) r = none := by
  induction before generalizing r with
  | nil => exact h r
  | cons m before ih =>
    rw [List.cons_append]
    cases hkey : m.1.toString? with
    | none => simp only [readMembers, hkey]
    | some key =>
      cases hfind : fs.find? (·.name = key) with
      | none =>
        rw [readMembers_cons_of_none hkey hfind]
        exact ih r
      | some f =>
        rw [readMembers_cons_of_some hkey hfind]
        split
        · exact Option.bind_eq_none_iff.mpr fun r' _ => ih r'
        · rfl

end Members

/-! ### Entries -/

/-- A field of a record, what is said of it, and the change that this makes. -/
structure Entry (α : Type) where
  field : RecordField α
  said : Saying
  change : α → α
  missing : said = none → change = id
  given : ∀ written, said = some written → ∀ v, written v → ∀ r, field.put? v r = some (change r)

namespace Entry

variable {α : Type}

/-- The field is not given. -/
def clear (e : Entry α) : Entry α where
  field := e.field
  said := none
  change := id
  missing _ := rfl
  given _ h := nomatch h

/-- The field with the given name is not given, if it is this one. -/
def without (name : String) (e : Entry α) : Entry α :=
  if e.field.name = name then e.clear else e

theorem field_without (name : String) (e : Entry α) : (e.without name).field = e.field := by
  unfold without
  split <;> rfl

theorem without_of_eq {name : String} {e : Entry α} (h : e.field.name = name) :
    e.without name = e.clear :=
  if_pos h

theorem without_of_ne {name : String} {e : Entry α} (h : e.field.name ≠ name) :
    e.without name = e :=
  if_neg h

/-- A value that is found for a field is put into every record, and it is the only one. -/
theorem put?_of_holds {e : Entry α} {v : Json} {vs : List Json} (h : e.said.Holds (v :: vs)) :
    vs = [] ∧ ∀ r, e.field.put? v r = some (e.change r) := by
  cases hsaid : e.said with
  | none =>
    rw [hsaid] at h
    contradiction
  | some written =>
    rw [hsaid] at h
    obtain ⟨w, ⟨⟩, hw⟩ := h
    exact ⟨rfl, e.given written hsaid v hw⟩

/-- A field for which nothing is found is not given. -/
theorem change_of_holds_nil {e : Entry α} (h : e.said.Holds []) : e.change = id := by
  apply e.missing
  cases hsaid : e.said with
  | none => rfl
  | some written =>
    rw [hsaid] at h
    obtain ⟨w, ⟨⟩, -⟩ := h

/-- The entry of a field that holds a value of its own.  The value has its place in the record, which `get`
and `set` tell; `write` writes it, and `parse?` reads what is written. -/
def ofValue {β γ : Type} (name : String) (parse? : Json → Option β) (get : α → β)
    (set : β → α → α) (hset : ∀ r, set (get r) r = r) (write : γ → Json) (value : γ → β)
    (hwrite : ∀ x, parse? (write x) = some (value x)) (x : Option γ) : Entry α where
  field := ⟨name, fun v r => (parse? v).map fun y => set y r⟩
  said := x.map fun x v => v = write x
  change r := set ((x.map value).getD (get r)) r
  missing h := by
    obtain rfl : x = none := Option.map_eq_none_iff.mp h
    funext r
    exact hset r
  given written h v hv r := by
    obtain ⟨y, rfl, rfl⟩ := Option.map_eq_some_iff.mp h
    have hread : parse? v = some (value y) := by
      rw [hv]
      exact hwrite y
    exact congrArg (Option.map fun y => set y r) hread

end Entry

namespace Entries

variable {α : Type}

/-- Entries of different fields, whose changes may be made in any order. -/
def Apart (entries : List (Entry α)) : Prop :=
  entries.Pairwise fun e e' => e.field.name ≠ e'.field.name ∧
    ∀ r, e.change (e'.change r) = e'.change (e.change r)

theorem apart_of_nodup (entries : List (Entry α)) (hnames : (entries.map (·.field.name)).Nodup)
    (hcommute : entries.Pairwise fun e e' => ∀ r, e.change (e'.change r) = e'.change (e.change r)) :
    Apart entries := by
  have hne : entries.Pairwise fun e e' => e.field.name ≠ e'.field.name :=
    List.pairwise_map.mp hnames
  exact hne.and hcommute

/-- Makes all changes. -/
def change (entries : List (Entry α)) (r : α) : α :=
  entries.foldl (fun r e => e.change r) r

theorem change_cons (e : Entry α) (es : List (Entry α)) (r : α) :
    change (e :: es) r = change es (e.change r) :=
  rfl

theorem change_of_id {entries : List (Entry α)} (h : ∀ e ∈ entries, e.change = id) (r : α) :
    change entries r = r := by
  induction entries generalizing r with
  | nil => rfl
  | cons e es ih =>
    obtain ⟨he, hes⟩ := List.forall_mem_cons.mp h
    rw [change_cons, he]
    exact ih hes r

theorem apart_without {entries : List (Entry α)} (h : Apart entries) (name : String) :
    Apart (entries.map (Entry.without name)) := by
  apply List.pairwise_map.mpr
  apply h.imp
  rintro e e' ⟨hne, hcommute⟩
  refine ⟨?_, ?_⟩
  · rw [Entry.field_without, Entry.field_without]
    exact hne
  · -- a change that is not made commutes with everything
    intro r
    by_cases he : e.field.name = name
    · rw [Entry.without_of_eq he]
      rfl
    · by_cases he' : e'.field.name = name
      · rw [Entry.without_of_eq he']
        rfl
      · rw [Entry.without_of_ne he, Entry.without_of_ne he']
        exact hcommute r

/-- A change may as well be made before all others. -/
theorem change_without {entries : List (Entry α)} (h : Apart entries) {e : Entry α}
    (he : e ∈ entries) (r : α) :
    change (entries.map (Entry.without e.field.name)) (e.change r) = change entries r := by
  induction entries generalizing r with
  | nil => exact absurd he List.not_mem_nil
  | cons g gs ih =>
    obtain ⟨hg, hgs⟩ := List.pairwise_cons.mp h
    rw [List.map_cons, change_cons, change_cons]
    rcases List.mem_cons.mp he with rfl | he
    · have hothers : gs.map (Entry.without e.field.name) = gs := by
        refine (List.map_congr_left ?_).trans (List.map_id gs)
        intro g' hg'
        exact Entry.without_of_ne (hg g' hg').1.symm
      rw [Entry.without_of_eq rfl, hothers]
      rfl
    · obtain ⟨hne, hcommute⟩ := hg e he
      rw [Entry.without_of_ne hne, hcommute]
      exact ih hgs he (g.change r)

/-! ### Reading what is written -/

/-- The fields of entries. -/
def fields (entries : List (Entry α)) : List (RecordField α) :=
  entries.map (·.field)

/-- What entries say. -/
def said (entries : List (Entry α)) : List (String × Saying) :=
  entries.map fun e => (e.field.name, e.said)

theorem fields_without (entries : List (Entry α)) (name : String) :
    fields (entries.map (Entry.without name)) = fields entries := by
  rw [fields, fields, List.map_map]
  refine List.map_congr_left ?_
  intro e _
  exact Entry.field_without name e

/-- What is read from members has the changes of all entries.  Each member that is found changes the record
and is then no longer given, so the entries change with the record. -/
theorem readMembers_eq {entries : List (Entry α)} (hapart : Apart entries)
    {members : List (Units × Json)} (hkeys : ∀ m ∈ members, ∃ key, m.1.toString? = some key)
    (hholds : ∀ e ∈ entries, e.said.Holds (valuesOf e.field.name members)) (r : α) :
    readMembers (fields entries) members r = some (change entries r) := by
  induction members generalizing entries r with
  | nil =>
    have hnone : ∀ e ∈ entries, e.change = id := by
      intro e he
      exact Entry.change_of_holds_nil (hholds e he)
    rw [change_of_id hnone]
    rfl
  | cons m ms ih =>
    obtain ⟨⟨key, hkey⟩, hkeys⟩ := List.forall_mem_cons.mp hkeys
    cases hfind : (fields entries).find? (·.name = key) with
    | none =>
      rw [readMembers_cons_of_none hkey hfind]
      refine ih hapart hkeys ?_ r
      intro e he
      have hne : e.field.name ≠ key := by
        have hnot := List.find?_eq_none.mp hfind e.field (List.mem_map_of_mem he)
        rwa [decide_eq_true_eq] at hnot
      rw [← valuesOf_cons_of_ne hkey hne]
      exact hholds e he
    | some f =>
      obtain ⟨e, he, rfl⟩ := List.mem_map.mp (List.mem_of_find?_eq_some hfind)
      have hname := List.find?_some hfind
      obtain rfl : e.field.name = key := of_decide_eq_true hname
      have hfound := hholds e he
      rw [valuesOf_cons_of_named hkey] at hfound
      obtain ⟨honly, hput⟩ := Entry.put?_of_holds hfound
      have hrest : ∀ e' ∈ entries.map (Entry.without e.field.name),
          e'.said.Holds (valuesOf e'.field.name ms) := by
        intro e' he'
        obtain ⟨g, hg, rfl⟩ := List.mem_map.mp he'
        by_cases hname : g.field.name = e.field.name
        · rw [Entry.without_of_eq hname]
          exact (congrArg (valuesOf · ms) hname).trans honly
        · rw [Entry.without_of_ne hname, ← valuesOf_cons_of_ne hkey hname]
          exact hholds g hg
      have hread := ih (apart_without hapart e.field.name) hkeys hrest (e.change r)
      rw [fields_without, change_without hapart he] at hread
      rw [readMembers_cons_of_some hkey hfind, if_pos honly, hput, Option.bind_some, hread]

/-- So has what is read from items. -/
theorem readItems_eq {entries : List (Entry α)} {items : List Json}
    (hlength : items.length ≤ entries.length)
    (hholds : ∀ (i : Nat) (e : Entry α), entries[i]? = some e → e.said.Holds items[i]?.toList)
    (r : α) : readItems (fields entries) items r = some (change entries r) := by
  induction entries generalizing items r with
  | nil =>
    obtain rfl : items = [] := List.eq_nil_of_length_eq_zero (Nat.le_zero.mp hlength)
    rfl
  | cons e es ih =>
    rcases items with _ | ⟨v, vs⟩
    · have hnone : ∀ e' ∈ e :: es, e'.change = id := by
        intro e' he'
        obtain ⟨i, hi⟩ := List.mem_iff_getElem?.mp he'
        exact Entry.change_of_holds_nil (hholds i e' hi)
      rw [change_of_id hnone]
      rfl
    · obtain ⟨-, hput⟩ := Entry.put?_of_holds (hholds 0 e rfl)
      have hread := ih (Nat.le_of_succ_le_succ hlength) (fun i => hholds (i + 1)) (e.change r)
      have hnext : readItems (fields (e :: es)) (v :: vs) r =
          (e.field.put? v r).bind (readItems (fields es) vs) := rfl
      rw [hnext, hput, Option.bind_some, hread, change_cons]

/-- A value that writes a record is read as the record with all changes. -/
theorem read?_of_form {entries : List (Entry α)} (hapart : Apart entries) {v : Json}
    (h : Form (said entries) v) (r : α) :
    read? (fields entries) v r = some (change entries r) := by
  match v with
  | object members =>
    obtain ⟨hkeys, hholds⟩ := h
    apply readMembers_eq hapart hkeys
    intro e he
    exact hholds _ (List.mem_map_of_mem he)
  | array items =>
    obtain ⟨hlength, hholds⟩ := h
    have hsaid : (said entries).length = entries.length := List.length_map _
    apply readItems_eq (hsaid ▸ hlength)
    intro i e he
    apply hholds i (e.field.name, e.said)
    rw [said, List.getElem?_map, he]
    rfl
  | null | boolean _ | number _ | string _ => exact h.elim

end Entries

/-! ### Refused records -/

section Refused

variable {α : Type} {fs : List (RecordField α)}

/-- A value gives a known field twice, or it goes on behind the last field. -/
def Overfull (names : List String) : Json → Prop
  | object members => ∃ name ∈ names, 2 ≤ (valuesOf name members).length
  | array items => names.length < items.length
  | _ => False

/-- A value of the field with the given name, which is one of the names of all fields in order. -/
def Has (names : List String) (name : String) : Json → Json → Prop
  | object members, w => w ∈ valuesOf name members
  | array items, w => ∃ i : Nat, names[i]? = some name ∧ items[i]? = some w
  | _, _ => False

/-- A known name belongs to the field that is found. -/
theorem exists_find?_of_mem {name : String} (h : name ∈ fs.map (·.name)) :
    ∃ f ∈ fs, f.name = name ∧ fs.find? (·.name = name) = some f := by
  obtain ⟨g, hg, hname⟩ := List.mem_map.mp h
  cases hfind : fs.find? (·.name = name) with
  | none =>
    have hnot := List.find?_eq_none.mp hfind g hg
    exact absurd (decide_eq_true hname) hnot
  | some f =>
    have hfound := List.find?_some hfind
    exact ⟨f, List.mem_of_find?_eq_some hfind, of_decide_eq_true hfound, rfl⟩

theorem readItems_of_lt {items : List Json} (h : fs.length < items.length) (r : α) :
    readItems fs items r = none := by
  induction fs generalizing items r with
  | nil =>
    obtain ⟨v, vs, rfl⟩ := List.exists_cons_of_length_pos h
    rfl
  | cons f fs ih =>
    obtain ⟨v, vs, rfl⟩ := List.exists_cons_of_length_pos (Nat.lt_of_le_of_lt (Nat.zero_le _) h)
    rw [readItems, Option.bind_eq_none_iff]
    intro r' _
    exact ih (Nat.lt_of_succ_lt_succ h) r'

theorem readItems_of_refused {items : List Json} {i : Nat} {f : RecordField α} {w : Json}
    (hf : fs[i]? = some f) (hw : items[i]? = some w) (h : ∀ r, f.put? w r = none) (r : α) :
    readItems fs items r = none := by
  induction fs generalizing items i r with
  | nil => cases hf
  | cons g fs ih =>
    rcases items with _ | ⟨v, vs⟩
    · cases hw
    · rw [readItems, Option.bind_eq_none_iff]
      intro r' hr'
      rcases i with _ | i
      · cases hf
        cases hw
        rw [h r] at hr'
        cases hr'
      · exact ih hf hw r'

/-- A value that says too much is refused. -/
theorem read?_of_overfull (fs : List (RecordField α)) {v : Json}
    (h : Overfull (fs.map (·.name)) v) (r : α) : read? fs v r = none := by
  match v with
  | object members =>
    obtain ⟨name, hname, htwice⟩ := h
    obtain ⟨f, -, -, hfind⟩ := exists_find?_of_mem hname
    obtain ⟨v, w, vs, hvalues⟩ : ∃ v w vs, valuesOf name members = v :: w :: vs := by
      match valuesOf name members, htwice with
      | v :: w :: vs, _ => exact ⟨v, w, vs, rfl⟩
    obtain ⟨before, m, ms, rfl, hkey, -, hagain⟩ := exists_of_valuesOf_eq_cons hvalues
    apply readMembers_append_eq_none
    intro r
    rw [readMembers_cons_of_some hkey hfind, hagain]
    exact if_neg (List.cons_ne_nil w vs)
  | array items =>
    have hlength : (fs.map (·.name)).length = fs.length := List.length_map _
    exact readItems_of_lt (hlength ▸ h) r
  | null | boolean _ | number _ | string _ => rfl

/-- A value is refused if it has a value of a field that the field refuses. -/
theorem read?_of_refused (fs : List (RecordField α)) {v w : Json} {name : String}
    (hname : name ∈ fs.map (·.name)) (hw : Has (fs.map (·.name)) name v w)
    (h : ∀ f ∈ fs, f.name = name → ∀ r, f.put? w r = none) (r : α) : read? fs v r = none := by
  match v with
  | object members =>
    obtain ⟨f, hf, hfname, hfind⟩ := exists_find?_of_mem hname
    obtain ⟨m, hm, rfl⟩ := List.mem_map.mp hw
    obtain ⟨hmember, hnamed⟩ := List.mem_filter.mp hm
    obtain ⟨before, ms, rfl⟩ := List.append_of_mem hmember
    apply readMembers_append_eq_none
    intro r
    rw [readMembers_cons_of_some (of_decide_eq_true hnamed) hfind, h f hf hfname]
    exact ite_self none
  | array items =>
    obtain ⟨i, hi, hitem⟩ := hw
    rw [List.getElem?_map, Option.map_eq_some_iff] at hi
    obtain ⟨f, hf, hfname⟩ := hi
    exact readItems_of_refused hf hitem (h f (List.mem_of_getElem? hf) hfname) r
  | null | boolean _ | number _ | string _ => rfl

end Refused

end Json

end WordMachine
