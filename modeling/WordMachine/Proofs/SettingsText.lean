import WordMachine.Proofs.JsonRecord
import WordMachine.Proofs.JsonValue
import WordMachine.Proofs.Layout
import WordMachine.Settings.Document

/-!
# What a text of settings means

There are seven settings, each of them given or not, in two records that may be missing themselves.
`Settings.Given` is such a choice, with sizes that are in range by their type, and `Given.settings` are the
settings that it means: whatever is not given is as in the standard settings.  A choice is written as a JSON
value in many ways (`Given.Written`), for a record may be an object or an array, and the value is spelled in
many ways as a text (`Json.Spells`).  Every such text is read as the settings that are meant, and these are
validated.

A setting may be missing from its record, and the record may be missing too.  A record that is given takes
the place of its default, with defaults of its own for the fields that are missing.  This comes to the same
as a change of the standard settings by what is given, for all defaults agree (`Given.change_entries`).  The
main theorem is `Settings.ofText_of_written`.
-/

namespace WordMachine

namespace Settings

open Json

/-! ### Given settings -/

/-- The sizes and positions that can be given. -/
abbrev Size := Fin sizeBound

/-- Settings of the record `general` that are given. -/
structure GivenGeneral where
  tracing : Option Bool := none
  stepLimit : Option (Option Size) := none

/-- Settings of the record `memory` that are given. -/
structure GivenMemory where
  capacity : Option Size := none
  codeStart : Option Size := none
  codeLength : Option Size := none
  dataStart : Option Size := none
  dataLength : Option Size := none

/-- Settings that are given, in two records that may be missing. -/
structure Given where
  general : Option GivenGeneral := none
  memory : Option GivenMemory := none

/-- The settings that are meant: those that are given, and the standard ones. -/
def Given.settings (g : Given) : Settings :=
  let general := g.general.getD {}
  let memory := g.memory.getD {}
  { tracing := general.tracing.getD standard.tracing
    stepLimit := (general.stepLimit.map fun limit => limit.map Fin.val).getD standard.stepLimit
    layout :=
      { capacity := (memory.capacity.map Fin.val).getD standard.layout.capacity
        code :=
          { start := (memory.codeStart.map Fin.val).getD standard.layout.code.start
            length := (memory.codeLength.map Fin.val).getD standard.layout.code.length }
        data :=
          { start := (memory.dataStart.map Fin.val).getD standard.layout.data.start
            length := (memory.dataLength.map Fin.val).getD standard.layout.data.length } } }

/-! ### Written settings -/

/-- A size is written as a decimal numeral. -/
def writeSize (n : Size) : Json :=
  .number (Nat.toDigits 10 n)

/-- No limit is written as a null. -/
def writeLimit : Option Size → Json
  | none => .null
  | some n => writeSize n

/-- What is said of a size. -/
def sizeSaid (n : Option Size) : Saying :=
  n.map fun n v => v = writeSize n

/-- A value writes the settings of the record `general` that are given. -/
def GivenGeneral.Written (g : GivenGeneral) : Json → Prop :=
  Form [("trace_instructions", g.tracing.map fun b v => v = .boolean b),
    ("max_steps", g.stepLimit.map fun limit v => v = writeLimit limit)]

/-- A value writes the settings of the record `memory` that are given. -/
def GivenMemory.Written (g : GivenMemory) : Json → Prop :=
  Form [("capacity", sizeSaid g.capacity), ("code_segment_start", sizeSaid g.codeStart),
    ("code_segment_len", sizeSaid g.codeLength), ("data_segment_start", sizeSaid g.dataStart),
    ("data_segment_len", sizeSaid g.dataLength)]

/-- A value writes the settings that are given. -/
def Given.Written (g : Given) : Json → Prop :=
  Form [("general", g.general.map GivenGeneral.Written),
    ("memory", g.memory.map GivenMemory.Written)]

/-! ### Entries of settings -/

/-- The names of the two records. -/
def recordNames : List String :=
  ["general", "memory"]

/-- The names of the settings of the record `general`. -/
def generalNames : List String :=
  ["trace_instructions", "max_steps"]

/-- The names of the settings of the record `memory`. -/
def memoryNames : List String :=
  ["capacity", "code_segment_start", "code_segment_len", "data_segment_start", "data_segment_len"]

theorem size?_writeSize (n : Size) : size? (writeSize n) = some n.val := by
  have hread : Numeral.ofDigits? (Nat.toDigits 10 n.val) = some n.val := by
    rw [Numeral.toDigits_eq_digits]
    exact Numeral.ofDigits?_digits 0 n.val
  rw [size?, writeSize, toNatBelow?, hread]
  exact Option.filter_some_pos (decide_eq_true n.isLt)

theorem toOption?_writeLimit (limit : Option Size) :
    (writeLimit limit).toOption? size? = some (limit.map Fin.val) := by
  cases limit with
  | none => rfl
  | some n =>
    have hread := congrArg (Option.map some) (size?_writeSize n)
    exact hread

/-- The entries of the record `general`. -/
def generalEntries (g : GivenGeneral) : List (Entry Settings) :=
  [.ofValue "trace_instructions" toBool? (·.tracing) (fun tracing s => { s with tracing })
      (fun _ => rfl) .boolean id (fun _ => rfl) g.tracing,
    .ofValue "max_steps" (toOption? size?) (·.stepLimit) (fun stepLimit s => { s with stepLimit })
      (fun _ => rfl) writeLimit (fun limit => limit.map Fin.val) toOption?_writeLimit g.stepLimit]

/-- The entry of a field that is a size. -/
def sizeEntry (name : String) (get : Layout → Nat) (set : Nat → Layout → Layout)
    (hset : ∀ l, set (get l) l = l) (n : Option Size) : Entry Layout :=
  .ofValue name size? get set hset writeSize Fin.val size?_writeSize n

/-- The entries of the record `memory`. -/
def memoryEntries (g : GivenMemory) : List (Entry Layout) :=
  [sizeEntry "capacity" (·.capacity) (fun capacity l => { l with capacity }) (fun _ => rfl)
      g.capacity,
    sizeEntry "code_segment_start" (·.code.start) (fun start l => { l with code.start := start })
      (fun _ => rfl) g.codeStart,
    sizeEntry "code_segment_len" (·.code.length) (fun length l => { l with code.length := length })
      (fun _ => rfl) g.codeLength,
    sizeEntry "data_segment_start" (·.data.start) (fun start l => { l with data.start := start })
      (fun _ => rfl) g.dataStart,
    sizeEntry "data_segment_len" (·.data.length) (fun length l => { l with data.length := length })
      (fun _ => rfl) g.dataLength]

/-- The entries are of different fields, and these have different places in the record. -/
theorem apart_generalEntries (g : GivenGeneral) : Entries.Apart (generalEntries g) := by
  have hnames : generalNames.Nodup := by
    decide
  apply Entries.apart_of_nodup (generalEntries g) hnames
  exact List.pairwise_pair.mpr fun _ => rfl

theorem apart_memoryEntries (g : GivenMemory) : Entries.Apart (memoryEntries g) := by
  have hnames : memoryNames.Nodup := by
    decide
  apply Entries.apart_of_nodup (memoryEntries g) hnames
  simp only [memoryEntries, List.pairwise_cons, List.forall_mem_cons, List.not_mem_nil,
    false_imp_iff, implies_true, and_true, List.Pairwise.nil]
  and_intros
  all_goals exact fun _ => rfl

theorem read?_general {g : GivenGeneral} {v : Json} (h : g.Written v) (s : Settings) :
    Record.read? generalFields v s = some (Entries.change (generalEntries g) s) :=
  Entries.read?_of_form (apart_generalEntries g) h s

theorem read?_memory {g : GivenMemory} {v : Json} (h : g.Written v) (l : Layout) :
    Record.read? memoryFields v l = some (Entries.change (memoryEntries g) l) :=
  Entries.read?_of_form (apart_memoryEntries g) h l

/-- The entry of the record `general`, which is read from the defaults of its fields. -/
def generalEntry (g : Option GivenGeneral) : Entry Settings where
  field := ⟨"general", fun v s => Record.read? generalFields v s.withNoGeneralField⟩
  said := g.map GivenGeneral.Written
  change s :=
    match g with
    | none => s
    | some g => Entries.change (generalEntries g) s.withNoGeneralField
  missing h := by
    obtain rfl : g = none := Option.map_eq_none_iff.mp h
    rfl
  given written h v hv s := by
    obtain ⟨g, rfl, rfl⟩ := Option.map_eq_some_iff.mp h
    exact read?_general hv s.withNoGeneralField

/-- The entry of the record `memory`, which is read from the defaults of its fields. -/
def memoryEntry (g : Option GivenMemory) : Entry Settings where
  field := ⟨"memory", fun v s =>
    (Record.read? memoryFields v noMemoryField).map fun layout => { s with layout }⟩
  said := g.map GivenMemory.Written
  change s :=
    match g with
    | none => s
    | some g => { s with layout := Entries.change (memoryEntries g) noMemoryField }
  missing h := by
    obtain rfl : g = none := Option.map_eq_none_iff.mp h
    rfl
  given written h v hv s := by
    obtain ⟨g, rfl, rfl⟩ := Option.map_eq_some_iff.mp h
    exact congrArg (Option.map fun layout => { s with layout }) (read?_memory hv noMemoryField)

/-- The entries of settings. -/
def Given.entries (g : Given) : List (Entry Settings) :=
  [generalEntry g.general, memoryEntry g.memory]

theorem Given.apart_entries (g : Given) : Entries.Apart g.entries := by
  have hnames : recordNames.Nodup := by
    decide
  apply Entries.apart_of_nodup g.entries hnames
  refine List.pairwise_pair.mpr fun s => ?_
  obtain ⟨general, memory⟩ := g
  cases general <;> cases memory <;> rfl

/-- All changes lead to the settings that are meant. -/
theorem Given.change_entries (g : Given) : Entries.change g.entries noRecord = g.settings := by
  obtain ⟨general, memory⟩ := g
  have hsame : (general.getD {}).tracing.map id = (general.getD {}).tracing :=
    congrFun Option.map_id _
  have hchange : Entries.change (Given.entries { general, memory }) noRecord =
      { Given.settings { general, memory } with
        tracing := ((general.getD {}).tracing.map id).getD standard.tracing } := by
    cases general <;> cases memory <;> rfl
  rw [hchange, hsame]
  rfl

/-- A value that writes settings is read as the settings that are meant. -/
theorem ofJson?_of_written {g : Given} {v : Json} (h : g.Written v) :
    ofJson? v = some g.settings := by
  rw [← g.change_entries]
  exact Entries.read?_of_form g.apart_entries h noRecord

/-! ### Texts of settings -/

/-- Somewhere in a value a setting or a record of settings is given twice, or an array goes on behind its
last field. -/
def SaysTooMuch (v : Json) : Prop :=
  Overfull recordNames v ∨
    (∃ w, Has recordNames "general" v w ∧ Overfull generalNames w) ∨
    ∃ w, Has recordNames "memory" v w ∧ Overfull memoryNames w

theorem mem_fields {f : RecordField Settings} :
    f ∈ fields ↔ f = (generalEntry none).field ∨ f = (memoryEntry none).field := by
  rw [fields, List.mem_cons, List.mem_singleton]
  rfl

/-- Such a value is refused as a whole. -/
theorem ofJson?_of_saysTooMuch {v : Json} (h : SaysTooMuch v) : ofJson? v = none := by
  rcases h with hover | ⟨w, hhas, hover⟩ | ⟨w, hhas, hover⟩
  · exact read?_of_overfull fields hover noRecord
  · have hrefused := read?_of_overfull generalFields hover
    refine read?_of_refused fields (by decide) hhas ?_ noRecord
    intro f hf hname s
    rcases mem_fields.mp hf with rfl | rfl
    · exact hrefused s.withNoGeneralField
    · exact absurd hname (by decide)
  · have hrefused := read?_of_overfull memoryFields hover
    refine read?_of_refused fields (by decide) hhas ?_ noRecord
    intro f hf hname s
    rcases mem_fields.mp hf with rfl | rfl
    · exact absurd hname (by decide)
    · exact congrArg (Option.map _) (hrefused noMemoryField)

/-- A text that spells a value means what the value means. -/
theorem ofText_eq {v : Json} {text : String} (h : v.Spells text.toList) :
    ofText text =
      match ofJson? v with
      | none => .error (.malformedSettings "not a record of settings")
      | some s => s.validate := by
  have hparse := parse?_of_spells h
  cases hread : ofJson? v with
  | none => simp only [ofText, hparse, hread]
  | some s => simp only [ofText, hparse, hread]

/-- Settings that are read have been accepted. -/
theorem validate_of_ofText {text : String} {s : Settings} (h : ofText text = .ok s) :
    s.validate = .ok s := by
  rw [ofText] at h
  split at h
  · cases h
  · split at h
    · cases h
    · next t _ =>
      have heq : s = t := eq_of_validate h
      rw [heq] at h ⊢
      exact h

/-- A text of settings means its settings.  Let any settings be given, and let a text spell a value that writes
them: then it is read as the settings that are given and the standard ones for all others, if these are
valid, and as the failure of their validation if not.  A text that gives a setting or a record of settings
twice, or goes on behind the last field of an array, is malformed.  No text is read as settings that are
not valid. -/
theorem ofText_of_written :
    (∀ (g : Given) (v : Json) (text : String), g.Written v → v.Spells text.toList →
      ofText text = g.settings.validate ∧ ∀ s, ofText text = .ok s → s = g.settings) ∧
    (∀ (v : Json) (text : String), SaysTooMuch v → v.Spells text.toList →
      ∃ why, ofText text = .error (.malformedSettings why)) ∧
    ∀ (text : String) (s : Settings), ofText text = .ok s → s.validate = .ok s := by
  refine ⟨?_, ?_, ?_⟩
  · intro g v text hwritten hspells
    have hmeans : ofText text = g.settings.validate := by
      rw [ofText_eq hspells, ofJson?_of_written hwritten]
    refine ⟨hmeans, ?_⟩
    intro s hs
    rw [hmeans] at hs
    exact eq_of_validate hs
  · intro v text hover hspells
    refine ⟨"not a record of settings", ?_⟩
    rw [ofText_eq hspells, ofJson?_of_saysTooMuch hover]
  · intro text s hs
    exact validate_of_ofText hs

/-- The characters of `general`, of which one is escaped. -/
theorem stringText_general :
    StringText [103, 101, 110, 101, 114, 97, 108]
      ['g', 'e', 'n', 'e', 'r', '\\', 'u', '0', '0', '6', '1', 'l'] := by
  refine .plain (c := 'g') (by decide) (by decide) (by decide) ?_
  refine .plain (c := 'e') (by decide) (by decide) (by decide) ?_
  refine .plain (c := 'n') (by decide) (by decide) (by decide) ?_
  refine .plain (c := 'e') (by decide) (by decide) (by decide) ?_
  refine .plain (c := 'r') (by decide) (by decide) (by decide) ?_
  refine .unicode (by decide) ?_
  exact .plain (c := 'l') (by decide) (by decide) (by decide) .nil

/-- An object with an array for the record `general`, and a member with another name. -/
def tracedJson : Json :=
  .object [([103, 101, 110, 101, 114, 97, 108], .array [.boolean true]),
    ([120], .array [.object []])]

theorem spells_tracedJson :
    tracedJson.Spells " \x7b\"gener\\u0061l\":[true],\"x\":[\x7b\x7d]\x7d".toList := by
  have hlist : " \x7b\"gener\\u0061l\":[true],\"x\":[\x7b\x7d]\x7d".toList =
      [' ', '\x7b', '"', 'g', 'e', 'n', 'e', 'r', '\\', 'u', '0', '0', '6', '1', 'l', '"', ':', '[',
        't', 'r', 'u', 'e', ']', ',', '"', 'x', '"', ':', '[', '\x7b', '\x7d', ']', '\x7d'] := by
    decide
  have hother : StringText [120] ['x'] :=
    .plain (c := 'x') (by decide) (by decide) (by decide) .nil
  rw [hlist]
  refine .blank rfl ?_
  refine .sign rfl ?_
  refine .tight (.string stringText_general) ?_
  iterate 2 refine .sign rfl ?_
  refine .tight (.fixed (t := .boolean true) rfl) ?_
  iterate 2 refine .sign rfl ?_
  refine .tight (.string hother) ?_
  iterate 6 refine .sign rfl ?_
  exact .nil (List.forall_mem_nil _)

theorem written_tracedJson :
    Given.Written { general := some { tracing := some true } } tracedJson := by
  have hgeneral : Units.toString? [103, 101, 110, 101, 114, 97, 108] = some "general" := by
    decide
  have hother : Units.toString? [120] = some "x" := by
    decide
  have hsection : GivenGeneral.Written { tracing := some true } (.array [.boolean true]) := by
    refine ⟨by decide, ?_⟩
    rintro (_ | _ | i) e ⟨⟩
    · exact ⟨_, rfl, rfl⟩
    · rfl
  refine ⟨?_, ?_⟩
  · exact List.forall_mem_cons.mpr ⟨⟨_, hgeneral⟩, List.forall_mem_singleton.mpr ⟨_, hother⟩⟩
  · refine List.forall_mem_cons.mpr ⟨⟨_, ?_, hsection⟩, List.forall_mem_singleton.mpr ?_⟩
    · rw [valuesOf_cons_of_named hgeneral, valuesOf_cons_of_ne hother (by decide)]
      rfl
    · refine (valuesOf_cons_of_ne hgeneral (by decide) _).trans ?_
      exact valuesOf_cons_of_ne hother (by decide) []

/-- Tracing is given in a record that is written as an array behind an escaped key.  A second text is an array
that goes on behind the two records. -/
theorem ofText_of_written_of_escaped_key :
    ofText " \x7b\"gener\\u0061l\":[true],\"x\":[\x7b\x7d]\x7d" = .ok { tracing := true } ∧
      ∃ why, ofText "[[],[],[]]" = .error (.malformedSettings why) := by
  obtain ⟨hmeans, hrefused, -⟩ := ofText_of_written
  constructor
  · obtain ⟨htext, -⟩ := hmeans _ _ _ written_tracedJson spells_tracedJson
    have hcheck : Layout.check {} = .ok () :=
      Layout.check_eq_ok_iff.mpr ⟨by decide, ⟨by decide, by decide⟩, ⟨by decide, by decide⟩⟩
    have hvalid : validate { tracing := true } = .ok { tracing := true } := by
      rw [validate, hcheck]
    exact htext.trans hvalid
  · have hlonger : recordNames.length < 3 := by
      decide
    have hover : SaysTooMuch (.array [.array [], .array [], .array []]) := .inl hlonger
    have hspells : (Json.array [.array [], .array [], .array []]).Spells "[[],[],[]]".toList := by
      have hlist : "[[],[],[]]".toList = ['[', '[', ']', ',', '[', ']', ',', '[', ']', ']'] := by
        decide
      rw [hlist]
      iterate 10 refine .sign rfl ?_
      exact .nil (List.forall_mem_nil _)
    exact hrefused _ _ hover hspells

end Settings

end WordMachine
