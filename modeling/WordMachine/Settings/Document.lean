import WordMachine.Settings.Basic
import WordMachine.Json.Record
import WordMachine.Host.Directory

/-!
# Settings as JSON

Settings are written as a record of two records, `general` and `memory`.  A record that is missing has a
default as a whole, and in a record that is given every field that is missing has a default of its own.
All of these are as in the standard settings (`Settings.defaults_agree`).  Settings that can be read are
validated, so that reading never yields a layout that a dump could not show.
-/

namespace WordMachine

namespace Settings

open Json

/-! ### Fields -/

/-- A size or position. -/
def size? (v : Json) : Option Nat :=
  v.toNatBelow? sizeBound

/-- The fields of the record `general`. -/
def generalFields : List (RecordField Settings) :=
  [⟨"trace_instructions", fun v s => v.toBool?.map fun tracing => { s with tracing }⟩,
    ⟨"max_steps", fun v s => (v.toOption? size?).map fun stepLimit => { s with stepLimit }⟩]

/-- The fields of the record `memory`. -/
def memoryFields : List (RecordField Layout) :=
  [⟨"capacity", fun v l => (size? v).map fun capacity => { l with capacity }⟩,
    ⟨"code_segment_start", fun v l => (size? v).map fun start => { l with code.start := start }⟩,
    ⟨"code_segment_len", fun v l => (size? v).map fun length => { l with code.length := length }⟩,
    ⟨"data_segment_start", fun v l => (size? v).map fun start => { l with data.start := start }⟩,
    ⟨"data_segment_len", fun v l => (size? v).map fun length => { l with data.length := length }⟩]

/-! ### Defaults -/

/-- The settings with a record `general` of which no field is given. -/
def withNoGeneralField (s : Settings) : Settings :=
  { s with tracing := false, stepLimit := none }

/-- The layout of a record `memory` of which no field is given. -/
def noMemoryField : Layout where
  capacity := Stock.capacity
  code := { start := Stock.codeStart, length := Stock.codeLength }
  data := { start := Stock.dataStart, length := Stock.dataLength }

/-- The settings if no record is given. -/
def noRecord : Settings where
  tracing := false
  stepLimit := none
  layout := {}

/-- The defaults of the records, those of their fields, and the standard settings are the same. -/
theorem defaults_agree :
    noRecord = standard ∧ noMemoryField = standard.layout ∧ withNoGeneralField standard = standard :=
  ⟨rfl, rfl, rfl⟩

/-! ### Reading -/

/-- The fields of settings. -/
def fields : List (RecordField Settings) :=
  [⟨"general", fun v s => Record.read? generalFields v s.withNoGeneralField⟩,
    ⟨"memory", fun v s =>
      (Record.read? memoryFields v noMemoryField).map fun layout => { s with layout }⟩]

/-- The settings that a value denotes. -/
def ofJson? (v : Json) : Option Settings :=
  Record.read? fields v noRecord

/-- Reads settings from a text and validates them. -/
def ofText (text : String) : Except Failure Settings :=
  match Json.parse? text with
  | none => .error (.malformedSettings "not a JSON text")
  | some v =>
    match ofJson? v with
    | none => .error (.malformedSettings "not a record of settings")
    | some s => s.validate

/-- Reads settings from bytes, which have to be UTF-8. -/
def ofBytes (bytes : List UInt8) : Except Failure Settings :=
  match String.fromUTF8? (ByteArray.mk bytes.toArray) with
  | none => .error (.io "stream did not contain valid UTF-8")
  | some text => ofText text

/-- Reads settings from what was opened. -/
def ofOpened (o : Opened) : Except Failure Settings :=
  match o.content with
  | .error e => .error e
  | .ok bytes => ofBytes bytes

end Settings

end WordMachine
