import WordMachine.Json.Value

/-!
# Records in JSON

A record with named fields is written as an object or as an array.  In an object the fields may
come in any order and may be missing, but none may come twice, and members with other names are
passed over whatever they hold.  In an array the fields come in the order of their declaration, and
some at the end may be missing.  Reading starts from a record that holds what missing fields stand
for.

This is the documented behaviour of the library that derives readers from the declarations of records;
like the reader of JSON itself it is no part of the simulator.
-/

namespace WordMachine

namespace Json

/-- A field of a record: its name, and how its value is put into the record. -/
structure RecordField (α : Type) where
  name : String
  put? : Json → α → Option α

namespace Record

variable {α : Type}

/-- Reads fields from items in the order of their declaration. -/
def readItems : List (RecordField α) → List Json → α → Option α
  | _, [], r => some r
  | [], _ :: _, _ => none
  | f :: fs, v :: vs, r => (f.put? v r).bind (readItems fs vs)

/-- Whether a member has a given name. -/
def isNamed (name : String) (m : Units × Json) : Bool :=
  m.1.toString? = some name

/-- Reads fields from members. -/
def readMembers (fields : List (RecordField α)) : List (Units × Json) → α → Option α
  | [], r => some r
  | m :: ms, r =>
    match m.1.toString? with
    | none => none
    | some name =>
      match fields.find? (·.name = name) with
      | none => readMembers fields ms r
      | some f =>
        if ms.any (isNamed name) then none else (f.put? m.2 r).bind (readMembers fields ms)

/-- Reads a record, starting from what missing fields stand for. -/
def read? (fields : List (RecordField α)) : Json → α → Option α
  | array items, r => readItems fields items r
  | object members, r => readMembers fields members r
  | _, _ => none

end Record

end Json

end WordMachine
