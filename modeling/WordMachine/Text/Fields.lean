/-!
# Fields between separators

A list of names, of rules or of parts of a path is a text with a separator between the items.  There is
one more field than there are separators, and a field may be empty.
-/

namespace WordMachine

/-- The fields of a text, in order. -/
def fields (separator : Char) (text : String) : List String :=
  (text.toList.splitOn separator).map String.ofList

/-- Without a separator there is one field. -/
theorem fields_eq_singleton {separator : Char} {text : String} (h : separator ∉ text.toList) :
    fields separator text = [text] := by
  rw [fields, List.splitOn_eq_singleton h, List.map_singleton, String.ofList_toList]

end WordMachine
