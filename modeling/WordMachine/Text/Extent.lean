/-!
# Extents of text

A place in a text is given by its distance from the beginning, which is counted in the bytes that
the characters before it take in UTF-8.  `Extent.drop` and `Extent.take` cut a text at such a place;
a place within a character counts as the one behind it.
-/

namespace WordMachine

namespace Extent

/-- The size of characters, in bytes. -/
def size : List Char → Nat
  | [] => 0
  | c :: cs => c.utf8Size + size cs

/-- The characters from a distance on. -/
def drop (n : Nat) : List Char → List Char
  | [] => []
  | c :: cs => if n = 0 then c :: cs else drop (n - c.utf8Size) cs

/-- The characters up to a distance. -/
def take (n : Nat) : List Char → List Char
  | [] => []
  | c :: cs => if n = 0 then [] else c :: take (n - c.utf8Size) cs

end Extent

end WordMachine
