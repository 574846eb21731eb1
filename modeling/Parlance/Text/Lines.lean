/-!
# Text from files

Files hold UTF-8. Every line end, written as line feed, as carriage return or as both, is read as a
line feed.
-/

namespace Parlance.Text

def unifyLineEnds : List Char → List Char
  | [] => []
  | '\r' :: '\n' :: rest => '\n' :: unifyLineEnds rest
  | '\r' :: rest => '\n' :: unifyLineEnds rest
  | c :: rest => c :: unifyLineEnds rest

/-- The text of a file, unless its bytes are not UTF-8. -/
def ofBytes? (bytes : ByteArray) : Option String :=
  (String.fromUTF8? bytes).map fun s => String.ofList (unifyLineEnds s.toList)

/-- How many lines end in `cs`. -/
def lineEnds (cs : List Char) : Nat := cs.count '\n'

end Parlance.Text
