import Parlance.Text.Case.Upper
import Parlance.Text.Case.Lower
import Parlance.Text.Case.Context

/-!
# Upper and lower case of text

Both follow the full mappings, so the result may be longer than the text. A capital sigma becomes
the final form at the end of a word and the plain form elsewhere.
-/

namespace Parlance.Text

def upper (s : String) : String :=
  String.ofList (s.toList.flatMap upperMapping.apply)

/-- The nearest character that counts is a letter with a case. -/
def meetsLetter (cs : List Char) : Bool :=
  (cs.find? fun c => !ignorable.holds c).any cased.holds

/-- `before` holds the characters already passed, the nearest first. -/
def lowerAfter (before : List Char) : List Char → List Char
  | [] => []
  | c :: rest =>
    let image :=
      if c = 'Σ' then [if meetsLetter before && !meetsLetter rest then 'ς' else 'σ']
      else lowerMapping.apply c
    image ++ lowerAfter (c :: before) rest

def lower (s : String) : String :=
  String.ofList (lowerAfter [] s.toList)

end Parlance.Text
