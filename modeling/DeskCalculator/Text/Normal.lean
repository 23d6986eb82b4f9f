import DeskCalculator.Text.Blank
import DeskCalculator.Text.Lowercase

/-!
# Normal form of an expression

Blanks do not count and neither does case: the normal form drops the former and lowers the latter.
-/
namespace DeskCalculator.Text

def normalChars (cs : List Char) : List Char :=
  (cs.filter fun c => !isBlank c).flatMap lowercase

def normalize (s : String) : String := String.ofList (normalChars s.toList)

theorem normalChars_append (a b : List Char) :
    normalChars (a ++ b) = normalChars a ++ normalChars b := by
  simp [normalChars]

theorem normalChars_cons_blank {c : Char} (cs : List Char) (h : isBlank c = true) :
    normalChars (c :: cs) = normalChars cs := by
  simp [normalChars, h]

end DeskCalculator.Text
