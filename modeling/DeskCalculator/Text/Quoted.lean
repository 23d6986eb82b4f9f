import DeskCalculator.Text.Combining
import DeskCalculator.Text.Ignorable
import DeskCalculator.Text.Printable

/-!
# Quoted text

A quoted text stands between double quotes on one line, and each of its characters can be told
apart: those that cannot be printed, that show nothing or that would join their neighbour are written
as code points.
-/
namespace DeskCalculator.Text

def isShown (c : Char) : Bool := isPrintable c && !isIgnorable c && !isCombining c

def codePoint (c : Char) : List Char :=
  ['\\', 'u', '{'] ++ Nat.toDigits 16 c.toNat ++ ['}']

def quotedChar (c : Char) : List Char :=
  match c with
  | '\x00' => ['\\', '0']
  | '\t' => ['\\', 't']
  | '\r' => ['\\', 'r']
  | '\n' => ['\\', 'n']
  | '"' => ['\\', '"']
  | '\\' => ['\\', '\\']
  | _ => if isShown c then [c] else codePoint c

def quoted (s : String) : String :=
  String.ofList ('"' :: s.toList.flatMap quotedChar ++ ['"'])

end DeskCalculator.Text
