/-!
# Decimals

A decimal is a natural coefficient times a power of ten. `Decimal.plain` writes it out in full,
without an exponent and without needless zeros, and `Decimal.ofChars` reads such a text. With a fixed
number of places `Decimal.fixed` keeps the zeros at the end; `Decimal.ofChars?` reads no other texts than
digits with at most one point.
-/
namespace DeskCalculator

structure Decimal where
  coefficient : Nat
  exponent : Int
deriving DecidableEq

namespace Decimal

def value (d : Decimal) : Rat := (d.coefficient : Rat) * (10 : Rat) ^ d.exponent

def padded (width n : Nat) : List Char :=
  let digits := Nat.toDigits 10 n
  List.replicate (width - digits.length) '0' ++ digits

def trimmed (digits : List Char) : List Char :=
  (digits.reverse.dropWhile (· == '0')).reverse

def plain (d : Decimal) : List Char :=
  if 0 ≤ d.exponent then Nat.toDigits 10 (d.coefficient * Nat.pow 10 d.exponent.toNat)
  else
    let places := (-d.exponent).toNat
    let scale := Nat.pow 10 places
    let whole := Nat.toDigits 10 (d.coefficient / scale)
    let fraction := trimmed (padded places (d.coefficient % scale))
    if fraction.isEmpty then whole else whole ++ '.' :: fraction

def fixed (places n : Nat) : List Char :=
  let scale := Nat.pow 10 places
  let whole := Nat.toDigits 10 (n / scale)
  if places = 0 then whole else whole ++ '.' :: padded places (n % scale)

def ofChars (cs : List Char) : Decimal :=
  let whole := cs.takeWhile Char.isDigit
  let fraction := (cs.dropWhile Char.isDigit).drop 1
  ⟨Nat.ofDigitChars 10 (whole ++ fraction) 0, -fraction.length⟩

def isPlain (cs : List Char) : Bool :=
  cs.any Char.isDigit &&
    match cs.dropWhile Char.isDigit with
    | [] => true
    | c :: fraction => c == '.' && fraction.all Char.isDigit

def ofChars? (cs : List Char) : Option Decimal := if isPlain cs then some (ofChars cs) else none

end Decimal
end DeskCalculator
