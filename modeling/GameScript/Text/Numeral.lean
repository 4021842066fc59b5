import GameScript.Text.Basic

/-!
# Numerals

Decimal and hexadecimal numerals in messages, and signed decimal numerals of 32 bits as they
are read from a file.
-/

namespace GameScript.Text

def decimal (n : Nat) : Text := Nat.toDigits 10 n

/-- Upper-case hexadecimal with at least four digits. -/
def hex4 (n : Nat) : Text :=
  let digits := (Nat.toDigits 16 n).map Char.toUpper
  List.replicate (4 - digits.length) '0' ++ digits

def readDigits? (t : Text) : Option Nat :=
  if t ≠ [] && t.all isDigit then some (t.foldl (fun n c => 10 * n + (c.toNat - 48)) 0) else none

/-- A decimal numeral with an optional sign that fits 32 signed bits. -/
def readInt32? (t : Text) : Option Int :=
  let value : Option Int :=
    match t with
    | '-' :: ds => (readDigits? ds).map fun n => -(n : Int)
    | '+' :: ds => (readDigits? ds).map Int.ofNat
    | ds => (readDigits? ds).map Int.ofNat
  value.filter fun v => -2147483648 ≤ v && v ≤ 2147483647

end GameScript.Text
