namespace LiteralFill.Text

def digit? (c : Char) : Option Nat :=
  if c.isDigit then some (c.toNat - '0'.toNat) else none

/-- The number that a text of decimal digits denotes; leading zeros do not matter. -/
def digitsValue? : List Char → Option Nat
  | [] => none
  | cs => (cs.mapM digit?).map (·.foldl (fun n d => 10 * n + d) 0)

/-- Reads digits, after at most one plus sign, as a number that fits `bits` bits. -/
def readNat? (bits : Nat) (s : String) : Option Nat :=
  let digits := match s.toList with
    | '+' :: cs => cs
    | cs => cs
  (digitsValue? digits).filter (· < Nat.pow 2 bits)

end LiteralFill.Text
