namespace PointerGuard

/-- The value of a digit string, `none` at the first character that is no ASCII digit. -/
def digitsFrom (value : Nat) : List Char → Option Nat
  | [] => some value
  | c :: cs => if c.isDigit then digitsFrom (10 * value + (c.toNat - '0'.toNat)) cs else none

def readNat? : List Char → Option Nat
  | [] => none
  | cs => digitsFrom 0 cs

def readInt? : List Char → Option Int
  | '-' :: cs => (readNat? cs).map fun n => -(n : Int)
  | '+' :: cs => (readNat? cs).map Int.ofNat
  | cs => (readNat? cs).map Int.ofNat

/-- The value of a signed decimal that fits in 32 bits. -/
def readInt32? (cs : List Char) : Option Int :=
  (readInt? cs).filter fun n => decide (-0x80000000 ≤ n ∧ n < 0x80000000)

end PointerGuard
