/-!
# Words

Ranges of whole numbers that words of a fixed number of bits can hold.
-/
namespace Egress

/-- How many values a word of the given number of bits has. -/
def wordCount (bits : Nat) : Nat := Nat.pow 2 bits

/-- True of the whole numbers that a word of 64 bits with a sign holds. -/
def fitsWord (n : Int) : Bool :=
  decide (-(wordCount 63 : Int) ≤ n ∧ n < (wordCount 63 : Int))

end Egress
