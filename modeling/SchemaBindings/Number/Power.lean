namespace SchemaBindings.Number

/-- The power of two with a natural exponent. -/
def twoPow (n : Nat) : Nat := Nat.pow 2 n

/-- The power of ten with a natural exponent. -/
def tenPow (n : Nat) : Nat := Nat.pow 10 n

end SchemaBindings.Number
