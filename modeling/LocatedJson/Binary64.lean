/-! Correct rounding of decimal numbers to binary64, in exact arithmetic. Magnitudes are
measured in units of `2^-1074`, the distance of neighbouring subnormals, so that the bit
patterns `0 … 2^53` stand for themselves and each further block of `2^52` patterns is spaced
twice as wide as the one before. -/
namespace LocatedJson

structure Binary64 where
  bits : BitVec 64
  deriving DecidableEq, Repr

namespace Binary64

def infinityPattern : Nat := 0x7ff * Nat.pow 2 52

def ofPattern (negative : Bool) (pattern : Nat) : Binary64 :=
  ⟨BitVec.ofNat 64 ((if negative then Nat.pow 2 63 else 0) + pattern)⟩

def infinity (negative : Bool) : Binary64 := ofPattern negative infinityPattern

def nan : Binary64 := ⟨0x7ff8000000000000⟩

def isNan (x : Binary64) : Bool := infinityPattern < x.bits.toNat % Nat.pow 2 63

def roundHalfEven (n d : Nat) : Nat :=
  let q := n / d
  if 2 * (n % d) < d then q
  else if d < 2 * (n % d) then q + 1
  else q + q % 2

/-- The pattern nearest to `n / d` units. The quotient's leading bit tells the spacing
`2^s`; rounding up out of a block lands on the first pattern of the next. -/
def nearestPattern (n d : Nat) : Nat :=
  let s := Nat.log2 (n / d) - 52
  min (s * Nat.pow 2 52 + roundHalfEven n (d * Nat.pow 2 s)) infinityPattern

/-- The pattern nearest to `m · 10^e`. Exponents that put the value beyond every finite
number or below half the least one are settled without forming the power. -/
def decimalPattern (m : Nat) (e : Int) : Nat :=
  if m = 0 then 0
  else if 310 ≤ e then infinityPattern
  else if (Nat.log2 m : Int) + 1 + 3 * e ≤ -1075 then 0
  else if 0 ≤ e then nearestPattern (m * Nat.pow 10 e.toNat * Nat.pow 2 1074) 1
  else nearestPattern (m * Nat.pow 2 1074) (Nat.pow 10 (-e).toNat)

def ofDecimal (negative : Bool) (m : Nat) (e : Int) : Binary64 :=
  ofPattern negative (decimalPattern m e)

end Binary64

end LocatedJson
