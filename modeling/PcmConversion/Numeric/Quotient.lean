/-!
# Rounded quotients of natural numbers

Four ways to turn the fraction `n / d` into an integer.  They are the only places where this library
rounds: floating-point results, quantised samples and frame counts all come down to one of them.
Rounding to even does not move a fraction that is whole already (`divEven_mul_right`).
-/

namespace PcmConversion

/-- The integer nearest to `n / d`; of two that are equally near, the even one. -/
def divEven (n d : Nat) : Nat :=
  let q := n / d
  let r := n % d
  if 2 * r < d then q else if d < 2 * r then q + 1 else q + q % 2

/-- The integer nearest to `n / d`; of two that are equally near, the larger one. -/
def divHalfUp (n d : Nat) : Nat :=
  (2 * n + d) / (2 * d)

/-- The least integer that is not below `n / d`. -/
def divCeil (n d : Nat) : Nat :=
  (n + d - 1) / d

/-- The greatest integer that is not above `n / d`. -/
def divFloor (n d : Nat) : Nat :=
  n / d

theorem divEven_mul_right (q : Nat) {d : Nat} (hd : 0 < d) : divEven (q * d) d = q := by
  simp [divEven, Nat.mul_div_cancel q hd, hd]

end PcmConversion
