/-!
Binary floating-point numbers of 64 bits. Every finite one is a whole multiple of the least positive
one, so its magnitude is held exactly as that multiple. The only arithmetic is the rounding of an
exact quotient.
-/

namespace SmallLisp

/-- A floating-point number. A finite magnitude counts units of `2 ^ -1074`. -/
inductive Binary64
  | finite (negative : Bool) (units : Nat)
  | infinite (negative : Bool)
  | nan
  deriving DecidableEq

namespace Binary64

/-- Units in one. -/
def unitsPerOne : Nat := Nat.pow 2 1074

/-- The first magnitude that is out of range, in units. -/
def overflowUnits : Nat := Nat.pow 2 2098

/-- The exponent of the gap between neighbours at a magnitude: 53 significant bits, and no finer
than one unit. -/
def gapExponent (units : Nat) : Nat :=
  Nat.log2 units - 52

/-- A quotient to the nearest whole number, a half to the even one. -/
def roundQuotient (numerator denominator : Nat) : Nat :=
  let quotient := numerator / denominator
  let twice := 2 * (numerator % denominator)
  if twice < denominator then quotient
  else if denominator < twice then quotient + 1
  else if quotient % 2 = 0 then quotient
  else quotient + 1

/-- The floating-point number nearest to a quotient. -/
def ofQuotient (negative : Bool) (numerator denominator : Nat) : Binary64 :=
  let scaled := numerator * unitsPerOne
  let gap := Nat.pow 2 (gapExponent (scaled / denominator))
  let units := roundQuotient scaled (denominator * gap) * gap
  if units < overflowUnits then finite negative units else infinite negative

/-- The floating-point number nearest to `digits * 10 ^ exponent`. Exponents far out of range are
answered before any power is formed. -/
def ofDecimal (negative : Bool) (digits : Nat) (exponent : Int) : Binary64 :=
  if digits = 0 then finite negative 0
  else if 400 < exponent then infinite negative
  else if exponent + (Nat.log2 digits / 3 + 1 : Nat) < -400 then finite negative 0
  else match exponent with
    | .ofNat places => ofQuotient negative (digits * Nat.pow 10 places) 1
    | .negSucc places => ofQuotient negative digits (Nat.pow 10 (places + 1))

end Binary64

end SmallLisp
